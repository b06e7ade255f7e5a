/- The exact values of numbers.

   A finite number of any kind has a rational value, and numbers of any kinds are compared by these values.
   Neither the exact decimal form of a binary number nor its doubling changes the value, as long as the result
   is in the range of the binary numbers. -/

import Mathlib.Algebra.Order.Field.Power
import Mathlib.Tactic.FieldSimp
import Mathlib.Tactic.Positivity
import Mathlib.Tactic.Linarith
import Mathlib.Tactic.NormNum
import Mathlib.Tactic.Ring
import Mathlib.Data.Rat.Cast.Order
import TableQuery.Number.Power
import TableQuery.Value.Conversion

set_option autoImplicit false
set_option relaxedAutoImplicit false

namespace TableQuery

def signed (negative : Bool) (magnitude : ℚ) : ℚ := if negative then -magnitude else magnitude

def Numeral.value (n : Numeral) : ℚ := signed n.negative (n.coefficient * 10 ^ n.exponent)

def Decimal.value? : Decimal → Option ℚ
  | .finite negative coefficient exponent => some (signed negative (coefficient * 10 ^ exponent))
  | _ => none

def Binary64.value? : Binary64 → Option ℚ
  | .finite negative mantissa exponent _ => some (signed negative (mantissa * 2 ^ exponent))
  | _ => none

def Number.value? : Number → Option ℚ
  | .bool b => some (if b then 1 else 0)
  | .int n => some n
  | .float x => x.value?
  | .decimal x => x.value?

section Digits

private theorem lt_pow_digitCount (n : Nat) : n < 10 ^ digitCount n :=
  (Nat.length_toDigits_le_iff (by decide) Nat.length_toDigits_pos).mp (Nat.le_refl _)

theorem lt_digitCount {k n : Nat} (h : 10 ^ k ≤ n) : k < digitCount n :=
  (Nat.pow_lt_pow_iff_right (by decide)).mp (Nat.lt_of_le_of_lt h (lt_pow_digitCount n))

private theorem pow_digitCount_le {n : Nat} (h : n ≠ 0) : 10 ^ (digitCount n - 1) ≤ n := by
  by_contra below
  have positive : 0 < digitCount n := Nat.length_toDigits_pos
  have several : 0 < digitCount n - 1 := by
    refine Nat.pos_of_ne_zero fun single => below ?_
    rw [single, pow_zero]
    exact Nat.one_le_iff_ne_zero.mpr h
  have fewer : digitCount n ≤ digitCount n - 1 :=
    (Nat.length_toDigits_le_iff (by decide) several).mpr (Nat.not_le.mp below)
  omega

end Digits

section Scaling

private theorem natCast_mul_zpow {b : Nat} (hb : 0 < b) (c : Nat) {e base : ℤ} (le : base ≤ e) :
    (c : ℚ) * (b : ℚ) ^ e = ((c * b ^ (e - base).toNat : Nat) : ℚ) * (b : ℚ) ^ base := by
  have nonzero : (b : ℚ) ≠ 0 := Nat.cast_ne_zero.mpr (Nat.ne_of_gt hb)
  have split : e = ((e - base).toNat : ℤ) + base := by omega
  conv_lhs => rw [split, zpow_add₀ nonzero, zpow_natCast]
  push_cast
  ring

private theorem mul_zpow_lt_iff {b : Nat} (hb : 0 < b) (c₁ c₂ : Nat) {e₁ e₂ base : ℤ} (le₁ : base ≤ e₁)
    (le₂ : base ≤ e₂) :
    (c₁ : ℚ) * (b : ℚ) ^ e₁ < c₂ * (b : ℚ) ^ e₂ ↔
      c₁ * b ^ (e₁ - base).toNat < c₂ * b ^ (e₂ - base).toNat := by
  have positive : (0 : ℚ) < (b : ℚ) ^ base := zpow_pos (Nat.cast_pos.mpr hb) base
  rw [natCast_mul_zpow hb c₁ le₁, natCast_mul_zpow hb c₂ le₂, mul_lt_mul_iff_left₀ positive, Nat.cast_lt]

end Scaling

namespace Decimal

private theorem mul_zpow_lt_of_place {c₁ c₂ : Nat} (h : c₂ ≠ 0) {e₁ e₂ : ℤ}
    (earlier : e₁ + digitCount c₁ < e₂ + digitCount c₂) : (c₁ : ℚ) * 10 ^ e₁ < c₂ * 10 ^ e₂ := by
  have positive : 0 < digitCount c₂ := Nat.length_toDigits_pos
  have upper : (c₁ : ℚ) < 10 ^ (digitCount c₁ : ℤ) := by
    rw [zpow_natCast]
    exact_mod_cast lt_pow_digitCount c₁
  have lower : (10 : ℚ) ^ ((digitCount c₂ : ℤ) - 1) ≤ c₂ := by
    have cast : ((digitCount c₂ : ℤ) - 1) = ((digitCount c₂ - 1 : Nat) : ℤ) := by omega
    rw [cast, zpow_natCast]
    exact_mod_cast pow_digitCount_le h
  calc (c₁ : ℚ) * 10 ^ e₁ < 10 ^ (digitCount c₁ : ℤ) * 10 ^ e₁ :=
        mul_lt_mul_of_pos_right upper (zpow_pos (by norm_num) e₁)
    _ = 10 ^ (digitCount c₁ + e₁) := (zpow_add₀ (by norm_num) _ _).symm
    _ ≤ 10 ^ ((digitCount c₂ : ℤ) - 1 + e₂) := zpow_le_zpow_right₀ (by norm_num) (by omega)
    _ = 10 ^ ((digitCount c₂ : ℤ) - 1) * 10 ^ e₂ := zpow_add₀ (by norm_num) _ _
    _ ≤ c₂ * 10 ^ e₂ := mul_le_mul_of_nonneg_right lower (zpow_pos (by norm_num) e₂).le

end Decimal

section Signs

@[simp]
private theorem signed_zero (negative : Bool) : signed negative 0 = 0 := by
  cases negative <;> simp [signed]

private theorem signed_mul (negative : Bool) (m r : ℚ) : signed negative (m * r) = signed negative m * r := by
  cases negative
  · rfl
  · exact (neg_mul m r).symm

private theorem signed_lt_signed {n₁ n₂ : Bool} {x y : ℚ} (hx : 0 ≤ x) (hy : 0 ≤ y) :
    signed n₁ x < signed n₂ y ↔
      match n₁ && decide (x ≠ 0), n₂ && decide (y ≠ 0) with
      | false, false => x < y
      | true, true => y < x
      | true, false => True
      | false, true => False := by
  rcases hx.eq_or_lt with rfl | hx
  · rcases hy.eq_or_lt with rfl | hy
    · simp
    · cases n₂ with
      | false => simp [signed, hy]
      | true => simp [signed, hy.ne', hy.le]
  · rcases hy.eq_or_lt with rfl | hy
    · cases n₁ with
      | false => simp [signed]
      | true => simp [signed, hx.ne', hx]
    · have apart : -x < y := (neg_lt_zero.mpr hx).trans hy
      have apart' : -y < x := (neg_lt_zero.mpr hy).trans hx
      cases n₁ <;> cases n₂ <;> simp [signed, hx.ne', hy.ne', apart, apart'.le]

end Signs

namespace Decimal

/-- Whether the first of two magnitudes is less: by the places of their first digits, or else by all digits. -/
def magnitudeLess (c₁ : Nat) (e₁ : ℤ) (c₂ : Nat) (e₂ : ℤ) : Bool :=
  if c₁ = 0 then c₂ != 0
  else if c₂ = 0 then false
  else if e₁ + digitCount c₁ = e₂ + digitCount c₂ then
    decide (c₁ * Nat.pow 10 (e₁ - min e₁ e₂).toNat < c₂ * Nat.pow 10 (e₂ - min e₁ e₂).toNat)
  else decide (e₁ + digitCount c₁ < e₂ + digitCount c₂)

private theorem finiteLess_eq (n₁ : Bool) (c₁ : Nat) (e₁ : ℤ) (n₂ : Bool) (c₂ : Nat) (e₂ : ℤ) :
    finiteLess n₁ c₁ e₁ n₂ c₂ e₂ =
      match n₁ && c₁ != 0, n₂ && c₂ != 0 with
      | false, false => magnitudeLess c₁ e₁ c₂ e₂
      | true, true => magnitudeLess c₂ e₂ c₁ e₁
      | true, false => true
      | false, true => false := by
  unfold finiteLess
  split <;> simp only [magnitudeLess, min_comm e₂ e₁, *]

private theorem magnitudeLess_iff (c₁ : Nat) (e₁ : ℤ) (c₂ : Nat) (e₂ : ℤ) :
    magnitudeLess c₁ e₁ c₂ e₂ = true ↔ (c₁ : ℚ) * 10 ^ e₁ < c₂ * 10 ^ e₂ := by
  have power (e : ℤ) : (0 : ℚ) < 10 ^ e := zpow_pos (by norm_num) e
  unfold magnitudeLess
  split
  next zero =>
    rw [zero, bne_iff_ne, Nat.cast_zero, zero_mul, mul_pos_iff_of_pos_right (power e₂), Nat.cast_pos,
      Nat.pos_iff_ne_zero]
  next nonzero =>
    split
    next zero =>
      rw [zero, Nat.cast_zero, zero_mul]
      exact iff_of_false Bool.false_ne_true
        (not_lt_of_ge (mul_nonneg (Nat.cast_nonneg c₁) (power e₁).le))
    next nonzero' =>
      split
      next =>
        rw [decide_eq_true_iff]
        exact (mul_zpow_lt_iff (by decide) c₁ c₂ (min_le_left e₁ e₂) (min_le_right e₁ e₂)).symm
      next places =>
        rw [decide_eq_true_iff]
        constructor
        · exact mul_zpow_lt_of_place nonzero'
        · intro less
          by_contra later
          exact lt_asymm less (mul_zpow_lt_of_place nonzero (by omega))

private theorem finiteLess_iff (n₁ : Bool) (c₁ : Nat) (e₁ : ℤ) (n₂ : Bool) (c₂ : Nat) (e₂ : ℤ) :
    finiteLess n₁ c₁ e₁ n₂ c₂ e₂ = true ↔
      signed n₁ (c₁ * 10 ^ e₁) < signed n₂ (c₂ * 10 ^ e₂) := by
  have power (e : ℤ) : (0 : ℚ) < 10 ^ e := zpow_pos (by norm_num) e
  have nonzero (c : Nat) (e : ℤ) : decide ((c : ℚ) * 10 ^ e ≠ 0) = (c != 0) := by
    simp [bne, beq_eq_decide, (power e).ne']
  rw [finiteLess_eq, signed_lt_signed (by positivity) (by positivity), nonzero, nonzero]
  split <;> simp only [magnitudeLess_iff, Bool.false_eq_true]

private theorem less_iff {x y : Decimal} {v w : ℚ} (hx : x.value? = some v) (hy : y.value? = some w) :
    x.less y = true ↔ v < w := by
  cases x with
  | finite n₁ c₁ e₁ =>
    cases y with
    | finite n₂ c₂ e₂ =>
      obtain rfl := Option.some.inj hx
      obtain rfl := Option.some.inj hy
      exact finiteLess_iff n₁ c₁ e₁ n₂ c₂ e₂
    | _ => cases hy
  | _ => cases hx

theorem value_ofInt (n : ℤ) : (ofInt n).value? = some (n : ℚ) := by
  rw [ofInt, value?, zpow_zero, mul_one, signed]
  split
  next negative =>
    rw [Nat.cast_natAbs, abs_of_neg (of_decide_eq_true negative), Int.cast_neg, neg_neg]
  next positive =>
    rw [Nat.cast_natAbs, abs_of_nonneg (Int.not_lt.mp (positive ∘ decide_eq_true))]

end Decimal

namespace Binary64

private theorem units_of_value {x : Binary64} {v : ℚ} (h : x.value? = some v) :
    ∃ units : ℤ, x.units? = some units ∧ v = units * 2 ^ (-1074 : ℤ) := by
  cases x with
  | finite negative mantissa exponent form =>
    obtain rfl := Option.some.inj h
    refine ⟨_, rfl, ?_⟩
    have scaled := natCast_mul_zpow (b := 2) (by decide) mantissa form.2.1
    rw [sub_neg_eq_add, Nat.cast_ofNat] at scaled
    rw [scaled, signed_mul]
    cases negative
    · rfl
    · simp [signed]
  | _ => cases h

private theorem less_iff {x y : Binary64} {v w : ℚ} (hx : x.value? = some v) (hy : y.value? = some w) :
    x.less y = true ↔ v < w := by
  obtain ⟨a, ha, rfl⟩ := units_of_value hx
  obtain ⟨b, hb, rfl⟩ := units_of_value hy
  have unit : (0 : ℚ) < 2 ^ (-1074 : ℤ) := zpow_pos (by norm_num) _
  cases x with
  | finite =>
    cases y with
    | finite =>
      rw [less, ha, hb, mul_lt_mul_iff_left₀ unit, Int.cast_lt]
      exact decide_eq_true_iff
    | _ => cases hy
  | _ => cases hx

private theorem halved_value (mantissa power : Nat) :
    ((halved mantissa power).1 : ℚ) * 2 ^ (-((halved mantissa power).2 : ℤ)) =
      mantissa * 2 ^ (-(power : ℤ)) := by
  induction power generalizing mantissa with
  | zero => rfl
  | succ power ih =>
    rw [halved]
    split
    next even =>
      obtain ⟨half, rfl⟩ := Nat.dvd_of_mod_eq_zero even
      rw [Nat.mul_div_cancel_left half (by decide), ih, Nat.cast_succ, neg_add,
        zpow_add₀ (by norm_num : (2 : ℚ) ≠ 0), zpow_neg_one, Nat.cast_mul]
      field_simp
      norm_num
    next => rfl

private theorem five_pow_mul_zpow (power : Nat) :
    ((Nat.pow 5 power : Nat) : ℚ) * 10 ^ (-(power : ℤ)) = 2 ^ (-(power : ℤ)) := by
  rw [Nat.pow_eq, Nat.cast_pow, Nat.cast_ofNat, zpow_neg, zpow_neg, zpow_natCast, zpow_natCast,
    show (10 : ℚ) = 5 * 2 by norm_num, mul_pow]
  field_simp

/-- The decimal form of a finite binary number has the value of the number. -/
private theorem value_exact (x : Binary64) : x.exact.value? = x.value? := by
  cases x with
  | finite negative mantissa exponent form =>
    rw [exact, value?]
    split
    next zero => simp [Decimal.value?, zero]
    next nonzero =>
      split
      next whole =>
        obtain ⟨n, rfl⟩ := Int.eq_ofNat_of_zero_le whole
        simp [Decimal.value?]
      next fraction =>
        obtain ⟨n, negated⟩ := Int.eq_ofNat_of_zero_le (show 0 ≤ -exponent by omega)
        have kept := halved_value mantissa n
        rw [← negated, neg_neg] at kept
        simp only [negated, Int.toNat_natCast, Decimal.value?, Nat.cast_mul, mul_assoc, five_pow_mul_zpow,
          kept]
  | infinity => rfl
  | nan => rfl

end Binary64

namespace Number

private theorem value_exact (x : Number) : x.exact.value? = x.value? := by
  cases x with
  | bool b => cases b <;> exact Decimal.value_ofInt _
  | int n => exact Decimal.value_ofInt n
  | float x => exact Binary64.value_exact x
  | decimal x => rfl

private theorem isNan_exact {x : Number} {v : ℚ} (h : x.value? = some v) : x.exact.isNan = false := by
  rw [← value_exact] at h
  cases form : x.exact with
  | nan => rw [form] at h; cases h
  | _ => rfl

private theorem lessExact_eq {x y : Number} {v w : ℚ} (hx : x.value? = some v) (hy : y.value? = some w) :
    lessExact x y = .ok (decide (v < w)) := by
  rw [lessExact, isNan_exact hx, isNan_exact hy, Bool.or_self, Bool.and_false]
  rw [← value_exact] at hx hy
  exact congrArg Except.ok (Bool.eq_iff_iff.mpr ((Decimal.less_iff hx hy).trans decide_eq_true_iff.symm))

theorem below_eq {x y : Number} {v w : ℚ} (hx : x.value? = some v) (hy : y.value? = some w) :
    x.below y = .ok (decide (v < w)) := by
  suffices less : x.less y = .ok (decide (v < w)) by rw [below, less]; rfl
  unfold less
  split
  next a b =>
    obtain rfl := Option.some.inj hx
    obtain rfl := Option.some.inj hy
    simp
  next x y =>
    exact congrArg Except.ok (Bool.eq_iff_iff.mpr ((Binary64.less_iff hx hy).trans decide_eq_true_iff.symm))
  next => exact lessExact_eq hx hy

theorem below_infinity {x : Number} {v : ℚ} (h : x.value? = some v) :
    x.below (.float (.infinity false)) = .ok true := by
  suffices less : x.less (.float (.infinity false)) = .ok true by rw [below, less]; rfl
  have exact : lessExact x (.float (.infinity false)) = .ok true := by
    rw [lessExact, isNan_exact h, Bool.false_or]
    rw [← value_exact] at h
    cases form : x.exact with
    | finite => simp [Number.exact, Binary64.exact, Decimal.isNan, Decimal.less]
    | _ => rw [form] at h; cases h
  cases x with
  | float x =>
    cases x with
    | finite => rfl
    | _ => cases h
  | _ => exact exact

end Number

namespace Binary64

/-- The least power of two that no finite binary number reaches. -/
def bound : ℚ := 2 ^ (1024 : ℤ)

private theorem mul_zpow_lt_bound {mantissa : Nat} {exponent : ℤ} (full : mantissa < 2 ^ 53) (high : exponent ≤ 971) :
    (mantissa : ℚ) * 2 ^ exponent < bound := by
  have upper : (mantissa : ℚ) < 2 ^ (53 : ℤ) := by exact_mod_cast full
  calc (mantissa : ℚ) * 2 ^ exponent
      < 2 ^ (53 : ℤ) * 2 ^ exponent := mul_lt_mul_of_pos_right upper (zpow_pos (by norm_num) _)
    _ = 2 ^ (53 + exponent) := (zpow_add₀ (by norm_num) _ _).symm
    _ ≤ bound := zpow_le_zpow_right₀ (by norm_num) (by omega)

private theorem bound_le_mul_zpow {mantissa : Nat} {exponent : ℤ} (full : 2 ^ 52 ≤ mantissa) (high : 971 < exponent) :
    bound ≤ (mantissa : ℚ) * 2 ^ exponent := by
  have lower : (2 : ℚ) ^ (52 : ℤ) ≤ mantissa := by exact_mod_cast full
  calc bound
      ≤ 2 ^ (52 + exponent) := zpow_le_zpow_right₀ (by norm_num) (by omega)
    _ = 2 ^ (52 : ℤ) * 2 ^ exponent := zpow_add₀ (by norm_num) _ _
    _ ≤ mantissa * 2 ^ exponent := mul_le_mul_of_nonneg_right lower (zpow_pos (by norm_num) _).le

theorem value_lt {x : Binary64} {v : ℚ} (h : x.value? = some v) : v < bound := by
  cases x with
  | finite negative mantissa exponent form =>
    obtain rfl := Option.some.inj h
    have below := mul_zpow_lt_bound form.1 form.2.2.1
    have positive : (0 : ℚ) ≤ mantissa * 2 ^ exponent :=
      mul_nonneg (Nat.cast_nonneg mantissa) (zpow_pos (by norm_num) exponent).le
    cases negative with
    | false => exact below
    | true =>
      rw [signed, if_pos rfl]
      linarith
  | _ => cases h

private theorem lt_pow_bitCount (n : Nat) : n < 2 ^ bitCount n := by
  unfold bitCount
  split
  next zero => simp [zero]
  next => exact Nat.lt_log2_self

private theorem pow_bitCount_le {n : Nat} (h : n ≠ 0) : 2 ^ (bitCount n - 1) ≤ n := by
  rw [bitCount, if_neg h]
  exact Nat.log2_self_le h

private theorem bitCount_le {n places : Nat} (h : n < 2 ^ places) : bitCount n ≤ places := by
  by_contra more
  have nonzero : n ≠ 0 := by
    rintro rfl
    exact more (Nat.zero_le places)
  have wide : 2 ^ places ≤ 2 ^ (bitCount n - 1) := Nat.pow_le_pow_right (by decide) (by omega)
  exact absurd h (Nat.not_lt.mpr (wide.trans (pow_bitCount_le nonzero)))

private theorem isBinary64_filled {mantissa : Nat} {exponent : ℤ} (form : IsBinary64 mantissa exponent)
    (nonzero : mantissa ≠ 0) {times room : Nat} (fill : room = min times (53 - bitCount mantissa)) :
    IsBinary64 (mantissa * Nat.pow 2 room) (exponent + (times - room : Nat)) ∨
      2 ^ 52 ≤ mantissa * Nat.pow 2 room ∧ 971 < exponent + (times - room : Nat) := by
  obtain ⟨narrow, low, high, shape⟩ := form
  have few : bitCount mantissa ≤ 53 := bitCount_le narrow
  have positive : 0 < bitCount mantissa := by simp [bitCount, nonzero]
  have upper : mantissa * 2 ^ room < 2 ^ 53 := by
    calc mantissa * 2 ^ room
        < 2 ^ bitCount mantissa * 2 ^ room :=
          Nat.mul_lt_mul_of_pos_right (lt_pow_bitCount mantissa) (Nat.two_pow_pos room)
      _ = 2 ^ (bitCount mantissa + room) := (Nat.pow_add ..).symm
      _ ≤ 2 ^ 53 := Nat.pow_le_pow_right (by decide) (by omega)
  rcases Nat.le_total times (53 - bitCount mantissa) with roomy | full
  · -- The mantissa takes all doublings, and the exponent stays.
    obtain rfl : room = times := fill.trans (Nat.min_eq_left roomy)
    rw [Nat.sub_self, Int.natCast_zero, Int.add_zero]
    exact .inl ⟨upper, low, high, shape.imp_left fun h => h.trans (Nat.le_mul_of_pos_right _ (Nat.two_pow_pos _))⟩
  · -- The mantissa is full, and the exponent takes the rest.
    obtain rfl : room = 53 - bitCount mantissa := fill.trans (Nat.min_eq_right full)
    have lower : 2 ^ 52 ≤ mantissa * 2 ^ (53 - bitCount mantissa) := by
      calc 2 ^ 52 = 2 ^ (bitCount mantissa - 1) * 2 ^ (53 - bitCount mantissa) := by
            rw [← Nat.pow_add, show bitCount mantissa - 1 + (53 - bitCount mantissa) = 52 by omega]
        _ ≤ mantissa * 2 ^ (53 - bitCount mantissa) := Nat.mul_le_mul_right _ (pow_bitCount_le nonzero)
    rcases lt_or_ge 971 (exponent + (times - (53 - bitCount mantissa) : Nat)) with above | within
    · exact .inr ⟨lower, above⟩
    · exact .inl ⟨upper, by omega, within, .inl lower⟩

/-- A doubled number keeps its exact value, unless it gets beyond the finite numbers. -/
theorem value_doubled {x : Binary64} {v : ℚ} (h : x.value? = some v) (unsigned : 0 ≤ v) (times : Nat) :
    (x.doubled times).value? = some (v * 2 ^ times) ∨
      bound ≤ v * 2 ^ times ∧ x.doubled times = .infinity false := by
  cases x with
  | finite negative mantissa exponent form =>
    obtain rfl := Option.some.inj h
    rw [doubled]
    split
    next zero =>
      left
      rw [value?, zero, Nat.cast_zero, zero_mul, signed_zero, zero_mul]
    next nonzero =>
      have magnitude : (0 : ℚ) < mantissa * 2 ^ exponent :=
        mul_pos (Nat.cast_pos.mpr (Nat.pos_of_ne_zero nonzero)) (zpow_pos (by norm_num) exponent)
      obtain rfl : negative = false := by
        cases negative with
        | false => rfl
        | true => exact absurd unsigned (not_le_of_gt (neg_lt_zero.mpr magnitude))
      generalize fill : min times (53 - bitCount mantissa) = room
      have product : ((mantissa * Nat.pow 2 room : Nat) : ℚ) * 2 ^ (exponent + (times - room : Nat)) =
          mantissa * 2 ^ exponent * 2 ^ times := by
        rw [Nat.pow_eq, Nat.cast_mul, Nat.cast_pow, Nat.cast_ofNat, zpow_add₀ (by norm_num : (2 : ℚ) ≠ 0),
          zpow_natCast, ← pow_mul_pow_sub 2 (show room ≤ times by omega)]
        ring
      rcases isBinary64_filled form nonzero fill.symm with fits | ⟨full, high⟩
      · left
        rw [ofParts, dif_pos fits, value?, product]
        rfl
      · right
        have above := bound_le_mul_zpow full high
        rw [ofParts, dif_neg fun fits => absurd fits.2.2.1 (not_le_of_gt high)]
        exact ⟨above.trans_eq product, rfl⟩
  | _ => cases h

private theorem hasMinus_ofParts (negative : Bool) (mantissa : Nat) (exponent : ℤ) :
    (ofParts negative mantissa exponent).hasMinus = negative := by
  unfold ofParts
  split <;> rfl

private theorem hasMinus_ofQuotient (negative : Bool) (numerator denominator : Nat) :
    (ofQuotient negative numerator denominator).hasMinus = negative := by
  unfold ofQuotient
  split
  · rfl
  · dsimp only
    split <;> split <;> exact hasMinus_ofParts ..

private theorem hasMinus_ofDecimal (negative : Bool) (coefficient : Nat) (exponent : ℤ) :
    (ofDecimal negative coefficient exponent).hasMinus = negative := by
  unfold ofDecimal
  dsimp only
  split
  · rfl
  · split
    · rfl
    · split <;> exact hasMinus_ofQuotient ..

private theorem value_nonneg {x : Binary64} {v : ℚ} (unsigned : x.hasMinus = false) (h : x.value? = some v) :
    0 ≤ v := by
  cases x with
  | finite negative mantissa exponent form =>
    obtain rfl : negative = false := unsigned
    obtain rfl := Option.some.inj h
    exact mul_nonneg (Nat.cast_nonneg mantissa) (zpow_pos (by norm_num) exponent).le
  | _ => cases h

end Binary64

namespace Number

theorem toBinary64_nonneg {x : Number} {y : Binary64} {v : ℚ} (unsigned : x.below (.int 0) = .ok false)
    (converted : x.toBinary64 = .ok y) (h : y.value? = some v) : 0 ≤ v := by
  cases x with
  | bool b =>
    obtain rfl := Except.ok.inj converted
    exact Binary64.value_nonneg (Binary64.hasMinus_ofDecimal ..) h
  | int n =>
    rw [below_eq rfl rfl] at unsigned
    have whole : ¬ n < 0 := by simpa using unsigned
    rw [toBinary64, decide_eq_false whole] at converted
    split at converted
    · cases converted
    · obtain rfl := Except.ok.inj converted
      exact Binary64.value_nonneg (Binary64.hasMinus_ofDecimal ..) h
  | float x =>
    obtain rfl := Except.ok.inj converted
    rw [below_eq (x := .float x) h rfl] at unsigned
    simpa using unsigned
  | decimal x => cases converted

end Number

end TableQuery
