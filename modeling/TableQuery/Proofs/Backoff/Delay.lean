/- Delays of a doubling policy.

   The delay of an attempt is its base doubled once for each attempt before it, or the maximum where that is
   less. Doubling is exact, so the delay is the real number that the settings say, for every attempt whose power
   of two has a binary form; the power of any later attempt is too large. -/

import TableQuery.Backoff.Policy
import TableQuery.Proofs.Number.Exactness
import TableQuery.Proofs.Outcomes

set_option autoImplicit false
set_option relaxedAutoImplicit false

namespace TableQuery

theorem Number.toNumber_toValue (x : Number) : x.toValue.toNumber = .ok x := by
  cases x <;> rfl

namespace Policy

def attemptFor (ceiling : Option ℤ) (attempt : ℤ) : ℤ := ceiling.elim id min (max attempt 1)

/-- The policy waits for so long after an attempt. -/
def Waits (policy : Policy) (attempt : ℤ) (seconds : ℚ) : Prop :=
  ∃ delay, policy.delay (.int attempt) = .ok delay ∧ delay.value? = some seconds

theorem setting_eq_ok {given : Value} {x least made : Number} {why : Refusal} (number : given.toNumber = .ok x) :
    setting given least why = .ok made ↔ made = x ∧ x.below least = .ok false := by
  rw [setting, number]
  change (x.below least >>= fun low => _) = _ ↔ _
  rw [bind_eq_ok]
  constructor
  · rintro ⟨low, compared, rest⟩
    cases low with
    | true => cases rest
    | false => exact ⟨(pure_eq_ok.mp rest).symm, compared⟩
  · rintro ⟨rfl, compared⟩
    exact ⟨false, compared, rfl⟩

private theorem ceilingOf_eq_ok {ceiling : Option ℤ} {made : Option Number} :
    ceilingOf (.ofInt? ceiling) = .ok made ↔ made = ceiling.map .int ∧ ∀ last ∈ ceiling, 1 ≤ last := by
  cases ceiling with
  | none =>
    change pure none = _ ↔ _
    rw [pure_eq_ok]
    exact ⟨fun same => ⟨same.symm, fun _ member => nomatch member⟩, fun same => same.1.symm⟩
  | some last =>
    have compared : Number.below (.int last) (.int 0) = .ok (decide (last < 0)) := rfl
    have number : (Value.int last).toNumber = .ok (.int last) := rfl
    change (setting (.int last) (.int 0) .ceilingNotPositive >>= fun x => _) = _ ↔ _
    simp only [bind_eq_ok, setting_eq_ok number, compared]
    constructor
    · rintro ⟨_, ⟨rfl, unsigned⟩, rest⟩
      rcases Decidable.em (last = 0) with rfl | nonzero
      · cases rest
      · have zero : (Number.int last).isZero = false := beq_eq_false_iff_ne.mpr nonzero
        rw [zero] at rest
        obtain rfl := pure_eq_ok.mp rest
        have low : ¬ last < 0 := by simpa using unsigned
        refine ⟨rfl, ?_⟩
        rintro _ ⟨⟩
        omega
    · rintro ⟨rfl, positive⟩
      have first := positive last rfl
      have zero : (Number.int last).isZero = false := beq_eq_false_iff_ne.mpr (by omega)
      refine ⟨.int last, ⟨rfl, congrArg _ (decide_eq_false (by omega))⟩, ?_⟩
      rw [zero]
      rfl

theorem makeExponential_eq_ok {base greatest : Number} {ceiling : Option ℤ} {policy : Policy} :
    makeExponential base.toValue greatest.toValue (.ofInt? ceiling) = .ok policy ↔
      policy = .exponential base greatest (ceiling.map .int) ∧ base.below (.int 0) = .ok false ∧
        greatest.below base = .ok false ∧ ∀ last ∈ ceiling, 1 ≤ last := by
  simp only [makeExponential, bind_eq_ok, setting_eq_ok (Number.toNumber_toValue _), ceilingOf_eq_ok, pure_eq_ok]
  constructor
  · rintro ⟨_, ⟨rfl, low⟩, _, ⟨rfl, high⟩, _, ⟨rfl, positive⟩, rfl⟩
    exact ⟨rfl, low, high, positive⟩
  · rintro ⟨rfl, low, high, positive⟩
    exact ⟨base, ⟨rfl, low⟩, greatest, ⟨rfl, high⟩, _, ⟨rfl, positive⟩, rfl⟩

private theorem counted_eq (ceiling : Option ℤ) (attempt : ℤ) :
    counted (ceiling.map .int) (.int attempt) = .ok (.int (attemptFor ceiling attempt)) := by
  have compared (m n : ℤ) : Number.below (.int m) (.int n) = .ok (decide (m < n)) := rfl
  have first : (if decide (attempt < 1) then Number.int 1 else .int attempt) = .int (max attempt 1) := by
    split
    next early => rw [max_eq_right (of_decide_eq_true early).le]
    next late => rw [max_eq_left (not_lt.mp fun early => late (decide_eq_true early))]
  cases ceiling with
  | none =>
    simp only [counted, compared, bind, Except.bind, first, pure, Except.pure, Option.map_none]
    rfl
  | some last =>
    simp only [counted, compared, bind, Except.bind, first, pure, Except.pure, Option.map_some]
    split
    next late => rw [attemptFor, Option.elim_some, min_eq_left (of_decide_eq_true late).le]
    next early =>
      rw [attemptFor, Option.elim_some, min_eq_right (not_lt.mp fun late => early (decide_eq_true late))]

private theorem one_le_attemptFor {ceiling : Option ℤ} (positive : ∀ last ∈ ceiling, 1 ≤ last) (attempt : ℤ) :
    1 ≤ attemptFor ceiling attempt := by
  cases ceiling with
  | none => exact le_max_right attempt 1
  | some last => exact le_min (positive last rfl) (le_max_right attempt 1)

private theorem attemptFor_mono (ceiling : Option ℤ) {earlier later : ℤ} (le : earlier ≤ later) :
    attemptFor ceiling earlier ≤ attemptFor ceiling later := by
  have counted : max earlier 1 ≤ max later 1 := max_le_max_right 1 le
  cases ceiling with
  | none => exact counted
  | some last => exact min_le_min_left last counted

section

variable {base greatest : Number} {ceiling : Option ℤ} {x : Binary64} {b g : ℚ}

theorem delay_eq_tooLarge {attempt : ℤ} (late : 1024 < attemptFor ceiling attempt) :
    (exponential base greatest (ceiling.map .int)).delay (.int attempt) = .error .tooLarge := by
  have large : Growth.greatestDoublings < (attemptFor ceiling attempt - 1).toNat := by
    rw [Growth.greatestDoublings]
    omega
  have growth : Growth.ofAttempt (.int (attemptFor ceiling attempt)) = .error .tooLarge := by
    rw [Growth.ofAttempt, Growth.doubling, if_pos large]
  change (counted (ceiling.map .int) (.int attempt) >>= fun attempt => _) = _
  rw [counted_eq]
  change (Growth.ofAttempt (.int (attemptFor ceiling attempt)) >>= fun growth => _) = _
  rw [growth]
  rfl

private theorem delay_eq_doubled (converted : base.toBinary64 = .ok x) {attempt : ℤ}
    (early : attemptFor ceiling attempt ≤ 1024) :
    (exponential base greatest (ceiling.map .int)).delay (.int attempt) =
      (greatest.below (.float (x.doubled (attemptFor ceiling attempt - 1).toNat))).map fun capped =>
        if capped then greatest else .float (x.doubled (attemptFor ceiling attempt - 1).toNat) := by
  have moderate : ¬ Growth.greatestDoublings < (attemptFor ceiling attempt - 1).toNat := by
    rw [Growth.greatestDoublings]
    omega
  have growth : Growth.ofAttempt (.int (attemptFor ceiling attempt)) =
      .ok (.doubled (attemptFor ceiling attempt - 1).toNat) := by
    rw [Growth.ofAttempt, Growth.doubling, if_neg moderate]
  change (counted (ceiling.map .int) (.int attempt) >>= fun attempt => _) = _
  rw [counted_eq]
  change (Growth.ofAttempt (.int (attemptFor ceiling attempt)) >>= fun growth => _) = _
  rw [growth, converted]
  change (greatest.below (.float (x.doubled _)) >>= fun capped => _) = _
  cases greatest.below (.float (x.doubled (attemptFor ceiling attempt - 1).toNat)) with
  | error fault => rfl
  | ok capped => cases capped <;> rfl

/-- The delay of an attempt is the exact real number, up to the maximum. -/
theorem waits_min (converted : base.toBinary64 = .ok x) (start : x.value? = some b) (unsigned : 0 ≤ b)
    (most : greatest.value? = some g) (moderate : g < Binary64.bound) (positive : ∀ last ∈ ceiling, 1 ≤ last)
    {attempt : ℤ} (early : attemptFor ceiling attempt ≤ 1024) :
    (exponential base greatest (ceiling.map .int)).Waits attempt
      (min g (b * 2 ^ (attemptFor ceiling attempt - 1))) := by
  have first := one_le_attemptFor positive attempt
  obtain ⟨times, ht⟩ := Int.eq_ofNat_of_zero_le (show 0 ≤ attemptFor ceiling attempt - 1 by omega)
  rw [Waits, delay_eq_doubled converted early, ht]
  simp only [Int.toNat_natCast, zpow_natCast]
  rcases Binary64.value_doubled start unsigned times with finite | ⟨beyond, infinite⟩
  · rw [Number.below_eq most (y := .float (x.doubled times)) finite]
    rcases lt_or_ge g (b * 2 ^ times) with less | enough
    · refine ⟨greatest, ?_, most.trans ?_⟩
      · rw [decide_eq_true less]
        rfl
      · rw [min_eq_left less.le]
    · refine ⟨.float (x.doubled times), ?_, finite.trans ?_⟩
      · rw [decide_eq_false (not_lt.mpr enough)]
        rfl
      · rw [min_eq_right enough]
  · rw [infinite, Number.below_infinity most]
    refine ⟨greatest, rfl, most.trans ?_⟩
    rw [min_eq_left (moderate.le.trans beyond)]

end

private theorem Waits.unique {policy : Policy} {attempt : ℤ} {v w : ℚ} (hv : policy.Waits attempt v)
    (hw : policy.Waits attempt w) : v = w := by
  obtain ⟨delay, given, rfl_v⟩ := hv
  obtain ⟨delay', given', rfl_w⟩ := hw
  obtain rfl := Except.ok.inj (given.symm.trans given')
  exact Option.some.inj (rfl_v.symm.trans rfl_w)

/-- **Delays double up to the maximum.** Where the settings are accepted and finite, the delay of an attempt is
exactly the lesser of the maximum and of the base times two to the power of the attempt less one. The base is
taken as a floating-point number, and the attempt is at least the first and none after the ceiling. It must be
among the first 1024, as the power of two of any later one is too large and a fault. So no delay is above the
maximum, and none is below that of an earlier attempt. -/
theorem delays_double_up_to_greatest {base greatest : Number} {ceiling : Option ℤ} {policy : Policy}
    {x : Binary64} {b g : ℚ}
    (made : makeExponential base.toValue greatest.toValue (.ofInt? ceiling) = .ok policy)
    (converted : base.toBinary64 = .ok x) (start : x.value? = some b) (most : greatest.value? = some g)
    (moderate : g < Binary64.bound) :
    (∀ attempt, attemptFor ceiling attempt ≤ 1024 →
      policy.Waits attempt (min g (b * 2 ^ (attemptFor ceiling attempt - 1)))) ∧
    (∀ attempt, 1024 < attemptFor ceiling attempt → policy.delay (.int attempt) = .error .tooLarge) ∧
    ∀ earlier later v w, earlier ≤ later → policy.Waits earlier v → policy.Waits later w → v ≤ w ∧ w ≤ g := by
  obtain ⟨rfl, low, -, positive⟩ := makeExponential_eq_ok.mp made
  have unsigned := Number.toBinary64_nonneg low converted start
  have exact {attempt : ℤ} (early : attemptFor ceiling attempt ≤ 1024) :
      (exponential base greatest (ceiling.map .int)).Waits attempt
        (min g (b * 2 ^ (attemptFor ceiling attempt - 1))) :=
    waits_min converted start unsigned most moderate positive early
  -- An attempt after which there is a time to wait is among the first 1024.
  have early {attempt : ℤ} {v : ℚ} (waits : (exponential base greatest (ceiling.map .int)).Waits attempt v) :
      attemptFor ceiling attempt ≤ 1024 := by
    by_contra late
    obtain ⟨delay, given, -⟩ := waits
    cases (delay_eq_tooLarge (not_le.mp late)).symm.trans given
  refine ⟨fun attempt => exact, fun attempt => delay_eq_tooLarge, ?_⟩
  intro earlier later v w le hv hw
  obtain rfl := hv.unique (exact (early hv))
  obtain rfl := hw.unique (exact (early hw))
  have order : attemptFor ceiling earlier - 1 ≤ attemptFor ceiling later - 1 :=
    Int.sub_le_sub_right (attemptFor_mono ceiling le) 1
  have grown : b * 2 ^ (attemptFor ceiling earlier - 1) ≤ b * 2 ^ (attemptFor ceiling later - 1) :=
    mul_le_mul_of_nonneg_left (zpow_le_zpow_right₀ (by norm_num) order) unsigned
  exact ⟨min_le_min_left g grown, min_le_left ..⟩

theorem delays_double_up_to_greatest_of_usual :
    usual.Waits 2 (7205759403792794 * 2 ^ (-56 : ℤ)) ∧ usual.Waits 6 1 ∧
      usual.delay (.int 5000) = .error .tooLarge := by
  have base : usualBase = .finite false 7205759403792794 (-57) (by decide) := by decide +kernel
  have greatest : usualGreatest = .finite false 4503599627370496 (-52) (by decide) := by decide +kernel
  have start : usualBase.value? = some (7205759403792794 * 2 ^ (-57 : ℤ)) := by
    rw [base]
    rfl
  have most : usualGreatest.value? = some 1 := by
    rw [greatest, Binary64.value?, signed]
    norm_num
  have made : makeExponential (Number.float usualBase).toValue (Number.float usualGreatest).toValue
      (.ofInt? none) = .ok usual := by
    refine makeExponential_eq_ok.mpr ⟨rfl, ?_, ?_, by rintro _ ⟨⟩⟩
    · rw [Number.below_eq (x := .float usualBase) start rfl]
      norm_num
    · rw [Number.below_eq (x := .float usualGreatest) most (y := .float usualBase) start]
      norm_num
  obtain ⟨exact, late, -⟩ :=
    delays_double_up_to_greatest made rfl start most (Binary64.value_lt most)
  refine ⟨?_, ?_, late 5000 (by decide)⟩
  · have second := exact 2 (by decide)
    norm_num [attemptFor] at second ⊢
    exact second
  · have sixth := exact 6 (by decide)
    norm_num [attemptFor] at sixth
    exact sixth

/-- The usual policy has no delay for the attempt after the 1024th, though its maximum is one second. -/
theorem usual_delay_tooLarge : usual.delay (.int 1025) = .error .tooLarge := by
  rfl

end Policy

end TableQuery
