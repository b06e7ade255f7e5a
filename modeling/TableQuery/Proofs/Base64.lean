/- Base64: octets written in either alphabet read back, whatever their number.

   A quantum of three octets is four digits. The last one may be unfinished, and then the padding that the
   length of the text asks for finishes it. -/

import TableQuery.Base64

set_option autoImplicit false
set_option relaxedAutoImplicit false

namespace TableQuery

namespace Base64

private theorem group?_digit : ∀ g < 64, group? (.char (Alphabet.standard.digit g)) = some g := by decide

private theorem standard_digit : ∀ g < 64,
    (if CodePoint.char (Alphabet.urlSafe.digit g) = .char '-' then CodePoint.char '+'
      else if CodePoint.char (Alphabet.urlSafe.digit g) = .char '_' then .char '/'
      else .char (Alphabet.urlSafe.digit g)) = .char (Alphabet.standard.digit g) := by
  decide

private theorem digit_ne_pad : ∀ g < 64, CodePoint.char (Alphabet.standard.digit g) ≠ .char '=' := by
  decide

section Groups

variable (a b c : UInt8)

private theorem first_lt : a.toNat / 4 < 64 := by
  have := a.toNat_lt
  omega

private theorem second_lt : a.toNat % 4 * 16 + b.toNat / 16 < 64 := by
  have := b.toNat_lt
  omega

private theorem third_lt : b.toNat % 16 * 4 + c.toNat / 64 < 64 := by
  have := c.toNat_lt
  omega

private theorem fourth_lt : c.toNat % 64 < 64 := Nat.mod_lt _ (by decide)

private theorem second_of_one_lt : a.toNat % 4 * 16 < 64 := by omega

private theorem third_of_two_lt : b.toNat % 16 * 4 < 64 := by omega

end Groups

theorem forall_mem_encodeBare {alphabet : Alphabet} {p : CodePoint → Prop}
    (digits : ∀ g < 64, p (.char (alphabet.digit g))) (data : Octets) :
    ∀ c ∈ encodeBare alphabet data, p c := by
  fun_induction encodeBare alphabet data with
  | case1 => simp
  | case2 a =>
    simp only [List.forall_mem_cons, List.not_mem_nil, false_imp_iff, implies_true, and_true]
    exact ⟨digits _ (first_lt a), digits _ (second_of_one_lt a)⟩
  | case3 a b =>
    simp only [List.forall_mem_cons, List.not_mem_nil, false_imp_iff, implies_true, and_true]
    exact ⟨digits _ (first_lt a), digits _ (second_lt a b), digits _ (third_of_two_lt b)⟩
  | case4 a b c rest ih =>
    simp only [List.forall_mem_cons]
    exact ⟨digits _ (first_lt a), digits _ (second_lt a b), digits _ (third_lt b c),
      digits _ (fourth_lt c), ih⟩

theorem encodeBare_ne_nil {alphabet : Alphabet} {data : Octets} (h : data ≠ []) :
    encodeBare alphabet data ≠ [] := by
  fun_cases encodeBare alphabet data with
  | case1 => exact absurd rfl h
  | case2 => exact List.cons_ne_nil _ _
  | case3 => exact List.cons_ne_nil _ _
  | case4 => exact List.cons_ne_nil _ _

private theorem standardize_encodeBare (data : Octets) :
    standardize (encodeBare .urlSafe data) = encodeBare .standard data := by
  unfold standardize
  fun_induction encodeBare .standard data with
  | case1 => rfl
  | case2 a =>
    simp only [encodeBare, List.map_cons, List.map_nil, standard_digit _ (first_lt a),
      standard_digit _ (second_of_one_lt a)]
  | case3 a b =>
    simp only [encodeBare, List.map_cons, List.map_nil, standard_digit _ (first_lt a),
      standard_digit _ (second_lt a b), standard_digit _ (third_of_two_lt b)]
  | case4 a b c rest ih =>
    simp only [encodeBare, List.map_cons, standard_digit _ (first_lt a), standard_digit _ (second_lt a b),
      standard_digit _ (third_lt b c), standard_digit _ (fourth_lt c), ih]

private theorem standardize_padding (length : Nat) : standardize (padding length) = padding length := by
  rw [standardize, padding, List.map_replicate]
  rfl

private theorem padding_add_four (length : Nat) : padding (length + 4) = padding length := by
  rw [padding, Nat.add_mod_right, padding]

section Decoding

variable {g pads : Nat} {rest : Text}

private theorem decodeHolding_digit (digit : g < 64) {held : List Nat} (unfinished : held.length < 3) :
    decodeHolding held pads (.char (Alphabet.standard.digit g) :: rest) =
      decodeHolding (held ++ [g]) 0 rest := by
  rw [decodeHolding, if_neg (digit_ne_pad g digit), group?_digit g digit]
  match held, unfinished with
  | [], _ => rfl
  | [_], _ => rfl
  | [_, _], _ => rfl

private theorem decodeHolding_last (digit : g < 64) (x y z : Nat) :
    decodeHolding [x, y, z] pads (.char (Alphabet.standard.digit g) :: rest) =
      (decodeHolding [] 0 rest).map fun data =>
        UInt8.ofNat (x * 4 + y / 16) :: UInt8.ofNat (y % 16 * 16 + z / 4) ::
          UInt8.ofNat (z % 4 * 64 + g) :: data := by
  rw [decodeHolding, if_neg (digit_ne_pad g digit), group?_digit g digit]

end Decoding

private theorem ofNat_groups (a : UInt8) {n : Nat} (h : n = a.toNat) : UInt8.ofNat n = a := by
  rw [h, UInt8.ofNat_toNat]

/-- The padded standard form of octets reads back as the octets. -/
theorem decode_encode (data : Octets) : decode (encode .standard data) = some data := by
  unfold decode encode
  dsimp only
  fun_induction encodeBare .standard data with
  | case1 => rfl
  | case2 a =>
    have ha := a.toNat_lt
    rw [List.cons_append, decodeHolding_digit (first_lt a) (by simp), List.cons_append,
      decodeHolding_digit (second_of_one_lt a) (by simp)]
    change some [UInt8.ofNat (a.toNat / 4 * 4 + a.toNat % 4 * 16 / 16)] = some [a]
    rw [ofNat_groups a (by omega)]
  | case3 a b =>
    have ha := a.toNat_lt
    have hb := b.toNat_lt
    rw [List.cons_append, decodeHolding_digit (first_lt a) (by simp), List.cons_append,
      decodeHolding_digit (second_lt a b) (by simp), List.cons_append,
      decodeHolding_digit (third_of_two_lt b) (by simp)]
    change some [UInt8.ofNat (a.toNat / 4 * 4 + (a.toNat % 4 * 16 + b.toNat / 16) / 16),
      UInt8.ofNat ((a.toNat % 4 * 16 + b.toNat / 16) % 16 * 16 + b.toNat % 16 * 4 / 4)] = some [a, b]
    rw [ofNat_groups a (by omega), ofNat_groups b (by omega)]
  | case4 a b c rest ih =>
    have ha := a.toNat_lt
    have hb := b.toNat_lt
    have hc := c.toNat_lt
    simp only [List.length_cons, Nat.add_assoc, Nat.reduceAdd, padding_add_four]
    rw [List.cons_append, decodeHolding_digit (first_lt a) (by simp), List.cons_append,
      decodeHolding_digit (second_lt a b) (by simp), List.cons_append,
      decodeHolding_digit (third_lt b c) (by simp), List.cons_append]
    simp only [List.nil_append, List.cons_append, decodeHolding_last (fourth_lt c), ih, Option.map_some]
    rw [ofNat_groups a (by omega), ofNat_groups b (by omega), ofNat_groups c (by omega)]

theorem decode_encodeBare (data : Octets) :
    decode (standardize (encodeBare .urlSafe data ++ padding (encodeBare .urlSafe data).length)) =
      some data := by
  have length : (encodeBare .urlSafe data).length = (encodeBare .standard data).length := by
    rw [← standardize_encodeBare, standardize, List.length_map]
  have split (s t : Text) : standardize (s ++ t) = standardize s ++ standardize t := List.map_append
  rw [split, standardize_encodeBare, standardize_padding, length]
  exact decode_encode data

end Base64

end TableQuery
