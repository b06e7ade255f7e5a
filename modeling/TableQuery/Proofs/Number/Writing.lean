/- Numbers written as text are read back.

   A decimal number and the shortest form of a binary one are numerals: digits with at most one point, and
   perhaps an exponent. Where the point stands and how many zeros fill up the digits changes how a numeral looks,
   but not the coefficient and the exponent that are read from it. -/

import Mathlib.Data.List.TakeDrop
import TableQuery.Number.Reading
import TableQuery.Number.Shortest
import TableQuery.Proofs.Number.Exactness

set_option autoImplicit false
set_option relaxedAutoImplicit false

namespace TableQuery

namespace Text

def Digits (t : Text) : Prop := ∀ c ∈ t, c.asciiDigit?.isSome = true

def Stops (t : Text) : Prop := ∀ c ∈ t.head?, c.asciiDigit?.isSome = false

private theorem Digits.append {s t : Text} (hs : s.Digits) (ht : t.Digits) : (s ++ t).Digits := by
  intro c member
  rcases List.mem_append.mp member with member | member
  · exact hs c member
  · exact ht c member

private theorem Digits.take {t : Text} (h : t.Digits) (count : Nat) : Digits (t.take count) :=
  fun c member => h c (List.mem_of_mem_take member)

private theorem Digits.drop {t : Text} (h : t.Digits) (count : Nat) : Digits (t.drop count) :=
  fun c member => h c (List.mem_of_mem_drop member)

private theorem asciiDigit_char {d : Char} (digit : d.isDigit = true) :
    (CodePoint.char d).asciiDigit? = some (d.toNat - '0'.toNat) := by
  obtain ⟨low, high⟩ := Bool.and_eq_true_iff.mp digit
  have low : 0x30 ≤ d.toNat := of_decide_eq_true low
  have high : d.toNat ≤ 0x39 := of_decide_eq_true high
  exact if_pos ⟨low, Nat.lt_succ_of_le high⟩

private theorem digits_ofNat (n : Nat) : (ofNat n).Digits := by
  intro c member
  obtain ⟨d, hd, rfl⟩ := List.mem_map.mp member
  rw [asciiDigit_char (Nat.isDigit_of_mem_toDigits (by decide) (by decide) hd)]
  rfl

private theorem digits_zeros (count : Nat) : (zeros count).Digits := by
  intro c member
  rw [List.eq_of_mem_replicate member]
  rfl

private theorem ofNat_ne_nil (n : Nat) : ofNat n ≠ [] :=
  fun empty => Nat.toDigits_ne_nil (List.map_eq_nil_iff.mp empty)

private theorem length_ofNat (n : Nat) : (ofNat n).length = digitCount n := List.length_map ..

private theorem digitsValue_append (start : Nat) (s t : Text) :
    digitsValue start (s ++ t) = digitsValue (digitsValue start s) t := List.foldl_append

private theorem digitsValue_ofNat (n : Nat) : digitsValue 0 (ofNat n) = n := by
  have each (digits : List Char) (valid : ∀ d ∈ digits, d.isDigit = true) (start : Nat) :
      digitsValue start (digits.map .char) = Nat.ofDigitChars 10 digits start := by
    induction digits generalizing start with
    | nil => rfl
    | cons d digits ih =>
      obtain ⟨first, others⟩ := List.forall_mem_cons.mp valid
      change digitsValue (10 * start + (CodePoint.char d).asciiDigit?.getD 0) (digits.map .char) = _
      rw [ih others, asciiDigit_char first]
      rfl
  rw [ofNat, each _ fun d member => Nat.isDigit_of_mem_toDigits (by decide) (by decide) member]
  exact Nat.ofDigitChars_ten_toDigits

private theorem digitsValue_zeros (start count : Nat) : digitsValue start (zeros count) = start * 10 ^ count := by
  induction count generalizing start with
  | zero => exact (Nat.mul_one start).symm
  | succ count ih =>
    change digitsValue (10 * start) (zeros count) = _
    rw [ih, Nat.pow_succ]
    ring

theorem span_eq_iff {p : CodePoint → Bool} {t run rest : Text} :
    t.span p = (run, rest) ↔ t = run ++ rest ∧ (∀ c ∈ run, p c = true) ∧ ∀ c ∈ rest.head?, p c = false := by
  rw [List.span_eq_takeWhile_dropWhile, Prod.mk.injEq]
  constructor
  · rintro ⟨rfl, rfl⟩
    refine ⟨List.takeWhile_append_dropWhile.symm, List.all_eq_true.mp List.all_takeWhile, ?_⟩
    intro c first
    have stops := List.head?_dropWhile_not p t
    rw [Option.mem_def.mp first] at stops
    exact stops
  · rintro ⟨rfl, inside, stops⟩
    rw [List.takeWhile_append_of_pos inside, List.dropWhile_append_of_pos inside]
    cases rest with
    | nil => exact ⟨List.append_nil run, rfl⟩
    | cons c rest =>
      have stop : p c = false := stops c rfl
      simp only [List.takeWhile_cons, List.dropWhile_cons, stop, Bool.false_eq_true, if_false, List.append_nil,
        and_self]

private theorem spanDigits_append {digits rest : Text} (h : digits.Digits) (stops : rest.Stops) :
    spanDigits (digits ++ rest) = (digits, rest) :=
  span_eq_iff.mpr ⟨rfl, h, stops⟩

private theorem splitSign_signText (negative : Bool) {digits : Text} (h : digits.Digits) (nonempty : digits ≠ [])
    (rest : Text) : splitSign (Decimal.signText negative ++ (digits ++ rest)) = (negative, digits ++ rest) := by
  cases negative with
  | true => rfl
  | false =>
    obtain ⟨c, digits, rfl⟩ := List.exists_cons_of_ne_nil nonempty
    have digit := h c List.mem_cons_self
    change splitSign (c :: (digits ++ rest)) = _
    unfold splitSign
    split
    next same =>
      obtain rfl := (List.cons.inj same).1
      exact absurd digit (by decide)
    next same =>
      obtain rfl := (List.cons.inj same).1
      exact absurd digit (by decide)
    next => rfl

end Text

namespace Numeral

variable {rest : Text} {e : ℤ}

private theorem stops_of_readExponent (h : readExponent? rest = some e) :
    rest.Stops ∧ rest.head? ≠ some (.char '.') := by
  cases rest with
  | nil => exact ⟨(fun _ member => nomatch member), (fun same => nomatch same)⟩
  | cons c rest =>
    rw [readExponent?] at h
    split at h
    next letter =>
      rcases letter with rfl | rfl
      all_goals
        refine ⟨?_, fun same => absurd (Option.some.inj same) (by decide)⟩
        rintro _ ⟨⟩
        rfl
    next => cases h

variable {negative : Bool} {whole places : Text}

private theorem read_whole (hw : whole.Digits) (nonempty : whole ≠ []) (exponent : readExponent? rest = some e) :
    read? (Decimal.signText negative ++ (whole ++ rest)) =
      some { negative, coefficient := Text.digitsValue 0 whole, exponent := e } := by
  obtain ⟨stops, pointless⟩ := stops_of_readExponent exponent
  have empty : whole.isEmpty = false := by simpa using nonempty
  rw [read?, Text.splitSign_signText negative hw nonempty]
  simp only [Text.spanDigits_append hw stops]
  split
  next => exact absurd rfl pointless
  next => simp [exponent, empty, Text.digitsValue]

private theorem read_places (hw : whole.Digits) (nonempty : whole ≠ []) (hp : places.Digits)
    (exponent : readExponent? rest = some e) :
    read? (Decimal.signText negative ++ (whole ++ "." ++ places ++ rest)) =
      some { negative, coefficient := Text.digitsValue 0 (whole ++ places), exponent := e - places.length } := by
  obtain ⟨stops, -⟩ := stops_of_readExponent exponent
  have point : Text.Stops (.char '.' :: (places ++ rest)) := by
    rintro _ ⟨⟩
    rfl
  have empty : whole.isEmpty = false := by simpa using nonempty
  have shape : whole ++ "." ++ places ++ rest = whole ++ (.char '.' :: (places ++ rest)) := by
    rw [List.append_assoc, List.append_assoc]
    rfl
  rw [shape, read?, Text.splitSign_signText negative hw nonempty]
  simp only [Text.spanDigits_append hw point, Text.spanDigits_append hp stops, empty, exponent,
    Text.digitsValue_append]
  rfl

variable {digits : Text} {place : ℤ}

/-- A point at or before the end of the digits lowers the exponent by the digits after it. -/
private theorem read_pointed (hd : digits.Digits) (nonempty : digits ≠ []) (inside : place ≤ digits.length)
    (exponent : readExponent? rest = some e) :
    read? (Decimal.signText negative ++ (Decimal.pointed digits place ++ rest)) =
      some { negative, coefficient := Text.digitsValue 0 digits, exponent := e + place - digits.length } := by
  unfold Decimal.pointed
  split
  next before =>
    have shape : "0." ++ Text.zeros (-place).toNat ++ digits =
        Text.zeros 1 ++ "." ++ (Text.zeros (-place).toNat ++ digits) := by
      rw [List.append_assoc]
      rfl
    have value : Text.digitsValue 0 (Text.zeros 1 ++ (Text.zeros (-place).toNat ++ digits)) =
        Text.digitsValue 0 digits := by
      rw [Text.digitsValue_append, Text.digitsValue_append, Text.digitsValue_zeros, Text.digitsValue_zeros,
        Nat.zero_mul, Nat.zero_mul]
    have length : ((Text.zeros (-place).toNat ++ digits).length : ℤ) = digits.length - place := by
      rw [List.length_append, Text.zeros, List.length_replicate]
      omega
    rw [shape, read_places (Text.digits_zeros 1) (by decide) ((Text.digits_zeros _).append hd) exponent, value,
      length, show e - (digits.length - place) = e + place - digits.length by omega]
  next positive =>
    split
    next =>
      have start : digits.take place.toNat ≠ [] := by
        intro empty
        have length := congrArg List.length empty
        rw [List.length_take, List.length_nil] at length
        omega
      have length : ((digits.drop place.toNat).length : ℤ) = digits.length - place := by
        rw [List.length_drop]
        omega
      rw [read_places (hd.take _) start (hd.drop _) exponent, List.take_append_drop, length,
        show e - (digits.length - place) = e + place - digits.length by omega]
    next =>
      obtain rfl : place = digits.length := by omega
      rw [Int.toNat_natCast, Nat.sub_self, Text.zeros, List.replicate_zero, List.append_nil,
        read_whole hd nonempty exponent, Int.add_sub_cancel]

private theorem read_filled (hd : digits.Digits) (nonempty : digits ≠ []) (enough : digits.length ≤ place) :
    read? (Decimal.signText negative ++ (Decimal.pointed digits place ++ Text.ofString ".0")) =
      some { negative
             coefficient := Text.digitsValue 0 digits * 10 ^ (place.toNat - digits.length + 1)
             exponent := -1 } := by
  have positive : 0 < digits.length := List.length_pos_of_ne_nil nonempty
  have shape : Decimal.pointed digits place ++ Text.ofString ".0" =
      digits ++ Text.zeros (place.toNat - digits.length) ++ Text.ofString "." ++ Text.zeros 1 ++ [] := by
    rw [Decimal.pointed, if_neg (by omega), if_neg (by omega), List.append_nil, List.append_assoc,
      List.append_assoc, List.append_assoc]
    rfl
  have start : digits ++ Text.zeros (place.toNat - digits.length) ≠ [] :=
    List.append_ne_nil_of_left_ne_nil nonempty _
  rw [shape, read_places (hd.append (Text.digits_zeros _)) start (Text.digits_zeros 1) rfl,
    Text.digitsValue_append, Text.digitsValue_append, Text.digitsValue_zeros, Text.digitsValue_zeros,
    Nat.mul_assoc, ← Nat.pow_add]
  rfl

private theorem readExponent_written {letter : CodePoint} (h : letter = .char 'e' ∨ letter = .char 'E')
    (hd : digits.Digits)
    (nonempty : digits ≠ []) (written : Text.digitsValue 0 digits = e.natAbs) :
    readExponent? (letter :: ((if e < 0 then "-" else "+") ++ digits)) = some e := by
  have valid : ¬ (digits.isEmpty = true ∨ digits.any (·.asciiDigit?.isNone) = true) := by
    rintro (empty | odd)
    · exact nonempty (List.isEmpty_iff.mp empty)
    · obtain ⟨c, member, odd⟩ := List.any_eq_true.mp odd
      exact Option.not_isSome_iff_eq_none.mpr (Option.isNone_iff_eq_none.mp odd) (hd c member)
  rw [readExponent?, if_pos h]
  have signed : Text.splitSign ((if e < 0 then "-" else "+") ++ digits) = (decide (e < 0), digits) := by
    split
    next negative => rw [decide_eq_true negative]; rfl
    next positive => rw [decide_eq_false positive]; rfl
  simp only [signed, if_neg valid, written, decide_eq_true_eq]
  congr 1
  split <;> omega

private theorem read_positional (coefficient : Nat) {exponent : ℤ} (low : exponent ≤ 0) :
    read? (Decimal.signText negative ++
        Decimal.pointed (Text.ofNat coefficient) (exponent + (Text.ofNat coefficient).length)) =
      some { negative, coefficient, exponent } := by
  have none : readExponent? [] = some 0 := rfl
  have inside : exponent + (Text.ofNat coefficient).length ≤ (Text.ofNat coefficient).length := by omega
  rw [← List.append_nil (Decimal.pointed _ _),
    read_pointed (Text.digits_ofNat coefficient) (Text.ofNat_ne_nil coefficient) inside none,
    Text.digitsValue_ofNat, Int.zero_add, Int.add_sub_cancel]

private theorem read_scientific (coefficient : Nat) {letter : CodePoint} (h : letter = .char 'e' ∨ letter = .char 'E')
    {exponent : ℤ} (later : e = exponent + (Text.ofNat coefficient).length - 1) (hd : digits.Digits)
    (nonempty : digits ≠ []) (written : Text.digitsValue 0 digits = e.natAbs) :
    read? (Decimal.signText negative ++ (Decimal.pointed (Text.ofNat coefficient) 1 ++
        (letter :: ((if e < 0 then "-" else "+") ++ digits)))) =
      some { negative, coefficient, exponent } := by
  have positive : 0 < (Text.ofNat coefficient).length := List.length_pos_of_ne_nil (Text.ofNat_ne_nil coefficient)
  rw [read_pointed (Text.digits_ofNat coefficient) (Text.ofNat_ne_nil coefficient) (by omega)
      (readExponent_written h hd nonempty written), Text.digitsValue_ofNat,
    show e + 1 - (Text.ofNat coefficient).length = exponent by omega]

end Numeral

namespace Decimal

/-- A finite decimal number is read back with its coefficient and its exponent. -/
theorem read_text (negative : Bool) (coefficient : Nat) (exponent : ℤ) :
    Numeral.read? (text (.finite negative coefficient exponent)) = some { negative, coefficient, exponent } := by
  rw [text]
  split
  next positional => exact Numeral.read_positional coefficient positional.1
  next scientific =>
    rw [exponentText, List.append_assoc]
    exact Numeral.read_scientific coefficient (.inr rfl) rfl (Text.digits_ofNat _) (Text.ofNat_ne_nil _)
      (Text.digitsValue_ofNat _)

end Decimal

namespace Binary64

private theorem read_distant (negative : Bool) (coefficient : Nat) {exponent e : ℤ}
    (later : e = exponent + digitCount coefficient - 1) :
    Numeral.read? (Decimal.signText negative ++
        ((if digitCount coefficient = 1 then Text.ofNat coefficient
            else Decimal.pointed (Text.ofNat coefficient) 1) ++
          Text.ofString (if e < 0 then "e-" else "e+") ++ Text.ofString (if e.natAbs < 10 then "0" else "") ++
          Text.ofNat e.natAbs)) =
      some { negative, coefficient, exponent } := by
  have single : (if digitCount coefficient = 1 then Text.ofNat coefficient
      else Decimal.pointed (Text.ofNat coefficient) 1) = Decimal.pointed (Text.ofNat coefficient) 1 := by
    split
    next one => simp [Decimal.pointed, Text.length_ofNat, one, Text.zeros]
    next => rfl
  obtain ⟨padding, padded⟩ : ∃ padding, Text.ofString (if e.natAbs < 10 then "0" else "") = Text.zeros padding := by
    split
    · exact ⟨1, rfl⟩
    · exact ⟨0, rfl⟩
  have signed : Text.ofString (if e < 0 then "e-" else "e+") =
      .char 'e' :: Text.ofString (if e < 0 then "-" else "+") := by
    split <;> rfl
  have written : Text.digitsValue 0 (Text.zeros padding ++ Text.ofNat e.natAbs) = e.natAbs := by
    rw [Text.digitsValue_append, Text.digitsValue_zeros, Nat.zero_mul, Text.digitsValue_ofNat]
  rw [single, padded, signed, List.append_assoc, List.append_assoc]
  exact Numeral.read_scientific coefficient (.inl rfl) (by rw [later, Text.length_ofNat])
    ((Text.digits_zeros padding).append (Text.digits_ofNat _))
    (List.append_ne_nil_of_right_ne_nil _ (Text.ofNat_ne_nil _)) written

private theorem read_whole (negative : Bool) (coefficient : Nat) {exponent : ℤ} (whole : 0 ≤ exponent) :
    Numeral.read? (Decimal.signText negative ++
        (Decimal.pointed (Text.ofNat coefficient) (exponent + digitCount coefficient) ++ Text.ofString ".0")) =
      some { negative, coefficient := coefficient * Nat.pow 10 (exponent.toNat + 1), exponent := -1 } := by
  have enough : ((Text.ofNat coefficient).length : ℤ) ≤ exponent + digitCount coefficient := by
    rw [Text.length_ofNat]
    omega
  rw [Numeral.read_filled (Text.digits_ofNat coefficient) (Text.ofNat_ne_nil coefficient) enough,
    Text.digitsValue_ofNat, Text.length_ofNat,
    show (exponent + digitCount coefficient).toNat - digitCount coefficient + 1 = exponent.toNat + 1 by omega]
  rfl

/-- The shortest form of a finite binary number is read as its decimal number. -/
theorem read_text {x : Binary64} {negative : Bool} {coefficient : Nat} {exponent : ℤ}
    (finite : x.decimal = .finite negative coefficient exponent) :
    Numeral.read? x.text = some { negative, coefficient, exponent } := by
  cases x with
  | finite sign mantissa power form =>
    rw [decimal] at finite
    rw [text]
    generalize shortest mantissa power = parts at *
    obtain ⟨digits, e⟩ := parts
    have positive : 0 < digitCount digits := Nat.length_toDigits_pos
    simp only [Text.length_ofNat] at finite ⊢
    split
    next distant =>
      rw [if_neg (by omega)] at finite
      obtain ⟨rfl, rfl, rfl⟩ := Decimal.finite.inj finite
      exact read_distant sign digits rfl
    next near =>
      split
      next whole =>
        rw [if_pos (by omega)] at finite
        obtain ⟨rfl, rfl, rfl⟩ := Decimal.finite.inj finite
        exact read_whole sign digits (by omega)
      next fraction =>
        rw [if_neg (by omega)] at finite
        obtain ⟨rfl, rfl, rfl⟩ := Decimal.finite.inj finite
        rw [← Text.length_ofNat]
        exact Numeral.read_positional digits (by omega)
  | _ => cases finite

end Binary64

namespace Text

private theorem ascii_of_digit {c : CodePoint} (digit : c.asciiDigit?.isSome = true) :
    0x30 ≤ c.number ∧ c.number < 0x3A := by
  unfold CodePoint.asciiDigit? at digit
  split at digit
  next range => exact range
  next => cases digit

def Ascii (t : Text) : Prop := ∀ c ∈ t, c.number < 0x80

private theorem Digits.ascii {t : Text} (h : t.Digits) : t.Ascii := by
  intro c member
  have := (ascii_of_digit (h c member)).2
  omega

private theorem Ascii.append {s t : Text} (hs : s.Ascii) (ht : t.Ascii) : (s ++ t).Ascii := by
  intro c member
  rcases List.mem_append.mp member with member | member
  · exact hs c member
  · exact ht c member

private theorem Ascii.cons {c : CodePoint} {t : Text} (hc : c.number < 0x80) (ht : t.Ascii) : Ascii (c :: t) :=
  List.forall_mem_cons.mpr ⟨hc, ht⟩

private theorem ascii_of_splitSign {t : Text} (h : (splitSign t).2.Ascii) : t.Ascii := by
  unfold splitSign at h
  split at h
  · exact .cons (by decide) h
  · exact .cons (by decide) h
  · exact h

private theorem numericAscii_of_ascii {t : Text} (h : t.Ascii) : t.numericAscii = t := by
  induction t with
  | nil => rfl
  | cons c t ih =>
    obtain ⟨first, others⟩ := List.forall_mem_cons.mp h
    rw [numericAscii, List.map_cons, CodePoint.numericAscii, if_pos first]
    exact congrArg _ (ih others)

private theorem spanDigits_parts (t : Text) :
    t = (spanDigits t).1 ++ (spanDigits t).2 ∧ (spanDigits t).1.Digits := by
  have spanned : t.span (·.asciiDigit?.isSome) = ((spanDigits t).1, (spanDigits t).2) := rfl
  obtain ⟨parts, digits, -⟩ := span_eq_iff.mp spanned
  exact ⟨parts, digits⟩

end Text

/-- A code point that a numeral can begin with after its sign. -/
def CodePoint.Begins (c : CodePoint) : Prop := c.asciiDigit?.isSome = true ∨ c = .char '.'

namespace CodePoint.Begins

variable {c : CodePoint}

private theorem number_lt (h : c.Begins) : 0x2E ≤ c.number ∧ c.number < 0x3A := by
  rcases h with digit | rfl
  · have := Text.ascii_of_digit digit
    omega
  · decide

private theorem ne_char (h : c.Begins) {d : Char} (outside : d.toNat < 0x2E ∨ 0x3A ≤ d.toNat) : c ≠ .char d := by
  rintro rfl
  have : 0x2E ≤ d.toNat ∧ d.toNat < 0x3A := h.number_lt
  omega

private theorem smallAscii_eq (h : c.Begins) : c.smallAscii = c := by
  cases c with
  | surrogate offset => rfl
  | char d =>
    have range : 0x2E ≤ d.toNat ∧ d.toNat < 0x3A := h.number_lt
    refine congrArg CodePoint.char (dif_neg fun letter => ?_)
    have : 0x41 ≤ d.toNat := letter.1
    omega

private theorem splitSign_smallAscii (h : c.Begins) {t rest : Text} (unsigned : (Text.splitSign t).2 = c :: rest) :
    (Text.splitSign t.smallAscii).2 = c :: rest.smallAscii := by
  have small (rest : Text) : Text.smallAscii (c :: rest) = c :: rest.smallAscii := by
    rw [Text.smallAscii, List.map_cons, h.smallAscii_eq]
    rfl
  unfold Text.splitSign at unsigned
  split at unsigned
  · obtain rfl := unsigned
    exact small rest
  · obtain rfl := unsigned
    exact small rest
  · obtain rfl := unsigned
    rw [small]
    unfold Text.splitSign
    split
    next same => exact absurd (List.cons.inj same).1 (h.ne_char (by decide))
    next same => exact absurd (List.cons.inj same).1 (h.ne_char (by decide))
    next => rfl

end CodePoint.Begins

namespace Numeral

private theorem ascii_of_readExponent {t : Text} {e : ℤ} (h : readExponent? t = some e) : t.Ascii := by
  cases t with
  | nil => exact fun _ member => nomatch member
  | cons c rest =>
    rw [readExponent?] at h
    split at h
    next letter =>
      refine .cons (by rcases letter with rfl | rfl <;> decide) (Text.ascii_of_splitSign ?_)
      dsimp only at h
      split at h
      next => cases h
      next valid =>
        refine Text.Digits.ascii fun c member => ?_
        by_contra odd
        exact valid (.inr (List.any_eq_true.mpr ⟨c, member, by simpa using odd⟩))
    next => cases h

private theorem shape_of_read {t : Text} {n : Numeral} (h : read? t = some n) :
    t.Ascii ∧ ∃ c rest, (Text.splitSign t).2 = c :: rest ∧ c.Begins := by
  suffices (Text.splitSign t).2.Ascii ∧ ∃ c rest, (Text.splitSign t).2 = c :: rest ∧ c.Begins from
    ⟨Text.ascii_of_splitSign this.1, this.2⟩
  unfold read? at h
  generalize Text.splitSign t = split at h ⊢
  obtain ⟨negative, unsigned⟩ := split
  dsimp only at h ⊢
  obtain ⟨parts, whole⟩ := Text.spanDigits_parts unsigned
  generalize Text.spanDigits unsigned = spanned at h parts whole
  obtain ⟨digits, afterWhole⟩ := spanned
  dsimp only at parts whole h
  subst parts
  constructor
  · refine whole.ascii.append ?_
    split at h
    next afterPoint =>
      obtain ⟨parts, places⟩ := Text.spanDigits_parts afterPoint
      split at h
      next => cases h
      next =>
        obtain ⟨e, exponent, -⟩ := Option.map_eq_some_iff.mp h
        rw [parts]
        exact .cons (by decide) (places.ascii.append (ascii_of_readExponent exponent))
    next =>
      split at h
      next => cases h
      next =>
        obtain ⟨e, exponent, -⟩ := Option.map_eq_some_iff.mp h
        exact ascii_of_readExponent exponent
  · cases digits with
    | cons c digits => exact ⟨c, digits ++ afterWhole, rfl, .inl (whole c List.mem_cons_self)⟩
    | nil =>
      split at h
      next afterPoint => exact ⟨.char '.', afterPoint, rfl, .inr rfl⟩
      next => cases h

end Numeral

namespace Decimal

private theorem read_of_numeral {t : Text} {n : Numeral} (h : Numeral.read? t = some n) :
    read? t = some (.finite n.negative n.coefficient n.exponent) := by
  obtain ⟨ascii, c, rest, unsigned, begins⟩ := Numeral.shape_of_read h
  have small := begins.splitSign_smallAscii unsigned
  have other {d : Char} {name : Text} (outside : 0x3A ≤ d.toNat) : c :: Text.smallAscii rest ≠ .char d :: name :=
    fun same => begins.ne_char (.inr outside) (List.cons.inj same).1
  rw [read?, Text.numericAscii_of_ascii ascii]
  generalize Text.splitSign t.smallAscii = split at small
  obtain ⟨negative, name⟩ := split
  obtain rfl := small
  have unnamed : ¬ (c :: Text.smallAscii rest = Text.ofString "inf" ∨
      c :: Text.smallAscii rest = Text.ofString "infinity") := by
    rintro (same | same)
    · exact other (by decide) same
    · exact other (by decide) same
  dsimp only
  rw [if_neg unnamed]
  split
  next same => exact absurd same (other (by decide))
  next same => exact absurd same (other (by decide))
  next => rw [h]; rfl

theorem read_text_finite (negative : Bool) (coefficient : Nat) (exponent : ℤ) :
    read? (text (.finite negative coefficient exponent)) = some (.finite negative coefficient exponent) :=
  read_of_numeral (read_text negative coefficient exponent)

end Decimal

theorem Binary64.decimal_finite (negative : Bool) (mantissa : Nat) (exponent : ℤ)
    (form : IsBinary64 mantissa exponent) : ∃ sign coefficient power,
      (Binary64.finite negative mantissa exponent form).decimal = .finite sign coefficient power := by
  rw [Binary64.decimal]
  dsimp only
  split <;> exact ⟨_, _, _, rfl⟩

theorem Binary64.decimal_read_text (x : Binary64) : Decimal.read? x.text = some x.decimal := by
  cases x with
  | finite negative mantissa exponent form =>
    obtain ⟨sign, coefficient, power, decimal⟩ := decimal_finite negative mantissa exponent form
    rw [decimal]
    exact Decimal.read_of_numeral (read_text decimal)
  | infinity negative => cases negative <;> rfl
  | nan => rfl

end TableQuery
