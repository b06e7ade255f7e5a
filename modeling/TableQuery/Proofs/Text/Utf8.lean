/- The UTF-8 form: every text without surrogate halves has one, and it reads back as the text. -/

import TableQuery.Text.Utf8

set_option autoImplicit false
set_option relaxedAutoImplicit false

namespace TableQuery

def Text.Whole (t : Text) : Prop := ∀ c ∈ t, ∃ x : Char, c = .char x

namespace Text

theorem whole_nil : Whole [] := fun _ member => absurd member List.not_mem_nil

theorem whole_cons {c : CodePoint} {t : Text} : Whole (c :: t) ↔ (∃ x : Char, c = .char x) ∧ t.Whole := by
  simp [Whole]

theorem whole_append {s t : Text} : Whole (s ++ t) ↔ s.Whole ∧ t.Whole := List.forall_mem_append

private theorem whole_map_char (chars : List Char) : Whole (chars.map .char) := by
  intro c member
  obtain ⟨x, -, rfl⟩ := List.mem_map.mp member
  exact ⟨x, rfl⟩

theorem whole_ofString (s : String) : Whole (ofString s) := whole_map_char s.toList

theorem whole_hexadecimal (width n : Nat) : Whole (hexadecimal width n) := by
  refine whole_append.mpr ⟨?_, whole_map_char _⟩
  intro c member
  exact ⟨'0', List.eq_of_mem_replicate member⟩

end Text

namespace Utf8

private theorem toNat_octet {n : Nat} (h : n < 0x100) : (UInt8.ofNat n).toNat = n := by
  rw [UInt8.toNat_ofNat', Nat.mod_eq_of_lt h]

private theorem continuation?_octet {n : Nat} (h : n < 0x40) :
    continuation? (UInt8.ofNat (0x80 + n)) = some n := by
  rw [continuation?, toNat_octet (by omega), if_pos (by omega), Nat.add_sub_cancel_left]

private theorem two?_octets {n : Nat} (low : 0x80 ≤ n) (high : n < 0x800) :
    two? (UInt8.ofNat (0xC0 + n / 0x40)) (UInt8.ofNat (0x80 + n % 0x40)) = some n := by
  rw [two?, toNat_octet (by omega), if_pos (by omega), continuation?_octet (by omega), Option.map_some]
  congr 1
  omega

private theorem two?_of_high {a b : UInt8} (high : 0xE0 ≤ a.toNat) : two? a b = none := by
  rw [two?, if_neg (by omega)]

private theorem three?_octets {n : Nat} (low : 0x800 ≤ n) (high : n < 0x10000)
    (whole : ¬ (0xD800 ≤ n ∧ n < 0xE000)) :
    three? (UInt8.ofNat (0xE0 + n / 0x1000)) (UInt8.ofNat (0x80 + n / 0x40 % 0x40))
      (UInt8.ofNat (0x80 + n % 0x40)) = some n := by
  have number : (0xE0 + n / 0x1000 - 0xE0) * 0x1000 + n / 0x40 % 0x40 * 0x40 + n % 0x40 = n := by omega
  rw [three?, toNat_octet (by omega), if_pos (by omega), continuation?_octet (by omega),
    continuation?_octet (by omega)]
  simp only [number]
  rw [if_pos ⟨low, whole⟩]

private theorem three?_of_high {a b c : UInt8} (high : 0xF0 ≤ a.toNat) : three? a b c = none := by
  rw [three?, if_neg (by omega)]

private theorem four?_octets {n : Nat} (low : 0x10000 ≤ n) (high : n < 0x110000) :
    four? (UInt8.ofNat (0xF0 + n / 0x40000)) (UInt8.ofNat (0x80 + n / 0x1000 % 0x40))
      (UInt8.ofNat (0x80 + n / 0x40 % 0x40)) (UInt8.ofNat (0x80 + n % 0x40)) = some n := by
  have number : (0xF0 + n / 0x40000 - 0xF0) * 0x40000 + n / 0x1000 % 0x40 * 0x1000 +
      n / 0x40 % 0x40 * 0x40 + n % 0x40 = n := by omega
  rw [four?, toNat_octet (by omega), if_pos (by omega), continuation?_octet (by omega),
    continuation?_octet (by omega), continuation?_octet (by omega)]
  simp only [number]
  rw [if_pos ⟨low, high⟩]

/-- The octets of a character are read as the character, whatever follows them. -/
private theorem decode_octetsOf (c : Char) (rest : Octets) :
    decode (octetsOf c.toNat ++ rest) = (decode rest).map (.char c :: ·) := by
  have valid : c.toNat < 0xD800 ∨ 0xDFFF < c.toNat ∧ c.toNat < 0x110000 := c.valid
  have number := Char.ofNat_toNat c
  generalize c.toNat = n at valid number
  subst number
  unfold octetsOf
  -- The ranges are those of the four forms, and each longer form starts with a greater octet.
  split
  · rename_i one
    rw [List.singleton_append, decode.eq_def]
    simp only [toNat_octet (by omega : n < 0x100), if_pos one]
  split
  · rename_i high low
    have lead := toNat_octet (n := 0xC0 + n / 0x40) (by omega)
    rw [List.cons_append, List.singleton_append, decode.eq_def]
    simp only [lead, if_neg (by omega : ¬ 0xC0 + n / 0x40 < 0x80),
      two?_octets (by omega : 0x80 ≤ n) low]
  split
  · rename_i high low
    have lead := toNat_octet (n := 0xE0 + n / 0x1000) (by omega)
    rw [List.cons_append, List.cons_append, List.singleton_append, decode.eq_def]
    simp only [lead, if_neg (by omega : ¬ 0xE0 + n / 0x1000 < 0x80),
      two?_of_high (a := UInt8.ofNat (0xE0 + n / 0x1000)) (by omega),
      three?_octets (by omega : 0x800 ≤ n) low (by omega)]
  · have lead := toNat_octet (n := 0xF0 + n / 0x40000) (by omega)
    rw [List.cons_append, List.cons_append, List.cons_append, List.singleton_append, decode.eq_def]
    simp only [lead, if_neg (by omega : ¬ 0xF0 + n / 0x40000 < 0x80),
      two?_of_high (a := UInt8.ofNat (0xF0 + n / 0x40000)) (by omega),
      three?_of_high (a := UInt8.ofNat (0xF0 + n / 0x40000)) (by omega),
      four?_octets (by omega : 0x10000 ≤ n) (by omega)]

theorem encode_eq_some {t : Text} (whole : t.Whole) : ∃ data, encode t = some data := by
  induction t with
  | nil => exact ⟨[], rfl⟩
  | cons c t ih =>
    obtain ⟨⟨x, rfl⟩, rest⟩ := Text.whole_cons.mp whole
    obtain ⟨data, hdata⟩ := ih rest
    exact ⟨octetsOf x.toNat ++ data, by rw [encode, hdata, Option.map_some]⟩

theorem encode_eq_none {t : Text} (broken : ¬ t.Whole) : encode t = none := by
  induction t with
  | nil => exact absurd Text.whole_nil broken
  | cons c t ih =>
    cases c with
    | surrogate offset => rfl
    | char x =>
      have rest : ¬ Text.Whole t := fun whole => broken (Text.whole_cons.mpr ⟨⟨x, rfl⟩, whole⟩)
      rw [encode, ih rest]
      rfl

theorem decode_encode {t : Text} {data : Octets} (h : encode t = some data) : decode data = some t := by
  induction t generalizing data with
  | nil =>
    obtain rfl : [] = data := Option.some.inj h
    rfl
  | cons c t ih =>
    cases c with
    | surrogate offset => cases h
    | char x =>
      rw [encode, Option.map_eq_some_iff] at h
      obtain ⟨rest, hrest, rfl⟩ := h
      rw [decode_octetsOf, ih hrest, Option.map_some]

end Utf8

end TableQuery
