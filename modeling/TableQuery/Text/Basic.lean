/- Texts as lists of code points.

   A text may hold one half of a surrogate pair that stands alone: such a half can be escaped in
   JSON and quoted in a message, but it has no UTF-8 form. Texts are ordered by the numbers of their
   code points. -/

set_option autoImplicit false
set_option relaxedAutoImplicit false

namespace TableQuery

/-- A code point is a character or one half of a surrogate pair that stands alone. -/
inductive CodePoint where
  | char (c : Char)
  | surrogate (offset : Fin 0x800)
  deriving DecidableEq, Repr

instance : Inhabited CodePoint := ⟨.char 'a'⟩

namespace CodePoint

/-- The number of a code point; surrogate halves lie between U+D800 and U+DFFF. -/
def number : CodePoint → Nat
  | .char c => c.toNat
  | .surrogate offset => 0xD800 + offset.val

def ofNumber (n : Nat) : CodePoint :=
  if h : 0xD800 ≤ n ∧ n < 0xE000 then .surrogate ⟨n - 0xD800, by omega⟩ else .char (Char.ofNat n)

/-- The character, unless the code point is a surrogate half. -/
def char? : CodePoint → Option Char
  | .char c => some c
  | .surrogate _ => none

def smallAscii : CodePoint → CodePoint
  | .char c => .char c.toLower
  | .surrogate offset => .surrogate offset

/-- Membership of a code point in one of the ascending ranges of a property. -/
def liesIn (c : CodePoint) (ranges : List (Nat × Nat)) : Bool :=
  ranges.any fun range => range.1 ≤ c.number && c.number ≤ range.2

end CodePoint

/-- A text is the list of its code points. -/
abbrev Text := List CodePoint

namespace Text

def ofString (s : String) : Text := s.toList.map CodePoint.char

instance : Coe String Text := ⟨ofString⟩

@[simp] theorem ofString_inj {s t : String} : ofString s = ofString t ↔ s = t := by
  rw [ofString, ofString, List.map_inj_right fun _ _ => CodePoint.char.inj, String.toList_inj]

instance lawfulBEq : LawfulBEq Text := inferInstance

def toString? (t : Text) : Option String :=
  (t.mapM CodePoint.char?).map String.ofList

def ofNat (n : Nat) : Text := (Nat.toDigits 10 n).map CodePoint.char

def ofInt : Int → Text
  | .ofNat n => ofNat n
  | .negSucc n => .char '-' :: ofNat (n + 1)

def zeros (count : Nat) : Text := List.replicate count (.char '0')

/-- Lower-case hexadecimal digits, filled up with zeros to the given width. -/
def hexadecimal (width : Nat) (n : Nat) : Text :=
  let digits : Text := (Nat.toDigits 16 n).map CodePoint.char
  zeros (width - digits.length) ++ digits

def joined (separator : Text) (parts : List Text) : Text :=
  separator.intercalate parts

/-- Whether the first text stands at or before the second in the order of code point numbers. -/
def atMost : Text → Text → Bool
  | [], _ => true
  | _ :: _, [] => false
  | c :: s, d :: t => c.number < d.number || (c.number == d.number && atMost s t)

/-- Whether the text has the given part somewhere inside. -/
def holds (t part : Text) : Bool :=
  match t with
  | [] => part.isEmpty
  | c :: rest => part.isPrefixOf (c :: rest) || holds rest part

/-- Puts a value before the first one whose text is not before its own. -/
def insertBy {α : Type} (key : α → Text) (a : α) : List α → List α
  | [] => [a]
  | b :: rest => if (key a).atMost (key b) then a :: b :: rest else b :: insertBy key a rest

def sortBy {α : Type} (key : α → Text) : List α → List α
  | [] => []
  | a :: rest => insertBy key a (sortBy key rest)

/-- The text without the given code points at either end. -/
def trimmed (drop : CodePoint → Bool) (t : Text) : Text :=
  (((t.dropWhile drop).reverse).dropWhile drop).reverse

def smallAscii (t : Text) : Text :=
  t.map CodePoint.smallAscii

end Text

end TableQuery
