/- Reading what was written: a JSON value of texts and objects comes back from its compact form. -/

import Mathlib.Tactic.IntervalCases
import TableQuery.Json.Reader
import TableQuery.Json.Writer
import TableQuery.Proofs.Records
import TableQuery.Proofs.Text.Order
import TableQuery.Proofs.Text.Utf8

set_option autoImplicit false
set_option relaxedAutoImplicit false

namespace TableQuery

namespace Json

section Texts

variable (rest : Text)

private theorem takeText_control {n : Nat} (h : n < 0x20) :
    takeText none (escapedPoint (.char (Char.ofNat n)) ++ rest) =
      before (.char (Char.ofNat n)) (takeText none rest) := by
  interval_cases n <;> rfl

private theorem takeText_plain {c : CodePoint} (plain : 0x20 ≤ c.number) (quote : c.number ≠ 0x22)
    (backslash : c.number ≠ 0x5C) :
    takeText none (escapedPoint c ++ rest) = before c (takeText none rest) := by
  have kept : escapedPoint c = [c] := by
    simp only [escapedPoint]
    repeat rw [if_neg (by omega)]
  have not_quote : c ≠ .char '"' := by
    rintro rfl
    exact quote rfl
  have not_backslash : c ≠ .char '\\' := by
    rintro rfl
    exact backslash rfl
  rw [kept, List.singleton_append, takeText.eq_def]
  split
  · cases ‹c :: rest = []›
  · exact absurd (List.cons.inj ‹_›).1 not_quote
  · exact absurd (List.cons.inj ‹_›).1 not_backslash
  · exact absurd (List.cons.inj ‹_›).1 not_backslash
  · rename_i heads
    obtain ⟨rfl, rfl⟩ := List.cons.inj heads
    rw [if_neg (by omega)]
    rfl

private theorem takeText_escapedPoint (c : CodePoint) :
    takeText none (escapedPoint c ++ rest) = before c (takeText none rest) := by
  have of_number {d : Char} (h : c.number = d.toNat) : c = .char d := CodePoint.number_injective h
  by_cases control : c.number < 0x20
  · cases c with
    | char d =>
      have small := takeText_control rest control
      rwa [CodePoint.number, Char.ofNat_toNat] at small
    | surrogate offset => exact absurd (Nat.lt_of_le_of_lt (Nat.le_add_right _ _) control) (by decide)
  by_cases quote : c.number = 0x22
  · obtain rfl := of_number (d := '"') quote
    rfl
  by_cases backslash : c.number = 0x5C
  · obtain rfl := of_number (d := '\\') backslash
    rfl
  exact takeText_plain rest (Nat.le_of_not_lt control) quote backslash

private theorem takeText_flatMap (t : Text) :
    takeText none (t.flatMap escapedPoint ++ .char '"' :: rest) = .ok (t, rest) := by
  induction t with
  | nil => rfl
  | cons c t ih =>
    rw [List.flatMap_cons, List.append_assoc, takeText_escapedPoint, ih]
    rfl

end Texts

/-- Values made of texts of some kind, and of objects whose members have different names, with at most
`depth` objects inside one another. -/
inductive OfTexts (kind : Text → Prop) : Nat → Json → Prop
  | text {depth : Nat} {t : Text} : kind t → OfTexts kind depth (.text t)
  | object {depth : Nat} {members : List (Text × Json)} :
      (members.map Prod.fst).Nodup → (∀ member ∈ members, kind member.1) →
      (∀ member ∈ members, OfTexts kind depth member.2) → OfTexts kind (depth + 1) (.object members)

theorem insertMember_eq (name : Text) (value : Json) (found : List (Text × Json)) :
    insertMember name value found = putNamed name value found := by
  induction found with
  | nil => rfl
  | cons member found ih => rw [insertMember, putNamed, ih]

theorem skipSpace_cons {c : CodePoint} (h : isSpace c = false) (rest : Text) :
    skipSpace (c :: rest) = c :: rest := by
  rw [skipSpace, List.dropWhile_cons_of_neg (by rw [h]; exact Bool.false_ne_true)]

/-- A value is taken from its compact form, whatever follows that, in at most as many steps as the form has
code points; and the form starts without white space. -/
structure Reads (depth : Nat) (value : Json) : Prop where
  taken : ∀ (fuel : Nat) (rest : Text), value.write.length ≤ fuel →
    takeValue depth fuel (value.write ++ rest) = .ok (value, rest)
  unspaced : ∀ rest : Text, skipSpace (value.write ++ rest) = value.write ++ rest

private theorem takeMembers_last {depth fuel : Nat} {found : List (Text × Json)} {name : Text}
    {value : Json} (fresh : name ∉ found.map Prod.fst) (reads : Reads depth value) (rest : Text)
    (enough : value.write.length ≤ fuel) :
    takeMembers depth (fuel + 1) found
        (writeText name ++ .char ':' :: value.write ++ .char '\x7d' :: rest) =
      .ok (found ++ [(name, value)], rest) := by
  have split : writeText name ++ .char ':' :: value.write ++ .char '\x7d' :: rest =
      .char '"' :: (name.flatMap escapedPoint ++ .char '"' ::
        (.char ':' :: (value.write ++ .char '\x7d' :: rest))) := by
    simp [writeText]
  rw [split, takeMembers]
  simp only [takeText_flatMap, bind, Except.bind, skipSpace_cons (by decide : isSpace (.char ':') = false),
    reads.unspaced, reads.taken _ _ enough, insertMember_eq, putNamed_of_notMem fresh,
    skipSpace_cons (by decide : isSpace (.char '\x7d') = false)]
  rfl

private theorem takeMembers_more {depth fuel : Nat} {found : List (Text × Json)} {name : Text}
    {value : Json} (fresh : name ∉ found.map Prod.fst) (reads : Reads depth value) {rest : Text}
    (unspaced : skipSpace rest = rest) (enough : value.write.length ≤ fuel) :
    takeMembers depth (fuel + 1) found
        (writeText name ++ .char ':' :: value.write ++ .char ',' :: rest) =
      takeMembers depth fuel (found ++ [(name, value)]) rest := by
  have split : writeText name ++ .char ':' :: value.write ++ .char ',' :: rest =
      .char '"' :: (name.flatMap escapedPoint ++ .char '"' ::
        (.char ':' :: (value.write ++ .char ',' :: rest))) := by
    simp [writeText]
  rw [split, takeMembers]
  simp only [takeText_flatMap, bind, Except.bind, skipSpace_cons (by decide : isSpace (.char ':') = false),
    reads.unspaced, reads.taken _ _ enough, insertMember_eq, putNamed_of_notMem fresh,
    skipSpace_cons (by decide : isSpace (.char ',') = false), unspaced]

private theorem writeMembers_cons (member : Text × Json) (members : List (Text × Json)) :
    ∃ tail, writeMembers (member :: members) = .char '"' :: tail := by
  cases members <;> exact ⟨_, rfl⟩

private theorem writeMembers_cons_cons (name : Text) (value : Json) (second : Text × Json)
    (members : List (Text × Json)) :
    writeMembers ((name, value) :: second :: members) =
      writeText name ++ .char ':' :: value.write ++ .char ',' :: writeMembers (second :: members) := by
  rw [writeMembers]
  exact fun empty => List.cons_ne_nil _ _ empty

/-- Written members are read after those already found. -/
private theorem takeMembers_writeMembers {depth : Nat} {members : List (Text × Json)} (filled : members ≠ [])
    (reads : ∀ member ∈ members, Reads depth member.2) (rest : Text) (fuel : Nat)
    (enough : (writeMembers members).length ≤ fuel) (found : List (Text × Json))
    (apart : ((found ++ members).map Prod.fst).Nodup) :
    takeMembers depth fuel found (writeMembers members ++ .char '\x7d' :: rest) =
      .ok (found ++ members, rest) := by
  induction members generalizing found fuel with
  | nil => exact absurd rfl filled
  | cons member members ih =>
    obtain ⟨name, value⟩ := member
    have fresh : name ∉ found.map Prod.fst := by
      rw [List.map_append, List.map_cons] at apart
      intro member
      exact (List.nodup_append.mp apart).2.2 name member name List.mem_cons_self rfl
    have first : Reads depth value := reads (name, value) List.mem_cons_self
    cases members with
    | nil =>
      rw [writeMembers] at enough ⊢
      simp only [List.length_append, List.length_cons] at enough
      obtain ⟨fuel, rfl⟩ : ∃ less, fuel = less + 1 := ⟨fuel - 1, by omega⟩
      exact takeMembers_last fresh first rest (by omega)
    | cons second members =>
      have others : ∀ member ∈ second :: members, Reads depth member.2 :=
        fun member hmember => reads member (List.mem_cons_of_mem _ hmember)
      rw [writeMembers_cons_cons] at enough ⊢
      simp only [List.length_append, List.length_cons] at enough
      obtain ⟨fuel, rfl⟩ : ∃ less, fuel = less + 1 := ⟨fuel - 1, by omega⟩
      obtain ⟨tail, start⟩ := writeMembers_cons second members
      have unspaced : skipSpace (writeMembers (second :: members) ++ .char '\x7d' :: rest) =
          writeMembers (second :: members) ++ .char '\x7d' :: rest := by
        rw [start]
        exact skipSpace_cons (by decide) _
      rw [List.append_assoc, List.cons_append, takeMembers_more fresh first unspaced (by omega),
        ih (List.cons_ne_nil _ _) others fuel (by omega) _ (by simpa using apart), List.append_assoc]
      rfl

private theorem OfTexts.reads {kind : Text → Prop} {depth : Nat} {value : Json} (h : OfTexts kind depth value) :
    Reads depth value := by
  induction h with
  | text =>
    refine ⟨?_, fun rest => skipSpace_cons (by decide) _⟩
    intro fuel rest enough
    rw [write, writeText, List.length_append, List.length_cons] at enough
    obtain ⟨fuel, rfl⟩ : ∃ less, fuel = less + 1 := ⟨fuel - 1, by omega⟩
    rw [write, writeText, List.cons_append, List.cons_append, List.append_assoc, List.singleton_append,
      takeValue, takeText_flatMap]
    rfl
  | @object depth members apart _ _ ih =>
    refine ⟨?_, fun rest => skipSpace_cons (by decide) _⟩
    intro fuel rest enough
    rw [write, List.length_append, List.length_cons] at enough
    obtain ⟨fuel, rfl⟩ : ∃ less, fuel = less + 1 := ⟨fuel - 1, by omega⟩
    rw [write, List.cons_append, List.cons_append, List.append_assoc, List.singleton_append, takeValue]
    cases members with
    | nil => rfl
    | cons member members =>
      have taken := takeMembers_writeMembers (List.cons_ne_nil _ _) ih rest fuel (by omega) [] apart
      obtain ⟨tail, start⟩ := writeMembers_cons member members
      rw [start, List.cons_append] at taken ⊢
      simp only [opened, bind, Except.bind, skipSpace_cons (by decide : isSpace (.char '"') = false)]
      split
      · rename_i heads
        exact absurd (List.cons.inj heads).1 (by decide)
      · rw [taken]
        rfl

/-- A value of texts and objects is read from its compact form. -/
theorem read_write [DepthLimits] {kind : Text → Prop} {value : Json}
    (h : OfTexts kind DepthLimits.readable value) :
    read value.write = .ok value := by
  have taken := h.reads.taken (2 * value.write.length + 2) [] (by omega)
  have unspaced := h.reads.unspaced []
  rw [List.append_nil] at taken unspaced
  rw [read, unspaced, taken]
  rfl

section Whole

private theorem escapedPoint_whole {c : CodePoint} :
    Text.Whole (escapedPoint c) ↔ ∃ x : Char, c = .char x := by
  constructor
  · intro whole
    cases c with
    | char x => exact ⟨x, rfl⟩
    | surrogate offset =>
      have kept : escapedPoint (.surrogate offset) = [.surrogate offset] := by
        have high : 0xD800 ≤ (CodePoint.surrogate offset).number := Nat.le_add_right _ _
        simp only [escapedPoint]
        repeat rw [if_neg (by omega)]
      rw [kept] at whole
      exact whole _ List.mem_cons_self
  · intro whole
    unfold escapedPoint
    dsimp only
    repeat' split
    all_goals first
      | exact Text.whole_ofString _
      | exact Text.whole_append.mpr ⟨Text.whole_ofString _, Text.whole_hexadecimal _ _⟩
      | exact Text.whole_cons.mpr ⟨whole, Text.whole_nil⟩

theorem writeText_whole {t : Text} : Text.Whole (writeText t) ↔ t.Whole := by
  have inner : Text.Whole (t.flatMap escapedPoint) ↔ t.Whole := by
    constructor
    · intro whole c member
      exact escapedPoint_whole.mp fun d inside => whole d (List.mem_flatMap.mpr ⟨c, member, inside⟩)
    · intro whole d member
      obtain ⟨c, among, inside⟩ := List.mem_flatMap.mp member
      exact escapedPoint_whole.mpr (whole c among) d inside
  rw [writeText, List.cons_append, Text.whole_cons, Text.whole_append, inner, Text.whole_cons]
  simp [Text.whole_nil]

private theorem writeMembers_whole {members : List (Text × Json)} :
    Text.Whole (writeMembers members) ↔
      ∀ member ∈ members, member.1.Whole ∧ Text.Whole member.2.write := by
  induction members with
  | nil => exact iff_of_true Text.whole_nil (List.forall_mem_nil _)
  | cons member members ih =>
    obtain ⟨name, value⟩ := member
    cases members with
    | nil =>
      rw [writeMembers, Text.whole_append, Text.whole_cons, writeText_whole, List.forall_mem_singleton]
      simp
    | cons second members =>
      have others : Text.Whole (writeMembers (second :: members)) ↔
          ∀ member ∈ second :: members, member.1.Whole ∧ Text.Whole member.2.write := ih
      rw [writeMembers_cons_cons, Text.whole_append, Text.whole_append, Text.whole_cons, Text.whole_cons,
        writeText_whole, List.forall_mem_cons, ← others]
      simp

theorem write_object_whole {members : List (Text × Json)} :
    Text.Whole (Json.object members).write ↔
      ∀ member ∈ members, member.1.Whole ∧ Text.Whole member.2.write := by
  have brace : ∃ x : Char, CodePoint.char '\x7b' = .char x := ⟨_, rfl⟩
  rw [write, List.cons_append, Text.whole_cons, Text.whole_append, writeMembers_whole]
  exact ⟨fun whole => whole.2.1, fun whole => ⟨brace, whole, Text.whole_ofString "\x7d"⟩⟩

theorem OfTexts.write_whole {depth : Nat} {value : Json} (h : OfTexts Text.Whole depth value) :
    Text.Whole value.write := by
  induction h with
  | text whole => exact writeText_whole.mpr whole
  | object _ names _ ih => exact write_object_whole.mpr fun member among => ⟨names member among, ih member among⟩

end Whole

end Json

end TableQuery
