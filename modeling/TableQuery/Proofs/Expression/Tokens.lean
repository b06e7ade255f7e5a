/- Tokens and what they stand for.

   Different entries of a table have different tokens, so a token keeps what it stands for while the tables
   grow. -/

import Mathlib.Data.List.Nodup
import TableQuery.Expression.Tables
import TableQuery.Proofs.Expression.Grammar
import TableQuery.Proofs.Records

set_option autoImplicit false
set_option relaxedAutoImplicit false

namespace TableQuery

private theorem Text.ofNat_injective : Function.Injective Text.ofNat := by
  intro m n h
  have digits : Nat.toDigits 10 m = Nat.toDigits 10 n :=
    List.map_injective_iff.mpr (fun _ _ same => CodePoint.char.inj same) h
  rw [← Nat.ofDigitChars_ten_toDigits (n := m), digits, Nat.ofDigitChars_ten_toDigits]

theorem token_injective (stem : Text) : Function.Injective (token stem) :=
  fun _ _ h => Text.ofNat_injective (List.append_cancel_left h)

theorem token_isToken {sigil : Char} (index : Nat) :
    Grammar.IsToken sigil (token (.char sigil :: Text.ofString "_a") index) := by
  refine ⟨Text.ofString "_a" ++ Text.ofNat index, rfl, List.append_ne_nil_of_left_ne_nil (by decide) _, ?_⟩
  rw [List.forall_mem_append]
  refine ⟨by decide, ?_⟩
  intro c member
  obtain ⟨d, hd, rfl⟩ := List.mem_map.mp member
  have digit := Nat.isDigit_of_mem_toDigits (by decide) (by decide) hd
  rw [Char.isDigit, Bool.and_eq_true, decide_eq_true_eq, decide_eq_true_eq] at digit
  have low : 0x30 ≤ d.toNat := digit.1
  have high : d.toNat ≤ 0x39 := digit.2
  simp [CodePoint.liesIn, CodePoint.number, low, high]

section Indexed

variable {α : Type}

private def indexed (stem : Text) (values : List α) : List (Text × α) :=
  values.zipIdx.map fun (a, index) => (token stem index, a)

private theorem indexed_nodup (stem : Text) (values : List α) :
    ((indexed stem values).map Prod.fst).Nodup := by
  have names : (indexed stem values).map Prod.fst = (List.range' 0 values.length).map (token stem) := by
    rw [indexed, List.map_map, ← List.zipIdx_map_snd 0 values, List.map_map]
    rfl
  rw [names]
  exact List.Nodup.map (token_injective stem) List.nodup_range'

private theorem mem_indexed {stem : Text} {values : List α} {t : Text} {a : α} :
    (t, a) ∈ indexed stem values ↔ ∃ index, values[index]? = some a ∧ t = token stem index := by
  rw [indexed, List.mem_map]
  constructor
  · rintro ⟨⟨b, index⟩, member, same⟩
    obtain ⟨rfl, rfl⟩ := Prod.mk.inj same
    exact ⟨index, List.mk_mem_zipIdx_iff_getElem?.mp member, rfl⟩
  · rintro ⟨index, entry, rfl⟩
    exact ⟨(a, index), List.mk_mem_zipIdx_iff_getElem?.mpr entry, rfl⟩

end Indexed

theorem map_zipIdx_tokens {α β : Type} (stem : Text) (values : List α) (f : α → β) :
    (values.zipIdx.map fun (a, index) => (token stem index, f a)) =
      (tokens stem values.length).zip (values.map f) := by
  apply List.ext_getElem
  · simp [tokens]
  · intro index _ _
    simp [tokens]

theorem NameTable.entries_eq_zip (table : NameTable) :
    table.entries = (tokens table.stem table.names.length).zip table.names := by
  have zipped := map_zipIdx_tokens table.stem table.names id
  rwa [List.map_id] at zipped

theorem ValueTable.entries_eq_zip (table : ValueTable) :
    table.entries = (tokens table.stem table.values.length).zip table.values := by
  have zipped := map_zipIdx_tokens table.stem table.values id
  rwa [List.map_id] at zipped

theorem NameTable.entries_nodup (table : NameTable) : (table.entries.map Prod.fst).Nodup :=
  indexed_nodup table.stem table.names

theorem ValueTable.entries_nodup (table : ValueTable) : (table.entries.map Prod.fst).Nodup :=
  indexed_nodup table.stem table.values

theorem NameTable.resolve?_eq_some_iff {table : NameTable} {t name : Text} :
    table.resolve? t = some name ↔
      ∃ index, table.names[index]? = some name ∧ t = token table.stem index :=
  (find?_eq_some_iff_mem table.entries_nodup).trans mem_indexed

theorem ValueTable.resolve?_eq_some_iff {table : ValueTable} {t : Text} {value : Value} :
    table.resolve? t = some value ↔
      ∃ index, table.values[index]? = some value ∧ t = token table.stem index :=
  (find?_eq_some_iff_mem table.entries_nodup).trans mem_indexed

theorem NameTable.isName_of_resolve {table : NameTable} (requestStem : table.stem = NameTable.requestStem)
    {t name : Text} (stands : table.resolve? t = some name) : Grammar.IsName t := by
  obtain ⟨index, -, rfl⟩ := resolve?_eq_some_iff.mp stands
  rw [requestStem]
  exact token_isToken index

theorem ValueTable.isLiteral_of_resolve {table : ValueTable}
    (requestStem : table.stem = ValueTable.requestStem) {t : Text} {value : Value}
    (stands : table.resolve? t = some value) : Grammar.IsLiteral t := by
  obtain ⟨index, -, rfl⟩ := resolve?_eq_some_iff.mp stands
  rw [requestStem]
  exact token_isToken index

/-- Tables extend others when they hold the same entries first, under the same tokens. -/
structure Tables.Extends (tables before : Tables) : Prop where
  nameStem : tables.names.stem = before.names.stem
  valueStem : tables.values.stem = before.values.stem
  names : before.names.names <+: tables.names.names
  values : before.values.values <+: tables.values.values

namespace Tables.Extends

variable {first second third : Tables}

theorem refl (tables : Tables) : tables.Extends tables :=
  ⟨rfl, rfl, List.prefix_refl _, List.prefix_refl _⟩

theorem trans (h : third.Extends second) (h' : second.Extends first) : third.Extends first :=
  ⟨h.nameStem.trans h'.nameStem, h.valueStem.trans h'.valueStem, h'.names.trans h.names,
    h'.values.trans h.values⟩

private theorem getElem?_of_prefix {α : Type} {front whole : List α} (h : front <+: whole) {index : Nat}
    {a : α} (entry : front[index]? = some a) : whole[index]? = some a := by
  obtain ⟨back, rfl⟩ := h
  obtain ⟨inside, -⟩ := List.getElem?_eq_some_iff.mp entry
  rw [List.getElem?_append_left inside, entry]

theorem resolve_name (h : second.Extends first) {t name : Text}
    (stands : first.names.resolve? t = some name) : second.names.resolve? t = some name := by
  obtain ⟨index, entry, rfl⟩ := NameTable.resolve?_eq_some_iff.mp stands
  exact NameTable.resolve?_eq_some_iff.mpr ⟨index, getElem?_of_prefix h.names entry, by rw [h.nameStem]⟩

theorem resolve_value (h : second.Extends first) {t : Text} {value : Value}
    (stands : first.values.resolve? t = some value) : second.values.resolve? t = some value := by
  obtain ⟨index, entry, rfl⟩ := ValueTable.resolve?_eq_some_iff.mp stands
  exact ValueTable.resolve?_eq_some_iff.mpr
    ⟨index, getElem?_of_prefix h.values entry, by rw [h.valueStem]⟩

end Tables.Extends

theorem NameTable.intern_spec (table : NameTable) (name : Text) :
    (table.intern name).2.stem = table.stem ∧ table.names <+: (table.intern name).2.names ∧
      (table.intern name).2.resolve? (table.intern name).1 = some name := by
  unfold NameTable.intern
  cases found : table.names.idxOf? name with
  | some index =>
    obtain ⟨inside, same, -⟩ := List.idxOf?_eq_some_iff.mp found
    refine ⟨rfl, List.prefix_refl _, resolve?_eq_some_iff.mpr ⟨index, ?_, rfl⟩⟩
    rw [List.getElem?_eq_getElem inside, same]
  | none =>
    refine ⟨rfl, List.prefix_append _ _, resolve?_eq_some_iff.mpr ⟨table.names.length, ?_, rfl⟩⟩
    exact List.getElem?_concat_length

theorem ValueTable.add_spec (table : ValueTable) (value : Value) :
    (table.add value).2.stem = table.stem ∧ table.values <+: (table.add value).2.values ∧
      (table.add value).2.resolve? (table.add value).1 = some value := by
  refine ⟨rfl, List.prefix_append _ _, resolve?_eq_some_iff.mpr ⟨table.values.length, ?_, rfl⟩⟩
  exact List.getElem?_concat_length

theorem ValueTable.entries_add (table : ValueTable) (value : Value) :
    (table.add value).2.entries = table.entries ++ [((table.add value).1, value)] := by
  simp [entries, add, List.zipIdx_append]

end TableQuery
