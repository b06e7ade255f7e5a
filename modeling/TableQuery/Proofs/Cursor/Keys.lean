/- Key maps: records of key attributes under distinct texts.

   A record holds a key when its entries are the attributes of the key in order. Reading a key from a record
   keeps the attributes, and records that hold the same attributes are equal. -/

import Mathlib.Data.List.Nodup
import Mathlib.Data.List.Perm.Basic
import TableQuery.Cursor
import TableQuery.Proofs.Text.Utf8
import TableQuery.Proofs.Value.Equality
import TableQuery.Proofs.Value.Sorting

set_option autoImplicit false
set_option relaxedAutoImplicit false

namespace TableQuery

namespace KeyAttribute

inductive HeldBy : KeyAttribute → Value → Prop
  | text (t : Text) : HeldBy (.text t) (.map [(.text "S", .text t)])
  | number (numeral : Text) : HeldBy (.number numeral) (.map [(.text "N", .text numeral)])
  | octets (growable : Bool) (data : Octets) :
      HeldBy (.octets data) (.map [(.text "B", .octets growable data)])

/-- The text of the attribute, if it has one, is without surrogate halves. -/
def Whole : KeyAttribute → Prop
  | .text t => t.Whole
  | .number numeral => numeral.Whole
  | .octets _ => True

private theorem toValue_heldBy (part : KeyAttribute) : part.HeldBy part.toValue := by
  cases part with
  | text t => exact .text t
  | number numeral => exact .number numeral
  | octets data => exact .octets false data

private theorem HeldBy.ofValue {part : KeyAttribute} {value : Value} (held : part.HeldBy value) :
    KeyAttribute.ofValue value = .ok part := by
  cases held <;> rfl

private theorem same_single (kind : Text) {content other : Value} (h : content.same other = .ok true) :
    Value.same (.map [(.text kind, content)]) (.map [(.text kind, other)]) = .ok true := by
  simp only [Value.same, Value.sameEntries, List.find?_cons, Value.holds, beq_self_eq_true, h]
  rfl

private theorem HeldBy.same {part : KeyAttribute} {value other : Value} (held : part.HeldBy value)
    (held' : part.HeldBy other) : value.same other = .ok true := by
  cases held with
  | text t =>
    cases held'
    exact same_single _ (by simp [Value.same])
  | number numeral =>
    cases held'
    exact same_single _ (by simp [Value.same])
  | octets growable data =>
    cases held'
    exact same_single _ (by simp [Value.same, Value.octets?])

private theorem eq_of_same_single {kind kind' : Text} {content content' : Value}
    (h : Value.same (.map [(.text kind, content)]) (.map [(.text kind', content')]) = .ok true) :
    kind = kind' ∧ content.same content' = .ok true := by
  have kinds : Value.holds ((Value.text kind).same (.text kind')) = (kind == kind') := by
    rw [Value.same]
    rfl
  rw [Value.same, List.length_singleton, List.length_singleton, if_pos rfl, Value.sameEntries,
    List.find?_cons, kinds] at h
  cases equal : kind == kind' with
  | false =>
    rw [equal] at h
    cases h
  | true =>
    rw [equal] at h
    dsimp only at h
    refine ⟨beq_iff_eq.mp equal, ?_⟩
    split at h
    · assumption
    · exact h

private theorem HeldBy.eq_of_same {part part' : KeyAttribute} {value other : Value} (held : part.HeldBy value)
    (held' : part'.HeldBy other) (same : value.same other = .ok true) : part = part' := by
  cases held <;> cases held' <;> obtain ⟨kinds, contents⟩ := eq_of_same_single same
  case text.text => simpa [Value.same] using contents
  case number.number => simpa [Value.same] using contents
  case octets.octets growable data growable' data' =>
    have same_data : data' = data := by simpa [Value.same, Value.octets?] using contents
    rw [same_data]
  all_goals exact absurd kinds (by decide)

end KeyAttribute

/-- A record maps distinct texts to key attributes, at least one, and its texts have a UTF-8 form. -/
structure Record.IsKeyMap (record : Record) : Prop where
  filled : record ≠ []
  apart : (record.map Prod.fst).Nodup
  named : ∀ entry ∈ record, ∃ name : Text, entry.1 = .text name ∧ name.Whole
  parts : ∀ entry ∈ record, ∃ part : KeyAttribute, part.HeldBy entry.2 ∧ part.Whole

namespace Key

def HeldBy (key : Key) (record : Record) : Prop :=
  List.Forall₂ (fun entry part => entry.1 = .text part.1 ∧ part.2.HeldBy entry.2) record key

/-- The names and texts of a key are without surrogate halves. -/
def Whole (key : Key) : Prop := ∀ entry ∈ key, entry.1.Whole ∧ entry.2.Whole

theorem toRecord_heldBy (key : Key) : key.HeldBy key.toRecord := by
  rw [HeldBy, Key.toRecord, List.forall₂_map_left_iff, List.forall₂_same]
  exact fun entry _ => ⟨rfl, entry.2.toValue_heldBy⟩

theorem HeldBy.keys {key : Key} {record : Record} (held : key.HeldBy record) :
    record.map Prod.fst = (key.map Prod.fst).map .text := by
  induction held with
  | nil => rfl
  | cons entry _ ih => rw [List.map_cons, List.map_cons, List.map_cons, entry.1, ih]

theorem ofKeyMap {record : Record} (h : record.IsKeyMap) :
    ∃ key : Key, key.HeldBy record ∧ key ≠ [] ∧ (key.map Prod.fst).Nodup ∧ key.Whole := by
  have entries : ∀ entry ∈ record, ∃ part : Text × KeyAttribute,
      (part.1.Whole ∧ part.2.Whole) ∧ entry.1 = .text part.1 ∧ part.2.HeldBy entry.2 := by
    intro entry member
    obtain ⟨name, hname, name_whole⟩ := h.named entry member
    obtain ⟨part, held, part_whole⟩ := h.parts entry member
    exact ⟨(name, part), ⟨name_whole, part_whole⟩, hname, held⟩
  obtain ⟨key, related⟩ := forall₂_of_exists entries
  obtain ⟨whole, held⟩ := (List.forall₂_and_left _ _).mp related.flip
  have held : Key.HeldBy key record := held.flip
  refine ⟨key, held, ?_, ?_, whole⟩
  · rintro rfl
    exact h.filled (List.forall₂_nil_right_iff.mp related)
  · have apart := h.apart
    rw [held.keys] at apart
    exact List.Nodup.of_map _ apart

private theorem insert_eq (name : Text) (part : KeyAttribute) (key : Key) :
    Key.insert name part key = putNamed name part key := by
  induction key with
  | nil => rfl
  | cons entry key ih => rw [Key.insert, putNamed, ih]

private theorem foldlM_insert {record : Record} {key : Key} (held : key.HeldBy record) :
    ∀ found : Key, ((found ++ key).map Prod.fst).Nodup →
      record.foldlM (fun key entry => do
        let name ← entry.1.plain
        let part ← KeyAttribute.ofValue entry.2
        return insert name part key) found = .ok (found ++ key) := by
  induction held with
  | nil => exact fun found _ => congrArg Except.ok (List.append_nil found).symm
  | @cons entry part record key holds _ ih =>
    intro found apart
    obtain ⟨hname, hpart⟩ := holds
    obtain ⟨name, part⟩ := part
    have fresh : name ∉ found.map Prod.fst := by
      rw [List.map_append, List.map_cons] at apart
      intro member
      exact (List.nodup_append.mp apart).2.2 name member name List.mem_cons_self rfl
    rw [List.foldlM_cons, hname, Value.plain, hpart.ofValue]
    change List.foldlM _ (insert name part found) record = _
    rw [insert_eq, putNamed_of_notMem fresh, ih _ (by simpa using apart), List.append_assoc]
    rfl

theorem ofRecord_perm {key : Key} {record : Record} (held : key.HeldBy record)
    (apart : (key.map Prod.fst).Nodup) : ∃ found, ofRecord record = .ok found ∧ found.Perm key := by
  have named : ∀ entry ∈ record, ∃ name, entry.1 = .text name := by
    intro entry member
    obtain ⟨part, -, hname, -⟩ := exists_of_forall₂ held member
    exact ⟨part.1, hname⟩
  obtain ⟨ordered, hordered, perm⟩ := Record.ordered_perm named
  obtain ⟨found, held', perm'⟩ := List.perm_comp_forall₂ perm held
  refine ⟨found, ?_, perm'⟩
  rw [ofRecord, hordered]
  exact foldlM_insert held' [] ((perm'.map Prod.fst).nodup_iff.mpr apart)

theorem HeldBy.same {key key' : Key} {record other : Record} (held : key.HeldBy record)
    (held' : key'.HeldBy other) (perm : key.Perm key') (apart : (key'.map Prod.fst).Nodup) :
    Value.same (.map record) (.map other) = .ok true := by
  have lengths : record.length = other.length := by
    rw [held.length_eq, held'.length_eq, perm.length_eq]
  rw [Value.same, if_pos lengths]
  refine Value.sameEntries_of_find ?_
  intro entry member
  obtain ⟨⟨name, part⟩, hmember, hname, hpart⟩ := exists_of_forall₂ held member
  obtain ⟨partner, found, holds⟩ := Record.find?_named KeyAttribute.HeldBy held' apart (perm.mem_iff.mp hmember)
  exact ⟨partner, by rw [hname]; exact found, hpart.same holds⟩

private theorem exists_of_sameEntries {record other : Record}
    (same : Value.sameEntries record other = .ok true) :
    ∀ entry ∈ record, ∃ partner ∈ other, Value.holds (entry.1.same partner.1) = true ∧
      entry.2.same partner.2 = .ok true := by
  induction record with
  | nil => exact fun entry member => absurd member List.not_mem_nil
  | cons first rest ih =>
    rw [Value.sameEntries] at same
    split at same
    · cases same
    · rename_i partner found
      split at same
      · rename_i equal
        refine List.forall_mem_cons.mpr ⟨?_, ih same⟩
        have names := List.find?_some found
        exact ⟨partner, List.mem_of_find?_eq_some found, names, equal⟩
      · rename_i unequal
        exact absurd same unequal

/-- Equal records hold the same attributes. -/
theorem HeldBy.perm_of_same {key key' : Key} {record other : Record} (held : key.HeldBy record)
    (held' : key'.HeldBy other) (apart : (key.map Prod.fst).Nodup)
    (same : Value.same (.map record) (.map other) = .ok true) : key.Perm key' := by
  rw [Value.same] at same
  split at same
  · rename_i lengths
    have length_le : key'.length ≤ key.length :=
      Nat.le_of_eq (by rw [← held.length_eq, ← held'.length_eq, lengths])
    have among : key ⊆ key' := by
      intro part member
      obtain ⟨entry, hentry, hname, hpart⟩ := exists_of_forall₂ held.flip member
      obtain ⟨partner, hpartner, names, parts⟩ := exists_of_sameEntries same entry hentry
      obtain ⟨part', member', hname', hpart'⟩ := exists_of_forall₂ held' hpartner
      rw [hname, hname'] at names
      have name : part.1 = part'.1 := by simpa [Value.same, Value.holds] using names
      have content : part.2 = part'.2 := hpart.eq_of_same hpart' parts
      rwa [Prod.ext name content]
    exact (List.subperm_of_subset (List.Nodup.of_map _ apart) among).perm_of_length_le length_le
  · cases same

end Key

end TableQuery
