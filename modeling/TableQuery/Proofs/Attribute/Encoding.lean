/- How literals get their wire form.

   The members of lists and tuples get theirs one after another. The entries of maps do so under the plain forms of
   their keys, and a later entry takes the place of an earlier one of the same name, so the names in a wire form
   are distinct and each stands for the last entry that has it. -/

import Mathlib.Data.List.Nodup
import TableQuery.Attribute.Encoding
import TableQuery.Proofs.Outcomes
import TableQuery.Proofs.Records

set_option autoImplicit false
set_option relaxedAutoImplicit false

namespace TableQuery

/-- The value of the last entry whose key has the given plain form. -/
def Value.named? (name : Text) : Record → Option Value
  | [] => none
  | (key, value) :: rest => (named? name rest).or (if key.plain? = some name then some value else none)

namespace Attribute

theorem ofPlainLiteral_eq_ok {v : Value} {a : Attribute} : ofPlainLiteral v = .ok a ↔ ofPlain v = .ok a := by
  unfold ofPlainLiteral
  cases ofPlain v with
  | ok item => rfl
  | error fault =>
    have failed (refused : Prop) [Decidable refused] :
        (if refused then v.quote >>= fun quotation => .error (.refused (.literalUnsupported quotation))
          else .error fault : Except Fault Attribute) ≠ .ok a := by
      split
      · intro made
        obtain ⟨_, -, made⟩ := bind_eq_ok.mp made
        cases made
      · exact nofun
    exact iff_of_false (failed _) nofun

theorem ofLiterals_eq_ok {items : List Value} {made : List Attribute} :
    ofLiterals items = .ok made ↔ List.Forall₂ (fun v a => ofLiteral v = .ok a) items made := by
  have same : ofLiterals items = items.mapM ofLiteral := by
    induction items with
    | nil => rfl
    | cons v items ih => rw [ofLiterals_cons, ih, List.mapM_cons]
  rw [same, mapM_eq_ok]

/-- The cases in which a literal has a wire form. -/
theorem ofLiteral_cases {v : Value} {a : Attribute} (made : ofLiteral v = .ok a) :
    (∃ items members, (v = .list items ∨ v = .tuple items) ∧ a = .list members ∧
      ofLiterals items = .ok members) ∨
    (∃ entries named, v = .map entries ∧ a = .map named ∧ ofEntries [] entries = .ok named) ∨
    (∃ x, v = .float x ∧ ofPlain (.decimal x.decimal) = .ok a) ∨ ofPlain v = .ok a := by
  cases v with
  | float x => exact .inr (.inr (.inl ⟨x, rfl, ofPlainLiteral_eq_ok.mp made⟩))
  | list items =>
    obtain ⟨members, each, rfl⟩ := map_eq_ok.mp made
    exact .inl ⟨items, members, .inl rfl, rfl, each⟩
  | tuple items =>
    obtain ⟨members, each, rfl⟩ := map_eq_ok.mp made
    exact .inl ⟨items, members, .inr rfl, rfl, each⟩
  | map entries =>
    obtain ⟨named, each, rfl⟩ := map_eq_ok.mp made
    exact .inr (.inl ⟨entries, named, rfl, rfl, each⟩)
  | _ => exact .inr (.inr (.inr (ofPlainLiteral_eq_ok.mp made)))

private theorem lookup_cons (name first : Text) (kept : Attribute) (rest : List (Text × Attribute)) :
    List.lookup name ((first, kept) :: rest) = if name = first then some kept else rest.lookup name := by
  rw [List.lookup_cons]
  by_cases same : name = first
  · simp [same]
  · simp [same, beq_eq_false_iff_ne.mpr same]

theorem insertEntry_eq (name : Text) (item : Attribute) (found : List (Text × Attribute)) :
    insertEntry name item found = putNamed name item found := by
  induction found with
  | nil => rfl
  | cons entry found ih => rw [insertEntry, putNamed, ih]

private theorem lookup_insertEntry (name other : Text) (item : Attribute) (found : List (Text × Attribute)) :
    (insertEntry other item found).lookup name = if name = other then some item else found.lookup name := by
  induction found with
  | nil => exact lookup_cons name other item []
  | cons entry found ih =>
    obtain ⟨first, kept⟩ := entry
    rw [insertEntry, lookup_cons]
    split
    next same =>
      obtain rfl : first = other := same
      rw [lookup_cons]
      split <;> rfl
    next taken =>
      rw [lookup_cons, ih]
      split
      next same =>
        subst same
        rw [if_neg taken]
      next => rfl

theorem named_of_lookup {entries : Record} {found made : List (Text × Attribute)}
    (run : ofEntries found entries = .ok made) {name : Text} {item : Attribute}
    (h : made.lookup name = some item) :
    (∃ v, Value.named? name entries = some v ∧ ofLiteral v = .ok item) ∨
      Value.named? name entries = none ∧ found.lookup name = some item := by
  induction entries generalizing found with
  | nil =>
    obtain rfl := Except.ok.inj run
    exact .inr ⟨rfl, h⟩
  | cons entry entries ih =>
    obtain ⟨key, v⟩ := entry
    rw [ofEntries_cons] at run
    obtain ⟨first, keyed, run⟩ := bind_eq_ok.mp run
    obtain ⟨kept, literal, run⟩ := bind_eq_ok.mp run
    rw [Value.named?, Value.plain_eq_ok.mp keyed]
    rcases ih run with ⟨later, named, made⟩ | ⟨unnamed, before⟩
    · exact .inl ⟨later, by rw [named]; rfl, made⟩
    · rw [unnamed, Option.none_or]
      rw [lookup_insertEntry] at before
      split at before
      next same =>
        obtain rfl := Option.some.inj before
        exact .inl ⟨v, if_pos (congrArg some same.symm), literal⟩
      next other => exact .inr ⟨if_neg fun same => other (Option.some.inj same).symm, before⟩

theorem nodup_ofEntries {entries : Record} {found made : List (Text × Attribute)}
    (run : ofEntries found entries = .ok made) (distinct : (found.map Prod.fst).Nodup) :
    (made.map Prod.fst).Nodup := by
  induction entries generalizing found with
  | nil =>
    obtain rfl := Except.ok.inj run
    exact distinct
  | cons entry entries ih =>
    obtain ⟨key, v⟩ := entry
    rw [ofEntries_cons] at run
    obtain ⟨first, -, run⟩ := bind_eq_ok.mp run
    obtain ⟨kept, -, run⟩ := bind_eq_ok.mp run
    refine ih run ?_
    rw [insertEntry_eq]
    exact nodup_putNamed first kept distinct

theorem lookup_of_mem {entries : List (Text × Attribute)} (distinct : (entries.map Prod.fst).Nodup) {name : Text}
    {item : Attribute} (h : (name, item) ∈ entries) : entries.lookup name = some item := by
  induction entries with
  | nil => cases h
  | cons entry entries ih =>
    obtain ⟨first, kept⟩ := entry
    obtain ⟨fresh, distinct⟩ := List.nodup_cons.mp distinct
    rw [lookup_cons]
    rcases List.mem_cons.mp h with same | later
    · obtain ⟨rfl, rfl⟩ := Prod.mk.inj same
      exact if_pos rfl
    · have other : name ≠ first := by
        rintro rfl
        exact fresh (List.mem_map.mpr ⟨_, later, rfl⟩)
      rw [if_neg other, ih distinct later]

theorem mem_insertEntry {name : Text} {item : Attribute} {found : List (Text × Attribute)}
    {entry : Text × Attribute} (h : entry ∈ insertEntry name item found) : entry = (name, item) ∨ entry ∈ found := by
  induction found with
  | nil => exact .inl (List.mem_singleton.mp h)
  | cons first found ih =>
    rw [insertEntry] at h
    split at h
    · exact (List.mem_cons.mp h).imp_right (List.mem_cons_of_mem first)
    · rcases List.mem_cons.mp h with rfl | h
      · exact .inr List.mem_cons_self
      · exact (ih h).imp_right (List.mem_cons_of_mem first)

end Attribute

end TableQuery
