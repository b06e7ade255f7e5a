/- Taking options and conditions apart: with texts as names, every entry goes to one of the two parts, and
   both keep the order. An option that is given among other entries makes no other difference to the parts. -/

import Mathlib.Data.List.Nodup
import TableQuery.Proofs.Outcomes
import TableQuery.Proofs.Records
import TableQuery.Request.KeyConditions

set_option autoImplicit false
set_option relaxedAutoImplicit false

namespace TableQuery

namespace Selection

open Record

/-- Adds an entry of a record; its key counts by its plain form. -/
def addEntry (allowed : List Text) (selection : Selection) (entry : Value × Value) : Except Fault Selection := do
  let name ← entry.1.plain
  return selection.add allowed name entry.2

private theorem ofRecord_eq (allowed : List Text) (record : Record) :
    ofRecord allowed record = record.foldlM (addEntry allowed) ⟨[], []⟩ := rfl

/-- The selection of entries whose options have the allowed names. -/
def ofTexts (allowed : List Text) (entries : List (Text × Value)) : Selection where
  options := Record.ofTexts (entries.filter fun entry => entry.1 ∈ allowed)
  conditions := Record.ofTexts (entries.filter fun entry => entry.1 ∉ allowed)

private theorem add_ofTexts (allowed : List Text) {entries : List (Text × Value)} {name : Text}
    (fresh : name ∉ entries.map Prod.fst) (value : Value) :
    (ofTexts allowed entries).add allowed name value = ofTexts allowed (entries ++ [(name, value)]) := by
  have fresh_in (keep : Text × Value → Bool) : name ∉ (entries.filter keep).map Prod.fst :=
    fun member => fresh (List.map_subset _ (List.filter_subset_self _) member)
  unfold add ofTexts
  by_cases option : name ∈ allowed
  · rw [if_pos option, put_ofTexts (fresh_in _)]
    simp [List.filter_append, option]
  · rw [if_neg option, put_ofTexts (fresh_in _)]
    simp [List.filter_append, option]

private theorem foldlM_ofTexts (allowed : List Text) (done waiting : List (Text × Value))
    (apart : ((done ++ waiting).map Prod.fst).Nodup) :
    (Record.ofTexts waiting).foldlM (addEntry allowed) (ofTexts allowed done) =
      .ok (ofTexts allowed (done ++ waiting)) := by
  induction waiting generalizing done with
  | nil =>
    rw [List.append_nil]
    rfl
  | cons entry waiting ih =>
    have fresh : entry.1 ∉ done.map Prod.fst := by
      intro member
      rw [List.map_append, List.map_cons] at apart
      exact (List.nodup_append.mp apart).2.2 _ member _ List.mem_cons_self rfl
    change (Record.ofTexts waiting).foldlM _ ((ofTexts allowed done).add allowed entry.1 entry.2) = _
    rw [add_ofTexts allowed fresh, ih _ (by simpa using apart), List.append_assoc]
    rfl

theorem ofRecord_ofTexts (allowed : List Text) {entries : List (Text × Value)}
    (apart : (entries.map Prod.fst).Nodup) :
    ofRecord allowed (Record.ofTexts entries) = .ok (ofTexts allowed entries) :=
  foldlM_ofTexts allowed [] entries apart

theorem ofValue_ofTexts (allowed : List Text) {entries : List (Text × Value)}
    (apart : (entries.map Prod.fst).Nodup) :
    ofValue allowed (.map (Record.ofTexts entries)) = .ok (ofTexts allowed entries) := by
  cases entries with
  | nil => rfl
  | cons entry entries => exact ofRecord_ofTexts allowed apart

theorem get_options {allowed : List Text} {name : Text} (option : name ∈ allowed)
    (entries : List (Text × Value)) :
    (ofTexts allowed entries).options.get name = (Record.ofTexts entries).get name := by
  rw [Record.get, Record.get, ofTexts, get?_filter (by simpa using option)]

/-- Selections of the same conditions, with the same options but for the one of the given name, which the first of
them lacks and the second one has. -/
structure Inserted (name : Text) (value : Value) (selection other : Selection) : Prop where
  conditions : other.conditions = selection.conditions
  options : ∀ wanted, wanted ≠ name → other.options.get wanted = selection.options.get wanted
  absent : selection.options.get name = .null
  given : other.options.get name = value

section Inserted

variable {allowed : List Text} {name : Text} {value : Value} {selection other : Selection}

private theorem Inserted.of_absent (option : name ∈ allowed) (absent : selection.options.get name = .null)
    (value : Value) :
    Inserted name value selection (selection.add allowed name value) := by
  rw [Selection.add, if_pos option]
  exact ⟨rfl, fun _ different => get_put_of_ne _ _ different.symm, absent, get_put_self _ _ _⟩

private theorem Inserted.add (inserted : Inserted name value selection other) {further : Text} (apart : further ≠ name)
    (more : Value) : Inserted name value (selection.add allowed further more) (other.add allowed further more) := by
  unfold Selection.add
  by_cases option : further ∈ allowed
  · rw [if_pos option, if_pos option]
    refine ⟨inserted.conditions, ?_, ?_, ?_⟩
    · intro wanted different
      by_cases same : further = wanted
      · rw [same, get_put_self, get_put_self]
      · rw [get_put_of_ne _ _ same, get_put_of_ne _ _ same, inserted.options wanted different]
    · rw [get_put_of_ne _ _ apart, inserted.absent]
    · rw [get_put_of_ne _ _ apart, inserted.given]
  · rw [if_neg option, if_neg option]
    exact ⟨congrArg (Record.put · further more) inserted.conditions, inserted.options, inserted.absent,
      inserted.given⟩

private theorem Inserted.foldlM (inserted : Inserted name value selection other) {record : Record}
    (apart : ∀ entry ∈ record, entry.1.plain? ≠ some name) {last : Selection}
    (run : record.foldlM (addEntry allowed) selection = .ok last) :
    ∃ last', record.foldlM (addEntry allowed) other = .ok last' ∧ Inserted name value last last' := by
  induction record generalizing selection other with
  | nil =>
    obtain rfl := Except.ok.inj run
    exact ⟨other, rfl, inserted⟩
  | cons entry record ih =>
    obtain ⟨first, others⟩ := List.forall_mem_cons.mp apart
    rw [List.foldlM_cons] at run ⊢
    obtain ⟨step, added, run⟩ := bind_eq_ok.mp run
    obtain ⟨further, plain, added⟩ := bind_eq_ok.mp added
    obtain rfl := Except.ok.inj added
    have different : further ≠ name := fun same => first (same ▸ Value.plain_eq_ok.mp plain)
    rw [addEntry, plain]
    exact ih (inserted.add different entry.2) others run

theorem ofRecord_inserted (option : name ∈ allowed) {before after : Record}
    (apart : ∀ entry ∈ before ++ after, entry.1.plain? ≠ some name) (value : Value)
    (run : ofRecord allowed (before ++ after) = .ok selection) :
    ∃ other, ofRecord allowed (before ++ (.text name, value) :: after) = .ok other ∧
      Inserted name value selection other := by
  obtain ⟨front, back⟩ := List.forall_mem_append.mp apart
  rw [ofRecord_eq, List.foldlM_append] at run
  obtain ⟨middle, first, second⟩ := bind_eq_ok.mp run
  -- Before the option is given, it is absent as it was at the start.
  have start : Inserted name value ⟨[], []⟩ (Selection.add allowed ⟨[], []⟩ name value) :=
    .of_absent option rfl value
  obtain ⟨_, -, opened⟩ := start.foldlM front first
  obtain ⟨other, run', inserted⟩ := (Inserted.of_absent option opened.absent value).foldlM back second
  refine ⟨other, ?_, inserted⟩
  rw [ofRecord_eq, List.foldlM_append]
  exact bind_eq_ok.mpr ⟨middle, first, run'⟩

end Inserted

end Selection

end TableQuery
