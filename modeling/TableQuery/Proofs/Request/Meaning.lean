/- What a request means: its expressions read by the grammar, with every token resolved by its own tables.

   A draft whose clauses mean certain demands is written as a request that is read as these demands, with the
   literals in wire form, and as nothing else. -/

import TableQuery.Proofs.Expression.Compiling
import TableQuery.Proofs.Attribute.Depth
import TableQuery.Proofs.Request.Fields

set_option autoImplicit false
set_option relaxedAutoImplicit false

namespace TableQuery

open Grammar

def Demand.onWire (demand : Demand) : Except Fault Demand := do
  let operands ← demand.operands.mapM fun literal => (Attribute.ofLiteral literal).map Attribute.toValue
  return { demand with operands }

namespace Request

def nameOf? (request : Record) (t : Text) : Option Value :=
  match request.get? "ExpressionAttributeNames" with
  | some (.map names) => Record.get? names t
  | _ => none

def valueOf? (request : Record) (t : Text) : Option Value :=
  match request.get? "ExpressionAttributeValues" with
  | some (.map values) => Record.get? values t
  | _ => none

/-- A clause means a demand in a request when the tokens stand for the attribute and for the operands. -/
structure Means (request : Record) (phrase : Phrase) (demand : Demand) : Prop where
  operator : phrase.operator = demand.operator
  subject : nameOf? request phrase.subject = some (.text demand.subject)
  operands : List.Forall₂ (fun t value => valueOf? request t = some value) phrase.operands demand.operands

/-- What the text under a field of a request is read as: its words are parsed by a grammar, and each part
stands for something. A field that is missing is read as nothing. -/
def Reads {α β : Type} (request : Record) (field : Text) (grammar : List α → List Text → Prop)
    (stands : α → β → Prop) (found : List β) : Prop :=
  match request.get? field with
  | none => found = []
  | some (.text t) => ∃ parsed, grammar parsed (words t) ∧ List.Forall₂ stands parsed found
  | some _ => False

/-- What the condition under a field of a request demands, clause by clause. -/
def Demands (request : Record) (field : Text) (demands : List Demand) : Prop :=
  Reads request field Conjunction (Means request) demands

/-- What the projection of a request names. -/
def Projects (request : Record) (names : List Text) : Prop :=
  Reads request "ProjectionExpression" Listing
    (fun t name => nameOf? request t = some (.text name)) names

/-- Text that a grammar parses in one way is read in one way. -/
private theorem reads_iff {α β : Type} {request : Record} {field t : Text} {grammar : List α → List Text → Prop}
    {stands : α → β → Prop} {parts : List α} {meant : List β}
    (written : request.get? field = if t = [] then none else some (.text t))
    (unique : ∀ parts others ws, grammar parts ws → grammar others ws → parts = others)
    (functional : Relator.RightUnique stands) (empty : parts = [] → t = [])
    (parsed : parts ≠ [] → grammar parts (words t) ∧ words t ≠ [])
    (stand : List.Forall₂ stands parts meant) (found : List β) :
    Reads request field grammar stands found ↔ found = meant := by
  by_cases nothing : parts = []
  · rw [nothing, List.forall₂_nil_left_iff] at stand
    rw [if_pos (empty nothing)] at written
    rw [Reads, written, stand]
  · obtain ⟨spelled, some_words⟩ := parsed nothing
    have filled : t ≠ [] := by
      rintro rfl
      exact some_words rfl
    rw [if_neg filled] at written
    rw [Reads, written]
    constructor
    · rintro ⟨others, spelled', stand'⟩
      rw [unique _ _ _ spelled' spelled] at stand'
      exact List.right_unique_forall₂' functional stand' stand
    · rintro rfl
      exact ⟨parts, spelled, stand⟩

private theorem Means.unique {request : Record} {phrase : Phrase} {demand other : Demand}
    (h : Means request phrase demand) (h' : Means request phrase other) : demand = other := by
  have operator := h.operator.symm.trans h'.operator
  have subject : demand.subject = other.subject :=
    Value.text.inj (Option.some.inj (h.subject.symm.trans h'.subject))
  have same : Relator.RightUnique fun t value => valueOf? request t = some value :=
    fun _ _ _ hv hv' => Option.some.inj (hv.symm.trans hv')
  have operands := List.right_unique_forall₂' same h.operands h'.operands
  cases demand
  cases other
  rw [Demand.mk.injEq]
  exact ⟨operator, subject, operands⟩

private theorem get?_written {entries : List (Text × Value)} {written : Record}
    (h : List.Forall₂ (fun entry item => ∃ wire, Attribute.ofLiteral entry.2 = .ok wire ∧
      item = (Value.text entry.1, wire.toValue)) entries written) {t : Text} {v : Value}
    (found : (entries.find? fun entry => entry.1 = t).map (·.2) = some v) :
    ∃ wire, Attribute.ofLiteral v = .ok wire ∧ written.get? t = some wire.toValue := by
  induction h with
  | nil => cases found
  | @cons entry item _ _ here _ ih =>
    obtain ⟨wire, hwire, rfl⟩ := here
    rw [List.find?_cons] at found
    by_cases same : entry.1 = t
    · simp only [same, decide_true, Option.map_some, Option.some.injEq] at found
      exact ⟨wire, found ▸ hwire, by simp [Record.get?_cons, same]⟩
    · simp only [same, decide_false] at found
      obtain ⟨other, hother, there⟩ := ih found
      exact ⟨other, hother, by simp [Record.get?_cons, same, there]⟩

section Drafts

variable [DepthLimits] {table : Table} {options : Record} {draft : Draft} {request : Record}

private theorem nameOf?_eq (h : ofDraft table options draft = .ok request) (t : Text) :
    nameOf? request t = (draft.tables.names.resolve? t).map .text := by
  rw [nameOf?, get?_names h, nameEntry]
  split
  · rename_i names written
    split at written
    · cases written
    · simp only [Record.get?_cons, Value.isText_text, BEq.rfl, if_true] at written
      obtain rfl := Value.map.inj (Option.some.inj written)
      exact Record.get?_map_text _ _ t
  · rename_i unwritten
    split at unwritten
    · rename_i empty
      rw [NameTable.resolve?, NameTable.entries, List.isEmpty_iff.mp empty]
      rfl
    · simp only [Record.get?_cons, Value.isText_text, BEq.rfl, if_true] at unwritten
      exact absurd rfl (unwritten _)

private theorem valueOf?_of_resolve (h : ofDraft table options draft = .ok request) {t : Text} {v : Value}
    (stands : draft.tables.values.resolve? t = some v) :
    ∃ wire, Attribute.ofLiteral v = .ok wire ∧ valueOf? request t = some wire.toValue := by
  obtain ⟨values, hvalues, given⟩ := get?_values h
  have filled : draft.tables.values.values.isEmpty = false := by
    obtain ⟨index, entry, -⟩ := ValueTable.resolve?_eq_some_iff.mp stands
    cases hempty : draft.tables.values.values with
    | nil =>
      rw [hempty] at entry
      cases entry
    | cons => rfl
  rw [valueEntry, if_neg (by simp [filled])] at hvalues
  obtain ⟨written, hwritten, hvalues⟩ := bind_eq_ok.mp hvalues
  obtain rfl := pure_eq_ok.mp hvalues
  have forms := (mapM_eq_ok.mp hwritten).imp fun entry item made => by
    obtain ⟨wire, hwire, hitem⟩ := bind_eq_ok.mp made
    exact (⟨wire, Attribute.ofLiteral_of_within _ hwire, (pure_eq_ok.mp hitem).symm⟩ :
      ∃ wire, Attribute.ofLiteral entry.2 = .ok wire ∧ item = (Value.text entry.1, wire.toValue))
  obtain ⟨wire, hwire, found⟩ := get?_written forms stands
  refine ⟨wire, hwire, ?_⟩
  rw [valueOf?, given]
  simpa [Record.get?_cons] using found

private theorem means_onWire (h : ofDraft table options draft = .ok request) {phrase : Phrase} {demand : Demand}
    (meaning : draft.tables.Means phrase demand) :
    ∃ wired, demand.onWire = .ok wired ∧ Means request phrase wired := by
  have forms := meaning.operands.flip.imp fun literal t stands =>
    (valueOf?_of_resolve h stands).elim fun wire both =>
      (⟨wire.toValue, by rw [both.1]; rfl, both.2⟩ : ∃ value,
        (Attribute.ofLiteral literal).map Attribute.toValue = .ok value ∧ valueOf? request t = some value)
  obtain ⟨operands, made, stand⟩ := forall₂_split forms
  refine ⟨{ demand with operands }, ?_, meaning.operator, ?_, stand.flip⟩
  · rw [Demand.onWire, mapM_eq_ok.mpr made]
    rfl
  · rw [nameOf?_eq h, meaning.subject]
    rfl

variable (requestTables : draft.tables.Extends .fresh)
include requestTables

/-- Clauses are read from a request as what they demand, and as nothing else. -/
theorem demands_iff (h : ofDraft table options draft = .ok request) {field : Text}
    {clauses : List Clause} {demands : List Demand}
    (written : (field, Clause.renderAll clauses) ∈ wireExpressions draft)
    (meaning : List.Forall₂ (fun demand clause => draft.tables.Means clause.phrase demand)
      demands clauses) :
    ∃ wired, demands.mapM Demand.onWire = .ok wired ∧
      ∀ found, Demands request field found ↔ found = wired := by
  obtain ⟨wired, made, read⟩ := forall₂_split (meaning.imp fun _ _ => means_onWire h)
  refine ⟨wired, mapM_eq_ok.mpr made, ?_⟩
  have functional : Relator.RightUnique (Means request) := fun _ _ _ => Means.unique
  refine reads_iff (get?_expression h written) (fun _ _ _ => Conjunction.unique) functional ?_ ?_
    (List.forall₂_map_left_iff.mpr read.flip)
  · intro empty
    rw [List.map_eq_nil_iff.mp empty]
    rfl
  · intro filled
    have proper : ∀ clause ∈ clauses, clause.Proper := by
      intro clause member
      obtain ⟨demand, -, meaning⟩ := exists_of_forall₂ meaning.flip member
      exact meaning.proper requestTables.nameStem requestTables.valueStem
    have spelled := Clause.conjunction (fun empty => filled (List.map_eq_nil_iff.mpr empty)) proper
    exact ⟨spelled, spelled.ne_nil⟩

theorem projects_iff (h : ofDraft table options draft = .ok request) {names : List Text}
    (stand : List.Forall₂ (fun name t => draft.tables.names.resolve? t = some name) names
      draft.projection) (found : List Text) : Projects request found ↔ found = names := by
  have written : (Text.ofString "ProjectionExpression", Projection.render draft.projection) ∈
      wireExpressions draft := by simp [wireExpressions]
  have read : List.Forall₂ (fun t name => nameOf? request t = some (.text name)) draft.projection names := by
    refine stand.flip.imp ?_
    intro t name stands
    rw [nameOf?_eq h, stands]
    rfl
  have functional : Relator.RightUnique fun t name => nameOf? request t = some (.text name) :=
    fun _ _ _ hn hn' => Value.text.inj (Option.some.inj (hn.symm.trans hn'))
  have unique (parts others : List Text) (ws : List Text) (h : Listing parts ws) (h' : Listing others ws) :
      parts = others := h.unique h'
  refine reads_iff (get?_expression h written) unique functional ?_ ?_ read found
  · intro empty
    rw [empty]
    rfl
  · intro filled
    have tokens : ∀ t ∈ draft.projection, IsName t := by
      intro t member
      obtain ⟨name, -, stands⟩ := exists_of_forall₂ stand.flip member
      exact NameTable.isName_of_resolve requestTables.nameStem stands
    have spelled := Projection.listing filled tokens
    exact ⟨spelled, spelled.ne_nil⟩

end Drafts

end Request

end TableQuery
