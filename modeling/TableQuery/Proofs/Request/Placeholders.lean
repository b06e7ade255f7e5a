/- The placeholder tables of a request are closed and minimal.

   The placeholders that occur in the expressions of a request are the keys of its two tables: none is
   undefined and no entry is unused. Names are numbered by their first occurrences, literals one by one. -/

import TableQuery.Proofs.Expression.Numbering
import TableQuery.Proofs.Request.Compilation

set_option autoImplicit false
set_option relaxedAutoImplicit false

namespace TableQuery

open Grammar

namespace Draft

open Compiling

def tokens (draft : Draft) : List Text :=
  draft.keyCondition.flatMap Clause.tokens ++ draft.filter.flatMap Clause.tokens ++ draft.projection

private theorem numbers_of_compile {key filter : Record} {project : Value} {draft : Draft}
    (h : compile key filter project = .ok draft) : draft.tables.Numbers draft.tokens := by
  obtain ⟨keyCondition, first, compiledKey, run⟩ := runs_bind.mp (runs_parts h)
  obtain ⟨filterClauses, second, compiledFilter, run⟩ := runs_bind.mp run
  obtain ⟨projection, third, compiledProjection, run⟩ := runs_bind.mp run
  obtain ⟨same, final⟩ := runs_pure.mp run
  obtain ⟨rfl, rfl, rfl⟩ : keyCondition = draft.keyCondition ∧ filterClauses = draft.filter ∧
    projection = draft.projection := by simpa using same
  rw [← final]
  have keys := accounts_numbers.compileRecord compiledKey Tables.fresh_numbers
  rw [List.nil_append] at keys
  exact accounts_numbers.projection compiledProjection (accounts_numbers.compileRecord compiledFilter keys)

private theorem numbers_of_operation {operation : Operation} {table : Table} {selection : Selection} {draft : Draft}
    (h : ofOperation operation table selection = .ok draft) : draft.tables.Numbers draft.tokens := by
  cases operation with
  | query =>
    obtain ⟨keyConditions, -, h⟩ := bind_eq_ok.mp h
    exact numbers_of_compile h
  | scan =>
    change ofScan selection = .ok draft at h
    unfold ofScan at h
    dsimp only at h
    split at h
    · exact numbers_of_compile h
    · cases h

end Draft

namespace Request

/-- The fields of a request that hold expressions, in the order in which these are compiled. -/
def expressionFields : List Text := ["KeyConditionExpression", "FilterExpression", "ProjectionExpression"]

/-- The placeholders in the expressions of a request, in the order of their occurrence. -/
def occurring (request : Record) : List Text :=
  expressionFields.flatMap fun field =>
    match request.get? field with
    | some (.text t) => placeholders t
    | _ => []

/-- What stands under a field that gives entries under tokens of a stem; without entries there is none. -/
def tokenTable (stem : Text) (entries : List Value) : Option Value :=
  if entries.isEmpty then none else some (.map (Record.ofTexts ((tokens stem entries.length).zip entries)))

/-- A request whose tables give some names and some literals under the placeholders of its expressions, each
of them used. -/
structure Closed (request : Record) (names : List Text) (literals : List Value) : Prop where
  expressions : ∀ field ∈ expressionFields,
    request.get? field = none ∨ ∃ t, t ≠ [] ∧ request.get? field = some (.text t)
  nameTable : request.get? "ExpressionAttributeNames" = tokenTable "#_a" (names.map .text)
  literalTable : request.get? "ExpressionAttributeValues" = tokenTable ":_a" literals
  namesApart : names.Nodup
  namesNumbered : (nameTokens (occurring request)).eraseDups = tokens "#_a" names.length
  literalsNumbered : literalTokens (occurring request) = tokens ":_a" literals.length
  namesUsed : ∀ t, t ∈ nameTokens (occurring request) ↔ (nameOf? request t).isSome = true
  literalsUsed : ∀ t, t ∈ literalTokens (occurring request) ↔ (valueOf? request t).isSome = true
  noneElse : ∀ t ∈ occurring request,
    t ∈ nameTokens (occurring request) ∨ t ∈ literalTokens (occurring request)

section Tables

private theorem get?_zip_tokens (stem : Text) (entries : List Value) (t : Text) :
    (Record.get? (Record.ofTexts ((tokens stem entries.length).zip entries)) t).isSome = true ↔
      t ∈ tokens stem entries.length := by
  have keys : ((tokens stem entries.length).zip entries).map Prod.fst = tokens stem entries.length :=
    List.map_fst_zip (by simp [tokens])
  generalize (tokens stem entries.length).zip entries = listed at keys
  have found := Record.get?_map_text listed id t
  rw [← keys, Record.ofTexts, List.mem_map]
  simp only [id_eq] at found
  simp [found]

private theorem isSome_tokenTable {stem : Text} {entries : List Value} {given : Option Value}
    (h : given = tokenTable stem entries) (t : Text) :
    (match given with
      | some (.map held) => Record.get? held t
      | _ => none).isSome = true ↔ t ∈ tokens stem entries.length := by
  subst h
  unfold tokenTable
  cases entries with
  | nil => simp [tokens]
  | cons entry entries => exact get?_zip_tokens stem (entry :: entries) t

private theorem nameEntry_eq (table : NameTable) :
    (nameEntry table).get? "ExpressionAttributeNames" = tokenTable table.stem (table.names.map .text) := by
  unfold nameEntry tokenTable
  cases filled : table.names.isEmpty with
  | true => simp [List.isEmpty_iff.mp filled]
  | false =>
    have entries := map_zipIdx_tokens table.stem table.names Value.text
    have written : (table.entries.map fun entry => ((.text entry.1, .text entry.2) : Value × Value)) =
        Record.ofTexts ((tokens table.stem (table.names.map Value.text).length).zip
          (table.names.map Value.text)) := by
      rw [List.length_map, ← entries, Record.ofTexts, NameTable.entries, List.map_map, List.map_map]
      rfl
    rw [written]
    simp [Record.get?_cons, filled]

private theorem eq_ofTexts_zip {α : Type} {entries : List (Text × α)} {written : Record}
    (forms : List.Forall₂ (fun entry item => item.1 = Value.text entry.1) entries written) :
    written = Record.ofTexts ((entries.map Prod.fst).zip (written.map Prod.snd)) := by
  induction forms with
  | nil => rfl
  | @cons entry item entries written here _ ih =>
    rw [List.map_cons, List.map_cons, List.zip_cons_cons, Record.ofTexts, List.map_cons, ← here]
    exact congrArg _ ih

private theorem valueEntry_eq [DepthLimits] {table : ValueTable} {values : Record} (h : valueEntry table = .ok values) :
    ∃ literals, literals.length = table.values.length ∧
      values.get? "ExpressionAttributeValues" = tokenTable table.stem literals := by
  unfold valueEntry at h
  split at h
  · rename_i empty
    obtain rfl := pure_eq_ok.mp h
    exact ⟨[], by rw [List.isEmpty_iff.mp empty], rfl⟩
  · rename_i filled
    obtain ⟨written, hwritten, h⟩ := bind_eq_ok.mp h
    obtain rfl := pure_eq_ok.mp h
    have forms : List.Forall₂ (fun entry item => item.1 = Value.text entry.1) table.entries written := by
      refine (mapM_eq_ok.mp hwritten).imp ?_
      intro entry item made
      obtain ⟨wire, -, hitem⟩ := bind_eq_ok.mp made
      exact (congrArg Prod.fst (pure_eq_ok.mp hitem)).symm
    have keys : table.entries.map Prod.fst = tokens table.stem table.values.length := by
      rw [ValueTable.entries_eq_zip]
      exact List.map_fst_zip (by simp [tokens])
    have length : written.length = table.values.length := by
      rw [← forms.length_eq, ValueTable.entries, List.length_map, List.length_zipIdx]
    refine ⟨written.map Prod.snd, by rw [List.length_map, length], ?_⟩
    have some_written : (written.map Prod.snd).isEmpty = false := by
      rw [Bool.eq_false_iff, ne_eq, List.isEmpty_iff, ← List.length_eq_zero_iff, List.length_map, length,
        List.length_eq_zero_iff, ← List.isEmpty_iff]
      exact filled
    rw [tokenTable, if_neg (by simp [some_written]), List.length_map, length, ← keys, ← eq_ofTexts_zip forms]
    simp [Record.get?_cons]

end Tables

/-- The placeholders of a request are the tokens of its draft. -/
private theorem occurring_eq [DepthLimits] {table : Table} {options : Record} {draft : Draft} {request : Record}
    (h : ofDraft table options draft = .ok request) (proper : ∀ t ∈ draft.tokens, IsPlaceholder t) :
    occurring request = draft.tokens := by
  have under {field t : Text} (member : (field, t) ∈ wireExpressions draft) :
      (match request.get? field with
        | some (.text t) => placeholders t
        | _ => []) = placeholders t := by
    rw [get?_expression h member]
    by_cases empty : t = []
    · rw [if_pos empty, empty]
      rfl
    · rw [if_neg empty]
  unfold Draft.tokens at proper ⊢
  obtain ⟨conditions, projection⟩ := List.forall_mem_append.mp proper
  obtain ⟨keys, filter⟩ := List.forall_mem_append.mp conditions
  have clauses {listed : List Clause} (each : ∀ t ∈ listed.flatMap Clause.tokens, IsPlaceholder t) :
      placeholders (Clause.renderAll listed) = listed.flatMap Clause.tokens :=
    Clause.placeholders_renderAll fun clause member t token =>
      each t (List.mem_flatMap.mpr ⟨clause, member, token⟩)
  rw [occurring, expressionFields, List.flatMap_cons, List.flatMap_cons, List.flatMap_cons, List.flatMap_nil,
    List.append_nil, under (.head _), under (.tail _ (.head _)), under (.tail _ (.tail _ (.head _))),
    clauses keys, clauses filter, Projection.placeholders_render projection, List.append_assoc]

/-- **Closed and minimal tables.** Whenever a request is built, the names and the literals of its tables stand
under exactly the placeholders that occur in its expressions; names differ and are numbered by their first
occurrences, and literals occur once each, in the order of their numbers. -/
theorem build_closed [DepthLimits] {operation : Operation} {table : Table} {options : Value} {request : Record}
    (built : build operation table options = .ok request) :
    ∃ names literals, Closed request names literals := by
  obtain ⟨selection, draft, -, drafted, written⟩ := build_eq_ok built
  obtain ⟨nameStem, valueStem, names, apart, literals, proper⟩ := Draft.numbers_of_operation drafted
  have occurs := occurring_eq written proper
  obtain ⟨values, hvalues, given⟩ := get?_values written
  obtain ⟨literal, length, held⟩ := valueEntry_eq hvalues
  have nameTable := (get?_names written).trans (nameEntry_eq draft.tables.names)
  have literalTable := given.trans held
  rw [nameStem] at nameTable
  rw [valueStem] at literalTable
  rw [← length] at literals
  refine ⟨draft.tables.names.names, literal, ?_, nameTable, literalTable, apart, ?_, ?_, ?_, ?_, ?_⟩
  · intro field among
    obtain ⟨⟨field, t⟩, member, rfl⟩ :=
      List.mem_map.mp (show field ∈ (wireExpressions draft).map Prod.fst from among)
    rw [get?_expression written member]
    by_cases empty : t = []
    · exact .inl (if_pos empty)
    · exact .inr ⟨t, empty, if_neg empty⟩
  · rw [occurs]
    exact names
  · rw [occurs]
    exact literals
  · intro t
    have used := isSome_tokenTable nameTable t
    rw [List.length_map] at used
    rw [occurs, ← List.mem_eraseDups, names]
    exact used.symm
  · intro t
    rw [occurs, literals]
    exact (isSome_tokenTable literalTable t).symm
  · intro t member
    rw [occurs] at member ⊢
    exact (proper t member).mem_kinds member

/-- Two attributes occur twice, and one operator has no operand. -/
theorem build_closed_of_recentOrders :
    ∃ request, build .query orders (.map (Record.ofTexts recentOrders)) = .ok request ∧
      occurring request = ["#_a0", ":_a0", "#_a1", ":_a1", ":_a2", "#_a2", ":_a3", "#_a2", "#_a3", ":_a4",
        ":_a5", "#_a2", "#_a1"] ∧
      ∃ names literals, Closed request names literals := by
  have evaluated : (build .query orders (.map (Record.ofTexts recentOrders))).toOption.map occurring =
      some (["#_a0", ":_a0", "#_a1", ":_a1", ":_a2", "#_a2", ":_a3", "#_a2", "#_a3", ":_a4", ":_a5", "#_a2",
        "#_a1"] : List Text) := by decide +kernel
  cases built : build .query orders (.map (Record.ofTexts recentOrders)) with
  | error fault =>
    rw [built] at evaluated
    cases evaluated
  | ok request =>
    rw [built] at evaluated
    exact ⟨request, rfl, Option.some.inj evaluated, build_closed built⟩

end Request

end TableQuery
