/- The text of conditions determines the conditions.

   Conditions may be compiled over tables that hold entries already. The text that they give is read by the
   grammar in one way, and resolving its tokens gives the conditions back, demand by demand. The operands are
   tokens that were not there before. -/

import TableQuery.Proofs.Expression.Numbering

set_option autoImplicit false
set_option relaxedAutoImplicit false

namespace TableQuery

open Grammar

def Grammar.Reads (t : Text) (phrases : List Phrase) : Prop :=
  if t = [] then phrases = [] else Conjunction phrases (words t)

/-- The text of clauses of tokens is read as the clauses, and as nothing else. -/
private theorem Clause.reads_renderAll {clauses : List Clause} (proper : ∀ clause ∈ clauses, clause.Proper)
    (others : List Phrase) : Reads (renderAll clauses) others ↔ others = clauses.map phrase := by
  by_cases none : clauses = []
  · subst none
    exact Iff.rfl
  · have spelled := Clause.conjunction none proper
    have filled : renderAll clauses ≠ [] := by
      intro empty
      apply spelled.ne_nil
      rw [empty, words_nil]
    rw [Reads, if_neg filled]
    constructor
    · intro read
      exact read.unique spelled
    · rintro rfl
      exact spelled

/-- What a clause demands when its tokens are resolved. -/
def Tables.demanded? (tables : Tables) (phrase : Phrase) : Option Demand := do
  let subject ← tables.names.resolve? phrase.subject
  let operands ← phrase.operands.mapM tables.values.resolve?
  return { operator := phrase.operator, subject, operands }

private theorem Tables.Means.demanded? {tables : Tables} {phrase : Phrase} {demand : Demand}
    (meaning : tables.Means phrase demand) : tables.demanded? phrase = some demand := by
  have operands : phrase.operands.mapM tables.values.resolve? = some demand.operands :=
    mapM_eq_some.mpr meaning.operands
  rw [Tables.demanded?, meaning.subject, operands, meaning.operator]
  rfl

namespace Demand

/-- What conditions demand, attribute by attribute and operator by operator, if attributes and operators have
plain forms and each attribute has a map of operators. -/
def ofRecord? : Record → Option (List Demand)
  | [] => some []
  | (name, .map operators) :: conditions => do
    let here ← operators.mapM fun entry => ofParts? (name, entry)
    return here ++ (← ofRecord? conditions)
  | _ => none

private theorem ofRecord?_eq {conditions : Record} (bodies : ∀ condition ∈ conditions, Condition.IsBody condition.2) :
    ofRecord? conditions = (Condition.demands conditions).mapM ofParts? := by
  induction conditions with
  | nil => rfl
  | cons condition conditions ih =>
    obtain ⟨name, body⟩ := condition
    obtain ⟨⟨operators, rfl, -⟩, others⟩ := List.forall_mem_cons.mp bodies
    have parts : Condition.demands ((name, .map operators) :: conditions) =
        operators.map (fun entry => (name, entry)) ++ Condition.demands conditions := List.flatMap_cons
    rw [parts, List.mapM_append, List.mapM_map, ← ih others]
    rfl

end Demand

namespace Tables

/-- The literals entered since there were the first tables have the literal tokens among those that occurred
since; the stems are those of requests. -/
structure Minted (first tables : Tables) (occurred : List Text) : Prop where
  nameStem : tables.names.stem = NameTable.requestStem
  valueStem : tables.values.stem = ValueTable.requestStem
  literals : tables.values.entries.map Prod.fst =
    first.values.entries.map Prod.fst ++ literalTokens occurred

variable {first tables : Tables} {occurred : List Text}

private theorem Minted.intern (minted : first.Minted tables occurred) (name : Text) :
    first.Minted { tables with names := (tables.names.intern name).2 }
      (occurred ++ [(tables.names.intern name).1]) := by
  obtain ⟨nameStem, valueStem, literals⟩ := minted
  obtain ⟨stem, -, stands⟩ := tables.names.intern_spec name
  have requestStem := stem.trans nameStem
  have isName := NameTable.isName_of_resolve requestStem stands
  refine ⟨requestStem, valueStem, ?_⟩
  rw [literalTokens_append, (kinds_of_isName isName).2, List.append_nil]
  exact literals

private theorem Minted.add (minted : first.Minted tables occurred) (value : Value) :
    first.Minted { tables with values := (tables.values.add value).2 }
      (occurred ++ [(tables.values.add value).1]) := by
  obtain ⟨nameStem, valueStem, literals⟩ := minted
  obtain ⟨stem, -, stands⟩ := tables.values.add_spec value
  have requestStem := stem.trans valueStem
  have isLiteral := ValueTable.isLiteral_of_resolve requestStem stands
  refine ⟨nameStem, requestStem, ?_⟩
  rw [literalTokens_append, (kinds_of_isLiteral isLiteral).2, ← List.append_assoc, ← literals]
  simp only [ValueTable.entries_add, List.map_append, List.map_singleton]

private theorem accounts_minted (first : Tables) : Compiling.Accounts first.Minted := ⟨Minted.intern, Minted.add⟩

end Tables

namespace Condition

open Compiling

private theorem runs_map {allowed : List Text} {conditions : Record} {before after : Tables} {clauses : List Clause}
    (h : Runs (compile allowed (.map conditions)) before clauses after) :
    Runs (compileRecord allowed conditions) before clauses after := by
  cases conditions with
  | nil => exact h
  | cons condition conditions =>
    obtain ⟨record, _, lifted, h⟩ := runs_bind.mp h
    obtain ⟨given, rfl⟩ := runs_lift.mp lifted
    obtain rfl := Except.ok.inj given
    exact h

/-- **The text of conditions determines the conditions.** The tables may hold any entries under the stems of
requests when conditions are compiled. The text that comes out is read by the grammar in one way. Its tokens,
resolved by the tables afterwards, give back what the conditions demand, in their order. The tokens of
literals are all different: first those that were there, then the operands in the order in which the text has
them. -/
theorem text_determines_demands {allowed : List Text} {conditions : Record} {before after : Tables}
    {clauses : List Clause} (nameStem : before.names.stem = NameTable.requestStem)
    (valueStem : before.values.stem = ValueTable.requestStem)
    (compiled : Runs (compile allowed (.map conditions)) before clauses after) :
    ∃ demands phrases, Demand.ofRecord? conditions = some demands ∧
      (∀ others, Reads (Clause.renderAll clauses) others ↔ others = phrases) ∧
      phrases.mapM after.demanded? = some demands ∧
      (after.values.entries.map Prod.fst).Nodup ∧
      after.values.entries.map Prod.fst =
        before.values.entries.map Prod.fst ++ phrases.flatMap Phrase.operands := by
  have run := runs_map compiled
  obtain ⟨extended, bodies, related⟩ := runs_demands run
  obtain ⟨demands, made, meanings⟩ := forall₂_split related
  have proper : ∀ clause ∈ clauses, clause.Proper := by
    intro clause member
    obtain ⟨demand, -, meaning⟩ := exists_of_forall₂ meanings.flip member
    exact meaning.proper (extended.nameStem.trans nameStem) (extended.valueStem.trans valueStem)
  have start : before.Minted before [] := ⟨nameStem, valueStem, (List.append_nil _).symm⟩
  have minted := ((Tables.accounts_minted before).compileRecord run start).literals
  have operands : literalTokens (clauses.flatMap Clause.tokens) =
      (clauses.map Clause.phrase).flatMap Phrase.operands := by
    rw [literalTokens, List.filter_flatMap, List.flatMap_map]
    exact List.flatMap_congr fun clause member => (proper clause member).literalTokens
  refine ⟨demands, clauses.map Clause.phrase, ?_, Clause.reads_renderAll proper, ?_, ?_, ?_⟩
  · rw [Demand.ofRecord?_eq bodies]
    exact mapM_eq_some.mpr made
  · rw [List.mapM_map]
    exact mapM_eq_some.mpr (meanings.flip.imp fun _ _ meaning => meaning.demanded?)
  · exact after.values.entries_nodup
  · rw [minted, List.nil_append, operands]

/-- Tables that hold an attribute and nine literals: a range and an absence of this attribute, and a
membership of an attribute that is named by a number. -/
theorem text_determines_demands_of_used_tables :
    let before : Tables :=
      ⟨⟨NameTable.requestStem, ["age"]⟩, ⟨ValueTable.requestStem, List.replicate 9 .null⟩⟩
    let conditions : Record :=
      [(.text "age", .map [(.text "between", .tuple [.int 1, .int 2]), (.text "null", .bool true)]),
        (.int 7, .map [(.text "in", .set false [.text "a", .text "b"])])]
    let demands : List Demand :=
      [⟨"between", "age", [.int 1, .int 2]⟩, ⟨"null", "age", []⟩, ⟨"in", "7", [.text "a", .text "b"]⟩]
    ∃ clauses after phrases, Runs (compile Operator.filterNames (.map conditions)) before clauses after ∧
      Clause.renderAll clauses =
        "#_a0 BETWEEN :_a9 AND :_a10 AND attribute_not_exists(#_a0) AND #_a1 IN (:_a11, :_a12)" ∧
      (∀ others, Reads (Clause.renderAll clauses) others ↔ others = phrases) ∧
      phrases.mapM after.demanded? = some demands := by
  intro before conditions demands
  have compiled := runs_of_toOption (by decide +kernel :
    ((compile Operator.filterNames (.map conditions)).runOn before).1.toOption =
      some [.between "#_a0" ":_a9" ":_a10", .absent "#_a0", .membership "#_a1" [":_a11", ":_a12"]])
  obtain ⟨found, phrases, given, read, resolved, -⟩ := text_determines_demands rfl rfl compiled
  have demanded : Demand.ofRecord? conditions = some demands := rfl
  obtain rfl : demands = found := Option.some.inj (demanded.symm.trans given)
  exact ⟨_, _, phrases, compiled, by decide +kernel, read, resolved⟩

end Condition

end TableQuery
