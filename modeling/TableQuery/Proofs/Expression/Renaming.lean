/- Renamed attributes and replaced literals.

   The text of an expression holds tokens only. A second run, on attributes under other names and on other
   literals, goes as the first one does: its name table holds the other names in the same places and its
   literal table as many literals, so each step gives the same tokens. -/

import TableQuery.Proofs.Expression.Compiling

set_option autoImplicit false
set_option relaxedAutoImplicit false

namespace TableQuery

/-- A renaming of attributes: different names stay different, and no name becomes empty. The empty text is no
name. -/
structure Renaming (rename : Text → Text) : Prop where
  apart : ∀ {name other : Text}, name ≠ [] → other ≠ [] → rename name = rename other → name = other
  filled : ∀ {name : Text}, name ≠ [] → rename name ≠ []

/-- Tables after the attributes were renamed and the literals replaced: the other names in the same places,
and as many literals. -/
structure Tables.Renamed (rename : Text → Text) (tables other : Tables) : Prop where
  nameStem : other.names.stem = tables.names.stem
  valueStem : other.values.stem = tables.values.stem
  names : other.names.names = tables.names.names.map rename
  filled : ∀ name ∈ tables.names.names, name ≠ []
  values : other.values.values.length = tables.values.values.length

section

variable {rename : Text → Text}

private theorem Renaming.idxOf? (renames : Renaming rename) {name : Text} (filled : name ≠ []) {names : List Text}
    (all : ∀ other ∈ names, other ≠ []) : (names.map rename).idxOf? (rename name) = names.idxOf? name := by
  induction names with
  | nil => rfl
  | cons first names ih =>
    obtain ⟨first_filled, others⟩ := List.forall_mem_cons.mp all
    have same : (rename first == rename name) = (first == name) := by
      rw [Bool.eq_iff_iff, beq_iff_eq, beq_iff_eq]
      exact ⟨renames.apart first_filled filled, congrArg rename⟩
    rw [List.map_cons, List.idxOf?_cons, List.idxOf?_cons, same, ih others]

namespace Tables.Renamed

variable {tables other : Tables}

private theorem intern (renamed : tables.Renamed rename other) (renames : Renaming rename) {name : Text}
    (filled : name ≠ []) :
    (other.names.intern (rename name)).1 = (tables.names.intern name).1 ∧
      Tables.Renamed rename { tables with names := (tables.names.intern name).2 }
        { other with names := (other.names.intern (rename name)).2 } := by
  obtain ⟨nameStem, valueStem, names, all, values⟩ := renamed
  have same := renames.idxOf? filled all
  rw [← names] at same
  unfold NameTable.intern
  rw [same]
  cases tables.names.names.idxOf? name with
  | some index => exact ⟨by rw [nameStem], nameStem, valueStem, names, all, values⟩
  | none =>
    refine ⟨by rw [nameStem, names, List.length_map], nameStem, valueStem, ?_, ?_, values⟩
    · rw [names, List.map_append, List.map_singleton]
    · exact List.forall_mem_append.mpr ⟨all, List.forall_mem_singleton.mpr filled⟩

private theorem add (renamed : tables.Renamed rename other) (value value' : Value) :
    (other.values.add value').1 = (tables.values.add value).1 ∧
      Tables.Renamed rename { tables with values := (tables.values.add value).2 }
        { other with values := (other.values.add value').2 } := by
  obtain ⟨nameStem, valueStem, names, all, values⟩ := renamed
  refine ⟨by rw [ValueTable.add, ValueTable.add, valueStem, values], nameStem, valueStem, names, all, ?_⟩
  rw [ValueTable.add, ValueTable.add, List.length_append, List.length_append, values]
  rfl

end Tables.Renamed

end

namespace Compiling

variable {rename : Text → Text} {α β γ : Type}

/-- A second action follows a first one: where the first gives a result, the second gives the same result from
renamed tables, and leaves renamed tables. -/
def Follows (rename : Text → Text) (action other : Compiling α) : Prop :=
  ∀ (before before' after : Tables) (a : α), before.Renamed rename before' → Runs action before a after →
    ∃ after', Runs other before' a after' ∧ after.Renamed rename after'

private theorem follows_pure (a : α) : Follows rename (pure a) (pure a) := by
  intro before before' after b renamed h
  obtain ⟨rfl, rfl⟩ := runs_pure.mp h
  exact ⟨before', runs_pure.mpr ⟨rfl, rfl⟩, renamed⟩

private theorem follows_bind {action other : Compiling α} {next next' : α → Compiling β}
    (first : Follows rename action other) (later : ∀ a, Follows rename (next a) (next' a)) :
    Follows rename (action >>= next) (other >>= next') := by
  intro before before' after b renamed h
  obtain ⟨a, between, h, h'⟩ := runs_bind.mp h
  obtain ⟨between', run, renamed⟩ := first _ _ _ a renamed h
  obtain ⟨after', run', renamed⟩ := later a _ _ _ b renamed h'
  exact ⟨after', runs_bind.mpr ⟨a, between', run, run'⟩, renamed⟩

private theorem follows_lift_bind {x : Except Fault α} {y : Except Fault β} {next : α → Compiling γ}
    {next' : β → Compiling γ}
    (later : ∀ a, x = .ok a → ∃ b, y = .ok b ∧ Follows rename (next a) (next' b)) :
    Follows rename ((liftM x : Compiling α) >>= next) ((liftM y : Compiling β) >>= next') := by
  intro before before' after c renamed h
  obtain ⟨a, between, lifted, h⟩ := runs_bind.mp h
  obtain ⟨given, rfl⟩ := runs_lift.mp lifted
  obtain ⟨b, given', follows⟩ := later a given
  obtain ⟨after', run, renamed⟩ := follows _ _ _ c renamed h
  exact ⟨after', runs_bind.mpr ⟨b, before', runs_lift.mpr ⟨given', rfl⟩, run⟩, renamed⟩

private theorem follows_mapM {f : α → Compiling γ} {g : β → Compiling γ} {values : List α} {others : List β}
    (each : List.Forall₂ (fun a b => Follows rename (f a) (g b)) values others) :
    Follows rename (values.mapM f) (others.mapM g) := by
  induction each with
  | nil => exact follows_pure []
  | cons first _ ih =>
    rw [List.mapM_cons, List.mapM_cons]
    exact follows_bind first fun b => follows_bind ih fun rest => follows_pure (b :: rest)

private theorem follows_name (renames : Renaming rename) (n : Text) :
    Follows rename (name (.text n)) (name (.text (rename n))) := by
  intro before before' after t renamed h
  cases n with
  | nil => cases h
  | cons c rest =>
    have filled : (c :: rest : Text) ≠ [] := List.cons_ne_nil c rest
    obtain ⟨same, renamed⟩ := renamed.intern renames filled
    cases h
    obtain ⟨d, others, first⟩ := List.exists_cons_of_ne_nil (renames.filled filled)
    rw [first] at same renamed ⊢
    exact ⟨_, congrArg (fun t => (Except.ok t, _)) same, renamed⟩

private theorem follows_value (v v' : Value) : Follows rename (value v) (value v') := by
  intro before before' after t renamed h
  obtain ⟨same, renamed⟩ := renamed.add v v'
  cases h
  exact ⟨_, congrArg (fun t => (Except.ok t, _)) same, renamed⟩

end Compiling

namespace Condition

open Compiling

/-- Operands for the same operator: where their number counts, it is the same. -/
structure Replaced (operator : Text) (operand other : Value) : Prop where
  between : operator = Text.ofString "between" →
    (sequence? operand).map List.length = (sequence? other).map List.length
  membership : operator = Text.ofString "in" →
    (members? operand).map List.length = (members? other).map List.length

variable {rename : Text → Text}

private theorem bounds_of_replaced {name name' : Text} {operand other low high : Value}
    (same : (sequence? operand).map List.length = (sequence? other).map List.length)
    (h : bounds name operand = .ok (low, high)) :
    ∃ low' high', bounds name' other = .ok (low', high') := by
  rw [bounds_eq_ok.mp h] at same
  obtain ⟨items, found, two⟩ := Option.map_eq_some_iff.mp same.symm
  obtain ⟨low', high', rfl⟩ := List.length_eq_two.mp two
  exact ⟨low', high', bounds_eq_ok.mpr found⟩

private theorem choices_of_replaced {name name' : Text} {operand other : Value} {values : List Value}
    (same : (members? operand).map List.length = (members? other).map List.length)
    (h : choices name operand = .ok values) :
    ∃ values', choices name' other = .ok values' ∧ values.length = values'.length := by
  obtain ⟨found, filled, within⟩ := choices_eq_ok.mp h
  rw [found] at same
  obtain ⟨values', found', count⟩ := Option.map_eq_some_iff.mp same.symm
  rw [← count] at filled within
  exact ⟨values', choices_eq_ok.mpr ⟨found', filled, within⟩, count.symm⟩

private theorem follows_compileClause (renames : Renaming rename) (n operator : Text) {operand other : Value}
    (replaced : Replaced operator operand other) :
    Follows rename (compileClause n operator operand) (compileClause (rename n) operator other) := by
  refine follows_bind (follows_name renames n) fun subject => ?_
  have unary : ∀ form : Text → Clause,
      Follows rename (value operand >>= fun t => pure (form t)) (value other >>= fun t => pure (form t)) :=
    fun form => follows_bind (follows_value operand other) fun t => follows_pure (form t)
  cases known : Operator.ofName? operator with
  | none =>
    intro before before' after a renamed h
    exact absurd h not_runs_throw
  | some op =>
    obtain rfl := Operator.eq_word known
    cases op with
    | comparison sort => exact unary _
    | beginsWith => exact unary _
    | contains => exact unary _
    | lacks => exact unary _
    | between =>
      refine follows_lift_bind ?_
      rintro ⟨low, high⟩ bounded
      obtain ⟨low', high', bounded'⟩ := bounds_of_replaced (replaced.between rfl) bounded
      refine ⟨(low', high'), bounded', ?_⟩
      exact follows_bind (follows_value low low') fun l =>
        follows_bind (follows_value high high') fun u => follows_pure _
    | membership =>
      refine follows_lift_bind ?_
      intro values chosen
      obtain ⟨values', chosen', same⟩ := choices_of_replaced (replaced.membership rfl) chosen
      refine ⟨values', chosen', ?_⟩
      have each : List.Forall₂ (fun v v' => Follows rename (value v) (value v')) values values' :=
        List.forall₂_iff_zip.mpr ⟨same, fun _ => follows_value _ _⟩
      exact follows_bind (follows_mapM each) fun tokens => follows_pure _
    | absent => exact follows_pure _
    | present => exact follows_pure _

/-- Bodies with the same operators, where the operands of each are replaced. -/
def BodyReplaced (body other : Value) : Prop :=
  ∃ operators operators' : Record, body = .map operators ∧ other = .map operators' ∧
    List.Forall₂
      (fun entry entry' => entry.1 = entry'.1 ∧
        ∀ operator, entry.1.plain? = some operator → Replaced operator entry.2 entry'.2)
      operators operators'

/-- An attribute under its other name, with a body of replaced operands. -/
def EntryRenamed (rename : Text → Text) (entry other : Value × Value) : Prop :=
  (∃ name, entry.1.plain? = some name ∧ other.1.plain? = some (rename name)) ∧
    BodyReplaced entry.2 other.2

/-- Conditions for renamed attributes with replaced operands; where there are no conditions, there are none
afterwards. -/
inductive Renamed (rename : Text → Text) : Value → Value → Prop
  | absent {given other : Value} (untruthy : given.isTruthy = false) (untruthy' : other.isTruthy = false) :
    Renamed rename given other
  | map {conditions others : Record} (each : List.Forall₂ (EntryRenamed rename) conditions others) :
    Renamed rename (.map conditions) (.map others)

private theorem checkBody_of_replaced {allowed : List Text} {name name' body other : Value}
    (replaced : BodyReplaced body other) (checked : checkBody allowed name body = .ok ()) :
    checkBody allowed name' other = .ok () := by
  obtain ⟨operators, operators', rfl, rfl, all⟩ := replaced
  obtain ⟨_, body, filled, words⟩ := checkBody_eq_ok.mp checked
  obtain rfl := Value.map.inj body
  refine checkBody_eq_ok.mpr ⟨operators', rfl, ?_, ?_⟩
  · rintro rfl
    exact filled (List.forall₂_nil_right_iff.mp all)
  · intro entry' member
    obtain ⟨entry, among, same, -⟩ := exists_of_forall₂ all.flip member
    exact same ▸ words entry among

/-- A demand for a renamed attribute, with replaced operands. -/
private def DemandRenamed (rename : Text → Text) (demand other : Value × Value × Value) : Prop :=
  (∃ name, demand.1.plain? = some name ∧ other.1.plain? = some (rename name)) ∧
    demand.2.1 = other.2.1 ∧
    ∀ operator, demand.2.1.plain? = some operator → Replaced operator demand.2.2 other.2.2

private theorem demands_renamed {conditions others : Record}
    (each : List.Forall₂ (EntryRenamed rename) conditions others) :
    List.Forall₂ (DemandRenamed rename) (demands conditions) (demands others) := by
  refine List.rel_flatMap each ?_
  rintro ⟨name, body⟩ ⟨name', body'⟩ ⟨named, operators, operators', rfl, rfl, all⟩
  refine List.forall₂_map_left_iff.mpr (List.forall₂_map_right_iff.mpr (all.imp ?_))
  rintro ⟨operator, operand⟩ ⟨operator', operand'⟩ ⟨same, replaced⟩
  exact ⟨named, same, replaced⟩

private theorem follows_compileDemand (renames : Renaming rename) {demand other : Value × Value × Value}
    (renamed : DemandRenamed rename demand other) :
    Follows rename (compileDemand demand) (compileDemand other) := by
  obtain ⟨⟨n, named, named'⟩, same, replaced⟩ := renamed
  refine follows_lift_bind ?_
  intro name hname
  obtain rfl : n = name := Option.some.inj (named.symm.trans (Value.plain_eq_ok.mp hname))
  refine ⟨rename n, Value.plain_eq_ok.mpr named', follows_lift_bind ?_⟩
  intro word hword
  refine ⟨word, same ▸ hword, ?_⟩
  exact follows_compileClause renames n word (replaced word (Value.plain_eq_ok.mp hword))

private theorem follows_compileRecord (renames : Renaming rename) (allowed : List Text) {conditions others : Record}
    (each : List.Forall₂ (EntryRenamed rename) conditions others) :
    Follows rename (compileRecord allowed conditions) (compileRecord allowed others) := by
  refine follows_lift_bind ?_
  intro _ checked
  have follows := follows_mapM ((demands_renamed each).imp fun _ _ => follows_compileDemand renames)
  refine ⟨(), forM_eq_ok.mpr ?_, follows⟩
  intro other member
  obtain ⟨condition, among, -, replaced⟩ := exists_of_forall₂ each.flip member
  exact checkBody_of_replaced replaced (forM_eq_ok.mp checked condition among)

/-- Compiling conditions for renamed attributes follows compiling the conditions. -/
private theorem follows_compile (renames : Renaming rename) (allowed : List Text) {given other : Value}
    (renamed : Renamed rename given other) :
    Follows rename (compile allowed given) (compile allowed other) := by
  cases renamed with
  | absent untruthy untruthy' =>
    rw [compile, compile, untruthy, untruthy']
    exact follows_pure []
  | @map conditions others each =>
    have all := each
    cases each with
    | nil => exact follows_pure []
    | cons _ _ =>
      refine follows_lift_bind ?_
      intro record given
      obtain rfl := Except.ok.inj given
      exact ⟨_, rfl, follows_compileRecord renames allowed all⟩

end Condition

namespace Projection

open Compiling

variable {rename : Text → Text}

private theorem names_of_lists {v : Value} {listed : List Text} (lists : Lists v listed) :
    ∃ items, names v = .ok items ∧
      List.Forall₂ (fun item name => item.plain? = some name) items listed := by
  cases lists with
  | none untruthy => exact ⟨[], by simp [names, untruthy], .nil⟩
  | @single t filled =>
    have truthy : (Value.text t).isTruthy = true := by simpa [Value.isTruthy] using filled
    exact ⟨[.text t], by simp [names, truthy], .cons rfl .nil⟩
  | @each _ items _ truthy other found plain =>
    refine ⟨items, ?_, plain⟩
    unfold names
    rw [truthy, if_neg (by simp)]
    split
    · rename_i t
      exact absurd rfl (other t)
    · rw [Value.elements, found]

/-- Projections that list attributes and the same attributes renamed. -/
def Renamed (rename : Text → Text) (given other : Value) : Prop :=
  ∃ listed, Lists given listed ∧ Lists other (listed.map rename)

private theorem follows_compile (renames : Renaming rename) {given other : Value}
    (renamed : Renamed rename given other) : Follows rename (compile given) (compile other) := by
  obtain ⟨listed, lists, lists'⟩ := renamed
  obtain ⟨items, found, plain⟩ := names_of_lists lists
  obtain ⟨items', found', plain'⟩ := names_of_lists lists'
  refine follows_lift_bind ?_
  intro _ same
  obtain rfl := Except.ok.inj (found.symm.trans same)
  refine ⟨items', found', follows_mapM ?_⟩
  have step : ∀ {item item' : Value} {n : Text}, item.plain? = some n → item'.plain? = some (rename n) →
      Follows rename ((liftM item.plain : Compiling Text) >>= fun name => Compiling.name (.text name))
        ((liftM item'.plain : Compiling Text) >>= fun name => Compiling.name (.text name)) := by
    intro item item' n h h'
    refine follows_lift_bind ?_
    intro name hname
    obtain rfl : n = name := Option.some.inj (h.symm.trans (Value.plain_eq_ok.mp hname))
    exact ⟨rename n, Value.plain_eq_ok.mpr h', follows_name renames n⟩
  clear lists lists' found found' same
  induction plain generalizing items' with
  | nil =>
    cases plain'
    exact .nil
  | cons h _ ih =>
    cases plain' with
    | cons h' rest' => exact .cons (step h h') (ih _ rest')

end Projection

inductive Compilation where
  | conditions (allowed : List Text) (given : Value)
  | projection (given : Value)

namespace Compilation

open Compiling

def emit : Compilation → Compiling Text
  | .conditions allowed given => do return Clause.renderAll (← Condition.compile allowed given)
  | .projection given => do return Projection.render (← Projection.compile given)

inductive Renamed (rename : Text → Text) : Compilation → Compilation → Prop
  | conditions (allowed : List Text) {given other : Value} (renamed : Condition.Renamed rename given other) :
    Renamed rename (.conditions allowed given) (.conditions allowed other)
  | projection {given other : Value} (renamed : Projection.Renamed rename given other) :
    Renamed rename (.projection given) (.projection other)

private theorem follows_emit {rename : Text → Text} (renames : Renaming rename) {call other : Compilation}
    (renamed : Renamed rename call other) : Follows rename call.emit other.emit := by
  cases renamed with
  | conditions allowed renamed =>
    exact follows_bind (Condition.follows_compile renames allowed renamed) fun clauses => follows_pure _
  | projection renamed =>
    exact follows_bind (Projection.follows_compile renames renamed) fun tokens => follows_pure _

/-- **Names and literals never leak into expression text.** Calls that share a pair of tables, which are empty
at first, succeed one after another. The same calls for attributes under other names, and on other literals,
then succeed too, and emit the same texts, call by call; their tables hold the other names in the places of
the first ones, and as many literals. -/
theorem emitted_eq_of_renamed {rename : Text → Text} (renames : Renaming rename)
    (nameStem valueStem : Text) {calls others : List Compilation}
    (renamed : List.Forall₂ (Renamed rename) calls others) {texts : List Text} {after : Tables}
    (emitted : Runs (calls.mapM emit) ⟨.empty nameStem, .empty valueStem⟩ texts after) :
    ∃ after', Runs (others.mapM emit) ⟨.empty nameStem, .empty valueStem⟩ texts after' ∧
      after.Renamed rename after' := by
  have follows : Follows rename (calls.mapM emit) (others.mapM emit) :=
    follows_mapM (renamed.imp fun _ _ => follows_emit renames)
  have fresh : Tables.Renamed rename ⟨.empty nameStem, .empty valueStem⟩
      ⟨.empty nameStem, .empty valueStem⟩ :=
    ⟨rfl, rfl, rfl, fun name member => absurd member List.not_mem_nil, rfl⟩
  exact follows _ _ _ texts fresh emitted

/-- Two calls on attributes that are named like tokens, operators and parts of expressions: a range with
literals that look like tokens, a membership of a set, and a projection that has both attributes again. -/
theorem emitted_eq_of_renamed_of_lookalikes :
    let rename : Text → Text := fun name => Text.ofString "#_a1 AND " ++ name
    let conditions (first second : Text) (low high : Value) (members : List Value) : Value :=
      .map [(.text first, .map [(.text "between", .list [low, high]), (.text "null", .bool true)]),
        (.text second, .map [(.text "in", .set false members)])]
    let calls (first second : Text) (low high : Value) (members : List Value) : List Compilation :=
      [.conditions Operator.filterNames (conditions first second low high members),
        .projection (.list [.text second, .text first])]
    let one := calls "size" ":_a0" (.int 1) (.int 2) [.text "a", .text "b"]
    let other := calls (rename "size") (rename ":_a0") (.text ":_a9") (.text " AND ") [.null, .int 7]
    let texts : List Text :=
      ["#_a0 BETWEEN :_a0 AND :_a1 AND attribute_not_exists(#_a0) AND #_a1 IN (:_a2, :_a3)", "#_a1, #_a0"]
    (∃ after, Runs (one.mapM emit) .fresh texts after) ∧
      ∃ after, Runs (other.mapM emit) .fresh texts after := by
  intro rename conditions calls one other texts
  have renames : Renaming rename :=
    { apart := fun _ _ same => List.append_cancel_left same
      filled := fun _ => List.append_ne_nil_of_left_ne_nil (by decide) _ }
  have bodies : Condition.Renamed rename (conditions "size" ":_a0" (.int 1) (.int 2) [.text "a", .text "b"])
      (conditions (rename "size") (rename ":_a0") (.text ":_a9") (.text " AND ") [.null, .int 7]) := by
    refine .map (.cons ⟨⟨_, rfl, rfl⟩, _, _, rfl, rfl, ?_⟩ (.cons ⟨⟨_, rfl, rfl⟩, _, _, rfl, rfl, ?_⟩ .nil))
    · exact .cons ⟨rfl, fun _ _ => ⟨fun _ => rfl, fun _ => rfl⟩⟩
        (.cons ⟨rfl, fun _ _ => ⟨fun _ => rfl, fun _ => rfl⟩⟩ .nil)
    · exact .cons ⟨rfl, fun _ _ => ⟨fun _ => rfl, fun _ => rfl⟩⟩ .nil
  have lists : ∀ first second : Text,
      Projection.Lists (.list [.text second, .text first]) [second, first] := fun _ _ =>
    .each rfl (fun _ => nofun) rfl (.cons rfl (.cons rfl .nil))
  have renamed : List.Forall₂ (Renamed rename) one other :=
    .cons (.conditions _ bodies) (.cons (.projection ⟨_, lists _ _, lists _ _⟩) .nil)
  have emitted := runs_of_toOption (by decide +kernel :
    ((one.mapM emit).runOn .fresh).1.toOption = some texts)
  obtain ⟨after', emitted', -⟩ := emitted_eq_of_renamed renames _ _ renamed emitted
  exact ⟨⟨_, emitted⟩, after', emitted'⟩

end Compilation

end TableQuery
