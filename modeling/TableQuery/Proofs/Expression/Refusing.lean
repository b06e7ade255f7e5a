/- Conditions and projections that cannot be used are refused.

   Compiling either succeeds or refuses what it was given, if what is asked for as text has a plain form, the
   operands can be counted, and the literals fit the wire. The tables then hold no other literals. -/

import TableQuery.Depth
import TableQuery.Proofs.Attribute.Depth
import TableQuery.Proofs.Expression.Compiling
import TableQuery.Proofs.Value.Fitting

set_option autoImplicit false
set_option relaxedAutoImplicit false

namespace TableQuery

namespace Condition

section Operands

variable {sort : Fault → Prop} (refused : ∀ why, sort (.refused why)) {operand : Value}
  (uncountable : countLimit < operand.items.length → sort .tooLarge)

private theorem counted_fails {items : List Value} (uncountable : countLimit < items.length → sort .tooLarge) :
    FailsOnly sort (counted items) := by
  unfold counted
  split
  next large => exact .error (uncountable large)
  · exact .ok items

include refused uncountable

theorem bounds_fails (name : Text) : FailsOnly sort (bounds name operand) := by
  unfold bounds
  split
  · exact .error (refused _)
  next items listed =>
    rw [items_of_sequence listed] at uncountable
    refine (counted_fails uncountable).bind fun counted _ => ?_
    split
    · exact .ok _
    · exact .error (refused _)

theorem choices_fails (name : Text) : FailsOnly sort (choices name operand) := by
  unfold choices
  split
  · exact .error (refused _)
  · exact .error (refused _)
  next values _ listed =>
    rw [items_of_members listed] at uncountable
    refine (counted_fails uncountable).bind fun counted _ => ?_
    split
    · exact .error (refused _)
    · exact .ok _

end Operands

def Printable (conditions : Record) : Prop :=
  ∀ condition ∈ conditions, condition.1.plain?.isSome = true ∧
    ∀ operators, condition.2 = .map operators → ∀ entry ∈ operators, entry.1.plain?.isSome = true

theorem check_refuses {conditions : Record} (printable : Printable conditions) (allowed : List Text) :
    FailsOnly Fault.IsRefusal (check allowed conditions) := by
  refine .forM fun condition member => ?_
  obtain ⟨named, writable⟩ := printable condition member
  obtain ⟨name, quoted⟩ := Value.quote_of_isSome (Value.quoted_of_plain named)
  unfold checkBody
  split
  next entry entries body =>
    refine .forM fun operator among => ?_
    unfold checkOperator
    split
    · exact .ok ()
    · obtain ⟨word, plain⟩ := Value.plain_of_isSome (writable _ body operator among)
      rw [quoted, plain]
      exact .refused _
  · rw [quoted]
    exact .refused _

end Condition

section Refusals

variable [DepthLimits]

/-- A value can be printed: it has a plain form, and there is room for it. -/
structure Value.Printable (v : Value) : Prop where
  plain : v.plain?.isSome = true
  room : v.nesting ≤ DepthLimits.writable

theorem Value.Printable.text (t : Text) : (Value.text t).Printable := ⟨rfl, DepthLimits.writable_pos⟩

/-- A literal fits the wire, and there is room for it. -/
def Value.FitsRoom (literal : Value) : Prop :=
  literal.fits = true ∧ literal.nesting ≤ DepthLimits.writable

/-- Operands that can be counted, each of which fits. -/
structure Demand.OperandsFit (literals : List Value) : Prop where
  counted : literals.length ≤ Condition.countLimit
  each : ∀ literal ∈ literals, literal.FitsRoom

/-- All literals in the tables fit. -/
def Tables.Fit (tables : Tables) : Prop := ∀ literal ∈ tables.values.values, literal.FitsRoom

namespace Compiling

variable {α β : Type}

/-- From tables whose literals fit, an action fails only with a refusal and leaves such tables. -/
def Refuses (action : Compiling α) : Prop :=
  ∀ before : Tables, before.Fit →
    FailsOnly Fault.IsRefusal (action.runOn before).1 ∧ (action.runOn before).2.Fit

theorem refuses_pure (a : α) : Refuses (pure a) := fun _ fit => ⟨.ok a, fit⟩

private theorem refuses_throw (why : Refusal) : Refuses (throw (.refused why) : Compiling α) :=
  fun _ fit => ⟨.refused why, fit⟩

theorem refuses_bind {action : Compiling α} {next : α → Compiling β} (first : Refuses action)
    (later : ∀ a, Refuses (next a)) : Refuses (action >>= next) := by
  intro before fit
  have step : (action >>= next).runOn before =
      ExceptT.bindCont next (action.runOn before).1 (action.runOn before).2 := rfl
  obtain ⟨fails, keeps⟩ := first before fit
  rw [step]
  cases outcome : (action.runOn before).1 with
  | error fault =>
    rw [outcome] at fails
    exact ⟨.error (fails fault rfl), keeps⟩
  | ok a => exact later a _ keeps

private theorem refuses_lift_bind {x : Except Fault α} {next : α → Compiling β}
    (first : FailsOnly Fault.IsRefusal x) (later : ∀ a, x = .ok a → Refuses (next a)) :
    Refuses ((liftM x : Compiling α) >>= next) := by
  cases x with
  | error fault => exact fun _ fit => ⟨.error (first fault rfl), fit⟩
  | ok a => exact later a rfl

private theorem refuses_mapM {f : α → Compiling β} {values : List α} (each : ∀ a ∈ values, Refuses (f a)) :
    Refuses (values.mapM f) := by
  induction values with
  | nil => exact refuses_pure []
  | cons a values ih =>
    obtain ⟨first, others⟩ := List.forall_mem_cons.mp each
    rw [List.mapM_cons]
    refine refuses_bind first fun b => ?_
    exact refuses_bind (ih others) fun rest => refuses_pure (b :: rest)

private theorem refuses_name (n : Text) : Refuses (name (.text n)) := by
  cases n with
  | nil => exact refuses_throw _
  | cons c rest => exact fun _ fit => ⟨.ok _, fit⟩

private theorem refuses_value {v : Value} (h : v.FitsRoom) : Refuses (value v) := by
  intro before fit
  refine ⟨.ok _, ?_⟩
  exact List.forall_mem_append.mpr ⟨fit, List.forall_mem_singleton.mpr h⟩

end Compiling

namespace Condition

open Compiling

private theorem refuses_unary {operand : Value} (fit : operand.FitsRoom) (form : Text → Clause) :
    Refuses (value operand >>= fun t => pure (form t)) :=
  refuses_bind (refuses_value fit) fun t => refuses_pure (form t)

/-- A clause of literals that fit is compiled or refused. -/
private theorem refuses_compileClause {n operator : Text} {operand : Value}
    (fit : Demand.OperandsFit (Demand.operandsOf operator operand)) :
    Refuses (compileClause n operator operand) := by
  have refused : ∀ why, (Fault.refused why).IsRefusal := fun why => ⟨why, rfl⟩
  have each := fit.each
  refine refuses_bind (refuses_name n) fun subject => ?_
  cases known : Operator.ofName? operator with
  | none => exact refuses_throw _
  | some op =>
    obtain rfl := Operator.eq_word known
    cases op with
    | comparison sort =>
      have single : Demand.operandsOf (Operator.comparison sort).word operand = [operand] := by
        cases sort <;> rfl
      rw [single, List.forall_mem_singleton] at each
      exact refuses_unary each _
    | beginsWith => exact refuses_unary (each operand List.mem_cons_self) _
    | contains => exact refuses_unary (each operand List.mem_cons_self) _
    | lacks => exact refuses_unary (each operand List.mem_cons_self) _
    | between =>
      have items : ∀ literal ∈ operand.items, literal.FitsRoom := each
      have countable : operand.items.length ≤ countLimit := fit.counted
      refine refuses_lift_bind (bounds_fails refused (absurd · (Nat.not_lt.mpr countable)) n) ?_
      rintro ⟨low, high⟩ bounded
      rw [items_of_sequence (bounds_eq_ok.mp bounded)] at items
      refine refuses_bind (refuses_value (items low List.mem_cons_self)) fun l => ?_
      exact refuses_unary (items high (List.mem_cons_of_mem _ List.mem_cons_self)) _
    | membership =>
      have items : ∀ literal ∈ operand.items, literal.FitsRoom := each
      have countable : operand.items.length ≤ countLimit := fit.counted
      refine refuses_lift_bind (choices_fails refused (absurd · (Nat.not_lt.mpr countable)) n) ?_
      intro values chosen
      rw [items_of_members (choices_eq_ok.mp chosen).1] at items
      exact refuses_bind (refuses_mapM fun v member => refuses_value (items v member)) fun _ => refuses_pure _
    | absent => exact refuses_pure _
    | present => exact refuses_pure _

/-- A body of operators whose faults are refused: operators can be printed, and what they make of their operands
fits. -/
def BodyFit (body : Value) : Prop :=
  ∀ operators, body = .map operators → ∀ entry ∈ operators, entry.1.Printable ∧
    ∀ operator, entry.1 = .text operator → Demand.OperandsFit (Demand.operandsOf operator entry.2)

/-- Conditions whose faults are refused: attributes can be printed, and the bodies fit. -/
structure Fit (conditions : Record) : Prop where
  names : ∀ condition ∈ conditions, condition.1.Printable
  bodies : ∀ condition ∈ conditions, BodyFit condition.2

private theorem Fit.printable {conditions : Record} (fit : Fit conditions) : Printable conditions :=
  fun condition member => ⟨(fit.names condition member).plain, fun operators body entry among =>
    (fit.bodies condition member operators body entry among).1.plain⟩

theorem refuses_compileRecord {conditions : Record} (fit : Fit conditions) (allowed : List Text) :
    Refuses (compileRecord allowed conditions) := by
  -- All operators are checked before the first token is made, so the operands are those of known operators.
  refine refuses_lift_bind (check_refuses fit.printable allowed) ?_
  intro _ checked
  refine refuses_mapM ?_
  rintro ⟨name, operator, operand⟩ member
  obtain ⟨operators, among, entry⟩ := mem_demands.mp member
  obtain ⟨n, hname⟩ := Value.plain_of_isSome (fit.names _ among).plain
  obtain ⟨word, -, text⟩ := allowed_of_check checked among _ entry
  obtain rfl : operator = .text word := text
  have literals := (fit.bodies _ among operators rfl _ entry).2 word rfl
  unfold compileDemand
  refine refuses_lift_bind (fun fault failed => nomatch hname.symm.trans failed) fun _ _ => ?_
  refine refuses_lift_bind (.ok word) fun operator same => ?_
  obtain rfl : word = operator := Except.ok.inj same
  exact refuses_compileClause literals

end Condition

namespace Projection

open Compiling

/-- A projection whose faults are refused: if it is given, it is a container of values that can be printed. -/
def Fit (project : Value) : Prop :=
  project.isTruthy = true →
    ∃ items, project.elements? = some items ∧ ∀ item ∈ items, item.Printable

private theorem names_of_fit {project : Value} (fit : Fit project) :
    ∃ listed, names project = .ok listed ∧ ∀ item ∈ listed, item.Printable := by
  unfold names
  cases truthy : project.isTruthy with
  | false => exact ⟨[], rfl, fun item member => absurd member List.not_mem_nil⟩
  | true =>
    obtain ⟨items, found, printable⟩ := fit truthy
    rw [if_neg (by simp)]
    split
    · rename_i t
      exact ⟨[.text t], rfl, List.forall_mem_singleton.mpr (.text t)⟩
    · exact ⟨items, by rw [Value.elements, found], printable⟩

theorem refuses_compile {project : Value} (fit : Fit project) : Refuses (compile project) := by
  obtain ⟨listed, named, printable⟩ := names_of_fit fit
  refine refuses_lift_bind (fun fault failed => nomatch named.symm.trans failed) ?_
  intro items same
  obtain rfl : listed = items := Except.ok.inj (named.symm.trans same)
  refine refuses_mapM ?_
  intro item member
  obtain ⟨t, plain⟩ := Value.plain_of_isSome (printable item member).plain
  exact refuses_lift_bind (fun fault failed => nomatch plain.symm.trans failed) fun name _ => refuses_name name

end Projection

end Refusals

end TableQuery
