/- Conditions are validated before anything is compiled.

   Bodies and operators of all conditions are checked before the first token is made. The check stops at the first
   flawed condition, and the tables are then as they were, so that the calls that follow do not notice. -/

import TableQuery.Proofs.Expression.Sequences

set_option autoImplicit false
set_option relaxedAutoImplicit false

namespace TableQuery.Condition

open Compiling

/-- The fault that a flawed condition gives: its body is no map that is filled, or the first of its operators that
is not an allowed one is named. Both name the attribute as well, and what cannot be written is at fault itself. -/
inductive Objection (allowed : List Text) : Value × Value → Fault → Prop where
  | unfilled {name body : Value} {quotation : Text} (quoted : name.quoted? = some quotation)
      (unfilled : ¬ ∃ operators, operators ≠ [] ∧ body = .map operators) :
      Objection allowed (name, body) (.refused (.conditionEmpty quotation))
  | operator {name operator operand : Value} {front back : Record} {quotation word : Text}
      (quoted : name.quoted? = some quotation) (before : ∀ entry ∈ front, ∃ word ∈ allowed, entry.1 = .text word)
      (refused : ∀ word ∈ allowed, operator ≠ .text word) (plain : operator.plain? = some word) :
      Objection allowed (name, .map (front ++ (operator, operand) :: back))
        (.refused (.operatorRefused quotation word))
  | unquoted {name body : Value} (unquoted : name.quoted? = none) (flawed : Flawed allowed (name, body)) :
      Objection allowed (name, body) (.unusable .integerUnwritable)
  | unwritable {name operator operand : Value} {front back : Record}
      (before : ∀ entry ∈ front, ∃ word ∈ allowed, entry.1 = .text word)
      (refused : ∀ word ∈ allowed, operator ≠ .text word) (plain : operator.plain? = none) :
      Objection allowed (name, .map (front ++ (operator, operand) :: back)) operator.plainFault

/-- All attributes can be quoted, and all operators have plain forms. -/
def Writable (conditions : Record) : Prop :=
  ∀ condition ∈ conditions, condition.1.quoted?.isSome = true ∧ ∀ operators, condition.2 = .map operators →
    ∀ entry ∈ operators, entry.1.plain?.isSome = true

variable {allowed : List Text} {conditions : Record}

private theorem flawed_of_operator {name operator operand : Value} {front back : Record}
    (refused : ∀ word ∈ allowed, operator ≠ .text word) :
    Flawed allowed (name, .map (front ++ (operator, operand) :: back)) :=
  .inr ⟨_, rfl, _, List.mem_append_right _ List.mem_cons_self, refused⟩

theorem Objection.flawed {condition : Value × Value} {fault : Fault} (objection : Objection allowed condition fault) :
    Flawed allowed condition := by
  cases objection with
  | unfilled _ unfilled => exact .inl unfilled
  | operator _ _ refused _ => exact flawed_of_operator refused
  | unquoted _ flawed => exact flawed
  | unwritable _ refused _ => exact flawed_of_operator refused

private theorem Objection.isRefusal {condition : Value × Value} {fault : Fault}
    (objection : Objection allowed condition fault)
    (member : condition ∈ conditions) (writable : Writable conditions) : fault.IsRefusal := by
  obtain ⟨named, operators⟩ := writable _ member
  cases objection with
  | unfilled _ _ => exact ⟨_, rfl⟩
  | operator _ _ _ _ => exact ⟨_, rfl⟩
  | unquoted unquoted _ =>
    rw [unquoted] at named
    cases named
  | unwritable _ _ plain =>
    have written := operators _ rfl _ (List.mem_append_right _ List.mem_cons_self)
    rw [plain] at written
    cases written

private theorem objection_of_checkOperator {name operator operand : Value} {front back : Record} {fault : Fault}
    (before : ∀ entry ∈ front, ∃ word ∈ allowed, entry.1 = .text word)
    (failed : checkOperator allowed name operator = .error fault) :
    Objection allowed (name, .map (front ++ (operator, operand) :: back)) fault := by
  have refused : ∀ word ∈ allowed, operator ≠ .text word := by
    intro word among same
    rw [checkOperator_eq_ok_iff_exists.mpr ⟨word, among, same⟩] at failed
    cases failed
  unfold checkOperator at failed
  split at failed
  · cases failed
  rcases bind_eq_error.mp failed with unwritten | ⟨quotation, quoted, failed⟩
  · obtain ⟨unquoted, rfl⟩ := Value.quote_eq_error.mp unwritten
    exact .unquoted unquoted (flawed_of_operator refused)
  · rcases bind_eq_error.mp failed with unwritten | ⟨word, written, refusal⟩
    · obtain ⟨plain, rfl⟩ := Value.plain_eq_error.mp unwritten
      exact .unwritable before refused plain
    · obtain rfl := Except.error.inj refusal
      exact .operator (Value.quote_eq_ok.mp quoted) before refused (Value.plain_eq_ok.mp written)

private theorem objection_of_checkBody {name body : Value} {fault : Fault}
    (failed : checkBody allowed name body = .error fault) : Objection allowed (name, body) fault := by
  unfold checkBody at failed
  split at failed
  next entry entries =>
    obtain ⟨front, ⟨operator, operand⟩, back, listed, before, here⟩ := first_of_forM_error failed
    rw [listed]
    exact objection_of_checkOperator (fun entry member => checkOperator_eq_ok_iff_exists.mp (before entry member)) here
  next other =>
    have unfilled : ¬ ∃ operators, operators ≠ [] ∧ body = .map operators := by
      rintro ⟨operators, filled, rfl⟩
      obtain ⟨entry, entries, rfl⟩ := List.exists_cons_of_ne_nil filled
      exact other entry entries rfl
    rcases bind_eq_error.mp failed with unwritten | ⟨quotation, quoted, refusal⟩
    · obtain ⟨unquoted, rfl⟩ := Value.quote_eq_error.mp unwritten
      exact .unquoted unquoted (.inl unfilled)
    · obtain rfl := Except.error.inj refusal
      exact .unfilled (Value.quote_eq_ok.mp quoted) unfilled

private theorem first_flawed {fault : Fault} (failed : check allowed conditions = .error fault) :
    ∃ front condition back, conditions = front ++ condition :: back ∧ (∀ other ∈ front, ¬ Flawed allowed other) ∧
      Objection allowed condition fault := by
  obtain ⟨front, condition, back, listed, before, here⟩ := first_of_forM_error failed
  exact ⟨front, condition, back, listed, fun other member => checkBody_eq_ok_iff.mp (before other member),
    objection_of_checkBody here⟩

private theorem compile_of_check_error {fault : Fault} (failed : check allowed conditions = .error fault)
    (tables : Tables) :
    (compile allowed (.map conditions)).runOn tables = (.error fault, tables) := by
  cases conditions with
  | nil => cases failed
  | cons condition conditions =>
    change (compileRecord allowed (condition :: conditions)).runOn tables = _
    rw [compileRecord, failed]
    rfl

/-- **Flawed conditions leave no trace.** If there is a flaw in any of the conditions, what is objected to is the
first one, whatever else is wrong with the others. The tables stay as they were, and the calls that follow give what
they would have given without the one that failed. The fault is a refusal if attributes and operators can be
written. -/
theorem flawed_leaves_no_trace (flawed : ∃ condition ∈ conditions, Flawed allowed condition) :
    ∃ fault, (∃ front condition back, conditions = front ++ condition :: back ∧
        (∀ other ∈ front, ¬ Flawed allowed other) ∧ Objection allowed condition fault) ∧
      (Writable conditions → fault.IsRefusal) ∧
      ∀ tables : Tables, (compile allowed (.map conditions)).runOn tables = (.error fault, tables) ∧
        ∀ later : List Call, Call.run tables (.conditions allowed (.map conditions) :: later) =
          (.error fault :: (Call.run tables later).1, (Call.run tables later).2) := by
  cases checked : check allowed conditions with
  | ok _ =>
    obtain ⟨condition, member, here⟩ := flawed
    exact absurd here (check_eq_ok_iff.mp checked condition member)
  | error fault =>
    have first := first_flawed checked
    refine ⟨fault, first, fun writable => ?_, fun tables => ?_⟩
    · obtain ⟨front, condition, back, rfl, -, objection⟩ := first
      exact objection.isRefusal (List.mem_append_right _ List.mem_cons_self) writable
    · have unchanged := compile_of_check_error checked tables
      refine ⟨unchanged, fun later => ?_⟩
      have failed : (Call.action (.conditions allowed (.map conditions))).runOn tables = (.error fault, tables) := by
        rw [Call.action, Call.runOn_map, unchanged]
        rfl
      rw [Call.run, failed]

/-- After a condition that is valid and one whose range has a single bound, an operator is not an allowed one: it is
refused from any tables, and nothing was entered. -/
theorem flawed_leaves_no_trace_of_operator :
    let conditions : Record :=
      [(.text "age", .map [(.text "eq", .int 1)]), (.text "rank", .map [(.text "between", .list [.int 1])]),
        (.text "tag", .map [(.text "like", .int 2)])]
    (∃ condition ∈ conditions, Flawed Operator.filterNames condition) ∧ Writable conditions ∧
      ∀ tables : Tables, (compile Operator.filterNames (.map conditions)).runOn tables =
        (.error (.refused (.operatorRefused "'tag'" "like")), tables) := by
  intro conditions
  have flawed : ∃ condition ∈ conditions, Flawed Operator.filterNames condition := by decide
  have writable : Writable conditions := by
    refine List.forall_mem_cons.mpr ⟨?_, List.forall_mem_cons.mpr ⟨?_, List.forall_mem_singleton.mpr ?_⟩⟩
    all_goals
      refine ⟨rfl, ?_⟩
      rintro _ ⟨⟩
      exact List.forall_mem_singleton.mpr rfl
  obtain ⟨fault, -, refusal, unchanged⟩ := flawed_leaves_no_trace flawed
  obtain ⟨why, rfl⟩ := refusal writable
  have named : ((compile Operator.filterNames (.map conditions)).runOn .fresh).1 =
      .error (.refused (.operatorRefused "'tag'" "like")) := rfl
  rw [(unchanged .fresh).1] at named
  refine ⟨flawed, writable, fun tables => ?_⟩
  rw [(unchanged tables).1, Except.error.inj named]

/-- An operator that is a binary is not an allowed one, but it cannot be written, and what is wrong is not
refused. -/
theorem binary_operator_wrongKind :
    let conditions : Record := [(.text "a", .map [(.binary [0x78], .int 1)])]
    (∃ condition ∈ conditions, Flawed Operator.filterNames condition) ∧
      (compile Operator.filterNames (.map conditions)).runOn .fresh = (.error .wrongKind, .fresh) ∧
      ¬ Fault.wrongKind.IsRefusal := by
  refine ⟨by decide, rfl, ?_⟩
  rintro ⟨why, refused⟩
  cases refused

end TableQuery.Condition
