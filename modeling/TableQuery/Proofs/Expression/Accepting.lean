/- Conditions are accepted exactly when they are well formed.

   Whether an action succeeds does not depend on the tables that it starts from. Each way of composing actions
   has a lemma that says what the composed action decides, so that the acceptance of conditions is put together
   from that of names, operators and operands. -/

import TableQuery.Proofs.Expression.Refusing

set_option autoImplicit false
set_option relaxedAutoImplicit false

namespace TableQuery

namespace Compiling

variable {α β : Type} {sort : Fault → Prop} {p q : Prop}

/-- Whatever the tables, an action succeeds exactly when the condition holds; otherwise it fails with a fault of
the given sort. -/
structure Decides (sort : Fault → Prop) (action : Compiling α) (p : Prop) : Prop where
  accepts : ∀ before, (∃ a, (action.runOn before).1 = .ok a) ↔ p
  refuses : ∀ before, FailsOnly sort (action.runOn before).1

theorem Decides.congr {action : Compiling α} (h : Decides sort action p) (same : p ↔ q) :
    Decides sort action q :=
  ⟨fun before => (h.accepts before).trans same, h.refuses⟩

theorem decides_pure (a : α) : Decides sort (pure a) True :=
  ⟨fun _ => iff_of_true ⟨a, rfl⟩ trivial, fun _ => .ok a⟩

theorem decides_value (v : Value) : Decides sort (value v) True :=
  ⟨fun _ => iff_of_true ⟨_, rfl⟩ trivial, fun _ => .ok _⟩

theorem decides_throw {fault : Fault} (h : sort fault) : Decides sort (throw fault : Compiling α) False := by
  constructor
  · exact fun _ => iff_of_false (fun ⟨_, given⟩ => nomatch given) id
  · exact fun _ => .error h

theorem decides_bind {action : Compiling α} {next : α → Compiling β} (first : Decides sort action p)
    (later : ∀ a, Decides sort (next a) q) : Decides sort (action >>= next) (p ∧ q) := by
  have step : ∀ before, (action >>= next).runOn before =
      ExceptT.bindCont next (action.runOn before).1 (action.runOn before).2 := fun _ => rfl
  constructor
  · intro before
    have accepted := first.accepts before
    rw [step]
    cases outcome : (action.runOn before).1 with
    | error fault =>
      rw [outcome] at accepted
      have refused : ¬ p := fun holds => nomatch (accepted.mpr holds).choose_spec
      exact iff_of_false (fun ⟨_, given⟩ => nomatch given) fun both => refused both.1
    | ok a =>
      rw [outcome] at accepted
      have holds : p := accepted.mp ⟨a, rfl⟩
      exact ((later a).accepts _).trans (and_iff_right holds).symm
  · intro before
    have failing := first.refuses before
    rw [step]
    cases outcome : (action.runOn before).1 with
    | error fault =>
      rw [outcome] at failing
      exact .error (failing fault rfl)
    | ok a => exact (later a).refuses _

theorem decides_lift_bind {x : Except Fault α} {next : α → Compiling β} (accepted : (∃ a, x = .ok a) ↔ p)
    (failing : FailsOnly sort x) (later : ∀ a, x = .ok a → Decides sort (next a) q) :
    Decides sort ((liftM x : Compiling α) >>= next) (p ∧ q) := by
  cases x with
  | error fault =>
    have refused : ¬ p := fun holds => nomatch (accepted.mpr holds).choose_spec
    have throws : Decides sort (throw fault : Compiling β) False := decides_throw (failing fault rfl)
    exact throws.congr (iff_of_false id fun both => refused both.1)
  | ok a =>
    have holds : p := accepted.mp ⟨a, rfl⟩
    exact (later a rfl).congr (and_iff_right holds).symm

private theorem decides_mapM {f : α → Compiling β} {holds : α → Prop} {values : List α}
    (each : ∀ a ∈ values, Decides sort (f a) (holds a)) :
    Decides sort (values.mapM f) (∀ a ∈ values, holds a) := by
  induction values with
  | nil => exact (decides_pure []).congr (iff_of_true trivial (List.forall_mem_nil _))
  | cons a values ih =>
    obtain ⟨first, others⟩ := List.forall_mem_cons.mp each
    rw [List.mapM_cons]
    have all := decides_bind first fun b => (decides_bind (ih others) fun rest => decides_pure (b :: rest))
    exact all.congr (by rw [and_true, List.forall_mem_cons])

theorem decides_name (refused : ∀ why, sort (.refused why)) (n : Text) :
    Decides sort (name (.text n)) (n ≠ []) := by
  cases n with
  | nil => exact (decides_throw (refused _)).congr (iff_of_false id fun filled => filled rfl)
  | cons c rest => exact ⟨fun _ => iff_of_true ⟨_, rfl⟩ (List.cons_ne_nil c rest), fun _ => .ok _⟩

end Compiling

namespace Condition

open Compiling

/-- A sequence of those items: a list, a tuple, or one of a further kind. -/
def IsSequence (operand : Value) (items : List Value) : Prop :=
  operand = .list items ∨ operand = .tuple items ∨ ∃ kind quotation, operand = .sequence kind quotation items

def IsRange (operand : Value) : Prop := ∃ low high, IsSequence operand [low, high]

def IsChoice (operand : Value) : Prop :=
  ∃ members : List Value, (IsSequence operand members ∨ ∃ frozen, operand = .set frozen members) ∧
    1 ≤ members.length ∧ members.length ≤ 100

def Suits (word : Text) (operand : Value) : Prop :=
  (word = Text.ofString "between" → IsRange operand) ∧ (word = Text.ofString "in" → IsChoice operand)

/-- Conditions are well formed when every attribute has a name that is not empty, every body maps operators to
operands, at least one, and every operator is an allowed one with an operand that suits it. -/
structure WellFormed (allowed : List Text) (conditions : Record) : Prop where
  names : ∀ condition ∈ conditions, ∃ name, condition.1.plain? = some name ∧ name ≠ []
  bodies : ∀ condition ∈ conditions, ∃ operators, condition.2 = .map operators ∧ operators ≠ []
  operators : ∀ name operators, (name, Value.map operators) ∈ conditions →
    ∀ entry ∈ operators, ∃ word ∈ allowed, entry.1 = .text word
  operands : ∀ name operators, (name, Value.map operators) ∈ conditions →
    ∀ word operand, (.text word, operand) ∈ operators → Suits word operand

private theorem sequence?_eq_some {operand : Value} {items : List Value} :
    sequence? operand = some items ↔ IsSequence operand items := by
  cases operand <;> simp [sequence?, IsSequence]

private theorem members?_eq_some {operand : Value} {members : List Value} :
    members? operand = some members ↔ IsSequence operand members ∨ ∃ frozen, operand = .set frozen members := by
  cases operand <;> simp [members?, sequence?, IsSequence]

theorem bounds_accepts {name : Text} {operand : Value} :
    (∃ ends, bounds name operand = .ok ends) ↔ IsRange operand := by
  simp only [Prod.exists, bounds_eq_ok, sequence?_eq_some, IsRange]

theorem choices_accepts {name : Text} {operand : Value} :
    (∃ values, choices name operand = .ok values) ↔ IsChoice operand := by
  simp only [choices_eq_ok, members?_eq_some, IsChoice, Refusal.membershipLimit]

theorem suits_word {operator : Operator} {operand : Value} :
    Suits operator.word operand ↔
      (operator = .between → IsRange operand) ∧ (operator = .membership → IsChoice operand) := by
  have range : operator.word = Text.ofString "between" ↔ operator = .between := by
    cases operator with
    | comparison sort => cases sort <;> decide
    | _ => decide
  have choice : operator.word = Text.ofString "in" ↔ operator = .membership := by
    cases operator with
    | comparison sort => cases sort <;> decide
    | _ => decide
  rw [Suits, range, choice]

section Clauses

variable {sort : Fault → Prop} (refused : ∀ why, sort (.refused why))

private theorem decides_unary (operand : Value) (form : Text → Clause) :
    Decides sort (value operand >>= fun t => pure (form t)) True :=
  (decides_bind (decides_value operand) fun t => decides_pure (form t)).congr (and_self_iff)

private theorem decides_values (values : List Value) (form : List Text → Clause) :
    Decides sort (values.mapM value >>= fun tokens => pure (form tokens)) True := by
  have each : Decides sort (values.mapM value) (∀ v ∈ values, True) := decides_mapM fun v _ => decides_value v
  exact (decides_bind each fun tokens => decides_pure (form tokens)).congr (by simp)

include refused

/-- A clause of a known operator is compiled exactly when the attribute has a name and the operand suits the
operator. -/
private theorem decides_compileClause {n word : Text} {operand : Value} {operator : Operator}
    (known : Operator.ofName? word = some operator)
    (uncountable : countLimit < (Demand.operandsOf word operand).length → sort .tooLarge) :
    Decides sort (compileClause n word operand) (n ≠ [] ∧ Suits word operand) := by
  refine decides_bind (decides_name refused n) fun subject => ?_
  rw [known]
  obtain rfl := Operator.eq_word known
  cases operator with
  | comparison sort => exact (decides_unary operand _).congr (by simp [suits_word])
  | beginsWith => exact (decides_unary operand _).congr (by simp [suits_word])
  | contains => exact (decides_unary operand _).congr (by simp [suits_word])
  | lacks => exact (decides_unary operand _).congr (by simp [suits_word])
  | absent => exact (decides_pure _).congr (by simp [suits_word])
  | present => exact (decides_pure _).congr (by simp [suits_word])
  | between =>
    have ends := bounds_fails refused uncountable n
    have decided := decides_lift_bind bounds_accepts ends fun ends _ =>
      decides_bind (decides_value ends.1) fun low => decides_unary ends.2 (.between subject low)
    exact decided.congr (by simp [suits_word])
  | membership =>
    have members := choices_fails refused uncountable n
    have decided := decides_lift_bind choices_accepts members fun values _ =>
      decides_values values (.membership subject)
    exact decided.congr (by simp [suits_word])

private theorem decides_compileDemand {name operand : Value} {word : Text} {operator : Operator}
    (known : Operator.ofName? word = some operator) (unprintable : name.plain? = none → sort name.plainFault)
    (uncountable : countLimit < (Demand.operandsOf word operand).length → sort .tooLarge) :
    Decides sort (compileDemand (name, .text word, operand))
      ((∃ n, name.plain? = some n ∧ n ≠ []) ∧ Suits word operand) := by
  have plainWord : (Value.text word).plain = .ok word := rfl
  unfold compileDemand
  cases plain : name.plain? with
  | none =>
    have failing : name.plain = .error name.plainFault := by rw [Value.plain, plain]
    rw [failing]
    refine (decides_throw (unprintable plain)).congr (iff_of_false id ?_)
    rintro ⟨⟨n, missing, -⟩, -⟩
    cases missing
  | some n =>
    have given : name.plain = .ok n := by rw [Value.plain, plain]
    rw [given, plainWord]
    have compiled : Decides sort (compileClause n word operand) (n ≠ [] ∧ Suits word operand) :=
      decides_compileClause refused known uncountable
    exact compiled.congr (by simp)

end Clauses

private theorem known_of_mem_filterNames {word : Text} (member : word ∈ Operator.filterNames) :
    ∃ operator, Operator.ofName? word = some operator := by
  have known : ∀ word ∈ Operator.filterNames, (Operator.ofName? word).isSome = true := by decide
  exact Option.isSome_iff_exists.mp (known word member)

/-- What is demanded of an attribute can be compiled: the attribute has a name that is not empty, and the operand
suits the operator. -/
def Compilable (demand : Value × Value × Value) : Prop :=
  (∃ n, demand.1.plain? = some n ∧ n ≠ []) ∧ ∀ word, demand.2.1 = .text word → Suits word demand.2.2

private theorem WellFormed.compilable {allowed : List Text} {conditions : Record} (h : WellFormed allowed conditions) :
    ∀ demand ∈ demands conditions, Compilable demand := by
  rintro ⟨name, operator, operand⟩ member
  obtain ⟨operators, among, entry⟩ := mem_demands.mp member
  refine ⟨h.names _ among, ?_⟩
  rintro word rfl
  exact h.operands name operators among word operand entry

private theorem wellFormed_iff {allowed : List Text} {conditions : Record} :
    WellFormed allowed conditions ↔
      check allowed conditions = .ok () ∧ ∀ demand ∈ demands conditions, Compilable demand := by
  constructor
  · intro h
    refine ⟨check_eq_ok.mpr ?_, h.compilable⟩
    rintro ⟨name, body⟩ member
    obtain ⟨operators, rfl, filled⟩ := h.bodies _ member
    exact ⟨operators, rfl, filled, h.operators name operators member⟩
  · rintro ⟨checked, compilable⟩
    have each : ∀ {name : Value} {operators : Record}, (name, Value.map operators) ∈ conditions →
        ∀ entry ∈ operators, Compilable (name, entry.1, entry.2) :=
      fun member entry among => compilable _ (mem_demands.mpr ⟨_, member, among⟩)
    constructor
    case names =>
      -- A name is demanded something of because its body is not empty.
      rintro ⟨name, body⟩ member
      obtain ⟨operators, rfl, filled, -⟩ := check_eq_ok.mp checked _ member
      obtain ⟨entry, among⟩ := List.exists_mem_of_ne_nil _ filled
      exact (each member entry among).1
    case bodies =>
      intro condition member
      obtain ⟨operators, body, filled, -⟩ := check_eq_ok.mp checked condition member
      exact ⟨operators, body, filled⟩
    case operators => exact fun _ _ => allowed_of_check checked
    case operands => exact fun _ _ member word operand entry => (each member _ entry).2 word rfl

/-- The operands of ranges and memberships can be counted. -/
def Countable (conditions : Record) : Prop :=
  ∀ condition ∈ conditions, ∀ operators, condition.2 = .map operators →
    ∀ entry ∈ operators, ∀ word, entry.1 = .text word →
      (Demand.operandsOf word entry.2).length ≤ countLimit

private theorem decides_compileRecord {allowed : List Text} {conditions : Record}
    (known : allowed ⊆ Operator.filterNames) :
    Decides (fun fault => Printable conditions → Countable conditions → fault.IsRefusal)
      (compileRecord allowed conditions) (WellFormed allowed conditions) := by
  have refused : ∀ why, Printable conditions → Countable conditions → (Fault.refused why).IsRefusal :=
    fun why _ _ => ⟨why, rfl⟩
  have checking : FailsOnly (fun fault => Printable conditions → Countable conditions → fault.IsRefusal)
      (check allowed conditions) :=
    fun fault failed printable _ => check_refuses printable allowed fault failed
  have decided : (∃ u, check allowed conditions = .ok u) ↔ check allowed conditions = .ok () :=
    ⟨fun ⟨_, checked⟩ => checked, fun checked => ⟨(), checked⟩⟩
  refine (decides_lift_bind decided checking ?_).congr wellFormed_iff.symm
  intro _ checked
  refine decides_mapM ?_
  rintro ⟨name, operator, operand⟩ member
  obtain ⟨operators, among, entry⟩ := mem_demands.mp member
  obtain ⟨word, inAllowed, text⟩ := allowed_of_check checked among _ entry
  obtain rfl : operator = .text word := text
  obtain ⟨op, found⟩ := known_of_mem_filterNames (known inAllowed)
  have unprintable : name.plain? = none → Printable conditions → Countable conditions →
      name.plainFault.IsRefusal := by
    intro missing printable
    have plain := (printable _ among).1
    rw [missing] at plain
    cases plain
  have uncountable : countLimit < (Demand.operandsOf word operand).length →
      Printable conditions → Countable conditions → Fault.tooLarge.IsRefusal :=
    fun large _ countable => absurd large (Nat.not_lt.mpr (countable _ among _ rfl _ entry word rfl))
  refine (decides_compileDemand refused found unprintable uncountable).congr ?_
  refine and_congr_right fun _ => ?_
  constructor
  · rintro suits _ ⟨⟩
    exact suits
  · exact fun suits => suits word rfl

/-- **Conditions are accepted exactly when they are well formed.** Whatever the tables, conditions over operators
of the package compile if and only if every body maps operators to operands, at least one, every operator is an
allowed one, every attribute has a name that is not empty, and the operands of ranges and memberships list as many
values as these take. Any other outcome is a refusal, if attributes and operators have plain forms and operands
that are listed can be counted. -/
theorem accepts_iff_wellFormed {allowed : List Text} (known : allowed ⊆ Operator.filterNames)
    (conditions : Record) (tables : Tables) :
    ((∃ clauses, ((compile allowed (.map conditions)).runOn tables).1 = .ok clauses) ↔
        WellFormed allowed conditions) ∧
      (¬ WellFormed allowed conditions → Printable conditions → Countable conditions →
        ∃ why, ((compile allowed (.map conditions)).runOn tables).1 = .error (.refused why)) := by
  have decided : Decides (fun fault => Printable conditions → Countable conditions → fault.IsRefusal)
      (compile allowed (.map conditions)) (WellFormed allowed conditions) := by
    cases conditions with
    | nil =>
      have empty : WellFormed allowed [] :=
        ⟨List.forall_mem_nil _, List.forall_mem_nil _, fun _ _ member => absurd member List.not_mem_nil,
          fun _ _ member => absurd member List.not_mem_nil⟩
      exact (decides_pure []).congr (iff_of_true trivial empty)
    | cons condition conditions => exact decides_compileRecord known
  refine ⟨decided.accepts tables, fun malformed printable countable => ?_⟩
  cases outcome : ((compile allowed (.map conditions)).runOn tables).1 with
  | ok clauses => exact absurd ((decided.accepts tables).mp ⟨clauses, outcome⟩) malformed
  | error fault =>
    obtain ⟨why, rfl⟩ := decided.refuses tables fault outcome printable countable
    exact ⟨why, rfl⟩

/-- On used tables: a range given by a tuple, one given by a sequence of a further kind and a membership of an
attribute that is named by a number compile, and a range over three values is refused. -/
theorem accepts_iff_wellFormed_of_ranges :
    let tables : Tables := ⟨⟨NameTable.requestStem, ["age"]⟩, ⟨ValueTable.requestStem, [.null]⟩⟩
    let accepted : Record :=
      [(.text "age", .map [(.text "between", .tuple [.int 1, .int 2])]),
        (.text "rank", .map [(.text "between", .sequence "range" (some "range(0, 2)") [.int 0, .int 1])]),
        (.int 7, .map [(.text "in", .set true [.null])])]
    let rejected : Record := [(.text "age", .map [(.text "between", .list [.int 1, .int 2, .int 3])])]
    WellFormed Operator.filterNames accepted ∧ ¬ WellFormed Operator.keyNames rejected ∧
      ∃ why, ((compile Operator.keyNames (.map rejected)).runOn tables).1 = .error (.refused why) := by
  intro tables accepted rejected
  have compiled : ∃ clauses, ((compile Operator.filterNames (.map accepted)).runOn tables).1 = .ok clauses :=
    ⟨_, rfl⟩
  have malformed : ¬ WellFormed Operator.keyNames rejected := by
    intro h
    obtain ⟨low, high, same⟩ := (h.operands _ _ List.mem_cons_self "between" _ List.mem_cons_self).1 rfl
    rw [← sequence?_eq_some] at same
    cases same
  have printable : Printable rejected := by
    refine List.forall_mem_singleton.mpr ⟨rfl, ?_⟩
    rintro _ ⟨⟩
    exact List.forall_mem_singleton.mpr rfl
  have countable : Countable rejected := by
    refine List.forall_mem_singleton.mpr ?_
    rintro _ ⟨⟩
    refine List.forall_mem_singleton.mpr ?_
    rintro _ ⟨⟩
    decide
  exact ⟨(accepts_iff_wellFormed (List.Subset.refl _) accepted tables).1.mp compiled, malformed,
    (accepts_iff_wellFormed (by decide) rejected tables).2 malformed printable countable⟩

/-- A range that is neither a list nor a tuple compiles. An attribute that is named by a binary has no plain form,
and what is wrong with it is not refused. -/
theorem range_accepted_binary_name_wrongKind :
    let operand : Value := .sequence "range" (some "range(0, 2)") [.int 0, .int 1]
    let conditions : Record := [(.binary [0x78], .map [(.text "eq", .int 1)])]
    ((∃ clauses, ((compile Operator.filterNames
        (.map [(.text "age", .map [(.text "between", operand)])])).runOn .fresh).1 = .ok clauses) ∧
        ¬ ∃ items, operand = .list items ∨ operand = .tuple items) ∧
      ¬ WellFormed Operator.filterNames conditions ∧
      ((compile Operator.filterNames (.map conditions)).runOn .fresh).1 = .error .wrongKind ∧
      ¬ Fault.wrongKind.IsRefusal := by
  refine ⟨⟨⟨_, rfl⟩, by simp⟩, ?_, rfl, ?_⟩
  · intro h
    obtain ⟨name, plain, -⟩ := h.names _ List.mem_cons_self
    cases plain
  · rintro ⟨why, refused⟩
    cases refused

end Condition

end TableQuery
