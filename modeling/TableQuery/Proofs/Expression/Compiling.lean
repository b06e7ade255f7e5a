/- Compiling succeeds step by step: each token that is made stands for what it was made from, and what tokens
   stand for is kept by every later step. -/

import TableQuery.Expression.Compile
import TableQuery.Proofs.Expression.Rendering
import TableQuery.Proofs.Expression.Tokens
import TableQuery.Proofs.Outcomes
import TableQuery.Proofs.Records

set_option autoImplicit false
set_option relaxedAutoImplicit false

namespace TableQuery

namespace Compiling

variable {α β : Type} {before after : Tables}

/-- An action succeeds: what it gives, and the tables afterwards. -/
def Runs (action : Compiling α) (before : Tables) (a : α) (after : Tables) : Prop :=
  action.runOn before = (.ok a, after)

theorem runs_bind {action : Compiling α} {next : α → Compiling β} {b : β} :
    Runs (action >>= next) before b after ↔
      ∃ a between, Runs action before a between ∧ Runs (next a) between b after := by
  have step : (action >>= next).runOn before =
      ExceptT.bindCont next (action.runOn before).1 (action.runOn before).2 := rfl
  unfold Runs
  rw [step]
  rcases action.runOn before with ⟨fault | a, between⟩
  · simp only [Prod.mk.injEq, reduceCtorEq, false_and, exists_false, iff_false]
    exact fun h => nomatch (Prod.mk.inj h).1
  · simp only [Prod.mk.injEq, Except.ok.injEq]
    constructor
    · exact fun h => ⟨a, between, ⟨rfl, rfl⟩, h⟩
    · rintro ⟨_, _, ⟨rfl, rfl⟩, h⟩
      exact h

theorem runs_pure {a b : α} : Runs (pure a : Compiling α) before b after ↔ a = b ∧ before = after := by
  change ((.ok a, before) : Except Fault α × Tables) = (.ok b, after) ↔ _
  simp

theorem runs_lift {x : Except Fault α} {a : α} :
    Runs (liftM x : Compiling α) before a after ↔ x = .ok a ∧ before = after := by
  change ((x, before) : Except Fault α × Tables) = (.ok a, after) ↔ _
  simp

theorem not_runs_throw {fault : Fault} {a : α} : ¬ Runs (throw fault : Compiling α) before a after := by
  intro h
  cases h

theorem runs_of_toOption {action : Compiling α} {before : Tables} {a : α}
    (gives : (action.runOn before).1.toOption = some a) : Runs action before a (action.runOn before).2 := by
  refine Prod.ext ?_ rfl
  cases outcome : (action.runOn before).1 with
  | error fault =>
    rw [outcome] at gives
    cases gives
  | ok b =>
    rw [outcome] at gives
    exact congrArg Except.ok (Option.some.inj gives)

private theorem runs_name {n : Text} {t : Text} (h : Runs (name (.text n)) before t after) :
    after.Extends before ∧ after.names.resolve? t = some n := by
  cases n with
  | nil => cases h
  | cons c rest =>
    obtain ⟨stem, kept, stands⟩ := before.names.intern_spec (c :: rest)
    cases h
    exact ⟨⟨stem, rfl, kept, List.prefix_refl _⟩, stands⟩

private theorem runs_value {v : Value} {t : Text} (h : Runs (value v) before t after) :
    after.Extends before ∧ after.values.resolve? t = some v := by
  obtain ⟨stem, kept, stands⟩ := before.values.add_spec v
  cases h
  exact ⟨⟨rfl, stem, List.prefix_refl _, kept⟩, stands⟩

private theorem runs_mapM {f : α → Compiling β} (holds : Tables → α → β → Prop)
    (step : ∀ a first b second, Runs (f a) first b second → second.Extends first ∧ holds second a b)
    (keep : ∀ {first second : Tables} {a b}, second.Extends first → holds first a b → holds second a b)
    {values : List α} {results : List β} (h : Runs (values.mapM f) before results after) :
    after.Extends before ∧ List.Forall₂ (holds after) values results := by
  induction values generalizing before results with
  | nil =>
    rw [List.mapM_nil, runs_pure] at h
    obtain ⟨rfl, rfl⟩ := h
    exact ⟨.refl _, .nil⟩
  | cons a values ih =>
    rw [List.mapM_cons, runs_bind] at h
    obtain ⟨b, first, made, h⟩ := h
    obtain ⟨rest, second, others, h⟩ := runs_bind.mp h
    obtain ⟨rfl, rfl⟩ := runs_pure.mp h
    obtain ⟨extends_before, here⟩ := step a _ b _ made
    obtain ⟨extends_first, there⟩ := ih others
    exact ⟨extends_first.trans extends_before, .cons (keep extends_first here) there⟩

end Compiling

/-- What is demanded of an attribute: the name of an operator, and the operands. -/
structure Demand where
  operator : Text
  subject : Text
  operands : List Value

def Value.items : Value → List Value
  | .list items => items
  | .tuple items => items
  | .set _ members => members
  | .sequence _ _ items => items
  | _ => []

/-- The operands that an operator makes of a literal: none when it asks for presence alone, the items of the
literal for a range and for a membership, and otherwise the literal itself. -/
def Demand.operandsOf (operator : Text) (literal : Value) : List Value :=
  if operator ∈ ([Text.ofString "null", Text.ofString "not_null"] : List Text) then []
  else if operator ∈ ([Text.ofString "between", Text.ofString "in"] : List Text) then literal.items
  else [literal]

/-- The text that a value is; any other value counts as the empty text. -/
def Value.asText : Value → Text
  | .text t => t
  | _ => []

namespace Demand

/-- What an operator with its operand demands of an attribute: attribute, operator and operand are given as
values, and the first two have plain forms. -/
def ofParts? (parts : Value × Value × Value) : Option Demand := do
  let subject ← parts.1.plain?
  let operator ← parts.2.1.plain?
  return { operator, subject, operands := operandsOf operator parts.2.2 }

/-- What a body of operators demands of an attribute, one demand for each operator in order. -/
def ofBody (subject : Text) : Value → List Demand
  | .map operators => operators.map fun entry =>
    { operator := entry.1.asText, subject, operands := operandsOf entry.1.asText entry.2 }
  | _ => []

def ofConditions (conditions : List (Text × Value)) : List Demand :=
  conditions.flatMap fun condition => ofBody condition.1 condition.2

end Demand

/-- A clause means what is demanded when its tokens stand for the attribute and for the operands; a
membership has members. -/
structure Tables.Means (tables : Tables) (phrase : Grammar.Phrase) (demand : Demand) : Prop where
  operator : phrase.operator = demand.operator
  subject : tables.names.resolve? phrase.subject = some demand.subject
  operands : List.Forall₂ (fun t value => tables.values.resolve? t = some value) phrase.operands
    demand.operands
  listed : phrase.operator = Text.ofString "in" → phrase.operands ≠ []

theorem Tables.Means.extend {first second : Tables} {phrase : Grammar.Phrase} {demand : Demand}
    (meaning : first.Means phrase demand) (h : second.Extends first) : second.Means phrase demand :=
  ⟨meaning.operator, h.resolve_name meaning.subject, meaning.operands.imp fun _ _ => h.resolve_value,
    meaning.listed⟩

theorem Tables.Means.proper {tables : Tables} (nameStem : tables.names.stem = NameTable.requestStem)
    (valueStem : tables.values.stem = ValueTable.requestStem) {clause : Clause} {demand : Demand}
    (meaning : tables.Means clause.phrase demand) : clause.Proper where
  subject := NameTable.isName_of_resolve nameStem meaning.subject
  operands t member := by
    obtain ⟨_, -, stands⟩ := exists_of_forall₂ meaning.operands member
    exact ValueTable.isLiteral_of_resolve valueStem stands
  listed := meaning.listed

def Operator.word : Operator → Text
  | .comparison sort => sort.word
  | .beginsWith => "begins_with"
  | .between => "between"
  | .membership => "in"
  | .contains => "contains"
  | .lacks => "not_contains"
  | .absent => "null"
  | .present => "not_null"

theorem Operator.eq_word {word : Text} {operator : Operator} (h : ofName? word = some operator) :
    word = operator.word := by
  obtain ⟨entry, found, rfl⟩ := Option.map_eq_some_iff.mp h
  obtain rfl : entry.1 = word := by simpa using List.find?_some found
  have words : ∀ entry ∈ named, entry.1 = entry.2.word := by decide
  exact words entry (List.mem_of_find?_eq_some found)

namespace Condition

open Compiling

private theorem counted_eq_ok {items counted : List Value} :
    Condition.counted items = .ok counted ↔ items = counted ∧ items.length ≤ countLimit := by
  unfold Condition.counted
  split
  next large => exact iff_of_false nofun fun ⟨_, small⟩ => absurd small (Nat.not_le.mpr large)
  next small => exact ⟨fun same => ⟨Except.ok.inj same, Nat.le_of_not_lt small⟩, fun same => congrArg _ same.1⟩

theorem items_of_sequence {operand : Value} {items : List Value} (listed : sequence? operand = some items) :
    operand.items = items := by
  cases operand with
  | list | tuple | sequence => exact Option.some.inj listed
  | _ => cases listed

theorem items_of_members {operand : Value} {items : List Value} (listed : members? operand = some items) :
    operand.items = items := by
  cases operand with
  | set => exact Option.some.inj listed
  | _ => exact items_of_sequence listed

/-- A range is accepted with two items, which can always be counted. -/
theorem bounds_eq_ok {name : Text} {operand low high : Value} :
    bounds name operand = .ok (low, high) ↔ sequence? operand = some [low, high] := by
  constructor
  · intro h
    unfold bounds at h
    split at h
    · cases h
    next items listed =>
      obtain ⟨_, counted, h⟩ := bind_eq_ok.mp h
      obtain ⟨rfl, -⟩ := counted_eq_ok.mp counted
      split at h
      · obtain ⟨rfl, rfl⟩ := Prod.mk.inj (pure_eq_ok.mp h)
        exact listed
      · cases h
  · intro listed
    have counted : Condition.counted [low, high] = .ok [low, high] := rfl
    rw [bounds, listed]
    exact bind_eq_ok.mpr ⟨_, counted, rfl⟩

/-- A membership is accepted with one to a hundred members. -/
theorem choices_eq_ok {name : Text} {operand : Value} {values : List Value} :
    choices name operand = .ok values ↔
      members? operand = some values ∧ 1 ≤ values.length ∧ values.length ≤ Refusal.membershipLimit := by
  have countable : Refusal.membershipLimit ≤ countLimit := by decide
  constructor
  · intro h
    unfold choices at h
    split at h
    · cases h
    · cases h
    next filled listed =>
      obtain ⟨_, counted, h⟩ := bind_eq_ok.mp h
      obtain ⟨rfl, -⟩ := counted_eq_ok.mp counted
      split at h
      · cases h
      next small =>
        obtain rfl := pure_eq_ok.mp h
        exact ⟨listed, List.length_pos_iff.mpr filled, Nat.not_lt.mp small⟩
  · rintro ⟨listed, filled, small⟩
    have counted : Condition.counted values = .ok values := counted_eq_ok.mpr ⟨rfl, Nat.le_trans small countable⟩
    rw [choices, listed]
    cases values with
    | nil => cases filled
    | cons first others =>
      refine bind_eq_ok.mpr ⟨_, counted, ?_⟩
      exact if_neg (Nat.not_lt.mpr small)

section Operands

variable {n subject : Text} {before after : Tables} {operand : Value} {clause : Clause}

private theorem runs_unary {form : Text → Clause} {word : Text}
    (stands : before.names.resolve? subject = some n) (plain : Demand.operandsOf word operand = [operand])
    (read : ∀ t, (form t).phrase = ⟨word, subject, [t]⟩)
    (h : Runs (value operand >>= fun t => pure (form t)) before clause after) :
    after.Extends before ∧ after.Means clause.phrase ⟨word, n, Demand.operandsOf word operand⟩ := by
  obtain ⟨t, valued, ht, h⟩ := runs_bind.mp h
  obtain ⟨rfl, rfl⟩ := runs_pure.mp h
  obtain ⟨extends_before, literal⟩ := runs_value ht
  rw [read, plain]
  refine ⟨extends_before, rfl, extends_before.resolve_name stands, .cons literal .nil, ?_⟩
  exact fun _ => List.cons_ne_nil _ _

private theorem runs_between {low high : Value} (stands : before.names.resolve? subject = some n)
    (items : operand.items = [low, high])
    (h : Runs (value low >>= fun l => value high >>= fun u => pure (.between subject l u))
      before clause after) :
    after.Extends before ∧ after.Means clause.phrase
      ⟨Operator.between.word, n, Demand.operandsOf Operator.between.word operand⟩ := by
  obtain ⟨lowToken, first, hlow, h⟩ := runs_bind.mp h
  obtain ⟨highToken, second, hhigh, h⟩ := runs_bind.mp h
  obtain ⟨rfl, rfl⟩ := runs_pure.mp h
  obtain ⟨extends_before, low_stands⟩ := runs_value hlow
  obtain ⟨extends_first, high_stands⟩ := runs_value hhigh
  have both := extends_first.trans extends_before
  have operands : Demand.operandsOf Operator.between.word operand = [low, high] := items
  rw [operands]
  refine ⟨both, rfl, both.resolve_name stands, ?_, fun _ => List.cons_ne_nil _ _⟩
  exact .cons (extends_first.resolve_value low_stands) (.cons high_stands .nil)

private theorem runs_membership {values : List Value} (stands : before.names.resolve? subject = some n)
    (items : operand.items = values) (filled : values ≠ [])
    (h : Runs (values.mapM value >>= fun tokens => pure (.membership subject tokens)) before clause after) :
    after.Extends before ∧ after.Means clause.phrase
      ⟨Operator.membership.word, n, Demand.operandsOf Operator.membership.word operand⟩ := by
  obtain ⟨tokens, valued, htokens, h⟩ := runs_bind.mp h
  obtain ⟨rfl, rfl⟩ := runs_pure.mp h
  obtain ⟨extends_before, literals⟩ :=
    runs_mapM (fun tables v t => tables.values.resolve? t = some v)
      (fun _ _ _ _ => runs_value) (fun extended => extended.resolve_value) htokens
  have operands : Demand.operandsOf Operator.membership.word operand = values := items
  rw [operands]
  refine ⟨extends_before, rfl, extends_before.resolve_name stands, literals.flip, ?_⟩
  intro _ (empty : tokens = [])
  rw [empty] at literals
  exact filled (List.forall₂_nil_right_iff.mp literals)

end Operands

private theorem runs_compileClause {n operator : Text} {operand : Value} {before after : Tables} {clause : Clause}
    (h : Runs (compileClause n operator operand) before clause after) :
    after.Extends before ∧
      after.Means clause.phrase ⟨operator, n, Demand.operandsOf operator operand⟩ := by
  obtain ⟨subject, named, hsubject, h⟩ := runs_bind.mp h
  obtain ⟨extends_before, stands⟩ := runs_name hsubject
  cases known : Operator.ofName? operator with
  | none =>
    rw [known] at h
    exact absurd h not_runs_throw
  | some op =>
    obtain rfl := Operator.eq_word known
    rw [known] at h
    refine (?_ : after.Extends named ∧ _).imp_left fun extended => extended.trans extends_before
    cases op with
    | comparison sort => exact runs_unary stands (by cases sort <;> rfl) (fun _ => rfl) h
    | beginsWith => exact runs_unary stands rfl (fun _ => rfl) h
    | contains => exact runs_unary stands rfl (fun _ => rfl) h
    | lacks => exact runs_unary stands rfl (fun _ => rfl) h
    | between =>
      obtain ⟨⟨low, high⟩, _, lifted, h⟩ := runs_bind.mp h
      obtain ⟨hbounds, rfl⟩ := runs_lift.mp lifted
      exact runs_between stands (items_of_sequence (bounds_eq_ok.mp hbounds)) h
    | membership =>
      obtain ⟨values, _, lifted, h⟩ := runs_bind.mp h
      obtain ⟨hchoices, rfl⟩ := runs_lift.mp lifted
      obtain ⟨listed, filled, -⟩ := choices_eq_ok.mp hchoices
      exact runs_membership stands (items_of_members listed) (List.length_pos_iff.mp filled) h
    | absent =>
      obtain ⟨rfl, rfl⟩ := runs_pure.mp h
      exact ⟨.refl _, rfl, stands, .nil, fun word => nomatch List.cons.inj word⟩
    | present =>
      obtain ⟨rfl, rfl⟩ := runs_pure.mp h
      exact ⟨.refl _, rfl, stands, .nil, fun word => nomatch List.cons.inj word⟩

private theorem checkOperator_eq_ok {allowed : List Text} {name operator : Value} :
    checkOperator allowed name operator = .ok () ↔ allowed.any (operator.isText ·) = true := by
  unfold checkOperator
  split
  · rename_i among
    exact iff_of_true rfl among
  · rename_i other
    refine iff_of_false ?_ other
    intro checked
    obtain ⟨_, -, refused⟩ := bind_eq_ok.mp checked
    obtain ⟨_, -, refused⟩ := bind_eq_ok.mp refused
    cases refused

theorem checkOperator_eq_ok_iff_exists {allowed : List Text} {name operator : Value} :
    checkOperator allowed name operator = .ok () ↔ ∃ word ∈ allowed, operator = .text word := by
  rw [checkOperator_eq_ok, List.any_eq_true]
  exact exists_congr fun word => and_congr_right fun _ => Value.isText_iff

/-- A body of operators that have texts as names, at least one. -/
def IsBody (body : Value) : Prop :=
  ∃ operators : Record, body = .map operators ∧ operators ≠ [] ∧
    ∀ entry ∈ operators, ∃ word, entry.1 = .text word

theorem checkBody_eq_ok {allowed : List Text} {name body : Value} :
    checkBody allowed name body = .ok () ↔ ∃ operators : Record, body = .map operators ∧ operators ≠ [] ∧
      ∀ entry ∈ operators, ∃ word ∈ allowed, entry.1 = .text word := by
  constructor
  · intro checked
    unfold checkBody at checked
    split at checked
    · rename_i entry entries
      refine ⟨entry :: entries, rfl, List.cons_ne_nil _ _, ?_⟩
      exact fun e member => checkOperator_eq_ok_iff_exists.mp (forM_eq_ok.mp checked e member)
    · obtain ⟨_, -, refused⟩ := bind_eq_ok.mp checked
      cases refused
  · rintro ⟨operators, rfl, filled, allowedAll⟩
    cases operators with
    | nil => exact absurd rfl filled
    | cons entry entries =>
      exact forM_eq_ok.mpr fun e member => checkOperator_eq_ok_iff_exists.mpr (allowedAll e member)

private theorem isBody_of_checkBody {allowed : List Text} {name body : Value}
    (h : checkBody allowed name body = .ok ()) : IsBody body := by
  obtain ⟨operators, same, filled, among⟩ := checkBody_eq_ok.mp h
  refine ⟨operators, same, filled, fun entry member => ?_⟩
  obtain ⟨word, -, text⟩ := among entry member
  exact ⟨word, text⟩

theorem check_eq_ok {allowed : List Text} {conditions : Record} :
    check allowed conditions = .ok () ↔ ∀ condition ∈ conditions, ∃ operators : Record,
      condition.2 = .map operators ∧ operators ≠ [] ∧
        ∀ entry ∈ operators, ∃ word ∈ allowed, entry.1 = .text word :=
  forM_eq_ok.trans (forall₂_congr fun _ _ => checkBody_eq_ok)

theorem allowed_of_check {allowed : List Text} {conditions : Record} (checked : check allowed conditions = .ok ())
    {name : Value} {operators : Record} (member : (name, Value.map operators) ∈ conditions) :
    ∀ entry ∈ operators, ∃ word ∈ allowed, entry.1 = .text word := by
  obtain ⟨_, body, -, among⟩ := check_eq_ok.mp checked _ member
  obtain rfl := Value.map.inj body
  exact among

theorem mem_demands {conditions : Record} {name operator operand : Value} :
    (name, operator, operand) ∈ demands conditions ↔
      ∃ operators, (name, Value.map operators) ∈ conditions ∧ (operator, operand) ∈ operators := by
  constructor
  · intro member
    obtain ⟨⟨subject, body⟩, among, member⟩ := List.mem_flatMap.mp member
    cases body with
    | map operators =>
      obtain ⟨_, listed, same⟩ := List.mem_map.mp member
      cases same
      exact ⟨operators, among, listed⟩
    | _ => exact absurd member List.not_mem_nil
  · rintro ⟨operators, among, listed⟩
    exact List.mem_flatMap.mpr ⟨_, among, List.mem_map.mpr ⟨_, listed, rfl⟩⟩

private theorem ofConditions_eq (conditions : List (Text × Value)) :
    Demand.ofConditions conditions =
      (demands (Record.ofTexts conditions)).map fun demand =>
        ⟨demand.2.1.asText, demand.1.asText, Demand.operandsOf demand.2.1.asText demand.2.2⟩ := by
  induction conditions with
  | nil => rfl
  | cons condition conditions ih =>
    obtain ⟨name, body⟩ := condition
    have split : Demand.ofConditions ((name, body) :: conditions) =
        Demand.ofBody name body ++ Demand.ofConditions conditions := List.flatMap_cons
    have parts : demands (Record.ofTexts ((name, body) :: conditions)) =
        demands [(.text name, body)] ++ demands (Record.ofTexts conditions) := by
      simp [demands, Record.ofTexts]
    rw [split, parts, List.map_append, ih]
    congr 1
    cases body with
    | map operators => simp [Demand.ofBody, demands, Value.asText]
    | _ => rfl

private theorem demands_named {conditions : List (Text × Value)}
    (bodies : ∀ condition ∈ conditions, IsBody condition.2) :
    ∀ demand ∈ demands (Record.ofTexts conditions),
      ∃ n word, demand.1 = .text n ∧ demand.2.1 = .text word := by
  rintro ⟨name, operator, operand⟩ member
  obtain ⟨operators, among, entry⟩ := mem_demands.mp member
  obtain ⟨condition, hcondition, same⟩ := List.mem_map.mp among
  obtain ⟨rfl, body⟩ := Prod.mk.inj same
  obtain ⟨_, same, -, words⟩ := bodies condition hcondition
  obtain rfl := Value.map.inj (body.symm.trans same)
  obtain ⟨word, hword⟩ := words _ entry
  exact ⟨condition.1, word, rfl, hword⟩

private theorem runs_compileDemand {parts : Value × Value × Value} {before after : Tables} {clause : Clause}
    (h : Runs (compileDemand parts) before clause after) :
    after.Extends before ∧
      ∃ demand, Demand.ofParts? parts = some demand ∧ after.Means clause.phrase demand := by
  obtain ⟨n, _, lifted, h⟩ := runs_bind.mp h
  obtain ⟨hname, rfl⟩ := runs_lift.mp lifted
  obtain ⟨word, _, lifted, h⟩ := runs_bind.mp h
  obtain ⟨hword, rfl⟩ := runs_lift.mp lifted
  obtain ⟨extends_before, meaning⟩ := runs_compileClause h
  refine ⟨extends_before, _, ?_, meaning⟩
  rw [Demand.ofParts?, Value.plain_eq_ok.mp hname, Value.plain_eq_ok.mp hword]
  rfl

/-- The clauses of conditions mean what the conditions demand, in order. -/
theorem runs_demands {allowed : List Text} {conditions : Record} {before after : Tables}
    {clauses : List Clause} (h : Runs (compileRecord allowed conditions) before clauses after) :
    after.Extends before ∧ (∀ condition ∈ conditions, IsBody condition.2) ∧
      List.Forall₂
        (fun parts clause => ∃ demand, Demand.ofParts? parts = some demand ∧ after.Means clause.phrase demand)
        (demands conditions) clauses := by
  obtain ⟨_, _, lifted, h⟩ := runs_bind.mp h
  obtain ⟨checked, rfl⟩ := runs_lift.mp lifted
  obtain ⟨extends_before, related⟩ := runs_mapM
    (fun tables parts clause => ∃ demand, Demand.ofParts? parts = some demand ∧
      tables.Means clause.phrase demand)
    (fun _ _ _ _ => runs_compileDemand)
    (by
      rintro _ _ parts clause extended ⟨demand, made, meaning⟩
      exact ⟨demand, made, meaning.extend extended⟩) h
  refine ⟨extends_before, ?_, related⟩
  intro condition member
  exact isBody_of_checkBody (forM_eq_ok.mp checked condition member)

theorem runs_compileRecord {allowed : List Text} {conditions : List (Text × Value)}
    {before after : Tables} {clauses : List Clause}
    (h : Runs (compileRecord allowed (Record.ofTexts conditions)) before clauses after) :
    after.Extends before ∧ (∀ condition ∈ conditions, IsBody condition.2) ∧
      List.Forall₂ (fun demand clause => after.Means clause.phrase demand)
        (Demand.ofConditions conditions) clauses := by
  obtain ⟨extends_before, checked, related⟩ := runs_demands h
  have bodies : ∀ condition ∈ conditions, IsBody condition.2 :=
    fun condition member => checked _ (List.mem_map_of_mem member)
  refine ⟨extends_before, bodies, ?_⟩
  rw [ofConditions_eq, List.forall₂_map_left_iff]
  refine ((List.forall₂_and_left _ _).mpr ⟨demands_named bodies, related⟩).imp ?_
  rintro ⟨name, operator, operand⟩ clause ⟨⟨n, word, rfl, rfl⟩, demand, made, meaning⟩
  obtain rfl := Option.some.inj made
  exact meaning

end Condition

namespace Projection

open Compiling

/-- The names that a projection lists: none, a single text, or the plain forms of what a container yields. -/
inductive Lists : Value → List Text → Prop
  | none {v : Value} : v.isTruthy = false → Lists v []
  | single {t : Text} : t ≠ [] → Lists (.text t) [t]
  | each {v : Value} {items : List Value} {names : List Text} :
      v.isTruthy = true → (∀ t, v ≠ .text t) → v.elements? = some items →
      List.Forall₂ (fun item name => item.plain? = some name) items names → Lists v names

private theorem isTruthy_text {t : Text} (filled : t ≠ []) : (Value.text t).isTruthy = true := by
  cases t with
  | nil => exact absurd rfl filled
  | cons => rfl

theorem Lists.unique {v : Value} {names others : List Text} (h : Lists v names) (h' : Lists v others) :
    names = others := by
  cases h with
  | none untruthy =>
    cases h' with
    | none => rfl
    | single filled => exact absurd ((isTruthy_text filled).symm.trans untruthy) Bool.noConfusion
    | each truthy => exact absurd (truthy.symm.trans untruthy) Bool.noConfusion
  | single filled =>
    cases h' with
    | none untruthy => exact absurd ((isTruthy_text filled).symm.trans untruthy) Bool.noConfusion
    | single => rfl
    | each _ not_text => exact absurd rfl (not_text _)
  | each truthy not_text elements plain =>
    cases h' with
    | none untruthy => exact absurd (truthy.symm.trans untruthy) Bool.noConfusion
    | single => exact absurd rfl (not_text _)
    | each _ _ elements' plain' =>
      obtain rfl := Option.some.inj (elements.symm.trans elements')
      exact List.right_unique_forall₂' (fun _ _ _ hn hn' => Option.some.inj (hn.symm.trans hn')) plain plain'

private theorem lists_of_names {v : Value} {items : List Value} {listed : List Text}
    (h : Projection.names v = .ok items)
    (plain : List.Forall₂ (fun item name => item.plain? = some name) items listed) : Lists v listed := by
  unfold Projection.names at h
  split at h
  · rename_i untruthy
    obtain rfl := Except.ok.inj h
    obtain rfl := List.forall₂_nil_left_iff.mp plain
    exact .none (by simpa using untruthy)
  · rename_i truthy
    rw [Bool.not_eq_true, Bool.not_eq_false'] at truthy
    split at h
    · rename_i t
      obtain rfl := Except.ok.inj h
      obtain ⟨name, _, hname, rest, rfl⟩ := List.forall₂_cons_left_iff.mp plain
      obtain rfl := List.forall₂_nil_left_iff.mp rest
      obtain rfl : t = name := Option.some.inj hname
      refine .single ?_
      rintro rfl
      cases truthy
    · rename_i other
      refine .each truthy (fun t same => other t same) ?_ plain
      unfold Value.elements at h
      split at h
      · rename_i elements found
        rw [found, Except.ok.inj h]
      · cases h

theorem runs_compile {v : Value} {before after : Tables} {tokens : List Text}
    (h : Runs (compile v) before tokens after) :
    after.Extends before ∧ ∃ names, Lists v names ∧
      List.Forall₂ (fun name t => after.names.resolve? t = some name) names tokens := by
  obtain ⟨listed, _, lifted, h⟩ := runs_bind.mp h
  obtain ⟨hlisted, rfl⟩ := runs_lift.mp lifted
  obtain ⟨extends_before, related⟩ := runs_mapM
    (fun tables item t => ∃ name, item.plain? = some name ∧ tables.names.resolve? t = some name)
    (by
      intro item _ t _ h
      obtain ⟨name, _, lifted, h⟩ := runs_bind.mp h
      obtain ⟨hname, rfl⟩ := runs_lift.mp lifted
      obtain ⟨extended, stands⟩ := runs_name h
      exact ⟨extended, name, Value.plain_eq_ok.mp hname, stands⟩)
    (by
      rintro _ _ item t extended ⟨name, hname, stands⟩
      exact ⟨name, hname, extended.resolve_name stands⟩) h
  obtain ⟨names, hnames, tokens_stand⟩ := forall₂_split related
  exact ⟨extends_before, names, lists_of_names hlisted hnames, tokens_stand⟩

end Projection

end TableQuery
