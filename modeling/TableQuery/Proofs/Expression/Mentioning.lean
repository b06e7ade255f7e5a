/- What compiling mentions to the tables.

   A token is given for each name and each literal that is mentioned. Which ones an action mentions, and in which
   order, does not depend on the tables, and neither does whether it succeeds; an action that fails has mentioned
   what came before the failure. So the tables after any action are known from what it was given. -/

import TableQuery.Proofs.Expression.Accepting
import TableQuery.Proofs.Expression.Numbering

set_option autoImplicit false
set_option relaxedAutoImplicit false

namespace TableQuery

/-- What a token is given for: an attribute name, or a literal. -/
inductive Mention where
  | name (name : Text)
  | literal (literal : Value)

namespace Mention

def name? : Mention → Option Text
  | .name n => some n
  | .literal _ => none

def literal? : Mention → Option Value
  | .name _ => none
  | .literal v => some v

def ofText (n : Text) : List Mention := if n = [] then [] else [.name n]

/-- A name that is mentioned is not empty. -/
def Filled : Mention → Prop
  | .name n => n ≠ []
  | .literal _ => True

theorem filled_ofText (n : Text) : ∀ mention ∈ ofText n, mention.Filled := by
  unfold ofText
  split
  · exact List.forall_mem_nil _
  · rename_i filled
    exact List.forall_mem_singleton.mpr filled

/-- What a list of members mentions, where nothing more is mentioned after a member that fails. -/
def upTo {α : Type} (mentions : α → List Mention) (succeeds : α → Prop) [DecidablePred succeeds] :
    List α → List Mention
  | [] => []
  | a :: rest => mentions a ++ if succeeds a then upTo mentions succeeds rest else []

private theorem mem_upTo {α : Type} {mentions : α → List Mention} {succeeds : α → Prop} [DecidablePred succeeds]
    {members : List α} {mention : Mention} (member : mention ∈ upTo mentions succeeds members) :
    ∃ a ∈ members, mention ∈ mentions a := by
  induction members with
  | nil => exact absurd member List.not_mem_nil
  | cons a members ih =>
    rcases List.mem_append.mp member with here | later
    · exact ⟨a, List.mem_cons_self, here⟩
    · split at later
      · obtain ⟨b, among, there⟩ := ih later
        exact ⟨b, List.mem_cons_of_mem a among, there⟩
      · exact absurd later List.not_mem_nil

private theorem upTo_of_forall {α : Type} {mentions : α → List Mention} {succeeds : α → Prop} [DecidablePred succeeds]
    {members : List α} (all : ∀ a ∈ members, succeeds a) :
    upTo mentions succeeds members = members.flatMap mentions := by
  induction members with
  | nil => rfl
  | cons a members ih =>
    obtain ⟨here, others⟩ := List.forall_mem_cons.mp all
    rw [upTo, if_pos here, ih others, List.flatMap_cons]

end Mention

namespace Tables

def mention (tables : Tables) : Mention → Tables
  | .name name => { tables with names := (tables.names.intern name).2 }
  | .literal literal => { tables with values := (tables.values.add literal).2 }

def mentionAll (tables : Tables) (mentions : List Mention) : Tables := mentions.foldl mention tables

theorem mentionAll_append (tables : Tables) (front back : List Mention) :
    tables.mentionAll (front ++ back) = (tables.mentionAll front).mentionAll back := List.foldl_append

private theorem mention_extends (tables : Tables) (mention : Mention) : (tables.mention mention).Extends tables := by
  cases mention with
  | name name =>
    obtain ⟨stem, kept, -⟩ := tables.names.intern_spec name
    exact ⟨stem, rfl, kept, List.prefix_refl _⟩
  | literal literal =>
    obtain ⟨stem, kept, -⟩ := tables.values.add_spec literal
    exact ⟨rfl, stem, List.prefix_refl _, kept⟩

theorem mentionAll_extends (tables : Tables) (mentions : List Mention) :
    (tables.mentionAll mentions).Extends tables := by
  induction mentions generalizing tables with
  | nil => exact .refl tables
  | cons first mentions ih => exact (ih _).trans (tables.mention_extends first)

theorem values_mentionAll (tables : Tables) (mentions : List Mention) :
    (tables.mentionAll mentions).values.values = tables.values.values ++ mentions.filterMap Mention.literal? := by
  induction mentions using List.reverseRecOn with
  | nil => exact (List.append_nil _).symm
  | append_singleton mentions last ih =>
    rw [mentionAll_append, List.filterMap_append, ← List.append_assoc, ← ih]
    cases last with
    | name n => exact (List.append_nil _).symm
    | literal v => rfl

private theorem names_mention (tables : Tables) (n : Text) :
    (tables.mention (.name n)).names.names =
      if n ∈ tables.names.names then tables.names.names else tables.names.names ++ [n] := by
  rw [mention, NameTable.intern]
  cases found : tables.names.names.idxOf? n with
  | some index =>
    obtain ⟨inside, same, -⟩ := List.idxOf?_eq_some_iff.mp found
    exact (if_pos (same ▸ List.getElem_mem inside)).symm
  | none => exact (if_neg (List.idxOf?_eq_none_iff.mp found)).symm

/-- The names are entered at their first mention. -/
theorem names_mentionAll {tables : Tables} {known : List Text} (entered : tables.names.names = known.eraseDups)
    (mentions : List Mention) :
    (tables.mentionAll mentions).names.names = (known ++ mentions.filterMap Mention.name?).eraseDups := by
  -- From the rear: the last name is entered unless it was mentioned before, and so is it kept by `eraseDups`.
  induction mentions using List.reverseRecOn with
  | nil => rwa [List.filterMap_nil, List.append_nil]
  | append_singleton mentions last ih =>
    rw [mentionAll_append, List.filterMap_append, ← List.append_assoc]
    cases last with
    | literal v => exact ih.trans (congrArg List.eraseDups (List.append_nil _).symm)
    | name n =>
      have mentioned : [Mention.name n].filterMap Mention.name? = [n] := rfl
      change ((tables.mentionAll mentions).mention (.name n)).names.names = _
      rw [names_mention, ih, mentioned, eraseDups_concat]
      simp only [List.mem_eraseDups]

end Tables

namespace Compiling

variable {α β : Type} {p q : Prop} {mentions more : List Mention}

/-- Whatever the tables, an action makes the listed mentions, and it succeeds exactly when the condition holds. -/
structure Makes (action : Compiling α) (mentions : List Mention) (p : Prop) : Prop where
  tables : ∀ before, (action.runOn before).2 = before.mentionAll mentions
  decides : Decides (fun _ => True) action p

private theorem Makes.congr {action : Compiling α} (h : Makes action mentions p) (same : mentions = more)
    (alike : p ↔ q) : Makes action more q :=
  ⟨fun before => same ▸ h.tables before, h.decides.congr alike⟩

private theorem makes_pure (a : α) : Makes (pure a) [] True := ⟨fun _ => rfl, decides_pure a⟩

private theorem makes_throw (fault : Fault) : Makes (throw fault : Compiling α) [] False :=
  ⟨fun _ => rfl, decides_throw trivial⟩

private theorem makes_value (v : Value) : Makes (value v) [.literal v] True := ⟨fun _ => rfl, decides_value v⟩

theorem makes_name (n : Text) : Makes (name (.text n)) (Mention.ofText n) (n ≠ []) := by
  refine ⟨fun before => ?_, decides_name (fun _ => trivial) n⟩
  cases n <;> rfl

private theorem makes_bind [Decidable p] {action : Compiling α} {next : α → Compiling β}
    (first : Makes action mentions p)
    (later : ∀ a, Makes (next a) more q) : Makes (action >>= next) (mentions ++ if p then more else []) (p ∧ q) := by
  refine ⟨fun before => ?_, decides_bind first.decides fun a => (later a).decides⟩
  have step : (action >>= next).runOn before =
      ExceptT.bindCont next (action.runOn before).1 (action.runOn before).2 := rfl
  have accepted := first.decides.accepts before
  rw [step, Tables.mentionAll_append, ← first.tables before]
  cases outcome : (action.runOn before).1 with
  | error fault =>
    rw [outcome] at accepted
    have refused : ¬ p := fun holds => nomatch (accepted.mpr holds).choose_spec
    rw [if_neg refused]
    rfl
  | ok a =>
    rw [outcome] at accepted
    rw [if_pos (accepted.mp ⟨a, rfl⟩)]
    exact (later a).tables _

private theorem makes_lift_bind [Decidable p] {x : Except Fault α} {next : α → Compiling β}
    (accepted : (∃ a, x = .ok a) ↔ p) (later : ∀ a, x = .ok a → Makes (next a) more q) :
    Makes ((liftM x : Compiling α) >>= next) (if p then more else []) (p ∧ q) := by
  have failing : FailsOnly (fun _ => True) x := fun _ _ => trivial
  refine ⟨fun before => ?_, decides_lift_bind accepted failing fun a given => (later a given).decides⟩
  cases x with
  | error fault =>
    have refused : ¬ p := fun holds => nomatch (accepted.mpr holds).choose_spec
    rw [if_neg refused]
    rfl
  | ok a =>
    rw [if_pos (accepted.mp ⟨a, rfl⟩)]
    exact (later a rfl).tables before

private theorem makes_plain {v : Value} {next : Text → Compiling β} {makes : Text → List Mention}
    {succeeds : Text → Prop}
    (later : ∀ n, Makes (next n) (makes n) (succeeds n)) :
    Makes ((liftM v.plain : Compiling Text) >>= next) ((v.plain?.map makes).getD [])
      (∃ n, v.plain? = some n ∧ succeeds n) := by
  cases plain : v.plain? with
  | none =>
    have failing : v.plain = .error v.plainFault := by rw [Value.plain, plain]
    rw [failing]
    exact (makes_throw _).congr rfl (by simp)
  | some n =>
    have given : v.plain = .ok n := by rw [Value.plain, plain]
    rw [given]
    exact (later n).congr rfl (by simp)

private theorem makes_mapM {f : α → Compiling β} {mentions : α → List Mention} {succeeds : α → Prop}
    [DecidablePred succeeds] {values : List α} (each : ∀ a ∈ values, Makes (f a) (mentions a) (succeeds a)) :
    Makes (values.mapM f) (Mention.upTo mentions succeeds values) (∀ a ∈ values, succeeds a) := by
  induction values with
  | nil => exact (makes_pure []).congr rfl (iff_of_true trivial (List.forall_mem_nil _))
  | cons a values ih =>
    obtain ⟨first, others⟩ := List.forall_mem_cons.mp each
    rw [List.mapM_cons]
    have all := makes_bind first fun b => makes_bind (ih others) fun rest => makes_pure (b :: rest)
    refine all.congr ?_ ?_
    · rw [Mention.upTo, ite_self, List.append_nil]
    · rw [and_true, List.forall_mem_cons]

private theorem makes_values (values : List Value) : Makes (values.mapM value) (values.map .literal) True := by
  have each : ∀ v ∈ values, Makes (value v) [.literal v] True := fun v _ => makes_value v
  refine (makes_mapM each).congr ?_ (by simp)
  rw [Mention.upTo_of_forall fun _ _ => trivial, List.map_eq_flatMap]

end Compiling

def Value.Names (v : Value) : Prop := ∃ n, v.plain? = some n ∧ n ≠ []

instance Value.decidableNames : DecidablePred Value.Names := fun v =>
  decidable_of_iff ((v.plain?.filter (!·.isEmpty)).isSome = true) (by
    cases plain : v.plain? with
    | none => simp [Names, plain]
    | some n => cases n <;> simp [Names, plain])

def Mention.ofAttribute (v : Value) : List Mention := (v.plain?.map ofText).getD []

private theorem Mention.filled_ofAttribute (v : Value) : ∀ mention ∈ ofAttribute v, mention.Filled := by
  unfold ofAttribute
  cases v.plain? with
  | none => exact List.forall_mem_nil _
  | some n => exact filled_ofText n

namespace Condition

open Compiling

instance decidableIsRange (operand : Value) : Decidable (IsRange operand) :=
  decidable_of_iff ((bounds [] operand).isOk = true)
    ((isOk_iff).trans bounds_accepts)

instance decidableIsChoice (operand : Value) : Decidable (IsChoice operand) :=
  decidable_of_iff ((choices [] operand).isOk = true) ((isOk_iff).trans choices_accepts)

instance decidableSuits (word : Text) (operand : Value) : Decidable (Suits word operand) :=
  inferInstanceAs (Decidable (_ ∧ _))

/-- The word names an operator, and the operand has the form that the operator asks for. -/
def Takes (word : Text) (operand : Value) : Prop := (Operator.ofName? word).isSome = true ∧ Suits word operand

instance decidableTakes (word : Text) (operand : Value) : Decidable (Takes word operand) :=
  inferInstanceAs (Decidable (_ ∧ _))

private theorem makes_unary (operand : Value) (form : Text → Clause) :
    Makes (value operand >>= fun t => pure (form t)) [.literal operand] True :=
  (makes_bind (makes_value operand) fun t => makes_pure (form t)).congr rfl and_self_iff

private theorem makes_between (n subject : Text) (operand : Value) :
    Makes ((liftM (bounds n operand) : Compiling (Value × Value)) >>= fun ends =>
        value ends.1 >>= fun low => value ends.2 >>= fun high => pure (Clause.between subject low high))
      (if IsRange operand then operand.items.map .literal else []) (IsRange operand) := by
  have literals : ∀ ends, bounds n operand = .ok ends →
      Makes (value ends.1 >>= fun low => value ends.2 >>= fun high => pure (Clause.between subject low high))
        (operand.items.map .literal) True := by
    intro ends given
    have both := makes_bind (makes_value ends.1) fun low => makes_unary ends.2 (.between subject low)
    rw [items_of_sequence (bounds_eq_ok.mp given)]
    exact both.congr rfl and_self_iff
  exact (makes_lift_bind bounds_accepts literals).congr rfl (and_iff_left trivial)

private theorem makes_membership (n subject : Text) (operand : Value) :
    Makes ((liftM (choices n operand) : Compiling (List Value)) >>= fun values =>
        values.mapM value >>= fun tokens => pure (Clause.membership subject tokens))
      (if IsChoice operand then operand.items.map .literal else []) (IsChoice operand) := by
  have literals : ∀ values, choices n operand = .ok values →
      Makes (values.mapM value >>= fun tokens => pure (Clause.membership subject tokens))
        (operand.items.map .literal) True := by
    intro values given
    have all := makes_bind (makes_values values) fun tokens => makes_pure (Clause.membership subject tokens)
    rw [items_of_members (choices_eq_ok.mp given).1]
    exact all.congr (by rw [ite_self, List.append_nil]) and_self_iff
  exact (makes_lift_bind choices_accepts literals).congr rfl (and_iff_left trivial)

/-- A clause mentions its attribute, and then its operands if the operator takes them. -/
private theorem makes_compileClause (n word : Text) (operand : Value) :
    Makes (compileClause n word operand)
      (Mention.ofText n ++
        if n ≠ [] ∧ Takes word operand then (Demand.operandsOf word operand).map .literal else [])
      (n ≠ [] ∧ Takes word operand) := by
  refine (makes_bind (makes_name n) (?_ : ∀ subject, Makes _
    (if Takes word operand then (Demand.operandsOf word operand).map .literal else [])
    (Takes word operand))).congr (by rw [ite_and]) Iff.rfl
  intro subject
  cases known : Operator.ofName? word with
  | none =>
    have untaken : ¬ Takes word operand := fun taken => by
      have named := taken.1
      rw [known] at named
      cases named
    exact (makes_throw _).congr (if_neg untaken).symm (iff_of_false id untaken)
  | some op =>
    have taken : Takes word operand ↔ Suits word operand := and_iff_right (by rw [known]; rfl)
    obtain rfl := Operator.eq_word known
    simp only [taken]
    have free : op ≠ .between → op ≠ .membership → Suits op.word operand := fun range choice =>
      suits_word.mpr ⟨fun same => absurd same range, fun same => absurd same choice⟩
    have unary : ∀ form : Text → Clause, Demand.operandsOf op.word operand = [operand] → Suits op.word operand →
        Makes (value operand >>= fun t => pure (form t))
          (if Suits op.word operand then (Demand.operandsOf op.word operand).map .literal else [])
          (Suits op.word operand) := by
      intro form single suits
      rw [if_pos suits, single]
      exact (makes_unary operand form).congr rfl (iff_of_true trivial suits)
    -- Only a range and a membership can fail to suit.
    cases op with
    | comparison sort => exact unary _ (by cases sort <;> rfl) (free nofun nofun)
    | beginsWith => exact unary _ rfl (free nofun nofun)
    | contains => exact unary _ rfl (free nofun nofun)
    | lacks => exact unary _ rfl (free nofun nofun)
    | absent =>
      rw [if_pos (free nofun nofun)]
      exact (makes_pure _).congr rfl (iff_of_true trivial (free nofun nofun))
    | present =>
      rw [if_pos (free nofun nofun)]
      exact (makes_pure _).congr rfl (iff_of_true trivial (free nofun nofun))
    | between =>
      have range : Suits Operator.between.word operand ↔ IsRange operand := by simp [suits_word]
      simp only [range]
      exact makes_between n subject operand
    | membership =>
      have choice : Suits Operator.membership.word operand ↔ IsChoice operand := by simp [suits_word]
      simp only [choice]
      exact makes_membership n subject operand

/-- What is demanded is compiled: the attribute has a name, and the operator takes the operand. -/
def Compiles (demand : Value × Value × Value) : Prop :=
  demand.1.Names ∧ Takes demand.2.1.asText demand.2.2

instance decidableCompiles : DecidablePred Compiles := fun _ => inferInstanceAs (Decidable (_ ∧ _))

/-- What a demand mentions: its attribute, and its operands if it is compiled. -/
def mentions (demand : Value × Value × Value) : List Mention :=
  Mention.ofAttribute demand.1 ++
    if Compiles demand then (Demand.operandsOf demand.2.1.asText demand.2.2).map .literal else []

private theorem makes_compileDemand (name operand : Value) (word : Text) :
    Makes (compileDemand (name, .text word, operand)) (mentions (name, .text word, operand))
      (Compiles (name, .text word, operand)) := by
  have compiled : Makes (compileDemand (name, .text word, operand)) _ _ :=
    makes_plain fun n => makes_compileClause n word operand
  refine compiled.congr ?_ ?_
  · rcases Option.eq_none_or_eq_some name.plain? with plain | ⟨n, plain⟩
    · simp [mentions, Compiles, Mention.ofAttribute, Value.Names, plain]
    · simp [mentions, Compiles, Mention.ofAttribute, Value.Names, plain, Value.asText]
  · constructor
    · rintro ⟨n, plain, filled, taken⟩
      exact ⟨⟨n, plain, filled⟩, taken⟩
    · rintro ⟨⟨n, plain, filled⟩, taken⟩
      exact ⟨n, plain, filled, taken⟩

private theorem filled_mentions (demand : Value × Value × Value) : ∀ mention ∈ mentions demand, mention.Filled := by
  intro mention member
  rcases List.mem_append.mp member with named | listed
  · exact Mention.filled_ofAttribute demand.1 mention named
  · split at listed
    · obtain ⟨_, -, rfl⟩ := List.mem_map.mp listed
      trivial
    · exact absurd listed List.not_mem_nil

/-- Something is wrong with a condition: its body is no map that is filled, or maps an operator that is not an
allowed one. -/
def Flawed (allowed : List Text) (condition : Value × Value) : Prop :=
  (¬ ∃ operators, operators ≠ [] ∧ condition.2 = .map operators) ∨
    ∃ operators, condition.2 = .map operators ∧ ∃ entry ∈ operators, ∀ word ∈ allowed, entry.1 ≠ .text word

theorem checkBody_eq_ok_iff {allowed : List Text} {condition : Value × Value} :
    checkBody allowed condition.1 condition.2 = .ok () ↔ ¬ Flawed allowed condition := by
  rw [checkBody_eq_ok, Flawed, not_or, not_not]
  constructor
  · rintro ⟨operators, body, filled, among⟩
    refine ⟨⟨operators, filled, body⟩, ?_⟩
    rintro ⟨others, body', entry, member, refused⟩
    obtain rfl := Value.map.inj (body.symm.trans body')
    obtain ⟨word, inAllowed, text⟩ := among entry member
    exact refused word inAllowed text
  · rintro ⟨⟨operators, filled, body⟩, unrefused⟩
    refine ⟨operators, body, filled, fun entry member => ?_⟩
    by_contra missing
    exact unrefused ⟨operators, body, entry, member, fun word inAllowed text => missing ⟨word, inAllowed, text⟩⟩

instance decidableFlawed (allowed : List Text) : DecidablePred (Flawed allowed) := fun condition =>
  have unflawed : (checkBody allowed condition.1 condition.2).isOk = true ↔ ¬ Flawed allowed condition :=
    isOk_iff.trans (exists_const _ |>.trans checkBody_eq_ok_iff)
  decidable_of_iff (¬ (checkBody allowed condition.1 condition.2).isOk = true) (by rw [unflawed, not_not])

/-- What conditions mention: nothing if there is a flaw in any of them, and otherwise what is demanded one after
another, up to a demand that is not compiled. -/
def mentionsAll (allowed : List Text) (conditions : Record) : List Mention :=
  if ∀ condition ∈ conditions, ¬ Flawed allowed condition then
    Mention.upTo mentions Compiles (demands conditions)
  else []

theorem check_eq_ok_iff {allowed : List Text} {conditions : Record} :
    check allowed conditions = .ok () ↔ ∀ condition ∈ conditions, ¬ Flawed allowed condition := by
  rw [check, forM_eq_ok]
  exact forall₂_congr fun _ _ => checkBody_eq_ok_iff

private theorem makes_compileRecord (allowed : List Text) (conditions : Record) :
    Makes (compileRecord allowed conditions) (mentionsAll allowed conditions)
      ((∀ condition ∈ conditions, ¬ Flawed allowed condition) ∧ ∀ demand ∈ demands conditions, Compiles demand) := by
  refine makes_lift_bind ((exists_const _).trans check_eq_ok_iff) ?_
  intro _ checked
  refine makes_mapM ?_
  rintro ⟨name, operator, operand⟩ member
  obtain ⟨operators, among, entry⟩ := mem_demands.mp member
  obtain ⟨word, -, text⟩ := allowed_of_check checked among _ entry
  obtain rfl : operator = .text word := text
  exact makes_compileDemand name operand word

def mentionsOf (allowed : List Text) : Value → List Mention
  | .map conditions => mentionsAll allowed conditions
  | _ => []

theorem filled_mentionsOf (allowed : List Text) (given : Value) :
    ∀ mention ∈ mentionsOf allowed given, mention.Filled := by
  unfold mentionsOf mentionsAll
  split
  · split
    · intro mention member
      obtain ⟨demand, -, member⟩ := Mention.mem_upTo member
      exact filled_mentions demand mention member
    · exact List.forall_mem_nil _
  · exact List.forall_mem_nil _

theorem mentions_compile (allowed : List Text) (given : Value) (before : Tables) :
    ((compile allowed given).runOn before).2 = before.mentionAll (mentionsOf allowed given) := by
  cases given with
  | map conditions =>
    cases conditions with
    | nil => rfl
    | cons condition conditions => exact (makes_compileRecord allowed (condition :: conditions)).tables before
  | _ =>
    -- Without conditions nothing is compiled, and what is no map has no entries.
    rw [compile]
    split <;> rfl

end Condition

namespace Projection

open Compiling

/-- What a projection mentions: the names that it lists, up to an attribute without a name. -/
def mentions (attributes : Value) : List Mention :=
  match names attributes with
  | .ok listed => Mention.upTo Mention.ofAttribute Value.Names listed
  | .error _ => []

theorem filled_mentions (attributes : Value) : ∀ mention ∈ mentions attributes, mention.Filled := by
  unfold mentions
  split
  · intro mention member
    obtain ⟨v, -, member⟩ := Mention.mem_upTo member
    exact Mention.filled_ofAttribute v mention member
  · exact List.forall_mem_nil _

private theorem makes_attribute (v : Value) :
    Makes ((liftM v.plain : Compiling Text) >>= fun n => name (.text n)) (Mention.ofAttribute v) v.Names :=
  makes_plain makes_name

theorem mentions_compile (attributes : Value) (before : Tables) :
    ((compile attributes).runOn before).2 = before.mentionAll (mentions attributes) := by
  rw [mentions]
  cases listed : names attributes with
  | error fault =>
    have failing : (compile attributes).runOn before = (.error fault, before) := by
      rw [compile, listed]
      rfl
    rw [failing]
    rfl
  | ok items =>
    have each : Makes (items.mapM fun v => (liftM v.plain : Compiling Text) >>= fun n => name (.text n))
        (Mention.upTo Mention.ofAttribute Value.Names items) (∀ v ∈ items, v.Names) :=
      makes_mapM fun v _ => makes_attribute v
    rw [compile, listed]
    exact each.tables before

end Projection

end TableQuery
