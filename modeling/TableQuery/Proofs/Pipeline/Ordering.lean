/- The order of the stages.

   Stages that may change places with their neighbours may stand in any order. A start-key stage, a limit
   stage and a back-off stage may: the first two write into the request under names of their own and each
   settles its own part of a result, and to repeat the calls inside such a stage is to repeat its own
   calls. -/

import TableQuery.Proofs.Pipeline.Failing

set_option autoImplicit false
set_option relaxedAutoImplicit false

namespace TableQuery

/-- Records that differ in the order of their entries only: each name has the same value in both. -/
structure Record.Reordered (record other : Record) : Prop where
  entries : record.Perm other
  values : ∀ name, record.get? name = other.get? name

namespace Record

private theorem put_of_get?_eq_none {record : Record} {name : Text} (absent : record.get? name = none)
    (value : Value) : record.put name value = record ++ [(.text name, value)] := by
  induction record with
  | nil => rfl
  | cons entry rest ih =>
    obtain ⟨key, old⟩ := entry
    rw [get?_cons] at absent
    split at absent
    · cases absent
    · rename_i other
      rw [Record.put, if_neg other, ih absent, List.cons_append]

private theorem exists_perm_put {record : Record} {name : Text} {old : Value} (there : record.get? name = some old) :
    ∃ rest : Record, record.Perm ((.text name, old) :: rest) ∧
      ∀ value, (record.put name value).Perm ((.text name, value) :: rest) := by
  induction record with
  | nil => cases there
  | cons entry rest ih =>
    obtain ⟨key, first⟩ := entry
    rw [get?_cons] at there
    split at there
    · rename_i here
      obtain rfl := Option.some.inj there
      refine ⟨rest, ?_, ?_⟩
      · rw [Value.isText_iff.mp here]
      · intro value
        rw [Record.put, if_pos here, Value.isText_iff.mp here]
    · rename_i other
      obtain ⟨left, before, after⟩ := ih there
      refine ⟨(key, first) :: left, (before.cons _).trans (.swap ..), ?_⟩
      intro value
      rw [Record.put, if_neg other]
      exact ((after value).cons _).trans (.swap ..)

namespace Reordered

variable {record other third : Record}

private theorem refl (record : Record) : record.Reordered record := ⟨.refl _, fun _ => rfl⟩

private theorem symm (h : record.Reordered other) : other.Reordered record :=
  ⟨h.entries.symm, fun name => (h.values name).symm⟩

private theorem trans (h : record.Reordered other) (h' : other.Reordered third) : record.Reordered third :=
  ⟨h.entries.trans h'.entries, fun name => (h.values name).trans (h'.values name)⟩

private theorem put (h : record.Reordered other) (name : Text) (value : Value) :
    (record.put name value).Reordered (other.put name value) := by
  refine ⟨?_, ?_⟩
  · cases there : record.get? name with
    | none =>
      have there' : other.get? name = none := (h.values name).symm.trans there
      rw [put_of_get?_eq_none there, put_of_get?_eq_none there']
      exact h.entries.append_right _
    | some old =>
      have there' : other.get? name = some old := (h.values name).symm.trans there
      obtain ⟨rest, before, after⟩ := exists_perm_put there
      obtain ⟨rest', before', after'⟩ := exists_perm_put there'
      have same : rest.Perm rest' := ((before.symm.trans h.entries).trans before').cons_inv
      exact ((after value).trans (same.cons _)).trans (after' value).symm
  · intro asked
    by_cases same : name = asked
    · rw [same, get?_put_self, get?_put_self]
    · rw [get?_put_of_ne _ _ same, get?_put_of_ne _ _ same, h.values]

private theorem put_put (record : Record) {name other : Text} (value last : Value) (apart : name ≠ other) :
    ((record.put name value).put other last).Reordered ((record.put other last).put name value) := by
  cases there : record.get? other with
  | some _ =>
    rw [put_comm record value last apart (by rw [there]; rfl)]
    exact .refl _
  | none =>
    cases first : record.get? name with
    | some _ =>
      rw [put_comm record last value apart.symm (by rw [first]; rfl)]
      exact .refl _
    | none =>
      have later : (record.put name value).get? other = none := (get?_put_of_ne _ _ apart).trans there
      have later' : (record.put other last).get? name = none :=
        (get?_put_of_ne _ _ apart.symm).trans first
      refine ⟨?_, ?_⟩
      · rw [put_of_get?_eq_none later, put_of_get?_eq_none later', put_of_get?_eq_none first,
          put_of_get?_eq_none there, List.append_assoc, List.append_assoc]
        exact (List.Perm.swap ..).append_left record
      · intro asked
        by_cases atName : name = asked
        · subst atName
          rw [get?_put_of_ne _ _ apart.symm, get?_put_self, get?_put_self]
        · by_cases atOther : other = asked
          · subst atOther
            rw [get?_put_self, get?_put_of_ne _ _ apart, get?_put_self]
          · simp only [get?_put_of_ne _ _ atName, get?_put_of_ne _ _ atOther]

private theorem started (h : record.Reordered other) (key : Value) :
    (Stage.started key record).Reordered (Stage.started key other) := by
  unfold Stage.started
  split
  · exact h.put _ key
  · exact h

private theorem limited (h : record.Reordered other) (caps : Caps) (tally : Tally) :
    (caps.limited tally record).Reordered (caps.limited tally other) := by
  unfold Caps.limited
  split
  · exact h.put _ _
  · exact h

private theorem limited_started (record : Record) (key : Value) (caps : Caps) (tally : Tally) :
    (caps.limited tally (Stage.started key record)).Reordered
      (Stage.started key (caps.limited tally record)) := by
  unfold Stage.started Caps.limited
  split
  · split
    · exact put_put record _ _ (by simp)
    · exact .refl _
  · exact .refl _

end Reordered

end Record

/-- Events that differ in the order of the entries of a request only. -/
inductive Event.Alike : Event → Event → Prop
  | sent {request other : Record} (same : request.Reordered other) : Alike (.sent request) (.sent other)
  | slept (seconds : Number) : Alike (.slept seconds) (.slept seconds)
  | noted (note : Text) : Alike (.noted note) (.noted note)

namespace Event.Alike

variable {first second third : Event}

private theorem refl : (event : Event) → event.Alike event
  | .sent request => .sent (.refl request)
  | .slept seconds => .slept seconds
  | .noted note => .noted note

private theorem symm (h : first.Alike second) : second.Alike first := by
  cases h with
  | sent same => exact .sent same.symm
  | slept seconds => exact .slept seconds
  | noted note => exact .noted note

private theorem trans (h : first.Alike second) (h' : second.Alike third) : first.Alike third := by
  cases h with
  | sent same =>
    cases h' with
    | sent same' => exact .sent (same.trans same')
  | slept => exact h'
  | noted => exact h'

private theorem refl_all (events : List Event) : List.Forall₂ Alike events events :=
  List.forall₂_same.mpr fun event _ => refl event

private theorem trans_all {one other last : List Event} (h : List.Forall₂ Alike one other)
    (h' : List.Forall₂ Alike other last) : List.Forall₂ Alike one last := by
  induction h generalizing last with
  | nil => exact h'
  | cons same _ ih =>
    cases h' with
    | cons same' rest => exact .cons (same.trans same') (ih rest)

end Event.Alike

/-- Runs of pipelines whose stages stand in different orders: they have the same outcome and the same events,
and leave the same stages and the same state of the service. -/
structure Run.Alike {σ : Type} (one other : Run (List Stage × σ) StepResult) : Prop where
  outcome : one.outcome = other.outcome
  events : List.Forall₂ Event.Alike one.events other.events
  stages : one.state.1.Perm other.state.1
  service : one.state.2 = other.state.2

/-- A service that does not see the order of the entries of a request. -/
def Service.Unordered {σ : Type} (service : Service σ) : Prop :=
  ∀ (request other : Record) (state : σ), request.Reordered other →
    service.answer request state = service.answer other state

private theorem listService_unordered : listService.Unordered := fun _ _ _ _ => rfl

namespace Run.Alike

variable {σ : Type} {first second third : Run (List Stage × σ) StepResult}

private theorem symm (h : first.Alike second) : second.Alike first :=
  ⟨h.outcome.symm, (h.events.imp fun _ _ => Event.Alike.symm).flip, h.stages.symm, h.service.symm⟩

private theorem trans (h : first.Alike second) (h' : second.Alike third) : first.Alike third :=
  ⟨h.outcome.trans h'.outcome, Event.Alike.trans_all h.events h'.events, h.stages.trans h'.stages,
    h.service.trans h'.service⟩

end Run.Alike

def Stage.onto {σ : Type} (left : Stage × List Stage × σ) : List Stage × σ :=
  (left.1 :: left.2.1, left.2.2)

private theorem Caps.settle_cases (caps : Caps) (tally : Tally) (page : Page) :
    (∀ result, caps.settle tally result page = (result, tally.plus page)) ∨
      ∃ given counted, given.lastKey = page.lastKey ∧
        ∀ result, caps.settle tally result page = (.done (some given), counted) := by
  cases full : caps.full (tally.plus page) with
  | false => exact .inl fun result => settle_of_not_full result full
  | true =>
    refine .inr ⟨caps.cut tally page, (caps.settle tally (.more page) page).2, ?_, ?_⟩
    · exact caps.cut_lastKey tally page
    · intro result
      refine Prod.ext (settle_of_full result full) ?_
      unfold settle
      dsimp only
      split
      · split <;> rfl
      · split <;> rfl

private theorem Stage.settleKey_settleTally (key : Value) (caps : Caps) (tally : Tally) (result : StepResult) :
    (settleKey key (settleTally caps tally result).1).1 =
        (settleTally caps tally (settleKey key result).1).1 ∧
      (settleKey key (settleTally caps tally result).1).2 = (settleKey key result).2 ∧
      (settleTally caps tally (settleKey key result).1).2 = (settleTally caps tally result).2 := by
  have ended : ∀ page, (StepResult.done (some page)).page? = some page := fun _ => rfl
  cases brings : result.page? with
  | none => simp [settleKey, settleTally, brings]
  | some page =>
    rcases caps.settle_cases tally page with passed | ⟨given, counted, sameKey, settled⟩
    · cases truthy : page.lastKey.isTruthy <;>
        simp [settleKey, settleTally, brings, passed, truthy, ended]
    · cases truthy : page.lastKey.isTruthy <;>
        simp [settleKey, settleTally, brings, settled, sameKey, truthy, ended]

private theorem Retry.loop_settled {σ α : Type} (retry : Retry) (stage : Stage) (rebuild : α → Stage)
    (settle : StepResult → StepResult × α)
    {inner outer : List Stage × σ → Run (List Stage × σ) StepResult}
    (calls : ∀ inside, outer (stage :: inside.1, inside.2) =
      (stage.settled rebuild settle (inner inside)).mapState Stage.onto)
    (fuel attempts : Nat) (inside : List Stage × σ) :
    retry.loop outer fuel attempts (stage :: inside.1, inside.2) =
      (stage.settled rebuild settle (retry.loop inner fuel attempts inside)).mapState Stage.onto := by
  induction fuel generalizing attempts inside with
  | zero => exact calls inside
  | succ fuel ih =>
    rw [loop, loop, calls]
    cases outcome : (inner inside).outcome with
    | ok result => simp [Stage.settled, Run.mapState, outcome]
    | error fault =>
      cases fault with
      | throttled code description =>
        simp only [Stage.settled, Run.mapState, outcome]
        cases next : retry.next (attempts + 1) with
        | error fault => rfl
        | ok seconds =>
          have later := ih (attempts + 1) (inner inside).state
          simp only [Stage.onto, later]
          cases last : (retry.loop inner fuel (attempts + 1) (inner inside).state).outcome <;>
            simp [Stage.settled, Run.after, Run.mapState, last, Stage.onto]
      | _ => simp [Stage.settled, Run.mapState, outcome]

namespace Run.Alike

variable {σ : Type} {one other : Run (List Stage × σ) StepResult}

private theorem after (alike : one.Alike other) {events events' : List Event}
    (before : List.Forall₂ Event.Alike events events') : (one.after events).Alike (other.after events') :=
  ⟨alike.outcome, List.rel_append before alike.events, alike.stages, alike.service⟩

private theorem onto (alike : one.Alike other) (stage : Stage) :
    (one.mapState fun inside => (stage :: inside.1, inside.2)).Alike
      (other.mapState fun inside => (stage :: inside.1, inside.2)) :=
  ⟨alike.outcome, alike.events, alike.stages.cons stage, alike.service⟩

private theorem settled {α : Type} (alike : one.Alike other) (stage : Stage) (rebuild : α → Stage)
    (settle : StepResult → StepResult × α) :
    ((stage.settled rebuild settle one).mapState Stage.onto).Alike
      ((stage.settled rebuild settle other).mapState Stage.onto) := by
  have same := alike.outcome
  cases outcome : one.outcome with
  | error fault =>
    have outcome' : other.outcome = .error fault := same.symm.trans outcome
    simp only [Stage.settled, outcome, outcome']
    exact ⟨rfl, alike.events, alike.stages.cons _, alike.service⟩
  | ok result =>
    have outcome' : other.outcome = .ok result := same.symm.trans outcome
    simp only [Stage.settled, outcome, outcome']
    exact ⟨rfl, alike.events, alike.stages.cons _, alike.service⟩

private theorem settled_settled (alike : one.Alike other) (key : Value) (caps : Caps) (tally : Tally) :
    let limited (run : Run (List Stage × σ) StepResult) :=
      ((Stage.limit caps tally).settled (.limit caps) (Stage.settleTally caps tally) run).mapState Stage.onto
    let keyed (run : Run (List Stage × σ) StepResult) :=
      ((Stage.startKey key).settled .startKey (Stage.settleKey key) run).mapState Stage.onto
    (keyed (limited one)).Alike (limited (keyed other)) := by
  obtain ⟨outcome, events, left, reached⟩ := one
  obtain ⟨outcome', events', left', reached'⟩ := other
  obtain ⟨rfl, happened, standing, rfl⟩ := alike
  cases outcome with
  | error fault => exact ⟨rfl, happened, (List.Perm.swap ..).trans ((standing.cons _).cons _), rfl⟩
  | ok result =>
    obtain ⟨given, kept, counted⟩ := Stage.settleKey_settleTally key caps tally result
    refine ⟨congrArg Except.ok given, happened, ?_, rfl⟩
    simp only [Stage.settled, Run.mapState, Stage.onto, kept, counted]
    exact (List.Perm.swap ..).trans ((standing.cons _).cons _)

end Run.Alike

namespace Pipeline

section

variable {σ : Type} (service : Service σ)

private theorem run_state_of_fault {stages : List Stage} {request : Record} {state : σ} {fault : Fault}
    (failed : (run service stages request state).outcome = .error fault) :
    (run service stages request state).state.1 = stages := by
  obtain ⟨exchanges, -, comes⟩ := run_comes service stages request state
  rw [failed] at comes
  exact comes.of_fault.1

/-- Stages in two orders that run alike: from every state of the service, on requests with the same
entries. -/
structure RunAlike (stages other : List Stage) : Prop where
  rearranged : stages.Perm other
  runs : ∀ {request request' : Record}, request.Reordered request' →
    ∀ state, (run service stages request state).Alike (run service other request' state)

end

section

variable {σ : Type} {service : Service σ} {stages other third : List Stage}

private theorem RunAlike.symm (alike : RunAlike service stages other) : RunAlike service other stages :=
  ⟨alike.rearranged.symm, fun same state => (alike.runs same.symm state).symm⟩

private theorem RunAlike.trans (alike : RunAlike service stages other) (alike' : RunAlike service other third) :
    RunAlike service stages third :=
  ⟨alike.rearranged.trans alike'.rearranged,
    fun same state => (alike.runs same state).trans (alike'.runs (.refl _) state)⟩

private theorem RunAlike.nil (unordered : service.Unordered) : RunAlike service [] [] := by
  refine ⟨.nil, ?_⟩
  intro request request' same state
  have answered := unordered request request' state same
  refine ⟨?_, List.Forall₂.cons (Event.Alike.sent same) .nil, .nil, ?_⟩
  · exact congrArg (fun answer : Except Fault Page × σ => answer.1.map StepResult.more) answered
  · exact congrArg (fun answer : Except Fault Page × σ => answer.2) answered

/-- Calls that are alike stay alike when they are repeated. -/
private theorem loop_alike (retry : Retry) (alike : RunAlike service stages other) {request request' : Record}
    (same : request.Reordered request') (fuel attempts : Nat) (state : σ) :
    (retry.loop (runDepth service stages.length request) fuel attempts (stages, state)).Alike
      (retry.loop (runDepth service other.length request') fuel attempts (other, state)) := by
  induction fuel generalizing attempts state with
  | zero => exact alike.runs same state
  | succ fuel ih =>
    have first := alike.runs same state
    have kept := @run_state_of_fault _ service stages request state
    have kept' := @run_state_of_fault _ service other request' state
    unfold run at first kept kept'
    rw [Retry.loop, Retry.loop]
    generalize runDepth service stages.length request (stages, state) = run at first kept ⊢
    generalize runDepth service other.length request' (other, state) = run' at first kept' ⊢
    obtain ⟨outcome, events, left, reached⟩ := run
    obtain ⟨outcome', events', left', reached'⟩ := run'
    obtain ⟨rfl, happened, standing, rfl⟩ := first
    cases outcome with
    | ok result => exact ⟨rfl, happened, standing, rfl⟩
    | error fault =>
      -- A fault has left the stages as they were, so the next call finds them as the first one did.
      obtain rfl := kept rfl
      obtain rfl := kept' rfl
      cases fault with
      | throttled code description =>
        dsimp only
        cases retry.next (attempts + 1) with
        | error fault => exact ⟨rfl, happened, standing, rfl⟩
        | ok seconds =>
          exact (ih (attempts + 1) reached).after (List.rel_append happened (Event.Alike.refl_all _))
      | _ => exact ⟨rfl, happened, standing, rfl⟩

private theorem RunAlike.cons (alike : RunAlike service stages other) (stage : Stage) :
    RunAlike service (stage :: stages) (stage :: other) := by
  refine ⟨alike.rearranged.cons stage, ?_⟩
  intro request request' same state
  cases stage with
  | startKey key =>
    exact (alike.runs (same.started key) state).settled (.startKey key) .startKey (Stage.settleKey key)
  | limit caps tally =>
    simp only [run, List.length_cons, runDepth, Stage.around]
    split
    · exact ⟨rfl, .nil, alike.rearranged.cons _, rfl⟩
    · exact (alike.runs (same.limited caps tally) state).settled (.limit caps tally) (.limit caps)
        (Stage.settleTally caps tally)
  | backoff retry => exact (loop_alike retry alike same _ 0 state).onto _
  | note label =>
    have inside := (alike.runs same state).onto (.note label)
    have outcome := (alike.runs same state).outcome
    refine ⟨inside.outcome, ?_, inside.stages, inside.service⟩
    unfold run at outcome
    simp only [run, List.length_cons, runDepth, Stage.around, Run.mapState, outcome]
    exact .cons (.refl _) (List.rel_append inside.events (Event.Alike.refl_all _))
  | finish =>
    exact (alike.runs same state).settled .finish (fun _ => .finish) fun result => (.done result.page?, ())
  | skip => exact ⟨rfl, .nil, alike.rearranged.cons _, rfl⟩

private theorem RunAlike.refl (unordered : service.Unordered) (stages : List Stage) :
    RunAlike service stages stages := by
  induction stages with
  | nil => exact .nil unordered
  | cons stage rest ih => exact ih.cons stage

/-- Stages that may change places when they are next to each other, whatever is inside them. -/
def Exchange (service : Service σ) (first second : Stage) : Prop :=
  ∀ rest, RunAlike service (first :: second :: rest) (second :: first :: rest)

private theorem RunAlike.of_perm (unordered : service.Unordered) (rearranged : stages.Perm other)
    (exchange : stages.Pairwise (Exchange service)) : RunAlike service stages other := by
  have symmetric : ∀ {first second : Stage},
      Exchange service first second → Exchange service second first :=
    fun exchange rest => (exchange rest).symm
  induction rearranged with
  | nil => exact .nil unordered
  | cons stage _ ih => exact (ih (List.pairwise_cons.mp exchange).2).cons stage
  | swap first second rest =>
    exact (List.pairwise_cons.mp exchange).1 first List.mem_cons_self rest
  | trans rearranged _ ih ih' =>
    exact (ih exchange).trans (ih' ((rearranged.pairwise_iff symmetric).mp exchange))

end

section

variable {σ : Type} {service : Service σ} (unordered : service.Unordered)

include unordered

private theorem exchange_startKey_limit (key : Value) (caps : Caps) (tally : Tally) :
    Exchange service (.startKey key) (.limit caps tally) := by
  intro rest
  refine ⟨.swap .., ?_⟩
  intro request request' same state
  cases usedUp : caps.usedUp tally with
  | true =>
    simp only [run, List.length_cons, runDepth, Stage.around, usedUp, if_true]
    exact ⟨rfl, .nil, .swap .., rfl⟩
  | false =>
    have written : (caps.limited tally (Stage.started key request)).Reordered
        (Stage.started key (caps.limited tally request')) :=
      ((same.started key).limited caps tally).trans (.limited_started request' key caps tally)
    have inside := (RunAlike.refl unordered rest).runs written state
    simp only [run, List.length_cons, runDepth, Stage.around, usedUp, Bool.false_eq_true, if_false]
    exact inside.settled_settled key caps tally

private theorem exchange_backoff_of_settled (retry : Retry) {α : Type} {stage : Stage} {rebuild : α → Stage}
    {settle : StepResult → StepResult × α} {write : Record → Record}
    (calls : ∀ patience inner request (state : List Stage × σ),
      stage.around patience inner request state =
        stage.settled rebuild settle (inner (write request) state)) :
    Exchange service (.backoff retry) stage := by
  intro rest
  refine ⟨.swap .., ?_⟩
  intro request request' same state
  refine Run.Alike.trans ?_ ((RunAlike.refl unordered _).runs same state)
  have within : ∀ depth (inside : List Stage × σ),
      runDepth service (depth + 1) request (stage :: inside.1, inside.2) =
        (stage.settled rebuild settle (runDepth service depth (write request) inside)).mapState Stage.onto :=
    fun depth inside => congrArg (Run.mapState Stage.onto) (calls _ _ request inside)
  have outside := within (rest.length + 1) (.backoff retry :: rest, state)
  have repeated := retry.loop_settled stage rebuild settle (within rest.length) (service.patience state) 0
    (rest, state)
  simp only [run, List.length_cons]
  rw [outside]
  simp only [runDepth, Stage.around] at repeated ⊢
  rw [repeated]
  generalize retry.loop _ _ _ _ = inner
  cases outcome : inner.outcome <;>
    simp only [Stage.settled, Run.mapState, outcome, Stage.onto] <;>
    exact ⟨rfl, Event.Alike.refl_all _, .swap .., rfl⟩

private theorem exchange_backoff_startKey (retry : Retry) (key : Value) :
    Exchange service (.backoff retry) (.startKey key) :=
  exchange_backoff_of_settled unordered retry fun _ _ _ _ => rfl

private theorem exchange_backoff_limit (retry : Retry) (caps : Caps) (tally : Tally) :
    Exchange service (.backoff retry) (.limit caps tally) := by
  cases usedUp : caps.usedUp tally with
  | false =>
    have calls : ∀ patience inner request (state : List Stage × σ),
        (Stage.limit caps tally).around patience inner request state =
          (Stage.limit caps tally).settled (.limit caps) (Stage.settleTally caps tally)
            (inner (caps.limited tally request) state) := by
      intro patience inner request state
      rw [Stage.around, usedUp, if_neg Bool.false_ne_true]
    exact exchange_backoff_of_settled unordered retry calls
  | true =>
    intro rest
    refine ⟨.swap .., ?_⟩
    intro request request' same state
    have rests : ∀ depth given (inside : List Stage),
        runDepth service (depth + 1) given (.limit caps tally :: inside, state) =
          { outcome := .ok (.done none), events := [], state := (.limit caps tally :: inside, state) } := by
      intro depth given inside
      rw [runDepth, Stage.around, if_pos usedUp]
      rfl
    simp only [run, List.length_cons]
    rw [rests, runDepth, Stage.around, Retry.loop_of_not_throttled _ _ _ _ _ (by simp [rests]), rests]
    exact ⟨rfl, .nil, .swap .., rfl⟩

/-- A start-key stage, a limit stage and a back-off stage run alike in any order. -/
private theorem runAlike_stagesAt (caps : Caps) (retry : Retry) (position : Position) {stages : List Stage}
    (order : stages.Perm (Reading.stagesAt caps retry position)) :
    RunAlike service (Reading.stagesAt caps retry position) stages := by
  have keyLimit := exchange_startKey_limit unordered position.key caps position.tally
  have backoffKey := exchange_backoff_startKey unordered retry position.key
  have backoffLimit := exchange_backoff_limit unordered retry caps position.tally
  refine .of_perm unordered order.symm ?_
  refine .cons (List.forall_mem_cons.mpr ⟨keyLimit, List.forall_mem_singleton.mpr ?_⟩)
    (.cons (List.forall_mem_singleton.mpr ?_) (List.pairwise_singleton ..))
  · exact fun rest => (backoffKey rest).symm
  · exact fun rest => (backoffLimit rest).symm

end

private theorem exists_run_stagesAt {σ : Type} (service : Service σ) (caps : Caps) (retry : Retry)
    (position : Position) (request : Record) (state : σ) :
    ∃ next, (run service (Reading.stagesAt caps retry position) request state).state.1 =
      Reading.stagesAt caps retry next := by
  cases full : caps.full position.tally with
  | true =>
    refine ⟨position, ?_⟩
    have usedUp : caps.usedUp position.tally = true := (caps.usedUp_eq_full _).trans full
    simp [run, Reading.stagesAt, runDepth, Stage.around, usedUp, Stage.settled, Stage.settleKey,
      StepResult.page?, Run.mapState]
  | false =>
    rw [run_stagesAt service caps retry position request state full]
    dsimp only
    split
    · exact ⟨position, rfl⟩
    · exact ⟨⟨_, _⟩, rfl⟩

/-- A start-key stage, a limit stage and a back-off stage in two orders run alike from request to request, and
every run leaves the same three. -/
private theorem runs_alike {σ : Type} {service : Service σ} (unordered : service.Unordered) (caps : Caps)
    (retry : Retry) {position : Position} {one other : List Stage}
    (order : one.Perm (Reading.stagesAt caps retry position))
    (order' : other.Perm (Reading.stagesAt caps retry position)) (requests : List Record) (state : σ) :
    List.Forall₂
      (fun run run' => run.Alike run' ∧ ∃ next, run.state.1.Perm (Reading.stagesAt caps retry next))
      (runs service requests (one, state)) (runs service requests (other, state)) := by
  induction requests generalizing one other position state with
  | nil => exact .nil
  | cons request rest ih =>
    have alike := (runAlike_stagesAt unordered caps retry position order).runs (.refl request) state
    have alike' := (runAlike_stagesAt unordered caps retry position order').runs (.refl request) state
    have first := alike.symm.trans alike'
    obtain ⟨next, left⟩ := exists_run_stagesAt service caps retry position request state
    have order : (run service one request state).state.1.Perm (Reading.stagesAt caps retry next) :=
      left ▸ alike.stages.symm
    have reached : (run service other request state).state =
        ((run service other request state).state.1, (run service one request state).state.2) :=
      Prod.ext rfl first.service.symm
    refine .cons ⟨first, next, order⟩ ?_
    dsimp only
    rw [reached]
    exact ih order (first.stages.symm.trans order) _

/-- **The order of the stages is of no importance.** A start-key stage, a limit stage and a back-off stage
stand in any two orders around a service that answers from a script. Run for run the two pipelines give the
same result or the same fault, send the same requests, wait for the same times, and are left with the same
three stages and the same rest of the script. -/
theorem stage_order_irrelevant (key : Value) (caps : Caps) (tally : Tally) (retry : Retry)
    {one other : List Stage} (order : one.Perm [.startKey key, .limit caps tally, .backoff retry])
    (order' : other.Perm [.startKey key, .limit caps tally, .backoff retry])
    (script : List (Except Fault Page)) (requests : List Record) :
    List.Forall₂
      (fun run run' => run.Alike run' ∧
        ∃ key tally, run.state.1.Perm [.startKey key, .limit caps tally, .backoff retry])
      (runs listService requests (one, script)) (runs listService requests (other, script)) := by
  have order : one.Perm (Reading.stagesAt caps retry ⟨key, tally⟩) := order
  refine (runs_alike listService_unordered caps retry order order' requests script).imp ?_
  rintro run run' ⟨alike, next, left⟩
  exact ⟨alike, next.key, next.tally, left⟩

/-- Two orders of stages that have nothing counted yet, and three requests: the first is throttled once and
brings a page with a key, the second brings more records than are left, and nothing is sent for the third. -/
theorem stage_order_irrelevant_of_cut :
    let caps : Caps := ⟨some 3, none, some 2⟩
    let retry : Retry := ⟨.listed [.int 1], some (.int 1), "scan"⟩
    let one : List Stage := [.backoff retry, .limit caps ⟨0, 0⟩, .startKey .null]
    let other : List Stage := [.limit caps ⟨0, 0⟩, .startKey .null, .backoff retry]
    let page : Page := ⟨[.int 1, .int 2], 2, 4, .map [(.text "id", .int 2)], .null, false⟩
    let script : List (Except Fault Page) := [.error (.throttled [] []), .ok page, .ok page]
    let requests : List Record := [[], [(.text "TableName", .text "t")], []]
    let left := runs listService requests (one, script)
    left.map (fun run => run.outcome.map StepResult.page?) =
        [.ok (some page), .ok (some (page.truncate 1)), .ok none] ∧
      List.Forall₂ (fun run run' => run.Alike run' ∧
          ∃ key tally, run.state.1.Perm [.startKey key, .limit caps tally, .backoff retry])
        left (runs listService requests (other, script)) := by
  intro caps retry one other page script requests left
  have order : one.Perm [.startKey .null, .limit caps ⟨0, 0⟩, .backoff retry] :=
    List.reverse_perm [Stage.startKey .null, .limit caps ⟨0, 0⟩, .backoff retry]
  have order' : other.Perm [.startKey .null, .limit caps ⟨0, 0⟩, .backoff retry] := .swap ..
  exact ⟨rfl, stage_order_irrelevant .null caps ⟨0, 0⟩ retry order order' script requests⟩

end Pipeline

end TableQuery
