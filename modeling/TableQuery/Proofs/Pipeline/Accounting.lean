/- The accounts of a limit stage.

   A limit stage may stand anywhere in a pipeline: stages around it may call it again, stages inside it may
   cut pages or end a reading, and any call may end in a fault. Whatever happens, its counts are those of
   the pages it received and gave, its requests ask for no more than the counts leave, and when a cap is
   used up it rests. -/

import TableQuery.Proofs.Paging.Reference
import TableQuery.Proofs.Pipeline.Watching

set_option autoImplicit false
set_option relaxedAutoImplicit false

namespace TableQuery

/-- The counts of a stage's calls: the records of the pages that it gave, and the evaluated records of the
pages that it received. -/
def Tally.ofCalls (calls : List Call) : Tally :=
  ⟨((calls.filterMap fun call => StepResult.broughtBy? call.outcome).map Page.count).sum,
    (((calls.flatMap Call.exchanges).filterMap fun exchange =>
      StepResult.broughtBy? exchange.outcome).map Page.scannedCount).sum⟩

/-- A call that asks for nothing and gives nothing. -/
def Call.Rests (call : Call) : Prop := call.exchanges = [] ∧ call.outcome = .ok (.done none)

/-- The limit of a request is at least one, and within what the counts leave of the caps and within the
cap on one page, as far as these are set. -/
def Caps.Bounds (caps : Caps) (tally : Tally) (request : Record) : Prop :=
  caps ≠ ⟨none, none, none⟩ → ∃ n, request.get? "Limit" = some (.int n) ∧ 1 ≤ n ∧
    (∀ cap, caps.records = some cap → n ≤ cap - tally.records) ∧
    (∀ cap, caps.scanned = some cap → n ≤ cap - tally.scanned) ∧
    ∀ size, caps.batch = some size → n ≤ size

namespace Tally

private theorem ofCalls_append (front back : List Call) :
    ofCalls (front ++ back) =
      ⟨(ofCalls front).records + (ofCalls back).records,
        (ofCalls front).scanned + (ofCalls back).scanned⟩ := by
  simp only [ofCalls, List.filterMap_append, List.flatMap_append, List.map_append, List.sum_append]

private theorem ofCalls_of_rests {calls : List Call} (resting : ∀ call ∈ calls, call.Rests) :
    ofCalls calls = ⟨0, 0⟩ := by
  induction calls with
  | nil => rfl
  | cons call calls ih =>
    obtain ⟨⟨unasked, outcome⟩, later⟩ := List.forall_mem_cons.mp resting
    have first : ofCalls [call] = ⟨0, 0⟩ := by
      simp [ofCalls, unasked, outcome, StepResult.broughtBy?, StepResult.page?]
    rw [← List.singleton_append, ofCalls_append, first, ih later]
    rfl

end Tally

namespace Caps

variable {caps : Caps} {tally : Tally}

private theorem limited_bounds (positive : caps.Positive) (below : caps.usedUp tally = false) (request : Record) :
    caps.Bounds tally (caps.limited tally request) := by
  intro capped
  have member : ∀ bound ∈ caps.remaining tally ++ caps.batch.toList, 1 ≤ bound := by
    intro bound h
    rcases List.mem_append.mp h with left | size
    · rw [usedUp, List.any_eq_false] at below
      have left_over : ¬ bound ≤ 0 := by simpa using below bound left
      omega
    · exact positive.batch bound (Option.mem_toList.mp size)
  have some_bound : caps.remaining tally ++ caps.batch.toList ≠ [] := by
    obtain ⟨_ | records, _ | scanned, _ | batch⟩ := caps <;> simp [remaining, left] at capped ⊢
  obtain ⟨least, hleast⟩ := Option.isSome_iff_exists.mp
    (List.isSome_min?_of_ne_nil some_bound)
  have limit : caps.pageLimit? tally = some least := by
    rw [pageLimit?, hleast, Option.map_some, Int.max_eq_right (member least (List.min?_mem hleast))]
  have least_le := (List.min?_eq_some_iff.mp hleast).2
  refine ⟨least, ?_, member least (List.min?_mem hleast), ?_, ?_, ?_⟩
  · rw [limited, limit, Record.get?_put_self]
  · intro cap hcap
    exact least_le _ (List.mem_append_left _ (mem_remaining_records hcap))
  · intro cap hcap
    exact least_le _ (List.mem_append_left _ (mem_remaining_scanned hcap))
  · intro size hsize
    exact least_le _ (List.mem_append_right _ (Option.mem_toList.mpr hsize))

private theorem settle_accounts (caps : Caps) (tally : Tally) {result : StepResult} {page : Page}
    (brings : result.page? = some page) :
    ∃ given, (caps.settle tally result page).1.page? = some given ∧
      (caps.settle tally result page).2 =
        ⟨tally.records + given.count, tally.scanned + page.scannedCount⟩ ∧
      ∀ cap, caps.records = some cap → tally.records + given.count ≤ cap := by
  unfold settle
  dsimp only
  split
  · rename_i reaches
    obtain ⟨cap, hcap, le⟩ := (Option.any_eq_true _ _).mp reaches
    rw [decide_eq_true_eq] at le
    rw [hcap, Option.getD_some]
    split
    · have whole : tally.records + (cap - tally.records) = cap := by omega
      refine ⟨_, rfl, congrArg (Tally.mk · _) whole.symm, ?_⟩
      rintro _ ⟨⟩
      exact Int.le_of_eq whole
    · refine ⟨page, rfl, rfl, ?_⟩
      rintro _ ⟨⟩
      omega
  · rename_i unreached
    have within : ∀ cap, caps.records = some cap → tally.records + page.count ≤ cap := by
      intro cap hcap
      have above : ¬ cap ≤ tally.records + page.count := by simpa [reached, hcap] using unreached
      omega
    split
    · exact ⟨page, rfl, rfl, within⟩
    · exact ⟨page, brings, rfl, within⟩

/-- What a limit stage does in a call when it has counted a tally before. -/
structure Keeps (caps : Caps) (tally : Tally) (call : Call) : Prop where
  before : call.before = .limit caps tally
  after : call.after = .limit caps
    ⟨tally.records + (Tally.ofCalls [call]).records, tally.scanned + (Tally.ofCalls [call]).scanned⟩
  within : ∀ cap, caps.records = some cap → tally.records ≤ cap →
    tally.records + (Tally.ofCalls [call]).records ≤ cap
  forwarded : ∀ exchange ∈ call.exchanges, caps.Bounds tally exchange.request
  resting : caps.usedUp tally = true → call.Rests

private theorem Keeps.of_uncounted {call : Call} (before : call.before = .limit caps tally)
    (after : call.after = .limit caps tally) (uncounted : Tally.ofCalls [call] = ⟨0, 0⟩)
    (forwarded : ∀ exchange ∈ call.exchanges, caps.Bounds tally exchange.request)
    (resting : caps.usedUp tally = true → call.Rests) : caps.Keeps tally call := by
  refine ⟨before, ?_, ?_, forwarded, resting⟩
  · rw [after, uncounted, Int.add_zero, Int.add_zero]
  · intro cap _ le
    rwa [uncounted, Int.add_zero]

/-- Whatever is inside it, a limit stage keeps its accounts in each call. -/
private theorem recorded_keeps {σ : Type} (positive : caps.Positive) (tally : Tally) (patience : σ → Nat)
    (inner : Record → σ → Run σ StepResult) (request : Record) (state : σ) (calls : List Call) :
    let run := (Stage.limit caps tally).recorded patience inner request (state, calls)
    ∃ call, run.state.2.2 = calls ++ [call] ∧ run.state.1 = call.after ∧ caps.Keeps tally call := by
  refine ⟨_, rfl, rfl, ?_⟩
  -- Only with something left of its caps does the stage call the steps inside it, and then it does so once.
  rw [Stage.around]
  cases usedUp : caps.usedUp tally with
  | true =>
    rw [if_pos rfl]
    have rests : (Call.mk (.limit caps tally) [] (.ok (.done none)) (.limit caps tally)).Rests :=
      ⟨rfl, rfl⟩
    exact .of_uncounted rfl rfl (Tally.ofCalls_of_rests (List.forall_mem_singleton.mpr rests))
      (fun exchange member => absurd member List.not_mem_nil) (fun _ => rests)
  | false =>
    have bounds := limited_bounds positive usedUp request
    have awake : ∀ call : Call, caps.usedUp tally = true → call.Rests := by
      intro call resting
      rw [usedUp] at resting
      cases resting
    rw [if_neg Bool.false_ne_true, Stage.settled]
    dsimp only [Exchange.recorded, Run.mapState, List.nil_append]
    cases outcome : (inner (caps.limited tally request) state).outcome with
    | error fault =>
      exact .of_uncounted rfl rfl rfl (List.forall_mem_singleton.mpr bounds) (awake _)
    | ok result =>
      dsimp only [Stage.settleTally]
      cases brings : result.page? with
      | none =>
        refine .of_uncounted rfl rfl ?_ (List.forall_mem_singleton.mpr bounds) (awake _)
        simp [Tally.ofCalls, StepResult.broughtBy?, brings]
      | some page =>
        obtain ⟨given, gives, counts, within⟩ := caps.settle_accounts tally brings
        have counted : ∀ after, Tally.ofCalls
            [⟨.limit caps tally, [⟨caps.limited tally request, .ok result⟩],
              .ok (caps.settle tally result page).1, after⟩] = ⟨given.count, page.scannedCount⟩ := by
          intro after
          simp [Tally.ofCalls, StepResult.broughtBy?, brings, gives]
        refine ⟨rfl, ?_, ?_, List.forall_mem_singleton.mpr bounds, awake _⟩
        · dsimp only
          rw [counted, counts]
        · intro cap hcap _
          dsimp only
          rw [counted]
          exact within cap hcap

private theorem split_of_snoc {values earlier later : List Call} {last : Call}
    (split : values ++ [last] = earlier ++ later) :
    (earlier = values ++ [last] ∧ later = []) ∨
      ∃ front, values = earlier ++ front ∧ later = front ++ [last] := by
  rcases List.eq_nil_or_concat later with rfl | ⟨front, other, rfl⟩
  · exact .inl ⟨by rw [split, List.append_nil], rfl⟩
  · rw [List.concat_eq_append] at split ⊢
    rw [← List.append_assoc] at split
    obtain ⟨before, same⟩ := List.append_inj' split rfl
    exact .inr ⟨front, before, by rw [same]⟩

private theorem split_cons_of_snoc {values earlier later : List Call} {last call : Call}
    (split : values ++ [last] = earlier ++ call :: later) :
    (values = earlier ∧ last = call) ∨ ∃ front, values = earlier ++ call :: front := by
  rcases List.eq_nil_or_concat later with rfl | ⟨front, other, rfl⟩
  · obtain ⟨before, same⟩ := List.append_inj' split rfl
    exact .inl ⟨before, List.singleton_inj.mp same⟩
  · rw [List.concat_eq_append, ← List.cons_append, ← List.append_assoc] at split
    exact .inr ⟨front, (List.append_inj' split rfl).1⟩

/-- The accounts of a limit stage over its calls. After any of them the stage has the counts of the calls
so far, within the cap on records; each request has its limit within what the counts leave; and from the
call on at which a cap is used up, the stage rests and the counts stay. -/
structure Accounted (caps : Caps) (calls : List Call) : Prop where
  counted : ∀ earlier call later, calls = earlier ++ call :: later →
    call.before = .limit caps (.ofCalls earlier) ∧
      call.after = .limit caps (.ofCalls (earlier ++ [call]))
  within : ∀ earlier later, calls = earlier ++ later →
    ∀ cap, caps.records = some cap → (Tally.ofCalls earlier).records ≤ cap
  forwarded : ∀ earlier call later, calls = earlier ++ call :: later →
    ∀ exchange ∈ call.exchanges, caps.Bounds (.ofCalls earlier) exchange.request
  resting : ∀ earlier later, calls = earlier ++ later → caps.usedUp (.ofCalls earlier) = true →
    Tally.ofCalls calls = .ofCalls earlier ∧ ∀ call ∈ later, call.Rests

private theorem Accounted.nil (positive : caps.Positive) : caps.Accounted [] where
  counted := by simp
  within := by
    intro earlier later split cap hcap
    obtain ⟨rfl, rfl⟩ := List.append_eq_nil_iff.mp split.symm
    exact Int.le_of_lt (positive.records cap hcap)
  forwarded := by simp
  resting := by
    intro earlier later split usedUp
    obtain ⟨rfl, rfl⟩ := List.append_eq_nil_iff.mp split.symm
    exact ⟨rfl, by simp⟩

private theorem Accounted.snoc {calls : List Call} (accounted : caps.Accounted calls) {call : Call}
    (keeps : caps.Keeps (.ofCalls calls) call) : caps.Accounted (calls ++ [call]) where
  counted := by
    intro earlier other later split
    obtain ⟨rfl, rfl⟩ | ⟨front, before⟩ := split_cons_of_snoc split
    · exact ⟨keeps.before, by rw [keeps.after, Tally.ofCalls_append]⟩
    · exact accounted.counted earlier other front before
  within := by
    intro earlier later split
    obtain ⟨rfl, rfl⟩ | ⟨front, before, -⟩ := split_of_snoc split
    · intro cap hcap
      rw [Tally.ofCalls_append]
      exact keeps.within cap hcap (accounted.within calls [] (List.append_nil calls).symm cap hcap)
    · exact accounted.within earlier front before
  forwarded := by
    intro earlier other later split
    obtain ⟨rfl, rfl⟩ | ⟨front, before⟩ := split_cons_of_snoc split
    · exact keeps.forwarded
    · exact accounted.forwarded earlier other front before
  resting := by
    intro earlier later split usedUp
    obtain ⟨rfl, rfl⟩ | ⟨front, before, rfl⟩ := split_of_snoc split
    · exact ⟨rfl, fun call member => absurd member List.not_mem_nil⟩
    · obtain ⟨stays, rests⟩ := accounted.resting earlier front before usedUp
      have last_rests : call.Rests := keeps.resting (by rw [stays, usedUp])
      constructor
      · rw [Tally.ofCalls_append, Tally.ofCalls_of_rests (List.forall_mem_singleton.mpr last_rests), stays,
          Int.add_zero, Int.add_zero]
      · exact List.forall_mem_append.mpr ⟨rests, List.forall_mem_singleton.mpr last_rests⟩

end Caps

namespace Stage

private theorem limit_idle {σ : Type} {caps : Caps} {tally : Tally} (usedUp : caps.usedUp tally = true)
    (patience : σ → Nat) (inner : Record → σ → Run σ StepResult) (request : Record) (state : σ) :
    ((limit caps tally).around patience inner request state).Idle (limit caps tally, state) := by
  rw [around, if_pos usedUp]
  exact ⟨rfl, rfl, rfl⟩

/-- A limit stage with the counts of its calls, which are accounted for. -/
def OnAccount (caps : Caps) (stage : Stage) (calls : List Call) : Prop :=
  stage = limit caps (.ofCalls calls) ∧ caps.Accounted calls

private theorem recorded_onAccount {σ : Type} {caps : Caps} (positive : caps.Positive) (stage : Stage)
    (patience : σ → Nat) (inner : Record → σ → Run σ StepResult) (request : Record) (state : σ)
    (calls : List Call) (h : OnAccount caps stage calls) :
    let run := stage.recorded patience inner request (state, calls)
    OnAccount caps run.state.1 run.state.2.2 := by
  obtain ⟨rfl, accounted⟩ := h
  obtain ⟨call, hcalls, after, keeps⟩ :=
    Caps.recorded_keeps positive (.ofCalls calls) patience inner request state calls
  dsimp only
  rw [hcalls, after]
  exact ⟨by rw [keeps.after, Tally.ofCalls_append], accounted.snoc keeps⟩

/-- **Limit accounting.** A limit stage with positive caps stands anywhere in a pipeline around any
service, and the pipeline is run for any requests, one after another. The stage then has the counts of its
calls, which are accounted for; and once a cap is used up, each later run brings nothing, sends nothing and
leaves everything as it was. -/
theorem limit_accounting {σ : Type} (service : Service σ) {caps : Caps} (positive : caps.Positive)
    (outer inner : List Stage) (requests : List Record) (state : σ) :
    let stages := outer ++ newLimit caps :: inner
    let reached := Pipeline.after service requests (stages, state)
    ∃ calls, Pipeline.watch service outer.length requests (stages, state, []) =
        (reached.1, reached.2, calls) ∧
      reached.1[outer.length]? = some (limit caps (.ofCalls calls)) ∧
      caps.Accounted calls ∧
      (caps.usedUp (.ofCalls calls) = true →
        ∀ later : List Record, ∀ run ∈ Pipeline.runs service later reached, run.Idle reached) := by
  intro stages reached
  have starts : Pipeline.Stands (OnAccount caps) outer.length (stages, state, []) :=
    ⟨newLimit caps, by simp [stages], rfl, .nil positive⟩
  obtain ⟨_, standing, rfl, accounted⟩ :=
    Pipeline.watch_keeps service (recorded_onAccount positive) outer.length requests starts
  have erased := Pipeline.watch_erased service outer.length requests (stages, state, [])
  generalize Pipeline.watch service outer.length requests (stages, state, []) = watched
    at standing accounted erased ⊢
  obtain ⟨stages', state', calls⟩ := watched
  have same : reached = (stages', state') := erased.symm
  rw [same]
  refine ⟨calls, rfl, standing, accounted, ?_⟩
  intro usedUp later
  exact Pipeline.runs_idle service (limit_idle usedUp) standing later

/-- Three records at most, of at most ten evaluated ones, two at a time: a throttled call that is repeated,
a page of two, and a page of two that is cut to one. The fourth call rests. -/
theorem limit_accounting_of_cut_page :
    let caps : Caps := ⟨some 3, some 10, some 2⟩
    let page : Page := ⟨[.int 1, .int 2], 2, 4, .map [(.text "id", .int 2)], .null, false⟩
    let answers : List (Except Fault Page) := [.error (.throttled [] []), .ok page, .ok page]
    let stages := [.backoff ⟨.listed [.int 0], none, []⟩, newLimit caps, .startKey .null]
    let reached := Pipeline.after listService [[], [], []] (stages, answers)
    caps.Positive ∧ reached.1[1]? = some (limit caps ⟨3, 8⟩) ∧
      (∃ calls, calls.length = 4 ∧ caps.Accounted calls ∧ Tally.ofCalls calls = ⟨3, 8⟩) ∧
      ∀ later : List Record, ∀ run ∈ Pipeline.runs listService later reached, run.Idle reached := by
  intro caps page answers stages reached
  have positive : caps.Positive := ⟨by simp [caps], by simp [caps], by simp [caps]⟩
  obtain ⟨calls, watched, standing, accounted, rests⟩ := limit_accounting listService positive
    [.backoff ⟨.listed [.int 0], none, []⟩] [.startKey .null] [[], [], []] answers
  have run : (Pipeline.watch listService 1 [[], [], []] (stages, answers, [])).2.2 = calls :=
    congrArg (fun watched => watched.2.2) watched
  have counts : Tally.ofCalls calls = ⟨3, 8⟩ := by
    rw [← run]
    decide +kernel
  have four : calls.length = 4 := by
    rw [← run]
    decide +kernel
  have stands : reached.1[1]? = some (limit caps (.ofCalls calls)) := standing
  rw [counts] at stands
  exact ⟨positive, stands, ⟨calls, four, accounted, counts⟩, rests (by rw [counts]; rfl)⟩

end Stage

end TableQuery
