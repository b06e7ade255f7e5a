/- Runs that end the reading, and runs after which there is more.

   An end that the innermost step gives stays an end through any stages. A page after which there is more
   passes through stages only if each of them can go on after it, and then the next run sends a request. -/

import TableQuery.Proofs.Pipeline.Passing

set_option autoImplicit false
set_option relaxedAutoImplicit false

namespace TableQuery.Pipeline

private theorem Passes.done {stages after : List Stage} {page : Option Page} {outcome : Except Fault StepResult}
    (passes : Passes stages (.ok (.done page)) outcome after) :
    (∃ last, outcome = .ok (.done last)) ∧ (page = none → outcome = .ok (.done none) ∧ after = stages) := by
  cases passes with
  | nothing => exact ⟨⟨none, rfl⟩, fun _ => ⟨rfl, rfl⟩⟩
  | ends brings last =>
    refine ⟨⟨some last, rfl⟩, ?_⟩
    rintro rfl
    cases brings

private theorem Passes.more {stages after : List Stage} {given : Except Fault StepResult} {page : Page}
    (passes : Passes stages given (.ok (.more page)) after) :
    List.Forall₂ (Stage.GoesOn page) stages after := by
  cases passes with
  | goesOn all => exact all

namespace Comes

variable {stages after : List Stage} {request : Record} {exchanges : List Exchange}
  {outcome : Except Fault StepResult}

private theorem done (comes : Comes stages request exchanges outcome after) {exchange : Exchange}
    (member : exchange ∈ exchanges) {page : Option Page} (ended : exchange.outcome = .ok (.done page)) :
    (∃ last, outcome = .ok (.done last)) ∧ (page = none → outcome = .ok (.done none) ∧ after = stages) := by
  cases comes with
  | rests => exact absurd member List.not_mem_nil
  | asks _ _ faults passes =>
    -- Only the last answer can be an end: calls are repeated after faults alone.
    rcases List.mem_append.mp member with earlier | last
    · obtain ⟨fault, faulty⟩ := faults exchange earlier
      cases ended.symm.trans faulty
    · obtain rfl := List.mem_singleton.mp last
      rw [ended] at passes
      exact passes.done

private theorem more {page : Page} (comes : Comes stages request exchanges (.ok (.more page)) after) :
    List.Forall₂ (Stage.GoesOn page) stages after := by
  generalize given : (Except.ok (StepResult.more page) : Except Fault StepResult) = outcome at comes
  cases comes with
  | rests => cases given
  | asks _ _ _ passes =>
    subst given
    exact passes.more

end Comes

/-- **Ends are final, and more can be fetched.** Stages stand around an innermost step of any outcome, which
may be that of a service. When the innermost step answers with an end, the run ends; an end without a page
is what the run gives, and then each stage is as it was. When the run gives a page after which there is
more, each stage goes on after that page, and the next run asks the innermost step for more. -/
theorem ends_final_and_more_fetched {σ : Type} (innermost : Innermost σ) (stages : List Stage)
    (request : Record) (state : σ) :
    let run := through innermost stages.length request (stages, state)
    (∀ service : Service σ, innermost = service.innermost →
      Pipeline.run service stages request state = run) ∧
    (∃ exchanges,
      through innermost.recorded stages.length request (stages, state, []) =
        run.mapState (fun (stages, state) => (stages, state, exchanges)) ∧
      ∀ exchange ∈ exchanges, ∀ page, exchange.outcome = .ok (.done page) →
        (∃ last, run.outcome = .ok (.done last)) ∧
          (page = none → run.outcome = .ok (.done none) ∧ run.state.1 = stages)) ∧
    ∀ page, run.outcome = .ok (.more page) →
      List.Forall₂ (Stage.GoesOn page) stages run.state.1 ∧
      ∀ {τ : Type} (again : Innermost τ) (next : Record) (later : τ),
        (through again run.state.1.length next (run.state.1, later)).events.filterMap
          Event.request? ≠ [] := by
  intro run
  obtain ⟨exchanges, recorded, -, comes⟩ := through_comes innermost stages request state
  refine ⟨?_, ⟨exchanges, recorded, ?_⟩, ?_⟩
  · rintro service rfl
    exact run_eq_through service stages request state
  · intro exchange member page ended
    exact comes.done member ended
  · intro page more
    rw [more] at comes
    refine ⟨comes.more, ?_⟩
    intro τ again next later
    obtain ⟨sent, sends⟩ := outgoing_of_goesOn comes.more next
    obtain ⟨asked, -, requests, comes'⟩ := through_comes again run.state.1 next later
    have first := comes'.head?_requests sends
    rw [← requests] at first
    intro unasked
    rw [unasked] at first
    cases first

/-- An innermost step that throttles the first call, then brings a page, and ends without a page from then on:
the first run gives the page and the stages go on after it, and the second run ends and leaves them. -/
theorem ends_final_and_more_fetched_of_two_runs :
    let page : Page := ⟨[.int 1], 1, 2, .map [(.text "id", .int 1)], .null, false⟩
    let innermost : Innermost Nat :=
      ⟨fun _ calls =>
        (match calls with
          | 0 => .error (.throttled [] [])
          | 1 => .ok (.more page)
          | _ => .ok (.done none), calls + 1), fun _ => 2⟩
    let stages : List Stage :=
      [.limit ⟨some 3, none, none⟩ ⟨1, 0⟩, .backoff ⟨.listed [.int 0], none, []⟩, .startKey .null]
    let first := through innermost 3 [] (stages, 0)
    let second := through innermost 3 [] (first.state.1, 2)
    first.outcome = .ok (.more page) ∧ List.Forall₂ (Stage.GoesOn page) stages first.state.1 ∧
      second.events.filterMap Event.request? ≠ [] ∧
      second.outcome = .ok (.done none) ∧ second.state.1 = first.state.1 := by
  intro page innermost stages first second
  obtain ⟨-, -, more⟩ := ends_final_and_more_fetched innermost stages [] 0
  obtain ⟨all, asks⟩ := more page rfl
  obtain ⟨-, ⟨exchanges, recorded, ends⟩, -⟩ := ends_final_and_more_fetched innermost first.state.1 [] 2
  have written : exchanges =
      (through innermost.recorded 3 [] (first.state.1, 2, [])).state.2.2 :=
    (congrArg (fun run => run.state.2.2) recorded).symm
  obtain ⟨exchange, member, ended⟩ : ∃ exchange ∈ exchanges, exchange.outcome = .ok (.done none) := by
    rw [written]
    exact ⟨_, List.mem_cons_self, rfl⟩
  obtain ⟨outcome, kept⟩ := (ends exchange member none ended).2 rfl
  exact ⟨rfl, all, asks innermost [] 2, outcome, kept⟩

end TableQuery.Pipeline
