/- Runs that end in a fault.

   A fault that passes out of a pipeline has left every stage as it was, after any number of repeated calls.
   The stages then write into a request what they wrote before, so running the pipeline again sends what the
   failed run sent. This holds for the request as it was given, and for the request as it was sent, in which
   the writings of all stages already stand. -/

import TableQuery.Proofs.Pipeline.Passing

set_option autoImplicit false
set_option relaxedAutoImplicit false

namespace TableQuery

/-- What a stage writes into requests does not depend on the request. -/
private theorem Stage.outgoing_eq_putAll {stage : Stage} {request sent : Record}
    (sends : stage.outgoing request = some sent) :
    ∃ puts, ∀ given, stage.outgoing given = some (Record.putAll puts given) := by
  cases stage with
  | startKey key =>
    cases truthy : key.isTruthy with
    | true =>
      refine ⟨[("ExclusiveStartKey", key)], fun given => ?_⟩
      rw [outgoing, started, if_pos truthy]
      rfl
    | false =>
      refine ⟨[], fun given => ?_⟩
      rw [outgoing, started, truthy, if_neg Bool.false_ne_true]
      rfl
  | limit caps tally =>
    rw [outgoing] at sends
    split at sends
    · cases sends
    · rename_i below
      cases limit : caps.pageLimit? tally with
      | none =>
        refine ⟨[], fun given => ?_⟩
        rw [outgoing, if_neg below, Caps.limited, limit]
        rfl
      | some n =>
        refine ⟨[("Limit", .int n)], fun given => ?_⟩
        rw [outgoing, if_neg below, Caps.limited, limit]
        rfl
  | skip => cases sends
  | _ => exact ⟨[], fun given => rfl⟩

namespace Pipeline

private theorem outgoing_eq_putAll {stages : List Stage} {request sent : Record}
    (sends : outgoing stages request = some sent) :
    ∃ puts, ∀ given, outgoing stages given = some (Record.putAll puts given) := by
  induction stages generalizing request with
  | nil => exact ⟨[], fun given => rfl⟩
  | cons stage rest ih =>
    obtain ⟨between, first, later⟩ := Option.bind_eq_some_iff.mp sends
    obtain ⟨puts, writes⟩ := stage.outgoing_eq_putAll first
    obtain ⟨others, continues⟩ := ih later
    refine ⟨puts ++ others, fun given => ?_⟩
    rw [outgoing, writes, Option.bind_some, continues, Record.putAll_append]

private theorem outgoing_of_outgoing {stages : List Stage} {request sent : Record}
    (sends : outgoing stages request = some sent) : outgoing stages sent = some sent := by
  obtain ⟨puts, writes⟩ := outgoing_eq_putAll sends
  obtain rfl : Record.putAll puts request = sent := Option.some.inj ((writes request).symm.trans sends)
  rw [writes, Record.putAll_putAll]

theorem run_comes {σ : Type} (service : Service σ) (stages : List Stage) (request : Record) (state : σ) :
    let run := run service stages request state
    ∃ exchanges, run.events.filterMap Event.request? = exchanges.map Exchange.request ∧
      Comes stages request exchanges run.outcome run.state.1 := by
  rw [run_eq_through]
  obtain ⟨exchanges, -, comes⟩ := through_comes service.innermost stages request state
  exact ⟨exchanges, comes⟩

/-- **Failed runs leave no trace.** A run that ends in a fault leaves every stage as it was. It sent one
request, once or more often, and running the stages again sends that request first: for the request as it
was given and as it was sent, and whatever the service answers then. -/
theorem failed_run_leaves_no_trace {σ : Type} (service : Service σ) (stages : List Stage) (request : Record)
    (state : σ) {fault : Fault} (failed : (run service stages request state).outcome = .error fault) :
    let failure := run service stages request state
    failure.state.1 = stages ∧
    ∃ sent, failure.events.filterMap Event.request? ≠ [] ∧
      (∀ attempt ∈ failure.events.filterMap Event.request?, attempt = sent) ∧
      ∀ {τ : Type} (again : Service τ) (later : τ), ∀ given ∈ [request, sent],
        ((run again failure.state.1 given later).events.filterMap Event.request?).head? = some sent := by
  intro failure
  obtain ⟨exchanges, requests, comes⟩ := run_comes service stages request state
  rw [failed] at comes
  obtain ⟨same, asked, sent, sends, alike, -⟩ := comes.of_fault
  refine ⟨same, sent, ?_, ?_, ?_⟩
  · rw [requests]
    exact fun none_sent => asked (List.map_eq_nil_iff.mp none_sent)
  · rw [requests]
    exact List.forall_mem_map.mpr alike
  · intro τ again later given member
    have sends' : outgoing stages given = some sent := by
      rcases List.mem_cons.mp member with rfl | member
      · exact sends
      · rw [List.mem_singleton.mp member]
        exact outgoing_of_outgoing sends
    obtain ⟨exchanges, requests, comes⟩ := run_comes again stages given later
    rw [same, requests]
    exact comes.head?_requests sends'

/-- Two throttled calls where one retry is allowed, below a limit stage and a start-key stage that have seen
a page: both calls send the same request, and so does the next run. -/
theorem failed_run_leaves_no_trace_of_exhausted :
    let key : Value := .map [(.text "id", .int 2)]
    let caps : Caps := ⟨some 3, some 10, none⟩
    let stages : List Stage :=
      [.startKey key, .limit caps ⟨1, 4⟩, .backoff ⟨.listed [.int 1, .int 0], some (.int 1), "scan"⟩]
    let sent : Record :=
      [(.text "TableName", .text "t"), (.text "ExclusiveStartKey", key), (.text "Limit", .int 2)]
    let answers : List (Except Fault Page) := [.error (.throttled [] []), .error (.throttled [] [])]
    let failure := run listService stages [(.text "TableName", .text "t")] answers
    failure.outcome = .error (.retriesExhausted "scan" 2) ∧
      failure.state.1 = stages ∧
      failure.events.filterMap Event.request? = [sent, sent] ∧
      ∀ answers : List (Except Fault Page), ((run listService failure.state.1 sent answers).events.filterMap
        Event.request?).head? = some sent := by
  intro key caps stages sent answers failure
  have failed : failure.outcome = .error (.retriesExhausted "scan" 2) := rfl
  obtain ⟨same, sent', -, alike, again⟩ := failed_run_leaves_no_trace listService stages _ answers failed
  have requests : failure.events.filterMap Event.request? = [sent, sent] := rfl
  obtain rfl : sent = sent' := alike sent (requests ▸ List.mem_cons_self)
  exact ⟨failed, same, requests, fun answers => again listService answers sent (by simp)⟩

end Pipeline

end TableQuery
