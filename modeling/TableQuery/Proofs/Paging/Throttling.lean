/- Throttling leaves no mark on the pages of a reading.

   Throttling errors that are put before the outcomes of a script are answered by calling again. The reading
   yields the same pages and ends in the same way; only its requests are repeated, and before each repetition
   it waits as its policy says, counting from the first error of the burst. -/

import TableQuery.Proofs.Paging.PageSequence

set_option autoImplicit false
set_option relaxedAutoImplicit false

namespace TableQuery

structure Delayed where
  errors : List ClientError
  outcome : Except Fault Record

namespace Delayed

def plain (entries : List Delayed) : List (Except Fault Record) := entries.map outcome

def script (entries : List Delayed) : List (Except Fault Record) :=
  entries.flatMap fun entry => entry.errors.map (fun error => .error (.client error)) ++ [entry.outcome]

def bursts (entries : List Delayed) : List Nat := entries.map fun entry => entry.errors.length

/-- An outcome says that the service is throttled. -/
def Throttles : Except Fault Record → Prop
  | .error (.client error) => error.isThrottling = true
  | .error (.throttled _ _) => True
  | _ => False

/-- The errors are throttling errors, and the outcome is none. -/
structure Placed (entry : Delayed) : Prop where
  errors : ∀ error ∈ entry.errors, error.isThrottling = true
  outcome : ¬ Throttles entry.outcome

private theorem script_cons (entry : Delayed) (entries : List Delayed) :
    script (entry :: entries) =
      entry.errors.map (fun error => .error (.client error)) ++ entry.outcome :: script entries := by
  simp [script]

private theorem length_le_script (entries : List Delayed) : entries.length ≤ (script entries).length := by
  induction entries with
  | nil => exact Nat.le_refl 0
  | cons entry entries ih =>
    rw [script_cons, List.length_append, List.length_cons, List.length_cons]
    omega

end Delayed

namespace Policy

def pause (policy : Policy) (attempt : Nat) : List Event :=
  match policy.delay (.int attempt) with
  | .ok seconds => Retry.waiting seconds
  | .error _ => []

/-- The events of a burst: a request is sent and throttled a number of times, with a pause after each time;
the first one is the attempt of the given number. -/
def burst (policy : Policy) (request : Record) (first count : Nat) : List Event :=
  (List.range' first count).flatMap fun attempt => .sent request :: policy.pause attempt

/-- Requests with the bursts before them, as far as there are bursts. -/
def spread (policy : Policy) : List Record → List Nat → List Event
  | [], _ => []
  | request :: requests, bursts =>
    policy.burst request 1 (bursts.headD 0) ++ .sent request :: policy.spread requests bursts.tail

end Policy

private theorem Value.toInteger_unthrottled (v : Value) (code description : Text) :
    v.toInteger ≠ .error (.throttled code description) := by
  have read : ∀ (quotation : Text) (outcome : Except IntegerFault Int),
      integerRead quotation outcome ≠ .error (.throttled code description) := by
    intro quotation outcome h
    unfold integerRead at h
    split at h <;> cases h
  intro h
  unfold toInteger at h
  split at h <;> first | cases h | exact read _ _ h

private theorem Page.ofResponse_unthrottled (response : Record) (code description : Text) :
    ofResponse response ≠ .error (.throttled code description) := by
  have count : ∀ given default, countOr given default ≠ .error (.throttled code description) := by
    intro given default h
    unfold countOr at h
    split at h
    · cases h
    · exact Value.toInteger_unthrottled _ _ _ h
  have items : itemsOf (response.get "Items") ≠ .error (.throttled code description) := by
    intro h
    unfold itemsOf Value.elements at h
    split at h
    · split at h <;> cases h
    · cases h
  intro h
  rcases bind_eq_error.mp h with h | ⟨_, -, h⟩
  · exact items h
  rcases bind_eq_error.mp h with h | ⟨_, -, h⟩
  · exact count _ _ h
  rcases bind_eq_error.mp h with h | ⟨_, -, h⟩
  · exact count _ _ h
  · cases h

theorem ClientError.toFault_of_throttling {error : ClientError} (h : error.isThrottling = true) :
    ∃ code description, error.toFault = .throttled code description :=
  ⟨_, _, if_pos h⟩

theorem Client.pageOf_unthrottled {outcome : Except Fault Record} (h : ¬ Delayed.Throttles outcome)
    (code description : Text) : pageOf outcome ≠ .error (.throttled code description) := by
  intro taken
  cases outcome with
  | ok response => exact Page.ofResponse_unthrottled _ _ _ taken
  | error fault =>
    cases fault with
    | client error =>
      have other : error.isThrottling = false := Bool.eq_false_iff.mpr h
      simp only [pageOf, ClientError.toFault, other, Bool.false_eq_true, ↓reduceIte] at taken
      split at taken
      · cases taken
      · split at taken <;> cases taken
    | throttled code description => exact h trivial
    | _ => cases taken

namespace Reading

/-- The number of retries of a reading, if it has one, allows a burst: no attempt in it is above that
number. -/
def Allows (reading : Reading) (burst : Nat) : Prop :=
  reading.maxRetries.isNull = true ∨ ∃ most, reading.maxRetries.toNumber = .ok most ∧
    ∀ attempt : Nat, attempt ≤ burst → most.below (.int attempt) = .ok false

private theorem allows_iff {reading : Reading} {most : Int} (h : reading.maxRetries = .int most) {burst : Nat} :
    reading.Allows burst ↔ (burst : Int) ≤ most := by
  have below : ∀ attempt : Nat, (Number.int most).below (.int attempt) = .ok false ↔
      (attempt : Int) ≤ most := by
    intro attempt
    simp [Number.below, Number.less, Except.mapError]
  rw [Allows, h]
  constructor
  · rintro (absent | ⟨_, given, allowed⟩)
    · cases absent
    · cases given
      exact (below burst).mp (allowed burst (Nat.le_refl burst))
  · intro within
    refine .inr ⟨.int most, rfl, ?_⟩
    intro attempt earlier
    exact (below attempt).mpr (by omega)

/-- A reading bears a burst: its retries allow it, and its policy has a delay for each attempt. -/
structure Bears (reading : Reading) (burst : Nat) : Prop where
  allowed : reading.Allows burst
  delays : ∀ attempt : Nat, 1 ≤ attempt → attempt ≤ burst →
    ∃ seconds, reading.policy.delay (.int attempt) = .ok seconds

end Reading

namespace Retry

private theorem next_of_bears {reading : Reading} {retry : Retry}
    (made : make reading.policy reading.maxRetries reading.operation.name = .ok retry) {burst : Nat}
    (bears : reading.Bears burst) {attempt : Nat} (first : 1 ≤ attempt) (within : attempt ≤ burst) :
    ∃ seconds, retry.next attempt = .ok seconds ∧ reading.policy.pause attempt = waiting seconds := by
  obtain ⟨seconds, delay⟩ := bears.delays attempt first within
  have kept : retry.policy = reading.policy ∧ retry.isExhausted attempt = .ok false := by
    unfold make at made
    split at made
    · obtain rfl := pure_eq_ok.mp made
      exact ⟨rfl, rfl⟩
    · rename_i given
      obtain ⟨most, hmost, made⟩ := bind_eq_ok.mp made
      obtain rfl := pure_eq_ok.mp made
      obtain ⟨number, hnumber, set⟩ := bind_eq_ok.mp hmost
      obtain ⟨negative, -, set⟩ := bind_eq_ok.mp set
      rcases bears.allowed with absent | ⟨_, hallowed, allowed⟩
      · exact absurd absent given
      · obtain rfl : number = _ := Except.ok.inj (hnumber.symm.trans hallowed)
        split at set
        · cases set
        · obtain rfl := pure_eq_ok.mp set
          exact ⟨rfl, allowed attempt within⟩
  refine ⟨seconds, ?_, ?_⟩
  · rw [next, kept.2]
    change retry.policy.delay (.int attempt) = .ok seconds
    rw [kept.1, delay]
  · rw [Policy.pause, delay]

/-- Calls that meet a burst of throttling errors repeat their request until the burst is over. -/
private theorem loop_burst (retry : Retry) (policy : Policy) (operation : Operation) (request : Record)
    {errors : List ClientError} (throttling : ∀ error ∈ errors, error.isThrottling = true)
    {outcome : Except Fault Record} (unthrottled : ¬ Delayed.Throttles outcome)
    (rest : List (Except Fault Record)) (fuel attempts : Nat) (enough : errors.length ≤ fuel)
    (pauses : ∀ attempt, attempts < attempt → attempt ≤ attempts + errors.length →
      ∃ seconds, retry.next attempt = .ok seconds ∧ policy.pause attempt = waiting seconds) :
    retry.loop ((Client.ofScript.service operation).send request) fuel attempts
        (errors.map (fun error => .error (.client error)) ++ outcome :: rest) =
      { outcome := (Client.pageOf outcome).map .more
        events := policy.burst request (attempts + 1) errors.length ++ [.sent request]
        state := rest } := by
  induction errors generalizing fuel attempts with
  | nil =>
    rw [loop_of_not_throttled]
    · rfl
    · intro code description h
      refine Client.pageOf_unthrottled unthrottled code description ?_
      cases taken : Client.pageOf outcome with
      | ok page =>
        have answered : Except.map StepResult.more (Client.pageOf outcome) =
          .error (.throttled code description) := h
        rw [taken] at answered
        cases answered
      | error fault =>
        have answered : Except.map StepResult.more (Client.pageOf outcome) =
          .error (.throttled code description) := h
        rw [taken] at answered
        cases answered
        rfl
  | cons error errors ih =>
    obtain ⟨fuel, rfl⟩ := Nat.exists_eq_succ_of_ne_zero (Nat.ne_of_gt (Nat.zero_lt_of_lt enough))
    obtain ⟨code, description, throttled⟩ :=
      ClientError.toFault_of_throttling (throttling error List.mem_cons_self)
    obtain ⟨seconds, next, pause⟩ := pauses (attempts + 1) (by omega) (by rw [List.length_cons]; omega)
    have first : (Client.ofScript.service operation).send request
        ((error :: errors).map (fun error => .error (.client error)) ++ outcome :: rest) =
        { outcome := .error (.throttled code description), events := [.sent request]
          state := errors.map (fun error => .error (.client error)) ++ outcome :: rest } := by
      rw [← throttled]
      rfl
    have later := ih (fun error member => throttling error (List.mem_cons_of_mem _ member)) fuel
      (attempts + 1) (Nat.le_of_succ_le_succ enough) (by
        intro attempt after within
        exact pauses attempt (by omega) (by rw [List.length_cons]; omega))
    rw [loop, first]
    simp only [next, later]
    simp [Run.after, Policy.burst, List.range'_succ, pause]

end Retry

namespace Reading

section Delayed

variable (reading : Reading) (request : Record) {retry : Retry} (position : Position)

private theorem callsAt_burst
    (made : Retry.make reading.policy reading.maxRetries reading.operation.name = .ok retry)
    {entry : Delayed} (placed : entry.Placed) (bears : reading.Bears entry.errors.length)
    (entries : List Delayed) :
    reading.callsAt .ofScript reading.caps retry position request (Delayed.script (entry :: entries)) =
      { outcome := (Client.pageOf entry.outcome).map .more
        events := reading.policy.burst (requestAt reading.caps position request) 1 entry.errors.length ++
          [.sent (requestAt reading.caps position request)]
        state := Delayed.script entries } := by
  rw [callsAt, Delayed.script_cons]
  refine Retry.loop_burst retry reading.policy _ _ placed.errors placed.outcome _ _ 0 ?_ ?_
  · simp [Client.service, Client.ofScript]
  · intro attempt after within
    exact Retry.next_of_bears made bears after (by omega)

variable (retry) in
private theorem callsAt_plain {entry : Delayed} (placed : entry.Placed) (entries : List Delayed) :
    reading.callsAt .ofScript reading.caps retry position request (Delayed.plain (entry :: entries)) =
      { outcome := (Client.pageOf entry.outcome).map .more
        events := [.sent (requestAt reading.caps position request)], state := Delayed.plain entries } :=
  callsAt_of_answer retry rfl (Client.pageOf_unthrottled placed.outcome)

variable (retry) in
/-- How far a reading has come with what the calls for a page brought. -/
def progressAfter : Except Fault Page → Progress
  | .ok page => if reading.caps.endsWith position.tally page then .ended
    else .running request (stagesAt reading.caps retry (position.past page))
  | .error _ => .ended

private theorem advance_of_calls {client : Client (List (Except Fault Record))} {outcome : Except Fault Page}
    {events : List Event} {script rest : List (Except Fault Record)}
    (below : reading.caps.full position.tally = false)
    (calls : reading.callsAt client reading.caps retry position request script =
      { outcome := outcome.map .more, events, state := rest }) :
    reading.advance client request (stagesAt reading.caps retry position) script =
      { outcome := outcome.map fun page => some (reading.caps.cut position.tally page)
        events
        progress := reading.progressAfter request retry position outcome
        state := rest } := by
  cases outcome with
  | error fault =>
    rw [advance_of_calls_fault below (by rw [calls]; rfl), calls]
    rfl
  | ok page =>
    rw [advance_of_calls_page below (by rw [calls]; rfl), calls]
    rfl

/-- From wherever it stands, a reading yields the same pages with and without the errors, and ends in the same
way; its requests are those without the errors, with the bursts before them. -/
private theorem drain_delayed [DepthLimits]
    (made : Retry.make reading.policy reading.maxRetries reading.operation.name = .ok retry)
    (entries : List Delayed) (placed : ∀ entry ∈ entries, entry.Placed)
    (below : reading.caps.full position.tally = false) {fuel fuel' : Nat} (enough : entries.length < fuel)
    (enough' : entries.length < fuel') :
    let start := Progress.running request (stagesAt reading.caps retry position)
    let undelayed := drainWithin (reading.pullPage .ofScript) fuel start (Delayed.plain entries)
    let delayed := drainWithin (reading.pullPage .ofScript) fuel' start (Delayed.script entries)
    (∀ entry ∈ entries.take undelayed.events.length, reading.Bears entry.errors.length) →
      ∃ taken fault requests,
        undelayed =
          { taken, fault, events := requests.map .sent, progress := .ended
            state := Delayed.plain (entries.drop requests.length) } ∧
        delayed =
          { taken, fault, events := reading.policy.spread requests (Delayed.bursts entries)
            progress := .ended, state := Delayed.script (entries.drop requests.length) } := by
  induction entries generalizing position fuel fuel' with
  | nil =>
    intro start undelayed delayed _
    obtain ⟨fuel, rfl⟩ := Nat.exists_eq_succ_of_ne_zero (Nat.ne_of_gt enough)
    obtain ⟨fuel', rfl⟩ := Nat.exists_eq_succ_of_ne_zero (Nat.ne_of_gt enough')
    have exhausted : (Client.ofScript.service reading.operation).answer
        (requestAt reading.caps position request) [] = (.error (.unmet .scriptExhausted), []) := rfl
    have pulled := advance_of_fault retry below exhausted (by simp)
    exact ⟨[], _, [requestAt reading.caps position request], drainWithin_of_error fuel pulled,
      drainWithin_of_error fuel' pulled⟩
  | cons entry entries ih =>
    intro start undelayed delayed bears
    obtain ⟨fuel, rfl⟩ := Nat.exists_eq_succ_of_ne_zero (Nat.ne_of_gt (Nat.zero_lt_of_lt enough))
    obtain ⟨fuel', rfl⟩ := Nat.exists_eq_succ_of_ne_zero (Nat.ne_of_gt (Nat.zero_lt_of_lt enough'))
    have here := placed entry List.mem_cons_self
    have pulled := advance_of_calls reading request position below
      (reading.callsAt_plain request retry position here entries)
    -- at least one request is sent, so the burst before the first outcome is one that the reading bears
    have pulled' (bears : reading.Bears entry.errors.length) :=
      advance_of_calls reading request position below
        (reading.callsAt_burst request position made here bears entries)
    cases brought : Client.pageOf entry.outcome with
    | error fault =>
      rw [brought] at pulled pulled'
      have undelayed_eq : undelayed = _ := drainWithin_of_error fuel pulled
      have bears_here := bears entry (by rw [undelayed_eq]; exact List.mem_cons_self)
      exact ⟨[], some fault, [requestAt reading.caps position request], undelayed_eq,
        drainWithin_of_error fuel' (pulled' bears_here)⟩
    | ok page =>
      rw [brought] at pulled pulled'
      have undelayed_eq : undelayed = _ := drainWithin_of_some fuel pulled
      have bears_here := bears entry (by rw [undelayed_eq]; exact List.mem_cons_self)
      have delayed_eq : delayed = _ := drainWithin_of_some fuel' (pulled' bears_here)
      rw [undelayed_eq] at bears ⊢
      rw [delayed_eq]
      cases ends : reading.caps.endsWith position.tally page with
      | true =>
        simp only [progressAfter, ends, ↓reduceIte, drainWithin_ended, List.append_nil]
        exact ⟨_, none, [requestAt reading.caps position request], rfl, rfl⟩
      | false =>
        have unreached := Caps.not_full_of_endsWith ends
        simp only [progressAfter, ends, Bool.false_eq_true, ↓reduceIte] at bears ⊢
        obtain ⟨taken, fault, requests, undelayed_later, delayed_later⟩ :=
          ih (position.past page) (fun entry member => placed entry (List.mem_cons_of_mem _ member)) unreached
            (Nat.lt_of_succ_lt_succ enough) (Nat.lt_of_succ_lt_succ enough') fun entry member =>
              bears entry (List.mem_cons_of_mem _ member)
        rw [undelayed_later, delayed_later]
        refine ⟨_, fault, requestAt reading.caps position request :: requests, rfl, ?_⟩
        rw [List.append_assoc]
        rfl

end Delayed

/-- Throttling errors before the outcomes of a script change neither the pages of a reading nor its end: only
the requests before which they stand are repeated, once for each error, and each burst has the pauses of its
own attempts from the first one on. It is enough that the reading bears the bursts that it comes to. -/
theorem throttling_invisible [DepthLimits] (reading : Reading) (valid : reading.Valid) (entries : List Delayed)
    (placed : ∀ entry ∈ entries, entry.Placed)
    (bears : ∀ entry ∈ entries.take
      (reading.drainPages .ofScript .fresh (Delayed.plain entries)).events.length,
        reading.Bears entry.errors.length) :
    ∃ taken fault requests,
      reading.drainPages .ofScript .fresh (Delayed.plain entries) =
        { taken, fault, events := requests.map .sent, progress := .ended
          state := Delayed.plain (entries.drop requests.length) } ∧
      reading.drainPages .ofScript .fresh (Delayed.script entries) =
        { taken, fault, events := reading.policy.spread requests (Delayed.bursts entries)
          progress := .ended, state := Delayed.script (entries.drop requests.length) } := by
  obtain ⟨request, retry, -, made, opens⟩ := reading.opens .ofScript valid
  obtain ⟨positive, -⟩ := valid.stages_eq
  have opened : ∀ script, reading.drainPages .ofScript .fresh script =
      drainWithin (reading.pullPage .ofScript) (script.length + 2)
        (.running request (stagesAt reading.caps retry .start)) script := fun script =>
    drainWithin_of_pull_eq (script.length + 1) (opens script)
  have short : entries.length < (Delayed.plain entries).length + 2 := by
    rw [Delayed.plain, List.length_map]
    omega
  have long := Delayed.length_le_script entries
  rw [opened] at bears ⊢
  rw [opened]
  exact reading.drain_delayed request .start made entries placed positive.not_full short (by omega) bears

/-- A scan for three records that retries up to three times and waits two seconds after a first error, not at
all after a second one, and one second after a third. -/
def patientScan : Reading where
  operation := .scan
  table := { name := "events", hashKey := "id", rangeKey := none }
  options := [(.text "record_limit", .int 3)]
  policy := .listed [.int 2, .int 0, .int 1]
  maxRetries := .int 3

/-- An outcome after as many throttling errors. -/
def Delayed.after (count : Nat) (outcome : Except Fault Record) : Delayed where
  errors := List.replicate count (ClientError.throttling "Scan")
  outcome

/-- A burst of three errors and one of a single error: two pages are yielded as without them, and the second
burst starts again with the first pause. -/
theorem throttling_invisible_of_two_bursts :
    let page : Except Fault Record := .ok (answerOfTwo "a" "b")
    let entries := [Delayed.after 3 page, Delayed.after 1 page, Delayed.after 9 page]
    let delayed := patientScan.drainPages .ofScript .fresh (Delayed.script entries)
    patientScan.Valid ∧ (∀ entry ∈ entries, entry.Placed) ∧
      (∀ entry ∈ entries.take 2, patientScan.Bears entry.errors.length) ∧
      delayed.taken = (patientScan.drainPages .ofScript .fresh [page, page, page]).taken ∧
      delayed.events.filterMap Event.seconds? = [.int 2, .int 1, .int 2] ∧
      (delayed.events.filterMap Event.request?).length = 6 := by
  intro page entries delayed
  have valid : patientScan.Valid := ⟨⟨_, rfl⟩, ⟨_, rfl⟩⟩
  have placed : ∀ entry ∈ entries, entry.Placed := by
    have after : ∀ count, (Delayed.after count page).Placed := fun count =>
      { errors := fun error member => by rw [List.eq_of_mem_replicate member]; decide
        outcome := id }
    simp [entries, after]
  have bears : ∀ entry ∈ entries.take 2, patientScan.Bears entry.errors.length := by
    have within : ∀ count ≤ 3, patientScan.Bears count := fun count le =>
      { allowed := (allows_iff rfl).mpr (by omega)
        delays := by
          intro attempt first last
          obtain rfl | rfl | rfl : attempt = 1 ∨ attempt = 2 ∨ attempt = 3 := by omega
          · exact ⟨_, rfl⟩
          · exact ⟨_, rfl⟩
          · exact ⟨_, rfl⟩ }
    simp [entries, Delayed.after, within]
  have come : (patientScan.drainPages .ofScript .fresh (Delayed.plain entries)).events.length = 2 := by
    decide +kernel
  obtain ⟨taken, fault, requests, undelayed_eq, delayed_eq⟩ :=
    throttling_invisible patientScan valid entries placed (by rw [come]; exact bears)
  have count : requests.length = 2 := by
    rw [undelayed_eq, List.length_map] at come
    exact come
  obtain ⟨first, second, rfl⟩ := List.length_eq_two.mp count
  have both : delayed.taken = (patientScan.drainPages .ofScript .fresh (Delayed.plain entries)).taken :=
    (congrArg Drain.taken delayed_eq).trans (congrArg Drain.taken undelayed_eq).symm
  have events : delayed.events = patientScan.policy.spread [first, second] [3, 1, 9] :=
    congrArg Drain.events delayed_eq
  refine ⟨valid, placed, bears, both, ?_, ?_⟩
  · rw [events]
    rfl
  · rw [events]
    rfl

end Reading

end TableQuery
