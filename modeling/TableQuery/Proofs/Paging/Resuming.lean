/- Resuming a reading.

   A run of a reading may stop anywhere: at a cap, at the end of the store, or because no more pages are asked
   for. The cursor of its last page leads to the records that it left, and another run can start there,
   under limits of its own. Along a chain of such runs no record is lost and none is repeated. -/

import TableQuery.Proofs.Cursor.RoundTrip
import TableQuery.Proofs.Paging.Reference
import TableQuery.Proofs.Paging.Reframing

set_option autoImplicit false
set_option relaxedAutoImplicit false

namespace TableQuery

open Stored (Follow Answered Distinct)

/-- A client honours the requests that differ from a given one in their paging fields at most: whatever its
state, it answers each of them that starts at a place of the store, and the last keys that it gives are key
maps. -/
def Client.HonoursLike {σ : Type} (client : Client σ) (operation : Operation) (like : Record)
    (store : List Stored) (keep : Stored → Bool) : Prop :=
  ∀ request state, request.without Request.paging = like.without Request.paging →
    (∃ left, Follow store (request.get "ExclusiveStartKey") left) →
    ∃ evaluated rest response next,
      Follow store (request.get "ExclusiveStartKey") (evaluated ++ rest) ∧
      client.call operation request state = (.ok response, next) ∧
      Answered keep request evaluated rest response ∧
      ∀ key : Record, response.get "LastEvaluatedKey" = .map key → key.IsKeyMap

private theorem Stored.ofText_isKeyMap {name : Text} {item : Value} (whole : name.Whole) :
    (ofText name item).key.IsKeyMap where
  filled := List.cons_ne_nil _ _
  apart := List.nodup_singleton _
  named := List.forall_mem_singleton.mpr ⟨"id", rfl, Text.whole_ofString "id"⟩
  parts := List.forall_mem_singleton.mpr ⟨.text name, .text name, whole⟩

theorem Client.overStore_honoursLike (operation : Operation) (like : Record) {store : List Stored}
    (keep : Stored → Bool) (distinct : Distinct store) (keyed : ∀ record ∈ store, record.key.IsKeyMap) :
    (Client.overStore store keep).HonoursLike operation like store keep := by
  have itself : ∀ record ∈ store, (Value.map record.key).sameKey (.map record.key) = true := by
    intro record member
    obtain ⟨parts, held, -, apart, -⟩ := Key.ofKeyMap (keyed record member)
    rw [Value.sameKey, held.same held (.refl parts) apart]
    rfl
  intro request wishes _ starts
  obtain ⟨evaluated, rest, response, next, follow, called, answered⟩ :=
    Client.overStore_honours operation keep distinct itself request wishes starts
  refine ⟨evaluated, rest, response, next, follow, called, answered, ?_⟩
  intro key given
  obtain rfl := Except.ok.inj (congrArg Prod.fst called)
  split at given
  · rename_i record last
    have member : record ∈ store :=
      Stored.mem_of_mem_leftAfter (List.mem_of_mem_take (List.mem_of_getLast? last))
    obtain rfl : record.key = key := Value.map.inj given
    exact keyed record member
  · cases given

section Places

variable [DepthLimits]

/-- What a page leaves of a store: without a cursor nothing, and with one the records that follow the key
of the cursor. -/
inductive Page.Leaves (store : List Stored) (page : Page) : List Stored → Prop
  | nothing : page.nextCursor = .ok none → Leaves store page []
  | following {cursor : Text} {start : Record} {rest : List Stored} :
      page.nextCursor = .ok (some cursor) → StartKey.ofOption (.text cursor) = .ok (some start) →
        Follow store (.map start) rest → Leaves store page rest

theorem Page.Leaves.eq_nil {store rest : List Stored} {page : Page} (leaves : page.Leaves store rest)
    (none_given : page.nextCursor = .ok none) : rest = [] := by
  cases leaves with
  | nothing => rfl
  | following given =>
    rw [none_given] at given
    cases given

theorem Page.Leaves.nextCursor {store rest : List Stored} {page : Page} (leaves : page.Leaves store rest) :
    ∃ cursor?, page.nextCursor = .ok cursor? := by
  cases leaves with
  | nothing none_given => exact ⟨none, none_given⟩
  | following given => exact ⟨_, given⟩

private theorem Page.nextCursor_of_keyMap {page : Page} {key : Record} (lastKey : page.lastKey = .map key)
    (keyMap : key.IsKeyMap) :
    ∃ cursor start, page.nextCursor = .ok (some cursor) ∧
      StartKey.ofOption (.text cursor) = .ok (some start) ∧
      ∀ record : Stored, record.key.IsKeyMap → record.NamedBy (.map key) → record.NamedBy (.map start) := by
  obtain ⟨parts, held, filled, apart, whole⟩ := Key.ofKeyMap keyMap
  obtain ⟨cursor, made, -, -, read⟩ := Cursor.decodeText_ofKey filled apart whole
  -- The cursor lists the attributes by their names: what it stands for equals the last key, and that is
  -- what naming a record takes.
  have written := Key.toRecord_heldBy parts.sorted
  refine ⟨cursor, parts.sorted.toRecord, ?_, ?_, ?_⟩
  · have present : (Value.map key).isTruthy = true := by simpa [Value.isTruthy] using keyMap.filled
    rw [nextCursor, lastKey, if_pos present, Cursor.encode_heldBy keyMap.filled held apart, made]
    rfl
  · simp only [StartKey.ofOption, read]
  · intro record recordMap named
    obtain ⟨parts', held', -, apart', -⟩ := Key.ofKeyMap recordMap
    have perm : parts.Perm parts' := by
      rcases named with here | same
      · obtain rfl := Value.map.inj here
        exact held.perm_of_same held' apart (held.same held (.refl parts) apart)
      · exact held.perm_of_same held' apart (Value.same_of_sameKey same)
    refine .inr ?_
    rw [Value.sameKey, written.same held' ((Key.sorted_perm parts).trans perm) apart']
    rfl

theorem Page.leaves_of_answered {page : Page} {store evaluated rest : List Stored}
    (distinct : Distinct store) (keyed : ∀ record ∈ store, record.key.IsKeyMap) {keep : Stored → Bool}
    {request response : Record} {key : Value} (follow : Follow store key (evaluated ++ rest))
    (answered : Answered keep request evaluated rest response)
    (keyMaps : ∀ key : Record, response.get "LastEvaluatedKey" = .map key → key.IsKeyMap)
    (lastKey : page.lastKey = if (response.get "LastEvaluatedKey").isTruthy
      then response.get "LastEvaluatedKey" else .null) : page.Leaves store rest := by
  cases given : (response.get "LastEvaluatedKey").isTruthy with
  | false =>
    obtain rfl := answered.rest_eq_nil distinct follow given
    rw [given] at lastKey
    refine .nothing ?_
    rw [nextCursor, lastKey]
    rfl
  | true =>
    rw [given, if_pos rfl] at lastKey
    obtain ⟨-, follow_rest⟩ := answered.follow_lastKey follow given
    have present : response.get "LastEvaluatedKey" ≠ .null := by
      intro null
      rw [null] at given
      cases given
    obtain ⟨entries, hentries⟩ := follow_rest.eq_map present
    rw [hentries] at lastKey present follow_rest
    obtain ⟨cursor, start, made, read, names⟩ :=
      nextCursor_of_keyMap lastKey (keyMaps entries hentries)
    exact .following made read
      (follow_rest.of_named present fun record member => names record (keyed record member))

/-- Pages that are taken in a run bring what the filter keeps of the first records that were left, and the
last one leaves the other records. -/
structure Drain.Brings {σ π : Type} (drain : Drain σ π Page) (store : List Stored) (keep : Stored → Bool)
    (evaluated rest : List Stored) : Prop where
  fault : drain.fault = none
  items : drain.taken.flatMap Page.items = (evaluated.filter keep).map Stored.item
  leaves : ∃ last, drain.taken.getLast? = some last ∧ last.Leaves store rest

end Places

namespace Reading

theorem requestAt_without (caps : Caps) (position : Position) (request : Record) :
    (requestAt caps position request).without Request.paging = request.without Request.paging := by
  have limit : ("Limit" : Text) ∈ Request.paging := List.mem_cons_self
  have startKey : ("ExclusiveStartKey" : Text) ∈ Request.paging := List.mem_cons_of_mem _ List.mem_cons_self
  have started : (Stage.started position.key request).without Request.paging =
      request.without Request.paging := by
    unfold Stage.started
    split
    · exact Record.without_put startKey request position.key
    · rfl
  unfold requestAt Caps.limited
  split
  · rw [Record.without_put limit, started]
  · exact started

section Runs

variable {σ : Type} {client : Client σ} (reading : Reading) {like request : Record} {store : List Stored}
  {keep : Stored → Bool} (distinct : Distinct store) (keyed : ∀ record ∈ store, record.key.IsKeyMap)
  (honours : client.HonoursLike reading.operation like store keep)
  (same : request.without Request.paging = like.without Request.paging) (retry : Retry)

include distinct keyed honours same

/-- A page leaves the records behind those that it brings. Without caps a reading only ends with nothing
left; and when it goes on, some records were evaluated and it starts again where the page ended. -/
private theorem advance_leaves [DepthLimits] {position : Position} {left : List Stored}
    (below : reading.caps.full position.tally = false)
    (follow : Follow store ((requestAt reading.caps position request).get "ExclusiveStartKey") left)
    (state : σ) :
    ∃ evaluated rest page next, left = evaluated ++ rest ∧
      page.items = (evaluated.filter keep).map Stored.item ∧ page.Leaves store rest ∧
      reading.advance client request (stagesAt reading.caps retry position) state =
        { outcome := .ok (some page),
          events := [.sent (requestAt reading.caps position request)],
          progress := if reading.caps.endsWith position.tally page then .ended
            else .running request (stagesAt reading.caps retry (position.past page)),
          state := next } ∧
      (reading.caps.endsWith position.tally page = true → (∀ tally, reading.caps.full tally = false) →
        rest = []) ∧
      (reading.caps.endsWith position.tally page = false → evaluated ≠ [] ∧
        reading.caps.full (position.past page).tally = false ∧
        Follow store ((requestAt reading.caps (position.past page) request).get "ExclusiveStartKey")
          rest) := by
  obtain ⟨evaluated, rest, response, next, follow', called, answered, keyMaps⟩ :=
    honours (requestAt reading.caps position request) state
      ((requestAt_without reading.caps position request).trans same) ⟨left, follow⟩
  obtain rfl := follow.unique distinct follow'
  obtain ⟨page, items, -, -, lastKey, advanced⟩ := advance_of_answered retry below called answered
  have leaves := Page.leaves_of_answered distinct keyed follow answered keyMaps lastKey
  refine ⟨evaluated, rest, page, next, rfl, items, leaves, advanced, ?_, ?_⟩
  · intro ends uncapped
    rw [Caps.endsWith, uncapped, Bool.false_or, Bool.not_eq_true'] at ends
    refine leaves.eq_nil ?_
    rw [Page.nextCursor, ends]
    rfl
  · exact follow_past follow answered lastKey

/-- However many pages are asked for, those that are taken bring a first part of what is left, and leave the
rest; that is nothing when there are no caps and pages are asked for until the end. -/
private theorem drain_brings [DepthLimits] (fuel : Nat) {position : Position} {left : List Stored}
    (below : reading.caps.full position.tally = false)
    (follow : Follow store ((requestAt reading.caps position request).get "ExclusiveStartKey") left)
    (state : σ) :
    let drain := drainWithin (reading.pullPage client) (fuel + 1)
      (.running request (stagesAt reading.caps retry position)) state
    ∃ evaluated rest, left = evaluated ++ rest ∧ drain.Brings store keep evaluated rest ∧
      (left.length ≤ fuel → (∀ tally, reading.caps.full tally = false) → rest = []) := by
  induction fuel generalizing position left state with
  | zero =>
    obtain ⟨evaluated, rest, page, next, rfl, items, leaves, advanced, finished, goes_on⟩ :=
      reading.advance_leaves distinct keyed honours same retry below follow state
    rw [drainWithin_of_some 0 advanced]
    refine ⟨evaluated, rest, rfl, ⟨rfl, by simp [drainWithin, items], page, rfl, leaves⟩, ?_⟩
    intro none_left _
    exact List.append_eq_nil_iff.mp (List.eq_nil_of_length_eq_zero (Nat.le_zero.mp none_left)) |>.2
  | succ fuel ih =>
    obtain ⟨evaluated, rest, page, next, rfl, items, leaves, advanced, finished, goes_on⟩ :=
      reading.advance_leaves distinct keyed honours same retry below follow state
    rw [drainWithin_of_some (fuel + 1) advanced]
    cases ends : reading.caps.endsWith position.tally page with
    | true =>
      rw [if_pos rfl, drainWithin_ended]
      exact ⟨evaluated, rest, rfl, ⟨rfl, by simp [items], page, rfl, leaves⟩, fun _ => finished ends⟩
    | false =>
      obtain ⟨some_evaluated, unreached, follow_rest⟩ := goes_on ends
      obtain ⟨later, others, rfl, ⟨fault, items', last, hlast, leaves'⟩, nothing⟩ :=
        ih unreached follow_rest next
      rw [if_neg Bool.false_ne_true]
      refine ⟨evaluated ++ later, others, (List.append_assoc ..).symm, ⟨fault, ?_, last, ?_, leaves'⟩, ?_⟩
      · rw [List.flatMap_cons, items, items', List.filter_append, List.map_append]
      · rw [List.getLast?_cons, hlast, Option.getD_some]
      · intro enough
        have positive := List.length_pos_iff.mpr some_evaluated
        rw [List.length_append] at enough
        exact nothing (by omega)

end Runs

end Reading

/-- A run of a reading: how often it is asked for a page at most, and the state of the client when it
starts. -/
structure Leg (σ : Type) where
  reading : Reading
  pulls : Nat
  state : σ

namespace Leg

section

variable [DepthLimits] {σ : Type} (client : Client σ)

def drain (leg : Leg σ) : Drain σ Progress Page :=
  drainWithin (leg.reading.pullPage client) leg.pulls .fresh leg.state

def items (leg : Leg σ) : List Value := (leg.drain client).taken.flatMap Page.items

/-- A run under the conditions of a reading: its own limits and settings can be read, and it is asked for
at least one page. -/
structure RunsLike (leg : Leg σ) (whole : Reading) : Prop where
  alike : whole.Alike leg.reading
  staged : ∃ stages, leg.reading.stages = .ok stages
  asked : 0 < leg.pulls

/-- The next cursor of the last page of a run: there is such a page, and its cursor can be made or it has
none. -/
def nextCursor (leg : Leg σ) : Option (Option Text) :=
  (leg.drain client).taken.getLast?.bind fun page => page.nextCursor.toOption

/-- A run that goes on from another one starts with the next cursor of the last page of the other. -/
def GoesOn (leg next : Leg σ) : Prop :=
  ∃ cursor, leg.nextCursor client = some (some cursor) ∧
    next.reading.selected.get "exclusive_start_key" = .text cursor

private theorem nextCursor_eq {client : Client σ} {leg : Leg σ} {page : Page} {cursor? : Option Text}
    (last : (leg.drain client).taken.getLast? = some page) (given : page.nextCursor = .ok cursor?) :
    leg.nextCursor client = some cursor? := by
  rw [nextCursor, last, Option.bind_some, given]
  rfl

theorem GoesOn.starts {client : Client σ} {leg next : Leg σ} (goes_on : leg.GoesOn client next)
    {store rest : List Stored} {page : Page} (last : (leg.drain client).taken.getLast? = some page)
    (leaves : page.Leaves store rest) :
    ∃ start, StartKey.ofOption (next.reading.selected.get "exclusive_start_key") = .ok (some start) ∧
      Follow store next.reading.startKey rest := by
  obtain ⟨cursor, given, resumed⟩ := goes_on
  cases leaves with
  | nothing none_given =>
    rw [nextCursor_eq last none_given] at given
    cases given
  | @following cursor' start _ given' read follow =>
    rw [nextCursor_eq last given'] at given
    obtain rfl := Option.some.inj (Option.some.inj given)
    rw [← resumed] at read
    have startKey : next.reading.startKey = .map start := by
      rw [Reading.startKey, read]
    exact ⟨start, read, startKey ▸ follow⟩

theorem RunsLike.opened {leg : Leg σ} {whole : Reading} (runs : leg.RunsLike whole) {request : Record}
    (built : whole.request = .ok request) {start : Option Record}
    (starts : StartKey.ofOption (leg.reading.selected.get "exclusive_start_key") = .ok start)
    {store left : List Stored} (follow : Follow store leg.reading.startKey left) :
    ∃ reframed retry, reframed.without Request.paging = request.without Request.paging ∧
      leg.reading.caps.full Position.start.tally = false ∧
      Follow store ((Reading.requestAt leg.reading.caps .start reframed).get "ExclusiveStartKey") left ∧
      ∃ pulls, leg.pulls = pulls + 1 ∧ leg.drain client =
        drainWithin (leg.reading.pullPage client) (pulls + 1)
          (.running reframed (Reading.stagesAt leg.reading.caps retry .start)) leg.state := by
  obtain ⟨reading, pulls, state⟩ := leg
  obtain ⟨alike, ⟨stages, staged⟩, asked⟩ := runs
  dsimp only at starts follow alike staged asked ⊢
  obtain ⟨reframed, made, same⟩ := alike.request built staged starts
  have valid : reading.Valid := ⟨⟨reframed, made⟩, ⟨stages, staged⟩⟩
  obtain ⟨opening, hopening, key⟩ := valid.request_eq
  obtain rfl := Except.ok.inj (made.symm.trans hopening)
  obtain ⟨opening, retry, hopening, -, opens⟩ := reading.opens client valid
  obtain rfl := Except.ok.inj (made.symm.trans hopening)
  have follow' : Follow store
      ((Reading.requestAt reading.caps .start reframed).get "ExclusiveStartKey") left := by
    rw [Reading.requestAt_startKey]
    exact key ▸ follow
  obtain ⟨pulls, rfl⟩ := Nat.exists_eq_succ_of_ne_zero (Nat.ne_of_gt asked)
  exact ⟨reframed, retry, same, valid.stages_eq.1.not_full, follow', pulls, rfl,
    drainWithin_of_pull_eq pulls (opens state)⟩

section

variable {client} {whole : Reading} {request : Record} (built : whole.request = .ok request)
  {store : List Stored} (distinct : Distinct store) (keyed : ∀ record ∈ store, record.key.IsKeyMap)
  {keep : Stored → Bool} (honours : client.HonoursLike whole.operation request store keep)

include built distinct keyed honours

private theorem brings {leg : Leg σ} (runs : leg.RunsLike whole) {start : Option Record}
    (starts : StartKey.ofOption (leg.reading.selected.get "exclusive_start_key") = .ok start)
    {left : List Stored} (follow : Follow store leg.reading.startKey left) :
    ∃ evaluated rest, left = evaluated ++ rest ∧ (leg.drain client).Brings store keep evaluated rest ∧
      (left.length < leg.pulls → (∀ tally, leg.reading.caps.full tally = false) → rest = []) := by
  obtain ⟨reframed, retry, same, below, follow', pulls, asked, opens⟩ := runs.opened client built starts follow
  rw [asked, opens]
  obtain ⟨evaluated, rest, split, brought, nothing⟩ := leg.reading.drain_brings distinct keyed
    (runs.alike.operation ▸ honours) same retry pulls below follow' leg.state
  exact ⟨evaluated, rest, split, brought, fun enough => nothing (Nat.le_of_lt_succ enough)⟩

/-- A chain of runs brings a first part of what is left where it starts, and its last page leaves the
rest. -/
private theorem chain_brings {first : Leg σ} {later : List (Leg σ)}
    (runs : ∀ leg ∈ first :: later, leg.RunsLike whole)
    (chain : (first :: later).IsChain (GoesOn client)) {start : Option Record}
    (starts : StartKey.ofOption (first.reading.selected.get "exclusive_start_key") = .ok start)
    {left : List Stored} (follow : Follow store first.reading.startKey left) :
    ∃ evaluated rest, left = evaluated ++ rest ∧
      (∀ leg ∈ first :: later, (leg.drain client).fault = none) ∧
      (first :: later).flatMap (items client) = (evaluated.filter keep).map Stored.item ∧
      ∃ last cursor?, (first :: later).getLast? = some last ∧ last.nextCursor client = some cursor? ∧
        (cursor? = none → rest = []) := by
  -- Where a run stops, the next one starts: the records that are left are passed on along the chain.
  induction later generalizing first start left with
  | nil =>
    obtain ⟨evaluated, rest, split, ⟨fault, items, page, last, leaves⟩, -⟩ :=
      brings built distinct keyed honours (runs first List.mem_cons_self) starts follow
    refine ⟨evaluated, rest, split, by simpa using fault, by simpa [Leg.items] using items, first, ?_⟩
    obtain ⟨cursor?, given⟩ := leaves.nextCursor
    refine ⟨cursor?, rfl, nextCursor_eq last given, ?_⟩
    rintro rfl
    exact leaves.eq_nil given
  | cons second later ih =>
    obtain ⟨evaluated, rest, rfl, ⟨fault, hitems, page, hlast, leaves⟩, -⟩ :=
      brings built distinct keyed honours (runs first List.mem_cons_self) starts follow
    obtain ⟨goes_on, chain⟩ := List.isChain_cons_cons.mp chain
    obtain ⟨start', read, follow_rest⟩ := goes_on.starts hlast leaves
    obtain ⟨evaluated', rest', rfl, faults, hitems', last⟩ :=
      ih (fun leg member => runs leg (List.mem_cons_of_mem _ member)) chain read follow_rest
    refine ⟨evaluated ++ evaluated', rest', (List.append_assoc ..).symm,
      List.forall_mem_cons.mpr ⟨fault, faults⟩, ?_, ?_⟩
    · rw [List.flatMap_cons, hitems', Leg.items, hitems, List.filter_append, List.map_append]
    · rwa [List.getLast?_cons_cons]

end

/-- **Resuming loses and repeats nothing.** Runs under the conditions of a reading without caps, each with
limits of its own and stopped anywhere, form a chain: the first starts as the reading does, and each
further one with the cursor of the page at which the run before it stopped. Against a client that honours
such requests no run fails, and together they bring a first part of what the reading brings; when the
last page has no cursor, they bring all of it. -/
theorem chain_resumes {σ : Type} {client : Client σ} {whole : Reading} {request : Record}
    (built : whole.request = .ok request) (staged : ∃ stages, whole.stages = .ok stages)
    (uncapped : whole.caps = ⟨none, none, none⟩) {store : List Stored} (distinct : Distinct store)
    (keyed : ∀ record ∈ store, record.key.IsKeyMap) {keep : Stored → Bool}
    (honours : client.HonoursLike whole.operation request store keep) {left : List Stored}
    (starts : Follow store whole.startKey left) {first : Leg σ} {later : List (Leg σ)}
    (runs : ∀ leg ∈ first :: later, leg.RunsLike whole)
    (opens : first.reading.selected.get "exclusive_start_key" =
      whole.selected.get "exclusive_start_key")
    (chain : (first :: later).IsChain (GoesOn client)) (state : σ) (pulls : Nat)
    (enough : left.length < pulls) :
    let all := Leg.mk whole pulls state
    let resumed := (first :: later).flatMap (items client)
    (all.drain client).fault = none ∧ (∀ leg ∈ first :: later, (leg.drain client).fault = none) ∧
      resumed <+: all.items client ∧
      ∃ last cursor?, (first :: later).getLast? = some last ∧ last.nextCursor client = some cursor? ∧
        (cursor? = none → resumed = all.items client) := by
  intro all resumed
  obtain ⟨start, hstart⟩ := Reading.start_of_request built
  have itself : all.RunsLike whole := ⟨.refl built, staged, Nat.zero_lt_of_lt enough⟩
  obtain ⟨evaluated, rest, split, ⟨fault, hitems, -⟩, nothing⟩ :=
    brings built distinct keyed honours itself hstart starts
  have uncapped : ∀ tally, whole.caps.full tally = false := by
    intro tally
    rw [uncapped]
    rfl
  obtain rfl := nothing enough uncapped
  rw [List.append_nil] at split
  subst split
  have startKey : first.reading.startKey = whole.startKey := by
    rw [Reading.startKey, opens, ← Reading.startKey]
  obtain ⟨brought, others, split, faults, hresumed, last, cursor?, hlast, given, ends⟩ :=
    chain_brings built distinct keyed honours runs chain (opens ▸ hstart) (startKey ▸ starts)
  have whole_items : all.items client = resumed ++ (others.filter keep).map Stored.item := by
    rw [Leg.items, hitems, split, List.filter_append, List.map_append, ← hresumed]
  refine ⟨fault, faults, ⟨_, whole_items.symm⟩, last, cursor?, hlast, given, ?_⟩
  intro none_given
  rw [whole_items, ends none_given]
  exact (List.append_nil resumed).symm

end

def queryIn (frame : List (Text × Value)) : Reading where
  operation := .query
  table := { name := "events", hashKey := "id", rangeKey := none }
  options := Record.ofTexts (("hash_value", .text "x") :: frame)
  policy := .constant (.int 0)
  maxRetries := .null

private theorem queryIn_runsLike {σ : Type} {frame : List (Text × Value)}
    (apart : (("hash_value" : Text) :: frame.map Prod.fst).Nodup)
    (frames : ∀ entry ∈ frame, entry.1 ∈ Selection.framing) {stages : List Stage}
    (staged : (queryIn frame).stages = .ok stages) {pulls : Nat} (asked : 0 < pulls) (state : σ) :
    (Leg.mk (queryIn frame) pulls state).RunsLike (queryIn []) where
  alike := Reading.alike_of_frame
    (rfl : (queryIn []).options = Record.ofTexts [("hash_value", .text "x")]) apart frames
  staged := ⟨stages, staged⟩
  asked := asked

def afterThird : Text := "eyJpZCI6eyJTIjoiYyJ9fQ"

def afterFourth : Text := "eyJpZCI6eyJTIjoiZCJ9fQ"

theorem sixEvents_isKeyMap : ∀ record ∈ Reading.sixEvents, record.key.IsKeyMap := by
  intro record member
  obtain ⟨entry, hentry, rfl⟩ := List.mem_map.mp member
  refine Stored.ofText_isKeyMap ?_
  simp only [List.mem_cons, List.not_mem_nil, or_false] at hentry
  rcases hentry with rfl | rfl | rfl | rfl | rfl | rfl <;> exact Text.whole_ofString _

/-- Three runs over six records: the first stops at its cap on evaluated records, the second after one page,
and the third at the end of the store. -/
theorem chain_resumes_of_three_runs :
    let keep : Stored → Bool := fun record => record.item.isTruthy
    let client := Client.overStore Reading.sixEvents keep
    let whole := queryIn []
    let first : Leg (List Nat) :=
      ⟨queryIn [("scan_limit", .int 3), ("batch_size", .int 2)], 4, [1, 1]⟩
    let second : Leg (List Nat) := ⟨queryIn [("exclusive_start_key", .text afterThird)], 1, [0]⟩
    let third : Leg (List Nat) :=
      ⟨queryIn [("record_limit", .int 5), ("exclusive_start_key", .text afterFourth)], 9, [4]⟩
    let legs := [first, second, third]
    whole.caps = ⟨none, none, none⟩ ∧ (∀ leg ∈ legs, leg.RunsLike whole) ∧
      legs.IsChain (GoesOn client) ∧
      legs.map (fun leg => (leg.items client).length) = [2, 0, 2] ∧
      legs.flatMap (items client) = items client ⟨whole, 7, []⟩ := by
  intro keep client whole first second third legs
  have distinct : Distinct Reading.sixEvents := Stored.distinct_ofText (by decide)
  have keyed := sixEvents_isKeyMap
  have uncapped : whole.caps = ⟨none, none, none⟩ := rfl
  have firstRuns : first.RunsLike whole := queryIn_runsLike (by decide) (by decide) rfl (by decide) _
  have secondRuns : second.RunsLike whole := queryIn_runsLike (by decide) (by decide) rfl (by decide) _
  have thirdRuns : third.RunsLike whole := queryIn_runsLike (by decide) (by decide) rfl (by decide) _
  have runs : ∀ leg ∈ legs, leg.RunsLike whole :=
    List.forall_mem_cons.mpr ⟨firstRuns, List.forall_mem_cons.mpr
      ⟨secondRuns, List.forall_mem_singleton.mpr thirdRuns⟩⟩
  have ran : legs.map (fun leg => (leg.nextCursor client, (leg.items client).length)) =
      [(some (some afterThird), 2), (some (some afterFourth), 0), (some none, 2)] := by
    decide +kernel
  simp only [legs, List.map_cons, List.map_nil, List.cons.injEq, Prod.mk.injEq, and_true] at ran
  obtain ⟨⟨afterFirst, two⟩, ⟨afterSecond, zero⟩, finished, two'⟩ := ran
  have chain : legs.IsChain (GoesOn client) :=
    .cons_cons ⟨afterThird, afterFirst, rfl⟩ (.cons_cons ⟨afterFourth, afterSecond, rfl⟩ (.singleton third))
  have counts : legs.map (fun leg => (leg.items client).length) = [2, 0, 2] := by
    simp only [legs, List.map_cons, List.map_nil, two, zero, two']
  obtain ⟨request, built⟩ : ∃ request, whole.request = .ok request := ⟨_, rfl⟩
  have honours : client.HonoursLike .query request Reading.sixEvents keep :=
    Client.overStore_honoursLike .query request keep distinct keyed
  have staged : ∃ stages, whole.stages = .ok stages := ⟨_, rfl⟩
  have starts : Follow Reading.sixEvents whole.startKey Reading.sixEvents := by
    rw [show whole.startKey = .null from rfl]
    exact .start
  have opens : first.reading.selected.get "exclusive_start_key" =
      whole.selected.get "exclusive_start_key" := by
    rw [show first.reading.selected.get "exclusive_start_key" = .null from rfl]
    rfl
  have enough : Reading.sixEvents.length < 7 := by decide
  obtain ⟨-, -, -, last, cursor?, hlast, given, ends⟩ := chain_resumes built staged uncapped distinct
    keyed honours starts runs opens chain [] 7 enough
  obtain rfl := Option.some.inj hlast
  exact ⟨uncapped, runs, chain, counts, ends (Option.some.inj (given.symm.trans finished))⟩

end Leg

end TableQuery
