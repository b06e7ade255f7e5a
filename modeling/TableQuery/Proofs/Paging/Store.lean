/- Clients that honour requests over a store.

   A store is a finite list of records under distinct keys. A client honours a request when it evaluates
   records right after the start key, at least one if any is left and no more than the limit, and answers
   with those that the filter keeps. How many it evaluates is its own choice, call by call. -/

import TableQuery.Client.Basic
import TableQuery.Proofs.Records

set_option autoImplicit false
set_option relaxedAutoImplicit false

namespace TableQuery

theorem Value.same_of_sameKey {v other : Value} (h : v.sameKey other = true) : v.same other = .ok true := by
  rw [sameKey] at h
  cases outcome : v.same other with
  | ok equal =>
    rw [outcome] at h
    exact congrArg _ h
  | error condition =>
    rw [outcome] at h
    cases h

/-- A record of a store: its key, and the item that it is answered with. -/
structure Stored where
  key : Record
  item : Value

namespace Stored

/-- A key names a record when it is the key of the record, or equals it. -/
def NamedBy (record : Stored) (key : Value) : Prop :=
  key = .map record.key ∨ key.sameKey (.map record.key) = true

structure Distinct (store : List Stored) : Prop where
  filled : ∀ record ∈ store, record.key ≠ []
  apart : store.Pairwise fun record other => ∀ key, ¬ (record.NamedBy key ∧ other.NamedBy key)

/-- The records of a store that follow a key: all of them without a key, and otherwise those after the one
that it names. -/
inductive Follow (store : List Stored) : Value → List Stored → Prop
  | start : Follow store .null store
  | after {front rest : List Stored} {record : Stored} {key : Value} :
      store = front ++ record :: rest → record.NamedBy key → Follow store key rest

/-- An answer to a request that evaluates some of the records that are left, with those that it leaves. -/
structure Answered (keep : Stored → Bool) (request : Record) (evaluated rest : List Stored)
    (response : Record) : Prop where
  progress : evaluated = [] → rest = []
  within : ∀ n : Int, request.get "Limit" = .int n → 0 < n → evaluated.length ≤ n
  items : response.get "Items" = .list ((evaluated.filter keep).map item)
  count : response.get "Count" = .int (evaluated.filter keep).length
  scanned : response.get "ScannedCount" = .int evaluated.length
  noKey : evaluated = [] → response.get "LastEvaluatedKey" = .null
  lastKey : ∀ record, evaluated.getLast? = some record →
    record.NamedBy (response.get "LastEvaluatedKey") ∨
      rest = [] ∧ response.get "LastEvaluatedKey" = .null

end Stored

open Stored

/-- A client honours the requests of an operation over a store: whatever its state, it answers each one
that starts at a place of the store. -/
def Client.Honours {σ : Type} (client : Client σ) (operation : Operation) (store : List Stored)
    (keep : Stored → Bool) : Prop :=
  ∀ request state, (∃ left, Follow store (request.get "ExclusiveStartKey") left) →
    ∃ evaluated rest response next,
      Follow store (request.get "ExclusiveStartKey") (evaluated ++ rest) ∧
      client.call operation request state = (.ok response, next) ∧
      Answered keep request evaluated rest response

namespace Stored

private theorem NamedBy.eq_map {record : Stored} {key : Value} (named : record.NamedBy key) :
    ∃ entries, key = .map entries := by
  rcases named with rfl | same
  · exact ⟨_, rfl⟩
  · cases key with
    | map entries => exact ⟨entries, rfl⟩
    | _ => cases (show false = true from same)

private theorem NamedBy.isTruthy {record : Stored} {key : Value} (named : record.NamedBy key)
    (filled : record.key ≠ []) : key.isTruthy = true := by
  obtain ⟨entries, rfl⟩ := named.eq_map
  have content : entries ≠ [] := by
    rcases named with here | same
    · rw [Value.map.inj here]
      exact filled
    · rintro rfl
      rw [Value.sameKey, Value.same] at same
      split at same
      · rename_i lengths
        exact filled (List.eq_nil_of_length_eq_zero lengths.symm)
      · cases same
  simpa [Value.isTruthy] using content

private theorem Follow.suffix {store left : List Stored} {key : Value} (h : Follow store key left) :
    ∃ front, store = front ++ left := by
  cases h with
  | start => exact ⟨[], rfl⟩
  | @after front _ record _ split _ => exact ⟨front ++ [record], by simp [split]⟩

private theorem not_named_null (record : Stored) : ¬ record.NamedBy .null := by
  rintro (h | h)
  · cases h
  · simp [Value.sameKey, Value.same, Value.holds] at h

private theorem named_once {store : List Stored} {key : Value}
    (apart : store.Pairwise fun record other => ∀ key, ¬ (record.NamedBy key ∧ other.NamedBy key))
    {front other : List Stored} {left rest : List Stored} {record named : Stored}
    (split : store = front ++ record :: left) (resplit : store = other ++ named :: rest)
    (hrecord : record.NamedBy key) (hnamed : named.NamedBy key) : left = rest := by
  induction front generalizing store other with
  | nil =>
    subst split
    cases other with
    | nil => exact (List.cons.inj resplit).2
    | cons first other =>
      obtain ⟨rfl, rest_eq⟩ := List.cons.inj resplit
      have distinct := (List.pairwise_cons.mp apart).1 named (by simp [rest_eq])
      exact absurd ⟨hrecord, hnamed⟩ (distinct key)
  | cons first front ih =>
    subst split
    cases other with
    | nil =>
      obtain ⟨rfl, -⟩ := List.cons.inj resplit
      have distinct := (List.pairwise_cons.mp apart).1 record (by simp)
      exact absurd ⟨hnamed, hrecord⟩ (distinct key)
    | cons second other =>
      exact ih (List.pairwise_cons.mp apart).2 rfl (List.cons.inj resplit).2

/-- In a store of distinct keys a key leaves no choice of what follows it. -/
theorem Follow.unique {store left rest : List Stored} {key : Value} (distinct : Distinct store)
    (h : Follow store key left) (h' : Follow store key rest) : left = rest := by
  cases h with
  | start =>
    cases h' with
    | start => rfl
    | after _ named => exact absurd named (not_named_null _)
  | after split named =>
    cases h' with
    | start => exact absurd named (not_named_null _)
    | after resplit named' => exact named_once distinct.apart split resplit named named'

private theorem Follow.past {store evaluated rest : List Stored} {key lastKey : Value} {record : Stored}
    (h : Follow store key (evaluated ++ rest)) (last : evaluated.getLast? = some record)
    (named : record.NamedBy lastKey) : Follow store lastKey rest := by
  obtain ⟨front, split⟩ := h.suffix
  obtain ⟨before, rfl⟩ := List.getLast?_eq_some_iff.mp last
  have resplit : store = (front ++ before) ++ record :: rest := by simp [split]
  exact .after resplit named

theorem Follow.eq_map {store left : List Stored} {key : Value} (h : Follow store key left)
    (keyed : key ≠ .null) : ∃ entries, key = .map entries := by
  cases h with
  | start => exact absurd rfl keyed
  | after _ named => exact named.eq_map

theorem Follow.of_named {store left : List Stored} {key other : Value} (h : Follow store key left)
    (keyed : key ≠ .null) (renames : ∀ record ∈ store, record.NamedBy key → record.NamedBy other) :
    Follow store other left := by
  cases h with
  | start => exact absurd rfl keyed
  | @after front _ record _ split named =>
    have member : record ∈ store := by simp [split]
    exact .after split (renames record member named)

section Answered

variable {store evaluated rest : List Stored} {key : Value} {keep : Stored → Bool}
  {request response : Record}

theorem Answered.rest_eq_nil (answered : Answered keep request evaluated rest response)
    (distinct : Distinct store) (follow : Follow store key (evaluated ++ rest))
    (keyless : (response.get "LastEvaluatedKey").isTruthy = false) : rest = [] := by
  cases last : evaluated.getLast? with
  | none => exact answered.progress (List.getLast?_eq_none_iff.mp last)
  | some record =>
    rcases answered.lastKey record last with named | ⟨nothing, -⟩
    · obtain ⟨front, split⟩ := follow.suffix
      have member : record ∈ store := by simp [split, List.mem_of_getLast? last]
      rw [named.isTruthy (distinct.filled record member)] at keyless
      cases keyless
    · exact nothing

theorem Answered.follow_lastKey (answered : Answered keep request evaluated rest response)
    (follow : Follow store key (evaluated ++ rest))
    (keyed : (response.get "LastEvaluatedKey").isTruthy = true) :
    evaluated ≠ [] ∧ Follow store (response.get "LastEvaluatedKey") rest := by
  have keyless : response.get "LastEvaluatedKey" ≠ .null := by
    intro null
    rw [null] at keyed
    cases keyed
  cases last : evaluated.getLast? with
  | none => exact absurd (answered.noKey (List.getLast?_eq_none_iff.mp last)) keyless
  | some record =>
    rcases answered.lastKey record last with named | ⟨-, null⟩
    · refine ⟨?_, follow.past last named⟩
      rintro rfl
      cases last
    · exact absurd null keyless

end Answered

end Stored

/-- The greatest number of records that a client evaluates for a request when it would like to evaluate
`wish` more than one. -/
def Client.share (request : Record) (wish : Nat) : Nat :=
  match request.get "Limit" with
  | .int n => max 1 (min (wish + 1) n.toNat)
  | _ => wish + 1

def Stored.leftAfter (store : List Stored) (key : Value) : List Stored :=
  if key.isNull then store else (store.dropWhile fun record => !key.sameKey (.map record.key)).tail

theorem Stored.mem_of_mem_leftAfter {store : List Stored} {key : Value} {record : Stored}
    (h : record ∈ leftAfter store key) : record ∈ store := by
  unfold leftAfter at h
  split at h
  · exact h
  · exact (List.dropWhile_suffix _).subset (List.mem_of_mem_tail h)

/-- A client over a store whose state holds how many records it would like to evaluate call by call. -/
def Client.overStore (store : List Stored) (keep : Stored → Bool) : Client (List Nat) where
  call := fun _ request wishes =>
    let left := leftAfter store (request.get "ExclusiveStartKey")
    let evaluated := left.take (share request (wishes.headD 0))
    let lastKey : Record := match evaluated.getLast? with
      | some record => [(.text "LastEvaluatedKey", .map record.key)]
      | none => []
    (.ok ((.text "Items", .list ((evaluated.filter keep).map item)) ::
      (.text "Count", .int (evaluated.filter keep).length) ::
      (.text "ScannedCount", .int evaluated.length) :: lastKey), wishes.tail)
  patience := fun _ => store.length + 1

namespace Stored

private theorem Follow.eq_leftAfter {store left : List Stored} {key : Value} (distinct : Distinct store)
    (itself : ∀ record ∈ store, (Value.map record.key).sameKey (.map record.key) = true)
    (h : Follow store key left) : left = leftAfter store key := by
  cases h with
  | start => rfl
  | @after front _ record _ split named =>
    subst split
    have present : key.isNull = false := by
      cases key with
      | null => exact absurd named (not_named_null record)
      | _ => rfl
    have same : key.sameKey (.map record.key) = true := by
      rcases named with rfl | same
      · exact itself record (by simp)
      · exact same
    have others : ∀ other ∈ front, key.sameKey (.map other.key) = false := by
      intro other member
      rw [Bool.eq_false_iff]
      intro equal
      exact (List.pairwise_append.mp distinct.apart).2.2 other member record (by simp) key
        ⟨.inr equal, named⟩
    rw [leftAfter, present, List.dropWhile_append_of_pos (by simpa using others),
      List.dropWhile_cons_of_neg (by simp [same])]
    rfl

end Stored

/-- The client over a store of distinct keys honours every request, whatever it would like to evaluate. -/
theorem Client.overStore_honours (operation : Operation) {store : List Stored}
    (keep : Stored → Bool) (distinct : Distinct store)
    (itself : ∀ record ∈ store, (Value.map record.key).sameKey (.map record.key) = true) :
    (Client.overStore store keep).Honours operation store keep := by
  rintro request wishes ⟨left, follow⟩
  have position := follow.eq_leftAfter distinct itself
  have positive : 0 < share request (wishes.headD 0) := by
    unfold share
    split <;> omega
  refine ⟨left.take (share request (wishes.headD 0)), left.drop (share request (wishes.headD 0)), _, _,
    by rw [List.take_append_drop]; exact follow, rfl, ?_⟩
  rw [← position]
  exact
    { progress := by
        intro empty
        rcases List.take_eq_nil_iff.mp empty with none_wished | rfl
        · omega
        · exact List.drop_nil
      within := by
        intro n limit admitted
        have most : share request (wishes.headD 0) ≤ n.toNat := by
          rw [share, limit]
          dsimp only
          omega
        have taken := List.length_take_le (share request (wishes.headD 0)) left
        omega
      items := rfl
      count := rfl
      scanned := rfl
      noKey := by
        intro empty
        rw [empty]
        rfl
      lastKey := by
        intro record last
        rw [last]
        exact .inl (.inl rfl) }

def Stored.ofText (name : Text) (item : Value) : Stored where
  key := [(.text "id", Attribute.single "S" (.text name))]
  item := item

namespace Stored

private theorem eq_of_same_text {v : Value} {t : Text} (h : v.same (.text t) = .ok true) :
    v = .text t := by
  cases v with
  | text s =>
    rw [Value.same, Except.ok.injEq, beq_iff_eq] at h
    rw [h]
  | _ => cases (show (Except.ok false : Except Signal Bool) = .ok true from h)

private theorem eq_of_same_singleton {v key content : Value}
    (h : v.same (.map [(key, content)]) = .ok true) :
    ∃ k c, v = .map [(k, c)] ∧ c.same content = .ok true := by
  cases v with
  | map entries =>
    rw [Value.same] at h
    split at h
    · rename_i lengths
      obtain ⟨⟨k, c⟩, rfl⟩ := List.length_eq_one_iff.mp lengths
      refine ⟨k, c, rfl, ?_⟩
      rw [Value.sameEntries, List.find?_cons] at h
      cases matched : Value.holds (k.same key) with
      | false =>
        rw [matched] at h
        cases h
      | true =>
        rw [matched] at h
        dsimp only at h
        split at h
        · assumption
        · exact h
    · cases h
  | _ => cases (show (Except.ok false : Except Signal Bool) = .ok true from h)

private theorem ofText_namedBy {name : Text} {item key : Value} (h : (ofText name item).NamedBy key) :
    ∃ k kind, key = .map [(k, .map [(kind, .text name)])] := by
  rcases h with rfl | same
  · exact ⟨_, _, rfl⟩
  · obtain ⟨k, inner, rfl, sameInner⟩ := eq_of_same_singleton (Value.same_of_sameKey same)
    obtain ⟨kind, content, rfl, sameText⟩ := eq_of_same_singleton sameInner
    exact ⟨k, kind, by rw [eq_of_same_text sameText]⟩

theorem distinct_ofText {named : List (Text × Value)} (apart : (named.map Prod.fst).Nodup) :
    Distinct (named.map fun entry => ofText entry.1 entry.2) where
  filled := by
    rintro record member
    obtain ⟨entry, -, rfl⟩ := List.mem_map.mp member
    exact List.cons_ne_nil _ _
  apart := by
    rw [List.pairwise_map]
    rw [List.nodup_iff_pairwise_ne, List.pairwise_map] at apart
    refine apart.imp ?_
    rintro first second different key ⟨hfirst, hsecond⟩
    obtain ⟨k, kind, rfl⟩ := ofText_namedBy hfirst
    obtain ⟨_, _, equal⟩ := ofText_namedBy hsecond
    exact different (by simpa using equal : _ ∧ _ ∧ first.1 = second.1).2.2

end Stored

end TableQuery
