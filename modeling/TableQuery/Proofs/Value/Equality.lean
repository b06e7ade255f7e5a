/- Equality of containers comes from equality of what they hold.

   Sequences are equal item by item. Records whose keys are distinct texts are equal entry by entry, whatever
   their orders. A list of values that are all different keeps its members when it becomes a set. -/

import Mathlib.Data.List.Nodup
import TableQuery.Proofs.Outcomes
import TableQuery.Proofs.Records

set_option autoImplicit false
set_option relaxedAutoImplicit false

namespace TableQuery

namespace Value

theorem same_decimal_self (negative : Bool) (coefficient : Nat) (exponent : Int) :
    Decimal.same (.finite negative coefficient exponent) (.finite negative coefficient exponent) = .ok true := by
  simp [Decimal.same]

private theorem sameItems_of_forall₂ {items others : List Value}
    (equal : List.Forall₂ (fun item other => item.same other = .ok true) items others) :
    sameItems items others = .ok true := by
  induction equal with
  | nil => rfl
  | cons first _ ih => rw [sameItems, first, ih]

theorem same_list {items others : List Value}
    (equal : List.Forall₂ (fun item other => item.same other = .ok true) items others) :
    Value.same (.list items) (.list others) = .ok true := by
  rw [same, if_pos equal.length_eq, sameItems_of_forall₂ equal]

private theorem sameMembers_of_exists {members others : List Value}
    (equal : ∀ member ∈ members, ∃ other ∈ others, member.same other = .ok true) :
    sameMembers members others = .ok true := by
  induction members with
  | nil => rfl
  | cons member members ih =>
    obtain ⟨first, rest⟩ := List.forall_mem_cons.mp equal
    obtain ⟨other, among, same⟩ := first
    have found : (others.any fun b => holds (member.same b)) = true :=
      List.any_eq_true.mpr ⟨other, among, by rw [same]; rfl⟩
    rw [sameMembers, if_pos found, ih rest]

theorem same_set {frozen frozen' : Bool} {members others : List Value}
    (equal : List.Forall₂ (fun member other => member.same other = .ok true) members others) :
    Value.same (.set frozen members) (.set frozen' others) = .ok true := by
  rw [same, if_pos equal.length_eq]
  exact sameMembers_of_exists fun member among => exists_of_forall₂ equal among

theorem sameEntries_of_find {record other : Record}
    (h : ∀ entry ∈ record, ∃ partner,
      other.find? (fun candidate => holds (entry.1.same candidate.1)) = some partner ∧
        entry.2.same partner.2 = .ok true) : sameEntries record other = .ok true := by
  induction record with
  | nil => rfl
  | cons entry record ih =>
    obtain ⟨partner, found, equal⟩ := h entry List.mem_cons_self
    rw [sameEntries]
    simp only [found, equal]
    exact ih fun entry member => h entry (List.mem_cons_of_mem _ member)

end Value

theorem Record.find?_named {α : Type} (stands : α → Value → Prop) {record : Record} {named : List (Text × α)}
    (held : List.Forall₂ (fun entry part => entry.1 = .text part.1 ∧ stands part.2 entry.2) record named)
    (apart : (named.map Prod.fst).Nodup) {name : Text} {part : α} (member : (name, part) ∈ named) :
    ∃ partner, record.find? (fun entry => Value.holds ((Value.text name).same entry.1)) = some partner ∧
      stands part partner.2 := by
  induction held with
  | nil => exact absurd member List.not_mem_nil
  | @cons entry first record named holds _ ih =>
    obtain ⟨hname, hpart⟩ := holds
    rw [List.map_cons, List.nodup_cons] at apart
    rcases List.mem_cons.mp member with rfl | member
    · refine ⟨entry, List.find?_cons_of_pos ?_, hpart⟩
      rw [hname, Value.same]
      exact beq_self_eq_true name
    · have different : name ≠ first.1 := by
        rintro rfl
        exact apart.1 (List.mem_map.mpr ⟨_, member, rfl⟩)
      obtain ⟨partner, found, holds⟩ := ih apart.2 member
      refine ⟨partner, ?_, holds⟩
      rw [List.find?_cons_of_neg, found]
      rw [hname, Value.same]
      simpa [Value.holds] using different

theorem Value.same_ofTexts {entries others : List (Text × Value)} (apart : (others.map Prod.fst).Nodup)
    (equal : List.Forall₂ (fun entry other => entry.1 = other.1 ∧ entry.2.same other.2 = .ok true) entries others) :
    Value.same (.map (Record.ofTexts entries)) (.map (Record.ofTexts others)) = .ok true := by
  have lengths : (Record.ofTexts entries).length = (Record.ofTexts others).length := by
    rw [Record.ofTexts, Record.ofTexts, List.length_map, List.length_map, equal.length_eq]
  have held : List.Forall₂ (fun entry part => entry.1 = .text part.1 ∧ part.2 = entry.2)
      (Record.ofTexts others) others := by
    rw [Record.ofTexts, List.forall₂_map_left_iff, List.forall₂_same]
    exact fun _ _ => ⟨rfl, rfl⟩
  rw [same, if_pos lengths]
  refine sameEntries_of_find ?_
  intro _ member
  obtain ⟨entry, among, rfl⟩ := List.mem_map.mp member
  obtain ⟨⟨name, value⟩, listed, same_name, same_value⟩ := exists_of_forall₂ equal among
  obtain ⟨partner, found, stands⟩ := Record.find?_named Eq held apart listed
  obtain rfl : entry.1 = name := same_name
  exact ⟨partner, found, by rw [← stands]; exact same_value⟩

theorem Value.distinct_of_pairwise {values : List Value}
    (apart : values.Pairwise fun a b => sameKey a b = false) : distinct values = values := by
  -- The values kept so far, followed by those to come, are all different.
  have kept : ∀ (rest before : List Value), (before ++ rest).Pairwise (fun a b => sameKey a b = false) →
      rest.foldl (fun kept v => if kept.any (sameKey · v) then kept else kept ++ [v]) before = before ++ rest := by
    intro rest
    induction rest with
    | nil => exact fun before _ => (List.append_nil before).symm
    | cons v rest ih =>
      intro before apart
      have fresh : ¬ (before.any (sameKey · v) = true) := by
        rw [List.any_eq_true]
        rintro ⟨a, member, equal⟩
        have different := (List.pairwise_append.mp apart).2.2 a member v List.mem_cons_self
        rw [different] at equal
        cases equal
      rw [List.foldl_cons, if_neg fresh, ih (before ++ [v]) (by rw [← List.append_cons]; exact apart),
        ← List.append_cons]
  exact kept values [] apart

end TableQuery
