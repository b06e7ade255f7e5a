/- Sorting comparable values arranges them: none is lost and none is added. -/

import Mathlib.Data.List.Basic
import TableQuery.Proofs.Outcomes
import TableQuery.Value.Order

set_option autoImplicit false
set_option relaxedAutoImplicit false

namespace TableQuery

namespace Sorting

variable {α : Type} {less : α → α → Except Fault Bool}

/-- Every two of the values can be compared. -/
def Comparable (less : α → α → Except Fault Bool) (values : List α) : Prop :=
  ∀ a ∈ values, ∀ b ∈ values, ∃ outcome, less a b = .ok outcome

private theorem Comparable.mono {values fewer : List α} (h : Comparable less values) (sub : fewer ⊆ values) :
    Comparable less fewer :=
  fun a ha b hb => h a (sub ha) b (sub hb)

private theorem runAfter_eq (descending : Bool) {before : α} {values : List α}
    (h : Comparable less (before :: values)) :
    ∃ run rest, runAfter less descending before values = .ok (run, rest) ∧ run ++ rest = values := by
  induction values generalizing before with
  | nil => exact ⟨[], [], rfl, rfl⟩
  | cons a rest ih =>
    obtain ⟨outcome, compared⟩ := h a (by simp) before (by simp)
    rw [runAfter, compared]
    by_cases continues : outcome = descending
    · obtain ⟨run, others, hrun, split⟩ := ih (h.mono (List.subset_cons_self before _))
      refine ⟨a :: run, others, ?_, by rw [List.cons_append, split]⟩
      simp only [bind, Except.bind, if_pos continues, hrun]
      rfl
    · refine ⟨[], a :: rest, ?_, rfl⟩
      simp only [bind, Except.bind, if_neg continues]
      rfl

private theorem firstRun_perm {values : List α} (h : Comparable less values) :
    ∃ run rest, firstRun less values = .ok (run, rest) ∧ (run ++ rest).Perm values := by
  match values, h with
  | [], _ => exact ⟨[], [], rfl, .nil⟩
  | [a], _ => exact ⟨[a], [], rfl, .refl _⟩
  | a :: b :: values, h =>
    obtain ⟨descending, compared⟩ := h b (by simp) a (by simp)
    obtain ⟨run, rest, hrun, split⟩ :=
      runAfter_eq descending (h.mono (List.subset_cons_self a _))
    refine ⟨if descending then (a :: b :: run).reverse else a :: b :: run, rest, ?_, ?_⟩
    · simp only [firstRun, compared, hrun, bind, Except.bind]
      rfl
    · have turned : (if descending then (a :: b :: run).reverse else a :: b :: run).Perm
          (a :: b :: run) := by
        cases descending with
        | true => exact List.reverse_perm _
        | false => exact .refl _
      rw [← split]
      exact turned.append_right rest

private theorem insert_perm {a : α} (fuel : Nat) {values : List α} (h : Comparable less (a :: values)) :
    ∃ placed, insert less a fuel values = .ok placed ∧ placed.Perm (a :: values) := by
  induction fuel generalizing values with
  | zero => exact ⟨a :: values, rfl, .refl _⟩
  | succ fuel ih =>
    have halves := List.take_append_drop (values.length / 2) values
    rw [insert]
    cases split : values.drop (values.length / 2) with
    | nil =>
      have empty : values = [] := by
        rw [List.drop_eq_nil_iff] at split
        exact List.eq_nil_of_length_eq_zero (by omega)
      exact ⟨[a], rfl, by rw [empty]⟩
    | cons middle back =>
      rw [split] at halves
      have front_sub : values.take (values.length / 2) ⊆ values := List.take_subset _ _
      have back_sub : back ⊆ values := by
        rw [← halves]
        exact fun b hb => List.mem_append_right _ (List.mem_cons_of_mem _ hb)
      obtain ⟨outcome, compared⟩ := h a (by simp) middle (by
        rw [← halves]
        simp)
      cases outcome with
      | true =>
        obtain ⟨placed, hplaced, perm⟩ := ih (h.mono (List.cons_subset_cons a front_sub))
        refine ⟨placed ++ middle :: back, ?_, ?_⟩
        · simp only [compared, hplaced, bind, Except.bind, if_true]
          rfl
        · have moved := perm.append_right (middle :: back)
          rwa [List.cons_append, halves] at moved
      | false =>
        obtain ⟨placed, hplaced, perm⟩ := ih (h.mono (List.cons_subset_cons a back_sub))
        refine ⟨values.take (values.length / 2) ++ middle :: placed, ?_, ?_⟩
        · simp only [compared, hplaced, bind, Except.bind]
          rfl
        · have moved := ((perm.cons middle).append_left (values.take (values.length / 2))).trans
            ((List.Perm.swap a middle back).append_left _)
          have first := moved.trans List.perm_middle
          rwa [halves] at first

private theorem insertions_perm (waiting : List α) {placed : List α}
    (h : Comparable less (placed ++ waiting)) :
    ∃ result, waiting.foldlM (fun placed a => insert less a placed.length placed) placed = .ok result ∧
      result.Perm (placed ++ waiting) := by
  induction waiting generalizing placed with
  | nil => exact ⟨placed, rfl, by rw [List.append_nil]⟩
  | cons a waiting ih =>
    have sub : a :: placed ⊆ placed ++ a :: waiting := by simp
    obtain ⟨next, hnext, perm⟩ := insert_perm placed.length (h.mono sub)
    have moved : (next ++ waiting).Perm (placed ++ a :: waiting) :=
      (perm.append_right waiting).trans List.perm_middle.symm
    obtain ⟨result, hresult, arranged⟩ := ih (h.mono moved.subset)
    refine ⟨result, ?_, arranged.trans moved⟩
    rw [List.foldlM_cons, hnext]
    exact hresult

private theorem sorted_perm {values : List α} (h : Comparable less values) :
    ∃ result, sorted less values = .ok result ∧ result.Perm values := by
  obtain ⟨run, rest, hrun, split⟩ := firstRun_perm h
  obtain ⟨result, hresult, perm⟩ := insertions_perm rest (h.mono split.subset)
  refine ⟨result, ?_, perm.trans split⟩
  rw [sorted, hrun]
  exact hresult

end Sorting

/-- A record with text keys can be put into the order of its keys. -/
theorem Record.ordered_perm {record : Record} (named : ∀ entry ∈ record, ∃ name, entry.1 = .text name) :
    ∃ result, record.ordered = .ok result ∧ result.Perm record := by
  refine Sorting.sorted_perm ?_
  intro entry member other member'
  obtain ⟨name, hname⟩ := named entry member
  obtain ⟨name', hname'⟩ := named other member'
  refine ⟨!name'.atMost name, ?_⟩
  change entry.1.less other.1 = _
  rw [hname, hname', Value.less]

end TableQuery
