/- The order of texts: it is linear, and values under different texts have one order. -/

import Mathlib.Data.List.Sort
import TableQuery.Text.Basic

set_option autoImplicit false
set_option relaxedAutoImplicit false

namespace TableQuery

theorem CodePoint.number_injective : Function.Injective CodePoint.number := by
  have apart (c : Char) (offset : Fin 0x800) : c.toNat ≠ 0xD800 + offset.val := by
    have valid : c.toNat < 0xD800 ∨ 0xDFFF < c.toNat ∧ c.toNat < 0x110000 := c.valid
    have bound := offset.isLt
    omega
  intro a b h
  cases a with
  | char c =>
    cases b with
    | char d => exact congrArg _ (Char.ext (UInt32.toNat_inj.mp h))
    | surrogate offset => exact absurd h (apart c offset)
  | surrogate offset =>
    cases b with
    | char d => exact absurd h.symm (apart d offset)
    | surrogate other => exact congrArg _ (Fin.ext (Nat.add_left_cancel h))

namespace Text

private theorem atMost_cons {c d : CodePoint} {s t : Text} :
    atMost (c :: s) (d :: t) = true ↔
      c.number < d.number ∨ c.number = d.number ∧ s.atMost t = true := by
  simp [atMost]

private theorem atMost_total (s t : Text) : s.atMost t = true ∨ t.atMost s = true := by
  induction s generalizing t with
  | nil => exact .inl rfl
  | cons c s ih =>
    cases t with
    | nil => exact .inr rfl
    | cons d t =>
      rw [atMost_cons, atMost_cons]
      rcases Nat.lt_trichotomy c.number d.number with below | same | above
      · exact .inl (.inl below)
      · rcases ih t with rest | rest
        · exact .inl (.inr ⟨same, rest⟩)
        · exact .inr (.inr ⟨same.symm, rest⟩)
      · exact .inr (.inl above)

private theorem atMost_trans {s t u : Text} (h : s.atMost t = true) (h' : t.atMost u = true) :
    s.atMost u = true := by
  induction s generalizing t u with
  | nil => rfl
  | cons c s ih =>
    cases t with
    | nil => cases h
    | cons d t =>
      cases u with
      | nil => cases h'
      | cons e u =>
        rw [atMost_cons] at h h' ⊢
        rcases h with below | ⟨same, rest⟩
        · have before_e : d.number ≤ e.number := by
            rcases h' with below' | ⟨same', _⟩ <;> omega
          exact .inl (by omega)
        · rcases h' with below' | ⟨same', rest'⟩
          · exact .inl (by omega)
          · exact .inr ⟨same.trans same', ih rest rest'⟩

private theorem atMost_antisymm {s t : Text} (h : s.atMost t = true) (h' : t.atMost s = true) : s = t := by
  induction s generalizing t with
  | nil =>
    cases t with
    | nil => rfl
    | cons => cases h'
  | cons c s ih =>
    cases t with
    | nil => cases h
    | cons d t =>
      rw [atMost_cons] at h h'
      rcases h with below | ⟨same, rest⟩
      · exfalso
        rcases h' with below' | ⟨same', _⟩ <;> omega
      · rcases h' with below' | ⟨_, rest'⟩
        · omega
        · rw [CodePoint.number_injective same, ih rest rest']

section SortBy

variable {α : Type} (key : α → Text)

private theorem insertBy_eq (a : α) (values : List α) :
    insertBy key a values = values.orderedInsert (fun b c => (key b).atMost (key c) = true) a := by
  induction values with
  | nil => rfl
  | cons b rest ih => rw [insertBy, List.orderedInsert_cons, ih]

private theorem sortBy_eq (values : List α) :
    sortBy key values = values.insertionSort fun a b => (key a).atMost (key b) = true := by
  induction values with
  | nil => rfl
  | cons a rest ih => rw [sortBy, List.insertionSort_cons, insertBy_eq, ih]

theorem sortBy_perm (values : List α) : (sortBy key values).Perm values := by
  rw [sortBy_eq]
  exact List.perm_insertionSort _ values

private theorem sortBy_pairwise (values : List α) :
    (sortBy key values).Pairwise fun a b => (key a).atMost (key b) = true := by
  have : Std.Total fun a b => (key a).atMost (key b) = true := ⟨fun a b => atMost_total _ _⟩
  have : IsTrans α fun a b => (key a).atMost (key b) = true := ⟨fun _ _ _ => atMost_trans⟩
  rw [sortBy_eq]
  exact List.pairwise_insertionSort _ values

variable {key}

theorem sortBy_eq_of_perm {values others : List α} (apart : (values.map key).Nodup)
    (perm : others.Perm values) : sortBy key others = sortBy key values := by
  have arranged := (sortBy_perm key others).trans (perm.trans (sortBy_perm key values).symm)
  refine List.Perm.eq_of_pairwise ?_ (sortBy_pairwise key others) (sortBy_pairwise key values) arranged
  intro a b ha hb below above
  refine List.inj_on_of_nodup_map apart ?_ ((sortBy_perm key values).mem_iff.mp hb)
    (atMost_antisymm below above)
  exact perm.mem_iff.mp ((sortBy_perm key others).mem_iff.mp ha)

end SortBy

end Text

end TableQuery
