/- Computations that give a result or a fault: what it takes for them to give a result. -/

import Mathlib.Data.List.Forall2

set_option autoImplicit false
set_option relaxedAutoImplicit false

namespace TableQuery

variable {ε α β : Type}

theorem bind_eq_ok {x : Except ε α} {f : α → Except ε β} {b : β} :
    (x >>= f) = .ok b ↔ ∃ a, x = .ok a ∧ f a = .ok b := by
  cases x <;> simp [bind, Except.bind]

theorem bind_eq_error {x : Except ε α} {f : α → Except ε β} {e : ε} :
    (x >>= f) = .error e ↔ x = .error e ∨ ∃ a, x = .ok a ∧ f a = .error e := by
  cases x <;> simp [bind, Except.bind]

theorem pure_eq_ok {a b : α} : (pure a : Except ε α) = .ok b ↔ a = b := by
  simp [pure, Except.pure]

theorem map_eq_ok {x : Except ε α} {f : α → β} {b : β} :
    x.map f = .ok b ↔ ∃ a, x = .ok a ∧ f a = b := by
  cases x <;> simp [Except.map]

theorem eq_ok_of_toOption {x : Except ε α} {a : α} (kept : x.toOption = some a) : x = .ok a := by
  cases x with
  | ok b => exact congrArg Except.ok (Option.some.inj kept)
  | error e => cases kept

theorem exists_of_isOk {x : Except ε α} (given : x.isOk = true) : ∃ a, x = .ok a := by
  cases x with
  | ok a => exact ⟨a, rfl⟩
  | error e => cases given

theorem isOk_iff {x : Except ε α} : x.isOk = true ↔ ∃ a, x = .ok a := by
  refine ⟨exists_of_isOk, ?_⟩
  rintro ⟨a, rfl⟩
  rfl

theorem forall₂_of_exists {r : α → β → Prop} {values : List α} (h : ∀ a ∈ values, ∃ b, r a b) :
    ∃ partners, List.Forall₂ r values partners := by
  induction values with
  | nil => exact ⟨[], .nil⟩
  | cons a values ih =>
    obtain ⟨b, hb⟩ := h a List.mem_cons_self
    obtain ⟨partners, hpartners⟩ := ih fun a member => h a (List.mem_cons_of_mem _ member)
    exact ⟨b :: partners, .cons hb hpartners⟩

theorem exists_of_forall₂ {r : α → β → Prop} {values : List α} {partners : List β}
    (h : List.Forall₂ r values partners) {a : α} (member : a ∈ values) : ∃ b ∈ partners, r a b := by
  induction h with
  | nil => exact absurd member List.not_mem_nil
  | @cons first partner _ _ related _ ih =>
    rcases List.mem_cons.mp member with rfl | member
    · exact ⟨partner, List.mem_cons_self, related⟩
    · obtain ⟨b, hb, rb⟩ := ih member
      exact ⟨b, List.mem_cons_of_mem _ hb, rb⟩

theorem getElem?_of_forall₂ {r : α → β → Prop} {values : List α} {partners : List β}
    (h : List.Forall₂ r values partners) {place : Nat} {b : β} (found : partners[place]? = some b) :
    ∃ a, values[place]? = some a ∧ r a b := by
  induction h generalizing place with
  | nil => cases found
  | cons related _ ih =>
    cases place with
    | zero =>
      obtain rfl := Option.some.inj found
      exact ⟨_, rfl, related⟩
    | succ place => exact ih found

theorem forall₂_split {γ : Type} {r : α → β → Prop} {s : β → γ → Prop} {values : List α} {partners : List γ}
    (h : List.Forall₂ (fun a c => ∃ b, r a b ∧ s b c) values partners) :
    ∃ between, List.Forall₂ r values between ∧ List.Forall₂ s between partners := by
  induction h with
  | nil => exact ⟨[], .nil, .nil⟩
  | cons related _ ih =>
    obtain ⟨b, hr, hs⟩ := related
    obtain ⟨between, left, right⟩ := ih
    exact ⟨b :: between, .cons hr left, .cons hs right⟩

theorem forall₂_join {γ : Type} {r : α → β → Prop} {s : β → γ → Prop} {values : List α} {between : List β}
    {partners : List γ} (left : List.Forall₂ r values between) (right : List.Forall₂ s between partners) :
    List.Forall₂ (fun a c => ∃ b, r a b ∧ s b c) values partners := by
  induction left generalizing partners with
  | nil =>
    cases right
    exact .nil
  | cons related _ ih =>
    cases right with
    | cons further right => exact .cons ⟨_, related, further⟩ (ih right)

theorem mapM_eq_ok {f : α → Except ε β} {values : List α} {results : List β} :
    values.mapM f = .ok results ↔ List.Forall₂ (fun a b => f a = .ok b) values results := by
  induction values generalizing results with
  | nil =>
    rw [List.mapM_nil, pure_eq_ok, List.forall₂_nil_left_iff]
    exact eq_comm
  | cons a values ih =>
    rw [List.mapM_cons, List.forall₂_cons_left_iff, bind_eq_ok]
    refine exists_congr ?_
    intro b
    rw [bind_eq_ok]
    constructor
    · rintro ⟨ha, rest, hrest, h⟩
      exact ⟨rest, ha, ih.mp hrest, (pure_eq_ok.mp h).symm⟩
    · rintro ⟨rest, ha, hrest, rfl⟩
      exact ⟨ha, rest, ih.mpr hrest, rfl⟩

theorem mapM_eq_some {f : α → Option β} {values : List α} {results : List β} :
    values.mapM f = some results ↔ List.Forall₂ (fun a b => f a = some b) values results := by
  induction values generalizing results with
  | nil =>
    rw [List.mapM_nil, List.forall₂_nil_left_iff]
    exact Option.some_inj.trans eq_comm
  | cons a values ih =>
    rw [List.mapM_cons, List.forall₂_cons_left_iff]
    refine Option.bind_eq_some_iff.trans (exists_congr ?_)
    intro b
    constructor
    · rintro ⟨ha, h⟩
      obtain ⟨rest, hrest, h⟩ := Option.bind_eq_some_iff.mp h
      exact ⟨rest, ha, ih.mp hrest, (Option.some.inj h).symm⟩
    · rintro ⟨rest, ha, hrest, rfl⟩
      exact ⟨ha, Option.bind_eq_some_iff.mpr ⟨rest, ih.mpr hrest, rfl⟩⟩

theorem forM_eq_ok {f : α → Except ε Unit} {values : List α} :
    values.forM f = .ok () ↔ ∀ a ∈ values, f a = .ok () := by
  induction values with
  | nil => exact iff_of_true rfl fun a member => absurd member List.not_mem_nil
  | cons a values ih =>
    change (f a >>= fun _ => values.forM f) = .ok () ↔ _
    rw [bind_eq_ok, List.forall_mem_cons, ← ih]
    constructor
    · rintro ⟨_, first, rest⟩
      exact ⟨first, rest⟩
    · rintro ⟨first, rest⟩
      exact ⟨(), first, rest⟩

theorem first_of_forM_error {f : α → Except ε Unit} {values : List α} {e : ε} (failed : values.forM f = .error e) :
    ∃ front a back, values = front ++ a :: back ∧ (∀ b ∈ front, f b = .ok ()) ∧ f a = .error e := by
  induction values with
  | nil => cases failed
  | cons a values ih =>
    change (f a >>= fun _ => values.forM f) = .error e at failed
    rcases bind_eq_error.mp failed with here | ⟨_, passed, later⟩
    · exact ⟨[], a, values, rfl, List.forall_mem_nil _, here⟩
    · obtain ⟨front, b, back, rfl, before, there⟩ := ih later
      exact ⟨a :: front, b, back, rfl, List.forall_mem_cons.mpr ⟨passed, before⟩, there⟩

end TableQuery
