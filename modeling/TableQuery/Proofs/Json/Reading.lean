/- What reading JSON gives, whatever the text.

   The members of an object have distinct names, since a later member takes the place of an earlier one of the
   same name. A text that opens more containers than may stand inside one another is too deep. -/

import TableQuery.Json.Reader
import TableQuery.Proofs.Json.RoundTrip
import TableQuery.Proofs.Outcomes

set_option autoImplicit false
set_option relaxedAutoImplicit false

namespace TableQuery

namespace Json

private theorem takeNumber_ne_object {t rest : Text} {members : List (Text × Json)} :
    takeNumber t ≠ .ok (.object members, rest) := by
  intro taken
  unfold takeNumber at taken
  -- The sign and the whole part come first, then the places and the exponent.
  split at taken
  split at taken
  split at taken
  · cases taken
  split at taken
  split at taken
  dsimp only at taken
  split at taken
  · split at taken
    · cases taken
    · cases taken
  · cases taken

private theorem takeScalar_ne_object {t rest : Text} {members : List (Text × Json)} :
    takeScalar t ≠ .ok (.object members, rest) := by
  intro taken
  unfold takeScalar at taken
  split at taken
  case h_7 => exact takeNumber_ne_object taken
  all_goals cases taken

private theorem takeMembers_apart {depth fuel : Nat} {found members : List (Text × Json)} {t rest : Text}
    (apart : (found.map Prod.fst).Nodup) (taken : takeMembers depth fuel found t = .ok (members, rest)) :
    (members.map Prod.fst).Nodup := by
  induction fuel generalizing found t with
  | zero => cases taken
  | succ fuel ih =>
    unfold takeMembers at taken
    split at taken
    · obtain ⟨⟨name, afterName⟩, -, taken⟩ := bind_eq_ok.mp taken
      dsimp only at taken
      split at taken
      · obtain ⟨⟨value, afterValue⟩, -, taken⟩ := bind_eq_ok.mp taken
        have inserted : ((insertMember name value found).map Prod.fst).Nodup := by
          rw [insertMember_eq]
          exact nodup_putNamed name value apart
        dsimp only at taken
        split at taken
        · obtain ⟨rfl, -⟩ := Prod.mk.inj (Except.ok.inj taken)
          exact inserted
        · exact ih inserted taken
        · cases taken
      · cases taken
    · cases taken

/-- What a text opens with tells whether it holds an object; the members are those that are read after the brace, if
there are any. -/
private theorem takeValue_cases {depth fuel : Nat} {value : Json} {t rest : Text}
    (taken : takeValue depth fuel t = .ok (value, rest)) :
    ((∀ members, value ≠ .object members) ∧ t.head? ≠ some (.char '\x7b')) ∨
      ∃ members, value = .object members ∧ t.head? = some (.char '\x7b') ∧
        (members = [] ∨ ∃ inner less later, takeMembers inner less [] later = .ok (members, rest)) := by
  cases fuel with
  | zero => cases taken
  | succ fuel =>
    unfold takeValue at taken
    -- A quote, a bracket and a brace open values of their own; anything else opens a scalar.
    split at taken
    · obtain ⟨⟨content, _⟩, -, taken⟩ := bind_eq_ok.mp taken
      obtain ⟨rfl, -⟩ := Prod.mk.inj (Except.ok.inj taken)
      exact .inl ⟨by rintro _ ⟨⟩, by simp⟩
    · obtain ⟨inner, -, taken⟩ := bind_eq_ok.mp taken
      dsimp only at taken
      split at taken
      · obtain ⟨rfl, -⟩ := Prod.mk.inj (Except.ok.inj taken)
        exact .inl ⟨by rintro _ ⟨⟩, by simp⟩
      · obtain ⟨⟨items, _⟩, -, taken⟩ := bind_eq_ok.mp taken
        obtain ⟨rfl, -⟩ := Prod.mk.inj (Except.ok.inj taken)
        exact .inl ⟨by rintro _ ⟨⟩, by simp⟩
    · obtain ⟨inner, -, taken⟩ := bind_eq_ok.mp taken
      dsimp only at taken
      split at taken
      · obtain ⟨rfl, -⟩ := Prod.mk.inj (Except.ok.inj taken)
        exact .inr ⟨[], rfl, rfl, .inl rfl⟩
      · obtain ⟨⟨members, afterMembers⟩, given, taken⟩ := bind_eq_ok.mp taken
        obtain ⟨rfl, rfl⟩ := Prod.mk.inj (Except.ok.inj taken)
        exact .inr ⟨members, rfl, rfl, .inr ⟨inner, fuel, _, given⟩⟩
    · rename_i other
      refine .inl ⟨?_, ?_⟩
      · rintro members rfl
        exact takeScalar_ne_object taken
      · intro brace
        obtain ⟨later, rfl⟩ := List.head?_eq_some_iff.mp brace
        exact other later rfl

section Reading

variable [DepthLimits]

private theorem taken_of_read {t : Text} {value : Json} (given : read t = .ok value) :
    ∃ rest, takeValue DepthLimits.readable (2 * t.length + 2) (skipSpace t) = .ok (value, rest) ∧
      skipSpace rest = [] := by
  obtain ⟨⟨taken, rest⟩, first, given⟩ := bind_eq_ok.mp given
  dsimp only at given
  split at given
  · rename_i nothing
    obtain rfl := Except.ok.inj given
    exact ⟨rest, first, List.isEmpty_iff.mp nothing⟩
  · cases given

theorem names_of_read {t : Text} {members : List (Text × Json)} (given : read t = .ok (.object members)) :
    (members.map Prod.fst).Nodup := by
  obtain ⟨rest, taken, -⟩ := taken_of_read given
  rcases takeValue_cases taken with ⟨noObject, -⟩ | ⟨_, holds, -, rfl | ⟨_, _, _, entered⟩⟩
  · exact absurd rfl (noObject members)
  · obtain rfl := Json.object.inj holds
    exact List.nodup_nil
  · obtain rfl := Json.object.inj holds
    exact takeMembers_apart (by exact List.nodup_nil) entered

theorem isObject_iff_of_read {t : Text} {value : Json} (given : read t = .ok value) :
    (∃ members, value = .object members) ↔ (skipSpace t).head? = some (.char '\x7b') := by
  obtain ⟨rest, taken, -⟩ := taken_of_read given
  rcases takeValue_cases taken with ⟨noObject, other⟩ | ⟨members, holds, brace, -⟩
  · exact iff_of_false (fun ⟨members, holds⟩ => noObject members holds) other
  · exact iff_of_true ⟨members, holds⟩ brace

end Reading

/-- Brackets that open more arrays than may stand inside one another are too deep. -/
private theorem takeValue_of_brackets {depth fuel count : Nat} (deep : depth < count) (enough : 2 * depth < fuel) :
    takeValue depth fuel (List.replicate count (.char '[')) = .error .tooDeep := by
  induction depth generalizing fuel count with
  | zero =>
    obtain ⟨fuel, rfl⟩ := Nat.exists_eq_succ_of_ne_zero (by omega : fuel ≠ 0)
    obtain ⟨count, rfl⟩ := Nat.exists_eq_succ_of_ne_zero (by omega : count ≠ 0)
    rw [List.replicate_succ, takeValue]
    rfl
  | succ depth ih =>
    obtain ⟨fuel, rfl⟩ : ∃ less, fuel = less + 2 := ⟨fuel - 2, by omega⟩
    obtain ⟨count, rfl⟩ : ∃ less, count = less + 2 := ⟨count - 2, by omega⟩
    have inner : takeItems depth (fuel + 1) (List.replicate (count + 1) (.char '[')) = .error .tooDeep := by
      rw [takeItems, ih (by omega) (by omega)]
      rfl
    have next : skipSpace (List.replicate (count + 1) (.char '[')) = List.replicate (count + 1) (.char '[') :=
      skipSpace_cons (by decide) _
    rw [List.replicate_succ, takeValue]
    simp only [opened, bind, Except.bind, next]
    rw [List.replicate_succ] at inner ⊢
    split
    · rename_i heads
      exact absurd (List.cons.inj heads).1 (by decide)
    · rw [inner]

theorem read_of_brackets [DepthLimits] {count : Nat} (deep : DepthLimits.readable < count) :
    read (List.replicate count (.char '[')) = .error .tooDeep := by
  have unspaced : skipSpace (List.replicate count (.char '[')) = List.replicate count (.char '[') := by
    obtain ⟨count, rfl⟩ := Nat.exists_eq_succ_of_ne_zero (by omega : count ≠ 0)
    exact skipSpace_cons (by decide) _
  have taken : takeValue DepthLimits.readable (2 * count + 2) (List.replicate count (.char '[')) = .error .tooDeep :=
    takeValue_of_brackets deep (by omega)
  rw [read, unspaced, List.length_replicate, taken]
  rfl

end Json

end TableQuery
