/- Literals that fit the wire.

   A number fits the wire or signals why it does not. A literal fits when all numbers in it do, all maps in it
   have keys with a plain form, and all sequences of other kinds have a written form. Such a literal can be
   written out, so whatever else is wrong with it, it is refused as one. Values that can be keys are compared
   without a fault. -/

import TableQuery.Attribute.Encoding
import TableQuery.Proofs.Outcomes

set_option autoImplicit false
set_option relaxedAutoImplicit false

namespace TableQuery

/-- A computation gives a result, or a fault of the given sort. -/
def FailsOnly {α : Type} (sort : Fault → Prop) (x : Except Fault α) : Prop :=
  ∀ fault, x = .error fault → sort fault

def Fault.IsRefusal (fault : Fault) : Prop := ∃ why, fault = .refused why

namespace FailsOnly

variable {α β : Type} {sort : Fault → Prop}

theorem ok (a : α) : FailsOnly sort (.ok a) := fun _ h => nomatch h

theorem error {fault : Fault} (h : sort fault) : FailsOnly sort (.error fault : Except Fault α) := by
  rintro _ ⟨⟩
  exact h

theorem refused (why : Refusal) : FailsOnly Fault.IsRefusal (.error (.refused why) : Except Fault α) :=
  error ⟨why, rfl⟩

theorem bind {x : Except Fault α} {f : α → Except Fault β} (first : FailsOnly sort x)
    (next : ∀ a, x = .ok a → FailsOnly sort (f a)) : FailsOnly sort (x >>= f) := by
  intro fault h
  rcases bind_eq_error.mp h with failed | ⟨a, given, failed⟩
  · exact first fault failed
  · exact next a given fault failed

theorem map {x : Except Fault α} (h : FailsOnly sort x) (f : α → β) : FailsOnly sort (x.map f) := by
  cases x with
  | ok a => exact ok (f a)
  | error fault => exact error (h fault rfl)

theorem mapM {f : α → Except Fault β} {values : List α} (each : ∀ a ∈ values, FailsOnly sort (f a)) :
    FailsOnly sort (values.mapM f) := by
  induction values with
  | nil => exact ok []
  | cons a values ih =>
    obtain ⟨first, others⟩ := List.forall_mem_cons.mp each
    rw [List.mapM_cons]
    refine first.bind fun b _ => ?_
    exact (ih others).bind fun rest _ => ok (b :: rest)

theorem forM {f : α → Except Fault Unit} {values : List α} (each : ∀ a ∈ values, FailsOnly sort (f a)) :
    FailsOnly sort (values.forM f) := by
  induction values with
  | nil => exact ok ()
  | cons a values ih =>
    obtain ⟨first, others⟩ := List.forall_mem_cons.mp each
    exact first.bind fun _ _ => ih others

end FailsOnly

/-- Whether a number fits the precision of the wire, so that no signal is raised. -/
def Precision.fits (x : Decimal) : Bool := (fit x).isOk

namespace Value

mutual

/-- Whether a literal fits the wire: every number in it does, every map in it has keys with a plain form, and
every sequence of another kind has a written form. -/
def fits : Value → Bool
  | .int n => Precision.fits (.ofInt n)
  | .float x => Precision.fits x.decimal
  | .decimal x => Precision.fits x
  | .list items => allFit items
  | .tuple items => allFit items
  | .set _ members => allFit members
  | .map entries => entriesFit entries
  | .sequence _ quotation _ => quotation.isSome
  | _ => true
termination_by structural v => v

def allFit : List Value → Bool
  | [] => true
  | item :: rest => item.fits && allFit rest
termination_by structural items => items

def entriesFit : List (Value × Value) → Bool
  | [] => true
  | (key, value) :: rest => key.plain?.isSome && value.fits && entriesFit rest
termination_by structural entries => entries

end

private theorem allFit_iff {items : List Value} : allFit items = true ↔ ∀ item ∈ items, item.fits = true := by
  induction items with
  | nil => simp [allFit]
  | cons item rest ih => simp [allFit, ih]

private theorem numeral?_of_fits {n : Int} (h : Precision.fits (.ofInt n) = true) :
    (numeral? n).isSome = true := by
  have quiet : Precision.finiteSignal? n.natAbs 0 = none := by
    rw [Precision.fits, Decimal.ofInt, Precision.fit] at h
    split at h
    · cases h
    · assumption
  have short : digitCount n.natAbs ≤ Precision.digits := by
    unfold Precision.finiteSignal? at quiet
    dsimp only at quiet
    split at quiet
    · split at quiet <;> cases quiet
    split at quiet
    · split at quiet
      · cases quiet
      · split at quiet <;> cases quiet
    split at quiet
    · split at quiet
      · cases quiet
      · split at quiet <;> cases quiet
    · exact Nat.le_of_not_lt ‹_›
  have allowed : digitCount n.natAbs ≤ Integer.digitLimit := Nat.le_trans short (by decide)
  rw [numeral?, if_pos allowed]
  rfl

theorem quoted_of_plain {v : Value} (h : v.plain?.isSome = true) : v.quoted?.isSome = true := by
  cases v with
  | text | decimal => rfl
  | binary => cases h
  | _ => exact h

mutual

/-- A literal that fits can be written out. -/
private theorem quoted_of_fits : (v : Value) → v.fits = true → v.quoted?.isSome = true
  | .null, _ | .float _, _ | .decimal _, _ | .text _, _ | .binary _, _ | .object _, _ | .wildcard, _ => rfl
  | .bool true, _ | .bool false, _ | .octets true _, _ | .octets false _, _ => rfl
  | .int _, h => numeral?_of_fits h
  | .list items, h => by
    obtain ⟨parts, quoted⟩ := quoted_of_allFit items h
    simp [quoted?, quoted]
  | .tuple items, h => by
    obtain ⟨parts, quoted⟩ := quoted_of_allFit items h
    match items with
    | [] => rfl
    | [item] =>
      cases one : item.quoted? with
      | none => simp [quotedItems?, one] at quoted
      | some part => simp [quoted?, one]
    | first :: second :: rest => simp [quoted?, quoted]
  | .set true [], _ | .set false [], _ => rfl
  | .set true (member :: members), h => by
    obtain ⟨parts, quoted⟩ := quoted_of_allFit (member :: members) h
    simp [quoted?, quoted]
  | .set false (member :: members), h => by
    obtain ⟨parts, quoted⟩ := quoted_of_allFit (member :: members) h
    simp [quoted?, quoted]
  | .map entries, h => by
    obtain ⟨parts, quoted⟩ := quoted_of_entriesFit entries h
    simp [quoted?, quoted]
  | .sequence .., h => h

private theorem quoted_of_allFit : (items : List Value) → allFit items = true → ∃ parts, quotedItems? items = some parts
  | [], _ => ⟨[], rfl⟩
  | item :: rest, h => by
    obtain ⟨first, others⟩ := Bool.and_eq_true_iff.mp h
    obtain ⟨part, one⟩ := Option.isSome_iff_exists.mp (quoted_of_fits item first)
    obtain ⟨parts, more⟩ := quoted_of_allFit rest others
    exact ⟨part :: parts, by rw [quotedItems?, one, more]; rfl⟩

private theorem quoted_of_entriesFit : (entries : List (Value × Value)) → entriesFit entries = true →
    ∃ parts, quotedEntries? entries = some parts
  | [], _ => ⟨[], rfl⟩
  | (key, value) :: rest, h => by
    obtain ⟨first, others⟩ := Bool.and_eq_true_iff.mp h
    obtain ⟨printable, fit⟩ := Bool.and_eq_true_iff.mp first
    obtain ⟨name, named⟩ := Option.isSome_iff_exists.mp (quoted_of_plain printable)
    obtain ⟨part, one⟩ := Option.isSome_iff_exists.mp (quoted_of_fits value fit)
    obtain ⟨parts, more⟩ := quoted_of_entriesFit rest others
    exact ⟨(name ++ ": " ++ part) :: parts, by rw [quotedEntries?, named, one, more]; rfl⟩

end

theorem quote_of_isSome {v : Value} (h : v.quoted?.isSome = true) : ∃ t, v.quote = .ok t := by
  obtain ⟨t, ht⟩ := Option.isSome_iff_exists.mp h
  exact ⟨t, by rw [quote, ht]⟩

theorem plain_of_isSome {v : Value} (h : v.plain?.isSome = true) : ∃ t, v.plain = .ok t := by
  obtain ⟨t, ht⟩ := Option.isSome_iff_exists.mp h
  exact ⟨t, by rw [plain, ht]⟩

end Value

namespace Attribute

private theorem numeral_failsOnly {x : Decimal} (h : Precision.fits x = true) :
    FailsOnly (· = .wrongKind) (numeral x) := by
  unfold Precision.fits at h
  unfold numeral
  cases fitted : Precision.fit x with
  | error condition =>
    rw [fitted] at h
    cases h
  | ok y =>
    dsimp only
    split
    · exact .error rfl
    · exact .ok _

private theorem fits_of_exactNumbers {members : List Value} {xs : List Decimal}
    (numbers : members.mapM exactNumber? = some xs) (fit : ∀ member ∈ members, member.fits = true) :
    ∀ x ∈ xs, Precision.fits x = true := by
  induction members generalizing xs with
  | nil =>
    obtain rfl : [] = xs := Option.some.inj numbers
    exact fun x member => absurd member List.not_mem_nil
  | cons v members ih =>
    obtain ⟨first, others⟩ := List.forall_mem_cons.mp fit
    rw [List.mapM_cons] at numbers
    obtain ⟨x, number, numbers⟩ := Option.bind_eq_some_iff.mp numbers
    obtain ⟨rest, later, same⟩ := Option.bind_eq_some_iff.mp numbers
    obtain rfl : x :: rest = xs := Option.some.inj same
    refine List.forall_mem_cons.mpr ⟨?_, ih later others⟩
    cases v with
    | bool b =>
      obtain rfl := Option.some.inj number
      cases b <;> decide
    | int n =>
      obtain rfl := Option.some.inj number
      exact first
    | decimal y =>
      obtain rfl := Option.some.inj number
      exact first
    | _ => cases number

private theorem ofPlain_failsOnly {v : Value} (h : v.fits = true) : FailsOnly (· = .wrongKind) (ofPlain v) := by
  cases v with
  | int n => exact (numeral_failsOnly h).map _
  | decimal x => exact (numeral_failsOnly h).map _
  | set frozen members =>
    have fit := Value.allFit_iff.mp h
    rw [ofPlain, ofMembers]
    cases numbers : members.mapM exactNumber? with
    | some xs =>
      have each := fits_of_exactNumbers numbers fit
      exact (FailsOnly.mapM fun x member => numeral_failsOnly (each x member)).map _
    | none =>
      split
      · contradiction
      · exact .ok _
      · exact .ok _
      · exact .error rfl
  | null => exact .ok _
  | bool b => exact .ok _
  | text t => exact .ok _
  | octets growable data => exact .ok _
  | binary data => exact .ok _
  | _ => exact .error rfl

private theorem ofPlainLiteral_refuses {v : Value} (h : v.fits = true) :
    FailsOnly Fault.IsRefusal (ofPlainLiteral v) := by
  unfold ofPlainLiteral
  cases made : ofPlain v with
  | ok item => exact .ok item
  | error fault =>
    obtain rfl := ofPlain_failsOnly h fault made
    obtain ⟨quotation, quoted⟩ := Value.quote_of_isSome (Value.quoted_of_fits v h)
    rw [quoted]
    exact .refused (.literalUnsupported quotation)

mutual

theorem ofLiteral_refuses : (v : Value) → v.fits = true → FailsOnly Fault.IsRefusal (ofLiteral v)
  | .float x, h => ofPlainLiteral_refuses (v := .decimal x.decimal) h
  | .list items, h => (ofLiterals_refuses items h).map _
  | .tuple items, h => (ofLiterals_refuses items h).map _
  | .map entries, h => (ofEntries_refuses entries [] h).map _
  | .null, h => ofPlainLiteral_refuses h
  | .bool _, h => ofPlainLiteral_refuses h
  | .int _, h => ofPlainLiteral_refuses h
  | .decimal _, h => ofPlainLiteral_refuses h
  | .text _, h => ofPlainLiteral_refuses h
  | .octets .., h => ofPlainLiteral_refuses h
  | .binary _, h => ofPlainLiteral_refuses h
  | .set .., h => ofPlainLiteral_refuses h
  | .sequence .., h => ofPlainLiteral_refuses h
  | .object _, h => ofPlainLiteral_refuses h
  | .wildcard, h => ofPlainLiteral_refuses h

private theorem ofLiterals_refuses : (items : List Value) → Value.allFit items = true →
    FailsOnly Fault.IsRefusal (ofLiterals items)
  | [], _ => .ok []
  | item :: rest, h => by
    obtain ⟨first, others⟩ := Bool.and_eq_true_iff.mp h
    rw [ofLiterals_cons]
    refine (ofLiteral_refuses item first).bind fun made _ => ?_
    exact (ofLiterals_refuses rest others).bind fun more _ => .ok (made :: more)

private theorem ofEntries_refuses : (entries : List (Value × Value)) → (found : List (Text × Attribute)) →
    Value.entriesFit entries = true → FailsOnly Fault.IsRefusal (ofEntries found entries)
  | [], found, _ => .ok found
  | (key, value) :: rest, found, h => by
    obtain ⟨first, others⟩ := Bool.and_eq_true_iff.mp h
    obtain ⟨printable, fit⟩ := Bool.and_eq_true_iff.mp first
    obtain ⟨name, hname⟩ := Value.plain_of_isSome printable
    rw [ofEntries_cons, hname]
    refine (ofLiteral_refuses value fit).bind fun item _ => ?_
    exact ofEntries_refuses rest _ others

end

end Attribute

def Decimal.isSignaling : Decimal → Bool
  | .nan _ signaling _ => signaling
  | _ => false

private theorem Decimal.same_eq_ok {x y : Decimal} (left : x.isSignaling = false)
    (right : y.isSignaling = false) : ∃ b, x.same y = .ok b := by
  rcases x with _ | _ | ⟨_, _ | _, _⟩ <;> rcases y with _ | _ | ⟨_, _ | _, _⟩ <;>
    first
    | exact ⟨_, rfl⟩
    | exact Bool.noConfusion (show true = false from left)
    | exact Bool.noConfusion (show true = false from right)

namespace Value

private theorem isSignaling_float (x : Binary64) : x.exact.isSignaling = false := by
  unfold Binary64.exact
  split
  · split
    · rfl
    · split <;> rfl
  · rfl
  · rfl

private theorem isSignaling_of_isKey {x : Decimal} (key : (Value.decimal x).isKey = true) :
    x.isSignaling = false := by
  cases x with
  | nan negative signaling payload => exact (Bool.not_eq_true' signaling).mp key
  | _ => rfl

private theorem sameNumber_eq_ok {x : Decimal} (quiet : x.isSignaling = false) {v : Value}
    (key : v.isKey = true) : ∃ b, sameNumber x v = .ok b := by
  cases v with
  | bool b => exact Decimal.same_eq_ok quiet rfl
  | int n => exact Decimal.same_eq_ok quiet rfl
  | float y => exact Decimal.same_eq_ok quiet (isSignaling_float y)
  | decimal y => exact Decimal.same_eq_ok quiet (isSignaling_of_isKey key)
  | _ => exact ⟨false, rfl⟩

private theorem sameMembers_eq_ok (members others : List Value) :
    ∃ b, sameMembers members others = .ok b := by
  induction members with
  | nil => exact ⟨true, rfl⟩
  | cons v members ih =>
    rw [sameMembers]
    split
    · exact ih
    · exact ⟨false, rfl⟩

mutual

/-- Values that can be keys are compared without a fault. -/
theorem same_eq_ok : (v other : Value) → v.isKey = true → other.isKey = true → ∃ b, v.same other = .ok b
  | .tuple items, other, hv, hother => by
    cases other with
    | tuple others => exact sameItems_eq_ok items others hv hother
    | _ => exact ⟨false, rfl⟩
  | .set _ members, other, _, _ => by
    cases other with
    | set _ others =>
      rw [same]
      split
      · exact sameMembers_eq_ok members others
      · exact ⟨false, rfl⟩
    | _ => exact ⟨false, rfl⟩
  | .bool _, _, _, hother => sameNumber_eq_ok rfl hother
  | .int _, _, _, hother => sameNumber_eq_ok rfl hother
  | .float x, _, _, hother => sameNumber_eq_ok (isSignaling_float x) hother
  | .decimal _, _, hv, hother => sameNumber_eq_ok (isSignaling_of_isKey hv) hother
  | .null, other, _, _ => by cases other <;> exact ⟨_, rfl⟩
  | .text _, other, _, _ => by cases other <;> exact ⟨_, rfl⟩
  | .octets .., _, _, _ => ⟨_, rfl⟩
  | .binary _, _, _, _ => ⟨_, rfl⟩
  | .sequence kind _ items, other, hv, hother => by
    cases other with
    | sequence kind' _ others =>
      rw [same]
      split
      · exact sameItems_eq_ok items others hv hother
      · exact ⟨false, rfl⟩
    | _ => exact ⟨false, rfl⟩
  | .object _, _, _, _ => ⟨false, rfl⟩
  | .wildcard, other, _, _ => by cases other <;> exact ⟨_, rfl⟩
  | .list _, _, hv, _ => nomatch hv
  | .map _, _, hv, _ => nomatch hv

private theorem sameItems_eq_ok : (items others : List Value) → areKeys items = true → areKeys others = true →
    ∃ b, sameItems items others = .ok b
  | [], [], _, _ => ⟨true, rfl⟩
  | [], _ :: _, _, _ => ⟨false, rfl⟩
  | _ :: _, [], _, _ => ⟨false, rfl⟩
  | v :: items, other :: others, hitems, hothers => by
    obtain ⟨first, rest⟩ := Bool.and_eq_true_iff.mp hitems
    obtain ⟨first', rest'⟩ := Bool.and_eq_true_iff.mp hothers
    obtain ⟨b, compared⟩ := same_eq_ok v other first first'
    rw [sameItems, compared]
    cases b with
    | true => exact sameItems_eq_ok items others rest rest'
    | false => exact ⟨false, rfl⟩

end

end Value

end TableQuery
