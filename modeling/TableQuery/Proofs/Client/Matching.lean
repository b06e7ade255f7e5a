/- Matching a value against a shape.

   A value satisfies a map when it has each key of the map with a value that satisfies what stands there, and a list
   when it has as many items and each satisfies its own. Matching decides this, and where a value does not satisfy
   a shape it reports the first place, in the order of the shape, at which it fails. Keys that are added to a
   value, at any depth, never make it fail. -/

import Mathlib.Logic.Relation
import TableQuery.Client.Matching
import TableQuery.Proofs.Outcomes

set_option autoImplicit false
set_option relaxedAutoImplicit false

namespace TableQuery

/-- The value under a key of a record. -/
def Record.under? (record : Record) (key : Value) : Option Value :=
  (record.find? fun entry => key.sameKey entry.1).map (·.2)

namespace Record

private theorem under?_append (front back : Record) (key : Value) :
    Record.under? (front ++ back) key = (Record.under? front key).or (Record.under? back key) := by
  simp only [under?, List.find?_append]
  cases front.find? fun entry => key.sameKey entry.1 <;> rfl

private theorem under?_cons (held part : Value) (rest : Record) (key : Value) :
    Record.under? ((held, part) :: rest) key = if key.sameKey held then some part else Record.under? rest key := by
  simp only [under?, List.find?_cons]
  cases key.sameKey held <;> rfl

end Record

/-- A step from a value to one of its parts: the value under a key, or the item at an index. -/
inductive PathStep where
  | key (name : Text)
  | item (index : Nat)

def PathStep.text : PathStep → Text
  | .key name => "." ++ name
  | .item index => "[" ++ Text.ofNat index ++ "]"

def PathStep.written (path : List PathStep) : Text := path.flatMap PathStep.text

namespace Value

/-- Whether a shape has no parts and is not the wildcard, so that only its equals satisfy it. -/
def isLeaf : Value → Bool
  | .wildcard | .map _ | .list _ => false
  | _ => true

/-- A shape is satisfied by a value: the wildcard by any, a map by a map with all its keys and with values that
satisfy its own, a list by a list of its length item by item, and everything else by its equals. -/
inductive SatisfiedBy : Value → Value → Prop
  | wildcard (actual : Value) : SatisfiedBy .wildcard actual
  | map {expected entries : Record}
      (there : ∀ entry ∈ expected, (entries.under? entry.1).isSome = true)
      (each : ∀ entry ∈ expected, ∀ part, entries.under? entry.1 = some part → SatisfiedBy entry.2 part) :
      SatisfiedBy (.map expected) (.map entries)
  | list {expected items : List Value} (lengths : expected.length = items.length)
      (each : ∀ (index : Nat) (shape part : Value), expected[index]? = some shape → items[index]? = some part →
        SatisfiedBy shape part) : SatisfiedBy (.list expected) (.list items)
  | leaf {shape actual : Value} (leaf : shape.isLeaf = true) (equal : shape.same actual = .ok true) :
      SatisfiedBy shape actual

/-- An entry of a shape is satisfied when its key is there with a value that satisfies what it stands for. -/
def EntrySatisfied (entries : Record) (entry : Value × Value) : Prop :=
  ∃ part, entries.under? entry.1 = some part ∧ entry.2.SatisfiedBy part

/-- A value fails a shape first at the end of a path: a map or a list at the node itself when the kinds, a key or
the lengths do not fit, and otherwise within the first entry or item that is not satisfied. -/
inductive FailsAt : Value → Value → List PathStep → Mismatch → Prop
  | notMap {expected : Record} {actual : Value} (other : ∀ entries, actual ≠ .map entries) :
      FailsAt (.map expected) actual [] (.kind "dict" actual.kindName)
  | missing {expected entries : Record} {place : Nat} {entry : Value × Value} {quotation : Text}
      (here : expected[place]? = some entry)
      (earlier : ∀ before < place, ∀ other, expected[before]? = some other → EntrySatisfied entries other)
      (absent : entries.under? entry.1 = none) (quoted : entry.1.quote = .ok quotation) :
      FailsAt (.map expected) (.map entries) [] (.missingKey quotation)
  | entry {expected entries : Record} {place : Nat} {entry : Value × Value} {part : Value} {name : Text}
      {path : List PathStep} {mismatch : Mismatch} (here : expected[place]? = some entry)
      (earlier : ∀ before < place, ∀ other, expected[before]? = some other → EntrySatisfied entries other)
      (there : entries.under? entry.1 = some part) (named : entry.1.plain = .ok name)
      (fails : FailsAt entry.2 part path mismatch) :
      FailsAt (.map expected) (.map entries) (.key name :: path) mismatch
  | notList {expected : List Value} {actual : Value} (other : ∀ items, actual ≠ .list items) :
      FailsAt (.list expected) actual [] (.kind "list" actual.kindName)
  | length {expected items : List Value} (different : expected.length ≠ items.length) :
      FailsAt (.list expected) (.list items) [] (.length expected.length items.length)
  | item {expected items : List Value} {index : Nat} {shape part : Value} {path : List PathStep}
      {mismatch : Mismatch} (lengths : expected.length = items.length)
      (here : expected[index]? = some shape) (there : items[index]? = some part)
      (earlier : ∀ before < index, ∀ other given, expected[before]? = some other →
        items[before]? = some given → other.SatisfiedBy given)
      (fails : FailsAt shape part path mismatch) :
      FailsAt (.list expected) (.list items) (.item index :: path) mismatch
  | leaf {shape actual : Value} {wanted given : Text} (leaf : shape.isLeaf = true)
      (unequal : shape.same actual = .ok false) (quoted : shape.quote = .ok wanted)
      (quoted' : actual.quote = .ok given) : FailsAt shape actual [] (.unequal wanted given)

/-- A shape and a value can be checked: no comparison of a leaf with what stands at its place is a fault, and what
a difference would show can be written. This is a leaf and what differs from it, a key that is missing, and the plain
form of a key that is found, with which the path goes on. -/
inductive Checkable : Value → Value → Prop
  | wildcard (actual : Value) : Checkable .wildcard actual
  | map {expected entries : Record}
      (named : ∀ entry ∈ expected, (entries.under? entry.1).isSome = true → ∃ name, entry.1.plain = .ok name)
      (quoted : ∀ entry ∈ expected, entries.under? entry.1 = none → ∃ quotation, entry.1.quote = .ok quotation)
      (parts : ∀ entry ∈ expected, ∀ part, entries.under? entry.1 = some part → Checkable entry.2 part) :
      Checkable (.map expected) (.map entries)
  | notMap {expected : Record} {actual : Value} (other : ∀ entries, actual ≠ .map entries) :
      Checkable (.map expected) actual
  | list {expected items : List Value}
      (parts : expected.length = items.length → ∀ (index : ℕ) (shape part : Value),
        expected[index]? = some shape → items[index]? = some part → Checkable shape part) :
      Checkable (.list expected) (.list items)
  | notList {expected : List Value} {actual : Value} (other : ∀ items, actual ≠ .list items) :
      Checkable (.list expected) actual
  | equal {shape actual : Value} (leaf : shape.isLeaf = true) (same : shape.same actual = .ok true) :
      Checkable shape actual
  | unequal {shape actual : Value} {wanted given : Text} (leaf : shape.isLeaf = true)
      (unlike : shape.same actual = .ok false) (quoted : shape.quote = .ok wanted)
      (quoted' : actual.quote = .ok given) : Checkable shape actual

/-- A value with one more key, in itself or in a part that the shape leads to. A new key comes last. Under a wildcard
keys may be added at any depth; there any other value will do. -/
inductive KeyAdded : Value → Value → Value → Prop
  | wildcard (actual grown : Value) : KeyAdded .wildcard actual grown
  | here {expected entries : Record} {key : Value} (value : Value) (fresh : entries.under? key = none) :
      KeyAdded (.map expected) (.map entries) (.map (entries ++ [(key, value)]))
  | entry {expected front back : Record} {key part grown : Value}
      (reached : ∃ entry ∈ expected, entry.1.sameKey key = true)
      (grows : ∀ entry ∈ expected, entry.1.sameKey key = true → KeyAdded entry.2 part grown) :
      KeyAdded (.map expected) (.map (front ++ (key, part) :: back)) (.map (front ++ (key, grown) :: back))
  | item {expected front back : List Value} {shape part grown : Value}
      (here : expected[front.length]? = some shape) (grows : KeyAdded shape part grown) :
      KeyAdded (.list expected) (.list (front ++ part :: back)) (.list (front ++ grown :: back))

private theorem satisfiedBy_map_iff {expected entries : Record} :
    SatisfiedBy (.map expected) (.map entries) ↔ ∀ entry ∈ expected, EntrySatisfied entries entry := by
  constructor
  · intro satisfied entry asked
    cases satisfied with
    | map there each =>
      obtain ⟨part, found⟩ := Option.isSome_iff_exists.mp (there entry asked)
      exact ⟨part, found, each entry asked part found⟩
    | leaf leaf => cases leaf
  · intro each
    refine .map ?_ ?_
    · intro entry asked
      obtain ⟨part, found, -⟩ := each entry asked
      rw [found]
      rfl
    · intro entry asked part found
      obtain ⟨other, found', satisfied⟩ := each entry asked
      rw [found] at found'
      obtain rfl := Option.some.inj found'
      exact satisfied

private theorem satisfiedBy_list_iff {expected items : List Value} :
    SatisfiedBy (.list expected) (.list items) ↔ expected.length = items.length ∧
      ∀ (index : Nat) (shape part : Value), expected[index]? = some shape → items[index]? = some part →
        SatisfiedBy shape part := by
  constructor
  · intro satisfied
    cases satisfied with
    | list lengths each => exact ⟨lengths, each⟩
    | leaf leaf => cases leaf
  · rintro ⟨lengths, each⟩
    exact .list lengths each

private theorem satisfiedBy_leaf_iff {shape actual : Value} (leaf : shape.isLeaf = true) :
    SatisfiedBy shape actual ↔ shape.same actual = .ok true := by
  constructor
  · intro satisfied
    cases satisfied with
    | leaf _ equal => exact equal
    | wildcard | map | list => cases leaf
  · exact .leaf leaf

private theorem SatisfiedBy.eq_map {expected : Record} {actual : Value}
    (satisfied : SatisfiedBy (.map expected) actual) :
    ∃ entries, actual = .map entries := by
  cases satisfied with
  | map => exact ⟨_, rfl⟩
  | leaf leaf => cases leaf

private theorem SatisfiedBy.eq_list {expected : List Value} {actual : Value}
    (satisfied : SatisfiedBy (.list expected) actual) : ∃ items, actual = .list items := by
  cases satisfied with
  | list => exact ⟨_, rfl⟩
  | leaf leaf => cases leaf

private theorem not_entrySatisfied_of_absent {entries : Record} {entry : Value × Value}
    (absent : entries.under? entry.1 = none) : ¬ EntrySatisfied entries entry := by
  rintro ⟨part, found, -⟩
  rw [absent] at found
  cases found

private theorem not_entrySatisfied_of_not {entries : Record} {entry : Value × Value} {part : Value}
    (there : entries.under? entry.1 = some part) (unsatisfied : ¬ entry.2.SatisfiedBy part) :
    ¬ EntrySatisfied entries entry := by
  rintro ⟨other, found, satisfied⟩
  rw [there] at found
  obtain rfl := Option.some.inj found
  exact unsatisfied satisfied

section FailsAt

variable {shape actual : Value} {path other : List PathStep} {mismatch different : Mismatch}

private theorem FailsAt.not_satisfiedBy (fails : FailsAt shape actual path mismatch) : ¬ shape.SatisfiedBy actual := by
  induction fails with
  | notMap other =>
    intro satisfied
    obtain ⟨entries, rfl⟩ := satisfied.eq_map
    exact other entries rfl
  | missing here _ absent _ =>
    intro satisfied
    have entries_satisfied := satisfiedBy_map_iff.mp satisfied
    exact not_entrySatisfied_of_absent absent (entries_satisfied _ (List.mem_of_getElem? here))
  | entry here _ there _ _ ih =>
    intro satisfied
    have entries_satisfied := satisfiedBy_map_iff.mp satisfied
    exact not_entrySatisfied_of_not there ih (entries_satisfied _ (List.mem_of_getElem? here))
  | notList other =>
    intro satisfied
    obtain ⟨items, rfl⟩ := satisfied.eq_list
    exact other items rfl
  | length different =>
    intro satisfied
    exact different (satisfiedBy_list_iff.mp satisfied).1
  | item _ here there _ _ ih =>
    intro satisfied
    exact ih ((satisfiedBy_list_iff.mp satisfied).2 _ _ _ here there)
  | leaf leaf unequal _ _ =>
    intro satisfied
    rw [satisfiedBy_leaf_iff leaf, unequal] at satisfied
    cases satisfied

private theorem first_place_unique (failing : ℕ → Prop) {place place' : ℕ} (here : failing place)
    (earlier : ∀ before < place, ¬ failing before) (here' : failing place')
    (earlier' : ∀ before < place', ¬ failing before) : place = place' := by
  rcases Nat.lt_trichotomy place place' with less | equal | greater
  · exact absurd here (earlier' place less)
  · exact equal
  · exact absurd here' (earlier place' greater)

private theorem entry_unique {expected entries : Record} {place place' : ℕ} {entry entry' : Value × Value}
    (here : expected[place]? = some entry) (fails : ¬ EntrySatisfied entries entry)
    (earlier : ∀ before < place, ∀ other, expected[before]? = some other → EntrySatisfied entries other)
    (here' : expected[place']? = some entry') (fails' : ¬ EntrySatisfied entries entry')
    (earlier' : ∀ before < place', ∀ other, expected[before]? = some other → EntrySatisfied entries other) :
    entry = entry' := by
  have same : place = place' := by
    refine first_place_unique (fun i => ∃ other, expected[i]? = some other ∧ ¬ EntrySatisfied entries other)
      ⟨entry, here, fails⟩ ?_ ⟨entry', here', fails'⟩ ?_
    · rintro before less ⟨other, found, unsatisfied⟩
      exact unsatisfied (earlier before less other found)
    · rintro before less ⟨other, found, unsatisfied⟩
      exact unsatisfied (earlier' before less other found)
  subst same
  exact Option.some.inj (here.symm.trans here')

private theorem item_unique {expected items : List Value} {index index' : ℕ} {shape part shape' part' : Value}
    (here : expected[index]? = some shape) (there : items[index]? = some part) (fails : ¬ shape.SatisfiedBy part)
    (earlier : ∀ before < index, ∀ other given, expected[before]? = some other → items[before]? = some given →
      other.SatisfiedBy given)
    (here' : expected[index']? = some shape') (there' : items[index']? = some part')
    (fails' : ¬ shape'.SatisfiedBy part')
    (earlier' : ∀ before < index', ∀ other given, expected[before]? = some other → items[before]? = some given →
      other.SatisfiedBy given) : index = index' ∧ shape = shape' ∧ part = part' := by
  have same : index = index' := by
    refine first_place_unique
      (fun i => ∃ inner given, expected[i]? = some inner ∧ items[i]? = some given ∧ ¬ inner.SatisfiedBy given)
      ⟨shape, part, here, there, fails⟩ ?_ ⟨shape', part', here', there', fails'⟩ ?_
    · rintro before less ⟨inner, given, found, found', unsatisfied⟩
      exact unsatisfied (earlier before less inner given found found')
    · rintro before less ⟨inner, given, found, found', unsatisfied⟩
      exact unsatisfied (earlier' before less inner given found found')
  subst same
  exact ⟨rfl, Option.some.inj (here.symm.trans here'), Option.some.inj (there.symm.trans there')⟩

/-- A value fails a shape first at one place and in one way. -/
private theorem FailsAt.unique (fails : FailsAt shape actual path mismatch)
    (fails' : FailsAt shape actual other different) :
    path = other ∧ mismatch = different := by
  induction fails generalizing other different with
  | notMap kind =>
    cases fails' with
    | notMap => exact ⟨rfl, rfl⟩
    | missing | entry => exact absurd rfl (kind _)
    | leaf leaf => cases leaf
  | missing here earlier absent quoted =>
    have unsatisfied := not_entrySatisfied_of_absent absent
    cases fails' with
    | notMap kind => exact absurd rfl (kind _)
    | missing here' earlier' absent' quoted' =>
      have unsatisfied' := not_entrySatisfied_of_absent absent'
      obtain rfl := entry_unique here unsatisfied earlier here' unsatisfied' earlier'
      obtain rfl := Except.ok.inj (quoted.symm.trans quoted')
      exact ⟨rfl, rfl⟩
    | entry here' earlier' there' _ fails' =>
      have unsatisfied' := not_entrySatisfied_of_not there' fails'.not_satisfiedBy
      obtain rfl := entry_unique here unsatisfied earlier here' unsatisfied' earlier'
      rw [absent] at there'
      cases there'
    | leaf leaf => cases leaf
  | entry here earlier there named fails ih =>
    have unsatisfied := not_entrySatisfied_of_not there fails.not_satisfiedBy
    cases fails' with
    | notMap kind => exact absurd rfl (kind _)
    | missing here' earlier' absent' _ =>
      have unsatisfied' := not_entrySatisfied_of_absent absent'
      obtain rfl := entry_unique here unsatisfied earlier here' unsatisfied' earlier'
      rw [there] at absent'
      cases absent'
    | entry here' earlier' there' named' fails' =>
      have unsatisfied' := not_entrySatisfied_of_not there' fails'.not_satisfiedBy
      obtain rfl := entry_unique here unsatisfied earlier here' unsatisfied' earlier'
      obtain rfl := Option.some.inj (there.symm.trans there')
      obtain rfl := Except.ok.inj (named.symm.trans named')
      obtain ⟨rfl, rfl⟩ := ih fails'
      exact ⟨rfl, rfl⟩
    | leaf leaf => cases leaf
  | notList kind =>
    cases fails' with
    | notList => exact ⟨rfl, rfl⟩
    | length | item => exact absurd rfl (kind _)
    | leaf leaf => cases leaf
  | length unlike =>
    cases fails' with
    | notList kind => exact absurd rfl (kind _)
    | length => exact ⟨rfl, rfl⟩
    | item lengths => exact absurd lengths unlike
    | leaf leaf => cases leaf
  | item lengths here there earlier fails ih =>
    cases fails' with
    | notList kind => exact absurd rfl (kind _)
    | length unlike => exact absurd lengths unlike
    | item _ here' there' earlier' fails' =>
      have unsatisfied := fails.not_satisfiedBy
      have unsatisfied' := fails'.not_satisfiedBy
      obtain ⟨rfl, rfl, rfl⟩ := item_unique here there unsatisfied earlier here' there' unsatisfied' earlier'
      obtain ⟨rfl, rfl⟩ := ih fails'
      exact ⟨rfl, rfl⟩
    | leaf leaf => cases leaf
  | leaf leaf unequal quoted quoted' =>
    cases fails' with
    | notMap | missing | entry | notList | length | item => cases leaf
    | leaf _ _ wanted given =>
      obtain rfl := Except.ok.inj (quoted.symm.trans wanted)
      obtain rfl := Except.ok.inj (quoted'.symm.trans given)
      exact ⟨rfl, rfl⟩

end FailsAt

private theorem Checkable.of_satisfiedBy {shape actual : Value} (checkable : Checkable shape actual)
    (satisfied : shape.SatisfiedBy actual) {other : Value} (satisfied' : shape.SatisfiedBy other) :
    Checkable shape other := by
  induction checkable generalizing other with
  | wildcard => exact .wildcard other
  | map named _ _ ih =>
    obtain ⟨entries', rfl⟩ := satisfied'.eq_map
    rw [satisfiedBy_map_iff] at satisfied satisfied'
    refine .map ?_ ?_ ?_
    · intro entry asked _
      obtain ⟨part, there, -⟩ := satisfied entry asked
      exact named entry asked (by rw [there]; rfl)
    · intro entry asked absent
      exact absurd (satisfied' entry asked) (not_entrySatisfied_of_absent absent)
    · intro entry asked part' there'
      obtain ⟨part, there, fits⟩ := satisfied entry asked
      obtain ⟨found, there'', fits'⟩ := satisfied' entry asked
      obtain rfl := Option.some.inj (there'.symm.trans there'')
      exact ih entry asked part there fits fits'
  | notMap kind =>
    obtain ⟨entries, rfl⟩ := satisfied.eq_map
    exact absurd rfl (kind entries)
  | @list expected items _ ih =>
    obtain ⟨items', rfl⟩ := satisfied'.eq_list
    obtain ⟨lengths, each⟩ := satisfiedBy_list_iff.mp satisfied
    obtain ⟨-, each'⟩ := satisfiedBy_list_iff.mp satisfied'
    refine .list ?_
    intro _ index shape part' here there'
    have within : index < items.length := lengths ▸ (List.getElem?_eq_some_iff.mp here).1
    have there : items[index]? = some items[index] := List.getElem?_eq_getElem within
    exact ih lengths index shape _ here there (each index shape _ here there) (each' index shape part' here there')
  | notList kind =>
    obtain ⟨items, rfl⟩ := satisfied.eq_list
    exact absurd rfl (kind items)
  | equal leaf | unequal leaf => exact .equal leaf ((satisfiedBy_leaf_iff leaf).mp satisfied')

/-- A key that is added to a value that satisfies a shape leaves it satisfied. -/
private theorem KeyAdded.satisfiedBy {shape actual grown : Value} (added : KeyAdded shape actual grown)
    (satisfied : shape.SatisfiedBy actual) : shape.SatisfiedBy grown := by
  induction added with
  | wildcard actual grown => exact .wildcard grown
  | here value fresh =>
    rw [satisfiedBy_map_iff] at satisfied ⊢
    intro entry asked
    obtain ⟨part, there, fits⟩ := satisfied entry asked
    refine ⟨part, ?_, fits⟩
    rw [Record.under?_append, there, Option.some_or]
  | @entry expected front back key part grown _ _ ih =>
    rw [satisfiedBy_map_iff] at satisfied ⊢
    intro entry asked
    obtain ⟨found, there, fits⟩ := satisfied entry asked
    rw [Record.under?_append, Record.under?_cons] at there
    cases front_found : Record.under? front entry.1 with
    | some earlier =>
      -- The key is found before the part that grows.
      refine ⟨found, ?_, fits⟩
      rw [Record.under?_append, front_found]
      rw [front_found] at there
      exact there
    | none =>
      rw [front_found, Option.none_or] at there
      by_cases leads : entry.1.sameKey key = true
      · rw [if_pos leads] at there
        obtain rfl := Option.some.inj there
        refine ⟨grown, ?_, ih entry asked leads fits⟩
        rw [Record.under?_append, front_found, Record.under?_cons, if_pos leads, Option.none_or]
      · rw [if_neg leads] at there
        refine ⟨found, ?_, fits⟩
        rw [Record.under?_append, front_found, Record.under?_cons, if_neg leads, Option.none_or, there]
  | @item expected front back shape part grown here _ ih =>
    rw [satisfiedBy_list_iff] at satisfied ⊢
    obtain ⟨lengths, each⟩ := satisfied
    refine ⟨by simpa using lengths, ?_⟩
    intro index inner given asked there
    by_cases place : index = front.length
    · subst place
      obtain rfl := Option.some.inj (here.symm.trans asked)
      obtain rfl : grown = given := by simpa using there
      exact ih (each front.length shape part here (by simp))
    · refine each index inner given asked ?_
      rw [← there]
      rcases Nat.lt_or_gt_of_ne place with before | after
      · rw [List.getElem?_append_left before, List.getElem?_append_left before]
      · obtain ⟨distance, rfl⟩ := Nat.exists_eq_add_of_lt after
        simp [List.getElem?_append_right, Nat.add_assoc]

/-- What matching has found out: that the value satisfies the shape, or the first place at which it fails, with its
path behind a start. -/
inductive Reports (start : Text) (shape actual : Value) : Option Difference → Prop
  | satisfied (satisfied : shape.SatisfiedBy actual) : Reports start shape actual none
  | fails {path : List PathStep} {mismatch : Mismatch} (fails : FailsAt shape actual path mismatch) :
      Reports start shape actual (some ⟨start ++ PathStep.written path, mismatch⟩)

private theorem Reports.here (start : Text) {shape actual : Value} {mismatch : Mismatch}
    (fails : FailsAt shape actual [] mismatch) : Reports start shape actual (some ⟨start, mismatch⟩) := by
  simpa [PathStep.written] using Reports.fails fails

private theorem Reports.step {start : Text} {shape actual inner part : Value} {difference : Difference}
    {step : PathStep}
    (inside : Reports (start ++ step.text) inner part (some difference))
    (leads : ∀ path mismatch, FailsAt inner part path mismatch → FailsAt shape actual (step :: path) mismatch) :
    Reports start shape actual (some difference) := by
  cases inside with
  | fails fails =>
    have whole : Reports start shape actual _ := .fails (leads _ _ fails)
    rwa [PathStep.written, List.flatMap_cons, ← List.append_assoc] at whole

end Value

namespace Difference

open Value

private theorem keyPath_eq (start name : Text) : keyPath start name = start ++ (PathStep.key name).text :=
  List.append_assoc start "." name

private theorem itemPath_eq (start : Text) (index : ℕ) :
    itemPath start index = start ++ (PathStep.item index).text := by
  simp [itemPath, PathStep.text]

private theorem reports_ofLeaves {start : Text} {shape actual : Value} {result : Option Difference}
    (leaf : shape.isLeaf = true) (found : ofLeaves start shape actual = .ok result) :
    Reports start shape actual result := by
  rw [ofLeaves] at found
  cases compared : shape.same actual with
  | ok equal =>
    rw [compared] at found
    cases equal with
    | true =>
      obtain rfl := Except.ok.inj found
      exact .satisfied (.leaf leaf compared)
    | false =>
      obtain ⟨wanted, quoted, found⟩ := bind_eq_ok.mp found
      obtain ⟨given, quoted', found⟩ := bind_eq_ok.mp found
      obtain rfl := pure_eq_ok.mp found
      exact .here start (.leaf leaf compared quoted quoted')
  | error condition =>
    rw [compared] at found
    cases found

private theorem findEntries?_cons (start : Text) (entries : Record) (entry : Value × Value)
    (rest : List (Value × Value)) :
    findEntries? start entries (entry :: rest) =
      (match entries.under? entry.1 with
      | none => entry.1.quote >>= fun quotation => .ok (some ⟨start, .missingKey quotation⟩)
      | some part => entry.1.plain >>= fun name => find? (keyPath start name) entry.2 part >>= fun inner =>
        match inner with
        | some difference => .ok (some difference)
        | none => findEntries? start entries rest) := by
  rw [findEntries?, Record.under?]
  cases entries.find? fun candidate => entry.1.sameKey candidate.1 <;> rfl

private theorem exists_ofLeaves {start : Text} {shape actual : Value} (leaf : shape.isLeaf = true)
    (checkable : Checkable shape actual) : ∃ result, ofLeaves start shape actual = .ok result := by
  cases checkable with
  | equal _ same =>
    rw [ofLeaves, same]
    exact ⟨none, rfl⟩
  | unequal _ unlike quoted quoted' =>
    rw [ofLeaves, unlike]
    simp only [quoted, quoted']
    exact ⟨_, rfl⟩
  | wildcard | map | notMap | list | notList => cases leaf

private theorem at_place {α : Type} {values rest : List α} {a : α} {place : ℕ}
    (left : values.drop place = a :: rest) : values[place]? = some a ∧ values.drop (place + 1) = rest := by
  constructor
  · rw [← List.head?_drop, left]
    rfl
  · rw [← List.tail_drop, left]
    rfl

private theorem before_succ {place : ℕ} {holds : ℕ → Prop} (earlier : ∀ before < place, holds before)
    (here : holds place) : ∀ before < place + 1, holds before := by
  intro before less
  rcases Nat.lt_succ_iff_lt_or_eq.mp less with less | rfl
  · exact earlier before less
  · exact here

mutual

/-- What matching finds, if no comparison and no key stops it, is what there is to find. -/
theorem reports_of_find? : (shape : Value) → {actual : Value} → {start : Text} → {result : Option Difference} →
    find? start shape actual = .ok result → Reports start shape actual result
  | .wildcard, actual, start, result, found => by
    obtain rfl := Except.ok.inj found
    exact .satisfied (.wildcard actual)
  | .map expected, actual, start, result, found => by
    cases actual with
    | map entries =>
      exact reports_of_findEntries? expected 0 rfl (fun _ less => absurd less (Nat.not_lt_zero _)) found
    | _ =>
      obtain rfl := Except.ok.inj found
      exact .here start (.notMap (by intro _ same; cases same))
  | .list expected, actual, start, result, found => by
    cases actual with
    | list items =>
      rw [find?] at found
      split at found
      next lengths =>
        exact reports_of_findItems? expected 0 lengths rfl rfl
          (fun _ less => absurd less (Nat.not_lt_zero _)) found
      next different =>
        obtain rfl := Except.ok.inj found
        exact .here start (.length different)
    | _ =>
      obtain rfl := Except.ok.inj found
      exact .here start (.notList (by intro _ same; cases same))
  | .null, _, _, _, found => reports_ofLeaves rfl found
  | .bool _, _, _, _, found => reports_ofLeaves rfl found
  | .int _, _, _, _, found => reports_ofLeaves rfl found
  | .float _, _, _, _, found => reports_ofLeaves rfl found
  | .decimal _, _, _, _, found => reports_ofLeaves rfl found
  | .text _, _, _, _, found => reports_ofLeaves rfl found
  | .octets _ _, _, _, _, found => reports_ofLeaves rfl found
  | .binary _, _, _, _, found => reports_ofLeaves rfl found
  | .tuple _, _, _, _, found => reports_ofLeaves rfl found
  | .set _ _, _, _, _, found => reports_ofLeaves rfl found
  | .sequence .., _, _, _, found => reports_ofLeaves rfl found
  | .object _, _, _, _, found => reports_ofLeaves rfl found
termination_by structural shape => shape

private theorem reports_of_findEntries? {expected entries : Record} {start : Text} {result : Option Difference} :
    (rest : List (Value × Value)) → (place : ℕ) → expected.drop place = rest →
    (∀ before < place, ∀ other, expected[before]? = some other → EntrySatisfied entries other) →
    findEntries? start entries rest = .ok result → Reports start (.map expected) (.map entries) result
  | [], place, left, earlier, found => by
    obtain rfl := Except.ok.inj found
    refine .satisfied (satisfiedBy_map_iff.mpr ?_)
    intro entry asked
    obtain ⟨before, here⟩ := List.mem_iff_getElem?.mp asked
    refine earlier before ?_ entry here
    have within := List.drop_eq_nil_iff.mp left
    obtain ⟨less, -⟩ := List.getElem?_eq_some_iff.mp here
    omega
  | (key, shape) :: rest, place, left, earlier, found => by
    obtain ⟨here, left⟩ := at_place left
    rw [findEntries?_cons] at found
    cases there : entries.under? key with
    | none =>
      rw [there] at found
      obtain ⟨quotation, quoted, found⟩ := bind_eq_ok.mp found
      obtain rfl := Except.ok.inj found
      exact .here start (.missing here earlier there quoted)
    | some part =>
      simp only [there, bind_eq_ok] at found
      obtain ⟨name, named, inner, hinner, found⟩ := found
      have inside := reports_of_find? shape hinner
      cases inner with
      | some difference =>
        obtain rfl := Except.ok.inj found
        rw [keyPath_eq] at inside
        exact inside.step fun path mismatch fails => .entry here earlier there named fails
      | none =>
        cases inside with
        | satisfied satisfied =>
          refine reports_of_findEntries? rest (place + 1) left (before_succ earlier ?_) found
          intro other also
          obtain rfl := Option.some.inj (here.symm.trans also)
          exact ⟨part, there, satisfied⟩
termination_by structural rest => rest

private theorem reports_of_findItems? {expected items : List Value} {start : Text} {result : Option Difference} :
    (rest : List Value) → (index : ℕ) → {others : List Value} → expected.length = items.length →
    expected.drop index = rest → items.drop index = others →
    (∀ before < index, ∀ shape part, expected[before]? = some shape → items[before]? = some part →
      shape.SatisfiedBy part) →
    findItems? start index rest others = .ok result → Reports start (.list expected) (.list items) result
  | [], index, others, lengths, left, _, earlier, found => by
    obtain rfl := Except.ok.inj found
    refine .satisfied (.list lengths ?_)
    intro before shape part here there
    refine earlier before ?_ shape part here there
    have within := List.drop_eq_nil_iff.mp left
    obtain ⟨less, -⟩ := List.getElem?_eq_some_iff.mp here
    omega
  | shape :: rest, index, [], lengths, left, given, _, _ => by
    have within := List.drop_eq_nil_iff.mp given
    obtain ⟨less, -⟩ := List.getElem?_eq_some_iff.mp (at_place left).1
    omega
  | shape :: rest, index, part :: others, lengths, left, given, earlier, found => by
    obtain ⟨here, left⟩ := at_place left
    obtain ⟨there, given⟩ := at_place given
    rw [findItems?, bind_eq_ok] at found
    obtain ⟨inner, hinner, found⟩ := found
    have inside := reports_of_find? shape hinner
    cases inner with
    | some difference =>
      obtain rfl := Except.ok.inj found
      rw [itemPath_eq] at inside
      exact inside.step fun path mismatch fails => .item lengths here there earlier fails
    | none =>
      cases inside with
      | satisfied satisfied =>
        refine reports_of_findItems? rest (index + 1) lengths left given (before_succ earlier ?_) found
        intro shape' part' also also'
        obtain rfl := Option.some.inj (here.symm.trans also)
        obtain rfl := Option.some.inj (there.symm.trans also')
        exact satisfied
termination_by structural rest => rest

end

mutual

/-- Matching comes to an end with every shape and value that can be checked. -/
private theorem exists_find? : (shape : Value) → {actual : Value} → (start : Text) → Checkable shape actual →
    ∃ result, find? start shape actual = .ok result
  | .wildcard, _, _, _ => ⟨none, rfl⟩
  | .map expected, actual, start, checkable => by
    cases actual with
    | map entries =>
      cases checkable with
      | map named quoted parts => exact exists_findEntries? expected named quoted parts
      | notMap kind => exact absurd rfl (kind entries)
      | equal leaf | unequal leaf => cases leaf
    | _ => exact ⟨_, rfl⟩
  | .list expected, actual, start, checkable => by
    cases actual with
    | list items =>
      rw [find?]
      split
      next lengths =>
        cases checkable with
        | list parts => exact exists_findItems? expected (parts lengths)
        | notList kind => exact absurd rfl (kind items)
        | equal leaf | unequal leaf => cases leaf
      next => exact ⟨_, rfl⟩
    | _ => exact ⟨_, rfl⟩
  | .null, _, _, checkable => exists_ofLeaves rfl checkable
  | .bool _, _, _, checkable => exists_ofLeaves rfl checkable
  | .int _, _, _, checkable => exists_ofLeaves rfl checkable
  | .float _, _, _, checkable => exists_ofLeaves rfl checkable
  | .decimal _, _, _, checkable => exists_ofLeaves rfl checkable
  | .text _, _, _, checkable => exists_ofLeaves rfl checkable
  | .octets _ _, _, _, checkable => exists_ofLeaves rfl checkable
  | .binary _, _, _, checkable => exists_ofLeaves rfl checkable
  | .tuple _, _, _, checkable => exists_ofLeaves rfl checkable
  | .set _ _, _, _, checkable => exists_ofLeaves rfl checkable
  | .sequence .., _, _, checkable => exists_ofLeaves rfl checkable
  | .object _, _, _, checkable => exists_ofLeaves rfl checkable
termination_by structural shape => shape

private theorem exists_findEntries? {entries : Record} {start : Text} : (rest : List (Value × Value)) →
    (∀ entry ∈ rest, (entries.under? entry.1).isSome = true → ∃ name, entry.1.plain = .ok name) →
    (∀ entry ∈ rest, entries.under? entry.1 = none → ∃ quotation, entry.1.quote = .ok quotation) →
    (∀ entry ∈ rest, ∀ part, entries.under? entry.1 = some part → Checkable entry.2 part) →
    ∃ result, findEntries? start entries rest = .ok result
  | [], _, _, _ => ⟨none, rfl⟩
  | (key, shape) :: rest, named, quoted, parts => by
    obtain ⟨first_named, named⟩ := List.forall_mem_cons.mp named
    obtain ⟨first_quoted, quoted⟩ := List.forall_mem_cons.mp quoted
    obtain ⟨first_part, parts⟩ := List.forall_mem_cons.mp parts
    rw [findEntries?_cons]
    cases there : entries.under? key with
    | none =>
      obtain ⟨quotation, hquotation⟩ := first_quoted there
      exact ⟨_, by simp only [hquotation, bind, Except.bind]; rfl⟩
    | some part =>
      obtain ⟨name, hname⟩ := first_named (by rw [there]; rfl)
      obtain ⟨inner, hinner⟩ := exists_find? shape (keyPath start name) (first_part part there)
      simp only [hname, hinner, bind, Except.bind]
      cases inner with
      | some difference => exact ⟨_, rfl⟩
      | none => exact exists_findEntries? rest named quoted parts
termination_by structural rest => rest

private theorem exists_findItems? {start : Text} : (rest : List Value) → {index : ℕ} → {others : List Value} →
    (∀ (place : ℕ) (shape part : Value), rest[place]? = some shape → others[place]? = some part →
      Checkable shape part) → ∃ result, findItems? start index rest others = .ok result
  | [], _, _, _ => ⟨none, by rw [findItems?]; nofun⟩
  | _ :: _, _, [], _ => ⟨none, rfl⟩
  | shape :: rest, index, part :: others, parts => by
    obtain ⟨inner, hinner⟩ := exists_find? shape (itemPath start index) (parts 0 shape part rfl rfl)
    rw [findItems?]
    simp only [hinner, bind, Except.bind]
    cases inner with
    | some difference => exact ⟨_, rfl⟩
    | none =>
      refine exists_findItems? rest ?_
      intro place shape part here there
      exact parts (place + 1) shape part here there
termination_by structural rest => rest

end

/-- **Matching is subset matching.** Of a shape and a value that can be checked, matching finds no difference
exactly when the value satisfies the shape. Otherwise there is one first place at which the value fails, and the
difference that matching finds is described by the start, the path to that place and what fails there. Keys that
are added to the value, or to parts of it that the shape leads to, leave a match a match. -/
theorem matches_subsets {shape actual : Value} (checkable : Checkable shape actual) (start : Text) :
    (find? start shape actual = .ok none ↔ shape.SatisfiedBy actual) ∧
    (¬ shape.SatisfiedBy actual → ∃ path mismatch, FailsAt shape actual path mismatch ∧
      (∀ other different, FailsAt shape actual other different → other = path ∧ different = mismatch) ∧
      ∃ difference, find? start shape actual = .ok (some difference) ∧
        difference.describe = start ++ PathStep.written path ++ ": " ++ mismatch.describe) ∧
    ∀ grown, Relation.ReflTransGen (KeyAdded shape) actual grown → find? start shape actual = .ok none →
      find? start shape grown = .ok none := by
  have decides {value : Value} (checkable : Checkable shape value) :
      find? start shape value = .ok none ↔ shape.SatisfiedBy value := by
    obtain ⟨result, found⟩ := exists_find? shape start checkable
    have reports := reports_of_find? shape found
    constructor
    · intro matched
      obtain rfl := Except.ok.inj (found.symm.trans matched)
      cases reports with
      | satisfied satisfied => exact satisfied
    · intro satisfied
      cases reports with
      | satisfied => exact found
      | fails fails => exact absurd satisfied fails.not_satisfiedBy
  refine ⟨decides checkable, ?_, ?_⟩
  · intro unsatisfied
    obtain ⟨result, found⟩ := exists_find? shape start checkable
    cases reports_of_find? shape found with
    | satisfied satisfied => exact absurd satisfied unsatisfied
    | @fails path mismatch fails =>
      refine ⟨path, mismatch, fails, ?_, _, found, rfl⟩
      intro other different fails'
      exact fails'.unique fails
  · intro grown additions matched
    have satisfied := (decides checkable).mp matched
    have satisfied' : shape.SatisfiedBy grown := by
      induction additions with
      | refl => exact satisfied
      | tail _ added ih => exact added.satisfiedBy ih
    exact (decides (checkable.of_satisfiedBy satisfied satisfied')).mpr satisfied'

def keyAndItems : Value :=
  .map [(.text "Key", .map [(.text "pk", .wildcard)]), (.text "Items", .list [.wildcard, .int 2])]

def requestOf (key : Record) (second : Int) : Value :=
  .map [(.text "Items", .list [.text "a", .int second]), (.text "Key", .map key), (.text "Limit", .int 5)]

private theorem checkable_keyAndItems (key : Record) {second : Int} {numeral : Text}
    (written : (Value.int second).quote = .ok numeral) : Checkable keyAndItems (requestOf key second) := by
  have named (entries expected : Record) (texts : ∀ entry ∈ expected, ∃ t, entry.1 = .text t) :
      ∀ entry ∈ expected, (entries.under? entry.1).isSome = true → ∃ name, entry.1.plain = .ok name := by
    intro entry asked _
    obtain ⟨t, ht⟩ := texts entry asked
    exact ⟨t, by rw [ht]; rfl⟩
  have quoted (entries expected : Record) (texts : ∀ entry ∈ expected, ∃ t, entry.1 = .text t) :
      ∀ entry ∈ expected, entries.under? entry.1 = none → ∃ quotation, entry.1.quote = .ok quotation := by
    intro entry asked _
    obtain ⟨t, ht⟩ := texts entry asked
    exact ⟨t.quoted, by rw [ht]; rfl⟩
  refine .map (named _ _ (by simp)) (quoted _ _ (by simp)) ?_
  simp only [List.forall_mem_cons, List.not_mem_nil, false_implies, implies_true, and_true]
  constructor
  · intro part there
    obtain rfl : .map key = part := Option.some.inj there
    refine .map (named _ _ (by simp)) (quoted _ _ (by simp)) ?_
    simp only [List.forall_mem_singleton]
    exact fun part _ => .wildcard part
  · intro part there
    obtain rfl : .list [.text "a", .int second] = part := Option.some.inj there
    refine .list ?_
    intro _ index shape part here there
    match index with
    | 0 =>
      obtain rfl := Option.some.inj here
      exact .wildcard part
    | 1 =>
      obtain rfl := Option.some.inj here
      obtain rfl := Option.some.inj there
      obtain ⟨equal, compared⟩ : ∃ equal, (Value.int 2).same (.int second) = .ok equal := ⟨_, rfl⟩
      cases equal with
      | true => exact .equal rfl compared
      | false => exact .unequal rfl compared rfl written
    | index + 2 => cases here

/-- A request that matches, goes on to match with one more key inside, and fails at its second item when that is
another one. -/
theorem matches_subsets_of_request :
    let small := requestOf [(.text "pk", .int 1)] 2
    let grown := requestOf [(.text "pk", .int 1), (.text "sk", .null)] 2
    Checkable keyAndItems small ∧ find? "query" keyAndItems small = .ok none ∧
      KeyAdded keyAndItems small grown ∧ find? "query" keyAndItems grown = .ok none ∧
      ¬ keyAndItems.SatisfiedBy (requestOf [(.text "pk", .int 1)] 3) ∧
      ∃ difference, find? "query" keyAndItems (requestOf [(.text "pk", .int 1)] 3) = .ok (some difference) ∧
        difference.describe = Text.ofString "query.Items[1]: expected 2, got 3" := by
  intro small grown
  have checkable := @checkable_keyAndItems [(.text "pk", .int 1)] 2 _ rfl
  obtain ⟨-, -, grows⟩ := matches_subsets checkable "query"
  have matched : find? "query" keyAndItems small = .ok none := rfl
  have added : KeyAdded keyAndItems small grown := by
    refine @KeyAdded.entry _ [(.text "Items", .list [.text "a", .int 2])] [(.text "Limit", .int 5)] (.text "Key") _ _
      ⟨_, List.mem_cons_self, rfl⟩ ?_
    simp only [List.forall_mem_cons, List.not_mem_nil, false_implies, implies_true, and_true]
    constructor
    · intro _
      exact @KeyAdded.here _ [(.text "pk", .int 1)] _ .null rfl
    · intro same
      cases same
  obtain ⟨decides, reports, -⟩ := matches_subsets (@checkable_keyAndItems [(.text "pk", .int 1)] 3 _ rfl) "query"
  have unsatisfied : ¬ keyAndItems.SatisfiedBy (requestOf [(.text "pk", .int 1)] 3) := by
    intro satisfied
    cases decides.mpr satisfied
  obtain ⟨_, _, _, _, difference, found, _⟩ := reports unsatisfied
  obtain rfl := Option.some.inj (Except.ok.inj found)
  exact ⟨checkable, matched, added, grows grown (.single added) matched, unsatisfied, _, found, by decide +kernel⟩

/-- A binary has no plain form, so a map that has one for a key cannot be matched even by itself. -/
theorem find?_binary_key :
    let keyed : Value := .map [(.binary [0x78], .int 1)]
    keyed.SatisfiedBy keyed ∧ find? "query" keyed keyed = .error .wrongKind := by
  refine ⟨satisfiedBy_map_iff.mpr ?_, rfl⟩
  rw [List.forall_mem_singleton]
  exact ⟨.int 1, rfl, .leaf rfl rfl⟩

end Difference

end TableQuery
