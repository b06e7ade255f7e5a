/- Numbers keep their values on the wire.

   A path leads into a literal and into its wire form alike. Where it leads to a numeral in the wire form, it
   leads to a number in the literal, and the numeral stands for exactly that number. Of the infinities and the
   not-a-numbers, the wire form refuses those whose text is the plain name. -/

import TableQuery.Proofs.Attribute.Encoding
import TableQuery.Proofs.Number.Writing
import TableQuery.Proofs.Value.Fitting

set_option autoImplicit false
set_option relaxedAutoImplicit false

namespace TableQuery

/-- The text is a numeral that stands for the given number. -/
def Text.Denotes (t : Text) (v : ℚ) : Prop := ∃ n, Numeral.read? t = some n ∧ n.value = v

namespace Decimal

/-- A number that is not finite and that has a sign, a signal or a payload short enough to be kept, all of which
its text tells. -/
def isMarked : Decimal → Bool
  | .finite .. => false
  | .infinity negative => negative
  | .nan negative signaling payload =>
    (negative || signaling || payload != 0) && digitCount payload ≤ Precision.digits

/-- The text stands for the number, or it is the name of a number with a mark. -/
def WrittenAs (x : Decimal) (t : Text) : Prop :=
  (∃ v, x.value? = some v ∧ t.Denotes v) ∨ (x.isMarked = true ∧ t = x.text)

private theorem isMarked_nan {negative signaling : Bool} {payload : Nat}
    (short : ¬ (payload ≠ 0 ∧ Precision.digits < digitCount payload))
    (unnamed : text (.nan negative signaling payload) ≠ "NaN") : isMarked (.nan negative signaling payload) = true := by
  have kept : digitCount payload ≤ Precision.digits := by
    rcases Decidable.em (payload = 0) with rfl | some
    · decide
    · exact Nat.not_lt.mp fun long => short ⟨some, long⟩
  rw [isMarked, decide_eq_true kept, Bool.and_true]
  by_contra plain
  obtain ⟨⟨rfl, rfl⟩, rfl⟩ : (negative = false ∧ signaling = false) ∧ payload = 0 := by simpa using plain
  exact unnamed rfl

end Decimal

/-- A step into a value: to a member by its place, or to an entry by its name. -/
inductive Step where
  | item (place : Nat)
  | entry (name : Text)
  deriving DecidableEq, Repr

namespace Value

/-- The value that a path leads to. -/
def at? : Value → List Step → Option Value
  | v, [] => some v
  | .list items, .item place :: path => items[place]?.bind (at? · path)
  | .tuple items, .item place :: path => items[place]?.bind (at? · path)
  | .set _ members, .item place :: path => members[place]?.bind (at? · path)
  | .map entries, .entry name :: path => (named? name entries).bind (at? · path)
  | _, _ => none
termination_by structural _ path => path

/-- The text stands for the number that a value is. A floating-point number is the one that its own text stands
for, and a truth value counts as one or zero. -/
def WrittenAs : Value → Text → Prop
  | .bool b, t => t.Denotes (if b then 1 else 0)
  | .int n, t => t.Denotes n
  | .decimal x, t => x.WrittenAs t
  | .float x, t =>
    (∃ n, Numeral.read? x.text = some n ∧ t.Denotes n.value) ∨ (x = .infinity true ∧ t = "-Infinity")
  | _, _ => False

mutual

/-- The whole, decimal and floating-point numbers in a literal, wherever they stand. -/
def numbers : Value → List Decimal
  | .int n => [.ofInt n]
  | .float x => [x.decimal]
  | .decimal x => [x]
  | .list items => numbersOf items
  | .tuple items => numbersOf items
  | .set _ members => numbersOf members
  | .map entries => numbersOfEntries entries
  | _ => []
termination_by structural v => v

def numbersOf : List Value → List Decimal
  | [] => []
  | item :: rest => item.numbers ++ numbersOf rest
termination_by structural items => items

def numbersOfEntries : List (Value × Value) → List Decimal
  | [] => []
  | (_, value) :: rest => value.numbers ++ numbersOfEntries rest
termination_by structural entries => entries

end

end Value

namespace Attribute

/-- The numeral that a path leads to: a number, or a member of a set of numbers. -/
def numeralAt? : Attribute → List Step → Option Text
  | .number numeral, [] => some numeral
  | .numbers numerals, [.item place] => numerals[place]?
  | .list items, .item place :: path => items[place]?.bind (numeralAt? · path)
  | .map entries, .entry name :: path => (entries.lookup name).bind (numeralAt? · path)
  | _, _ => none
termination_by structural _ path => path

mutual

def numerals : Attribute → List Text
  | .number numeral => [numeral]
  | .numbers numerals => numerals
  | .list items => numeralsOf items
  | .map entries => numeralsOfEntries entries
  | _ => []
termination_by structural a => a

def numeralsOf : List Attribute → List Text
  | [] => []
  | item :: rest => item.numerals ++ numeralsOf rest
termination_by structural items => items

def numeralsOfEntries : List (Text × Attribute) → List Text
  | [] => []
  | (_, item) :: rest => item.numerals ++ numeralsOfEntries rest
termination_by structural entries => entries

end

def Reached (a : Attribute) : Prop := ∀ t ∈ a.numerals, ∃ path, a.numeralAt? path = some t

private theorem writtenAs_of_numeral {x : Decimal} {t : Text} (made : numeral x = .ok t) : x.WrittenAs t := by
  unfold numeral at made
  split at made
  next => cases made
  next fitted fits =>
    dsimp only at made
    split at made
    next => cases made
    next unnamed =>
      obtain rfl := Except.ok.inj made
      unfold Precision.fit at fits
      split at fits
      next negative coefficient exponent =>
        split at fits
        next => cases fits
        next =>
          obtain rfl := Except.ok.inj fits
          exact .inl ⟨_, rfl, _, Decimal.read_text negative coefficient exponent, rfl⟩
      next negative signaling payload =>
        split at fits
        next =>
          -- A payload that is dropped takes the mark with it.
          obtain rfl := Except.ok.inj fits
          exact absurd (.inr rfl) unnamed
        next short =>
          obtain rfl := Except.ok.inj fits
          exact .inr ⟨Decimal.isMarked_nan short fun plain => unnamed (.inr plain), rfl⟩
      next negative =>
        obtain rfl := Except.ok.inj fits
        refine .inr ⟨?_, rfl⟩
        cases negative with
        | false => exact absurd (.inl rfl) unnamed
        | true => rfl

private theorem writtenAs_of_exactNumber {v : Value} {x : Decimal} {t : Text} (number : exactNumber? v = some x)
    (made : numeral x = .ok t) : v.WrittenAs t := by
  have written := writtenAs_of_numeral made
  have whole {n : ℤ} (exact : x = .ofInt n) : t.Denotes n := by
    subst exact
    rcases written with ⟨v, value, denotes⟩ | ⟨marked, -⟩
    · rw [Decimal.value_ofInt] at value
      obtain rfl := Option.some.inj value
      exact denotes
    · cases marked
  cases v with
  | bool b =>
    obtain rfl := Option.some.inj number
    cases b <;> simpa [Value.WrittenAs] using whole rfl
  | int n =>
    obtain rfl := Option.some.inj number
    exact whole rfl
  | decimal y =>
    obtain rfl := Option.some.inj number
    exact written
  | _ => cases number

private theorem writtenAs_of_float {x : Binary64} {t : Text} (made : numeral x.decimal = .ok t) :
    (Value.float x).WrittenAs t := by
  rcases writtenAs_of_numeral made with ⟨v, value, denotes⟩ | ⟨marked, rfl⟩
  · cases finite : x.decimal with
    | finite negative coefficient exponent =>
      rw [finite] at value
      obtain rfl := Option.some.inj value
      exact .inl ⟨_, Binary64.read_text finite, denotes⟩
    | _ => rw [finite] at value; cases value
  · cases x with
    | finite negative mantissa exponent form =>
      rw [Binary64.decimal] at marked
      dsimp only at marked
      split at marked <;> cases marked
    | infinity negative =>
      obtain rfl : negative = true := marked
      exact .inr ⟨rfl, rfl⟩
    | nan => cases marked

private theorem writtenAs_of_members {members : List Value} {xs : List Decimal} {numerals : List Text}
    (exact : List.Forall₂ (fun v x => exactNumber? v = some x) members xs)
    (made : List.Forall₂ (fun x t => numeral x = .ok t) xs numerals) :
    List.Forall₂ Value.WrittenAs members numerals := by
  induction exact generalizing numerals with
  | nil =>
    cases made
    exact .nil
  | cons number _ ih =>
    cases made with
    | cons written made => exact .cons (writtenAs_of_exactNumber number written) (ih made)

variable {path : List Step} {t : Text}

private theorem at_of_numeral {numeral : Text} (found : (Attribute.number numeral).numeralAt? path = some t) :
    path = [] ∧ numeral = t := by
  cases path with
  | nil => exact ⟨rfl, Option.some.inj found⟩
  | cons step path => cases found

private theorem writtenAs_of_plain {v : Value} {a : Attribute} (made : ofPlain v = .ok a)
    (found : a.numeralAt? path = some t) : ∃ w, v.at? path = some w ∧ w.WrittenAs t := by
  cases v with
  | int n =>
    obtain ⟨numeral, written, rfl⟩ := map_eq_ok.mp made
    obtain ⟨rfl, rfl⟩ := at_of_numeral found
    exact ⟨.int n, rfl, writtenAs_of_exactNumber (v := .int n) rfl written⟩
  | decimal x =>
    obtain ⟨numeral, written, rfl⟩ := map_eq_ok.mp made
    obtain ⟨rfl, rfl⟩ := at_of_numeral found
    exact ⟨.decimal x, rfl, writtenAs_of_numeral written⟩
  | set frozen members =>
    rw [ofPlain, ofMembers] at made
    split at made
    next xs exact =>
      obtain ⟨numerals, written, rfl⟩ := map_eq_ok.mp made
      have each := writtenAs_of_members (mapM_eq_some.mp exact) (mapM_eq_ok.mp written)
      rcases path with _ | ⟨place | name, _ | ⟨step, path⟩⟩
      · cases found
      · obtain ⟨v, member, stands⟩ := getElem?_of_forall₂ each found
        exact ⟨v, by rw [Value.at?, member]; rfl, stands⟩
      all_goals cases found
    next =>
      cases made
      rcases path with _ | ⟨place | name, path⟩ <;> cases found
    next =>
      cases made
      rcases path with _ | ⟨place | name, path⟩ <;> cases found
    next => cases made
  | null | bool | text | octets | binary =>
    cases made
    rcases path with _ | ⟨place | name, path⟩ <;> cases found
  | _ => cases made

/-- A path that leads to a numeral in the wire form of a literal leads to a number in the literal. -/
private theorem writtenAs_of_path {v : Value} {a : Attribute} (made : ofLiteral v = .ok a)
    (found : a.numeralAt? path = some t) : ∃ w, v.at? path = some w ∧ w.WrittenAs t := by
  -- Each step of the path leads from a container to the same member of both.
  induction path generalizing v a with
  | nil =>
    rcases ofLiteral_cases made with ⟨_, _, _, rfl, _⟩ | ⟨_, _, _, rfl, _⟩ | ⟨x, rfl, plain⟩ | plain
    · cases found
    · cases found
    · obtain ⟨numeral, written, rfl⟩ := map_eq_ok.mp plain
      obtain ⟨-, rfl⟩ := at_of_numeral found
      exact ⟨.float x, rfl, writtenAs_of_float written⟩
    · exact writtenAs_of_plain plain found
  | cons step path ih =>
    rcases ofLiteral_cases made with
      ⟨items, members, same, rfl, each⟩ | ⟨entries, named, rfl, rfl, each⟩ | ⟨x, rfl, plain⟩ | plain
    · cases step with
      | item place =>
        obtain ⟨member, stands, found⟩ := Option.bind_eq_some_iff.mp found
        obtain ⟨literal, there, made⟩ := getElem?_of_forall₂ (ofLiterals_eq_ok.mp each) stands
        obtain ⟨w, reached, written⟩ := ih made found
        refine ⟨w, ?_, written⟩
        rcases same with rfl | rfl <;> rw [Value.at?, there, Option.bind_some, reached]
      | entry name => cases found
    · cases step with
      | item place => cases found
      | entry name =>
        obtain ⟨member, stands, found⟩ := Option.bind_eq_some_iff.mp found
        rcases named_of_lookup each stands with ⟨literal, there, made⟩ | ⟨-, none⟩
        · obtain ⟨w, reached, written⟩ := ih made found
          exact ⟨w, by rw [Value.at?, there, Option.bind_some, reached], written⟩
        · cases none
    · obtain ⟨numeral, -, rfl⟩ := map_eq_ok.mp plain
      cases (at_of_numeral found).1
    · exact writtenAs_of_plain plain found

private theorem mem_numeralsOf {items : List Attribute} {t : Text} :
    t ∈ numeralsOf items ↔ ∃ item ∈ items, t ∈ item.numerals := by
  induction items with
  | nil => simp [numeralsOf]
  | cons item items ih => simp [numeralsOf, ih]

private theorem mem_numeralsOfEntries {entries : List (Text × Attribute)} {t : Text} :
    t ∈ numeralsOfEntries entries ↔ ∃ entry ∈ entries, t ∈ entry.2.numerals := by
  induction entries with
  | nil => simp [numeralsOfEntries]
  | cons entry entries ih => simp [numeralsOfEntries, ih]

private theorem reached_list {items : List Attribute} (each : ∀ item ∈ items, Reached item) :
    Reached (.list items) := by
  intro t member
  obtain ⟨item, there, member⟩ := mem_numeralsOf.mp member
  obtain ⟨place, stands⟩ := List.getElem?_of_mem there
  obtain ⟨path, found⟩ := each item there t member
  exact ⟨.item place :: path, by rw [numeralAt?, stands, Option.bind_some, found]⟩

private theorem reached_map {entries : List (Text × Attribute)} (distinct : (entries.map Prod.fst).Nodup)
    (each : ∀ entry ∈ entries, Reached entry.2) : Reached (.map entries) := by
  intro t member
  obtain ⟨⟨name, item⟩, there, member⟩ := mem_numeralsOfEntries.mp member
  obtain ⟨path, found⟩ := each _ there t member
  exact ⟨.entry name :: path, by rw [numeralAt?, lookup_of_mem distinct there, Option.bind_some, found]⟩

private theorem reached_number {x : Decimal} {a : Attribute} (made : (numeral x).map .number = .ok a) : Reached a := by
  obtain ⟨t, -, rfl⟩ := map_eq_ok.mp made
  exact List.forall_mem_singleton.mpr ⟨[], rfl⟩

private theorem reached_members {members : List Value} {a : Attribute} (made : ofMembers members = .ok a) :
    Reached a := by
  rw [ofMembers] at made
  split at made
  next =>
    obtain ⟨numerals, -, rfl⟩ := map_eq_ok.mp made
    intro t member
    obtain ⟨place, stands⟩ := List.getElem?_of_mem member
    exact ⟨[.item place], stands⟩
  next =>
    cases made
    exact List.forall_mem_nil _
  next =>
    cases made
    exact List.forall_mem_nil _
  next => cases made

private theorem reached_plain (v : Value) {a : Attribute} (made : ofPlainLiteral v = .ok a) : Reached a := by
  have made := ofPlainLiteral_eq_ok.mp made
  cases v with
  | int n => exact reached_number made
  | decimal x => exact reached_number made
  | set frozen members => exact reached_members made
  | null | bool | text | octets | binary =>
    cases made
    exact nofun
  | _ => cases made

mutual

/-- A path leads to each numeral in the wire form of a literal. -/
private theorem reached_of_literal : (v : Value) → {a : Attribute} → ofLiteral v = .ok a → Reached a
  | .list items, _, made => by
    obtain ⟨members, each, rfl⟩ := map_eq_ok.mp made
    exact reached_list (reached_of_literals items each)
  | .tuple items, _, made => by
    obtain ⟨members, each, rfl⟩ := map_eq_ok.mp made
    exact reached_list (reached_of_literals items each)
  | .map entries, _, made => by
    obtain ⟨named, each, rfl⟩ := map_eq_ok.mp made
    exact reached_map (nodup_ofEntries each List.nodup_nil) (reached_of_entries entries each nofun)
  | .float x, _, made => reached_plain (.decimal x.decimal) made
  | .null, _, made => reached_plain .null made
  | .bool b, _, made => reached_plain (.bool b) made
  | .int n, _, made => reached_plain (.int n) made
  | .decimal x, _, made => reached_plain (.decimal x) made
  | .text t, _, made => reached_plain (.text t) made
  | .octets growable data, _, made => reached_plain (.octets growable data) made
  | .binary data, _, made => reached_plain (.binary data) made
  | .set frozen members, _, made => reached_plain (.set frozen members) made
  | .object name, _, made => reached_plain (.object name) made
  | .wildcard, _, made => reached_plain .wildcard made

private theorem reached_of_literals : (items : List Value) → {made : List Attribute} → ofLiterals items = .ok made →
    ∀ item ∈ made, Reached item
  | [], _, run => by
    obtain rfl := Except.ok.inj run
    exact nofun
  | v :: rest, _, run => by
    rw [ofLiterals_cons] at run
    obtain ⟨a, first, run⟩ := bind_eq_ok.mp run
    obtain ⟨others, later, run⟩ := bind_eq_ok.mp run
    obtain rfl := pure_eq_ok.mp run
    exact List.forall_mem_cons.mpr ⟨reached_of_literal v first, reached_of_literals rest later⟩

private theorem reached_of_entries : (entries : Record) → {found made : List (Text × Attribute)} →
    ofEntries found entries = .ok made → (∀ entry ∈ found, Reached entry.2) → ∀ entry ∈ made, Reached entry.2
  | [], _, _, run, before => by
    obtain rfl := Except.ok.inj run
    exact before
  | (key, v) :: rest, _, _, run, before => by
    rw [ofEntries_cons] at run
    obtain ⟨name, -, run⟩ := bind_eq_ok.mp run
    obtain ⟨a, first, run⟩ := bind_eq_ok.mp run
    refine reached_of_entries rest run fun entry member => ?_
    rcases mem_insertEntry member with rfl | member
    · exact reached_of_literal v first
    · exact before entry member

end

private theorem mem_numbersOf {items : List Value} {x : Decimal} :
    x ∈ Value.numbersOf items ↔ ∃ v ∈ items, x ∈ v.numbers := by
  induction items with
  | nil => simp [Value.numbersOf]
  | cons v items ih => simp [Value.numbersOf, ih]

private theorem marked_of_numeral {x : Decimal} {t : Text} (made : numeral x = .ok t) (special : x.value? = none) :
    x.isMarked = true := by
  rcases writtenAs_of_numeral made with ⟨v, value, -⟩ | ⟨marked, -⟩
  · cases special.symm.trans value
  · exact marked

private theorem marked_of_number {y : Decimal} {a : Attribute} (made : (numeral y).map .number = .ok a) :
    ∀ x ∈ [y], x.value? = none → x.isMarked = true := by
  obtain ⟨t, written, -⟩ := map_eq_ok.mp made
  exact List.forall_mem_singleton.mpr (marked_of_numeral written)

private theorem marked_of_members {members : List Value} {a : Attribute} (made : ofMembers members = .ok a) :
    ∀ x ∈ Value.numbersOf members, x.value? = none → x.isMarked = true := by
  intro x member special
  obtain ⟨v, there, member⟩ := mem_numbersOf.mp member
  rw [ofMembers] at made
  split at made
  next xs exact =>
    obtain ⟨numerals, written, -⟩ := map_eq_ok.mp made
    obtain ⟨y, found, number⟩ := exists_of_forall₂ (mapM_eq_some.mp exact) there
    obtain ⟨t, -, made⟩ := exists_of_forall₂ (mapM_eq_ok.mp written) found
    obtain rfl : x = y := by
      cases v with
      | int n => exact (List.mem_singleton.mp member).trans (Option.some.inj number)
      | decimal z => exact (List.mem_singleton.mp member).trans (Option.some.inj number)
      | bool b => cases member
      | _ => cases number
    exact marked_of_numeral made special
  next ts texts =>
    obtain ⟨t, -, text⟩ := exists_of_forall₂ (mapM_eq_some.mp texts) there
    cases v with
    | text => cases member
    | _ => cases text
  next items octets =>
    obtain ⟨t, -, item⟩ := exists_of_forall₂ (mapM_eq_some.mp octets) there
    cases v with
    | octets | binary => cases member
    | _ => cases item
  next => cases made

mutual

/-- The numbers of a literal that has a wire form are finite or have a mark. -/
private theorem marked_of_literal : (v : Value) → {a : Attribute} → ofLiteral v = .ok a →
    ∀ x ∈ v.numbers, x.value? = none → x.isMarked = true
  | .float x, _, made => marked_of_number (ofPlainLiteral_eq_ok.mp made)
  | .list items, _, made => by
    obtain ⟨members, each, -⟩ := map_eq_ok.mp made
    exact marked_of_literals items each
  | .tuple items, _, made => by
    obtain ⟨members, each, -⟩ := map_eq_ok.mp made
    exact marked_of_literals items each
  | .map entries, _, made => by
    obtain ⟨named, each, -⟩ := map_eq_ok.mp made
    exact marked_of_entries entries each
  | .int n, _, made => marked_of_number (ofPlainLiteral_eq_ok.mp made)
  | .decimal x, _, made => marked_of_number (ofPlainLiteral_eq_ok.mp made)
  | .set frozen members, _, made => marked_of_members (ofPlainLiteral_eq_ok.mp made)
  | .null, _, _ => nofun
  | .bool _, _, _ => nofun
  | .text _, _, _ => nofun
  | .octets .., _, _ => nofun
  | .binary _, _, _ => nofun
  | .object _, _, _ => nofun
  | .wildcard, _, _ => nofun

private theorem marked_of_literals : (items : List Value) → {made : List Attribute} → ofLiterals items = .ok made →
    ∀ x ∈ Value.numbersOf items, x.value? = none → x.isMarked = true
  | [], _, _ => nofun
  | item :: rest, _, run => by
    rw [ofLiterals_cons] at run
    obtain ⟨a, first, run⟩ := bind_eq_ok.mp run
    obtain ⟨others, later, -⟩ := bind_eq_ok.mp run
    intro x member
    rcases List.mem_append.mp member with member | member
    · exact marked_of_literal item first x member
    · exact marked_of_literals rest later x member

private theorem marked_of_entries : (entries : Record) → {found made : List (Text × Attribute)} →
    ofEntries found entries = .ok made → ∀ x ∈ Value.numbersOfEntries entries, x.value? = none → x.isMarked = true
  | [], _, _, _ => nofun
  | (key, v) :: rest, _, _, run => by
    rw [ofEntries_cons] at run
    obtain ⟨name, -, run⟩ := bind_eq_ok.mp run
    obtain ⟨a, first, run⟩ := bind_eq_ok.mp run
    intro x member
    rcases List.mem_append.mp member with member | member
    · exact marked_of_literal v first x member
    · exact marked_of_entries rest run x member

end

/-- **Numerals keep their values.** A path leads to each numeral in the wire form of a literal, on its own or in a
set of numbers and at any depth. The same path leads to a number in the literal, and the numeral stands for
exactly that number. The only numbers of a literal with a wire form that are not finite are those with a mark,
which are written by name. So a literal with an infinity or a not-a-number without a mark is refused, as long as
nothing in it signals. -/
theorem numerals_keep_values (literal : Value) :
    (∀ wire, ofLiteral literal = .ok wire →
      (∀ t ∈ wire.numerals, ∃ path, wire.numeralAt? path = some t) ∧
      ∀ path t, wire.numeralAt? path = some t → ∃ v, literal.at? path = some v ∧ v.WrittenAs t) ∧
    (literal.fits = true → (∃ x ∈ literal.numbers, x.value? = none ∧ x.isMarked = false) →
      ∃ why, ofLiteral literal = .error (.refused why)) := by
  refine ⟨fun wire made => ⟨reached_of_literal literal made, fun path t => writtenAs_of_path made⟩, ?_⟩
  rintro fits ⟨x, member, special, plain⟩
  cases made : ofLiteral literal with
  | ok wire => exact absurd (marked_of_literal literal made x member special) (Bool.eq_false_iff.mp plain)
  | error fault =>
    obtain ⟨why, rfl⟩ := ofLiteral_refuses literal fits fault made
    exact ⟨why, rfl⟩

def halves : Value :=
  .map [(.text "limits", .list [.int 3, .float (Binary64.ofDecimal false 5 (-1))]),
    (.int 7, .set false [.decimal (.finite false 250 (-2)), .bool true])]

theorem numerals_keep_values_of_halves :
    (∃ v, halves.at? [.entry "limits", .item 1] = some v ∧ v.WrittenAs "0.5") ∧
      (∃ v, halves.at? [.entry "7", .item 0] = some v ∧ v.WrittenAs "2.50") ∧
      ∃ why, ofLiteral (.list [halves, .float .nan]) = .error (.refused why) := by
  cases made : ofLiteral halves with
  | error fault =>
    have accepted : (ofLiteral halves).isOk = true := by decide +kernel
    rw [made] at accepted
    cases accepted
  | ok wire =>
    have half : (ofLiteral halves).toOption.bind (numeralAt? · [.entry "limits", .item 1]) = some "0.5" := by
      decide +kernel
    have member : (ofLiteral halves).toOption.bind (numeralAt? · [.entry "7", .item 0]) = some "2.50" := by
      decide +kernel
    rw [made] at half member
    obtain ⟨-, kept⟩ := (numerals_keep_values halves).1 wire made
    exact ⟨kept _ _ half, kept _ _ member,
      (numerals_keep_values _).2 (by decide +kernel) ⟨.nan false false 0, by decide +kernel, rfl, rfl⟩⟩

/-- A negative infinity has a wire form. -/
theorem ofLiteral_negative_infinity :
    ofLiteral (.float (.infinity true)) = .ok (.number "-Infinity") := by
  rfl

end Attribute

end TableQuery
