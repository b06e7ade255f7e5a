/- Literals are serialized as by the serializer of plain values.

   The serializer takes lists, tuples and maps apart as well, but it knows no floating-point numbers. On a literal
   whose floating-point numbers are replaced by decimal ones it has the result that the literal has as an
   attribute value, and where it raises an error, the literal is refused, or the same condition is signaled. A
   refusal quotes what it refuses, and fails where that has no written form. -/

import TableQuery.Proofs.Number.Writing
import TableQuery.Proofs.Records
import TableQuery.Proofs.Value.Fitting

set_option autoImplicit false
set_option relaxedAutoImplicit false

namespace TableQuery

/-- The fault says that a value is of a kind that cannot be serialized, or has unusable content. -/
def Fault.IsUnsupported (fault : Fault) : Prop := fault = .wrongKind ∨ fault.isContentFault = true

private theorem Fault.not_isUnsupported_signal (condition : Signal) : ¬ (Fault.signal condition).IsUnsupported := by
  rintro (same | content)
  · cases same
  · cases content

/-- Two computations have the same result, or they signal the same condition, or neither supports its value. -/
inductive Alike {α : Type} : Except Fault α → Except Fault α → Prop
  | ok (a : α) : Alike (.ok a) (.ok a)
  | signal (condition : Signal) : Alike (.error (.signal condition)) (.error (.signal condition))
  | unsupported {fault other : Fault} (unsupported : fault.IsUnsupported) (unsupported' : other.IsUnsupported) :
    Alike (.error fault) (.error other)

/-- Two computations have the same result, or they signal the same condition, or the first refuses what the
second does not support. If not all is quotable, it may fail to quote it. -/
inductive Agree (quotable : Bool) {α : Type} : Except Fault α → Except Fault α → Prop
  | ok (a : α) : Agree quotable (.ok a) (.ok a)
  | signal (condition : Signal) : Agree quotable (.error (.signal condition)) (.error (.signal condition))
  | refused (why : Refusal) {fault : Fault} (unsupported : fault.IsUnsupported) :
    Agree quotable (.error (.refused why)) (.error fault)
  | unquoted (gap : quotable = false) {fault : Fault} (unsupported : fault.IsUnsupported) :
    Agree quotable (.error (.unusable .integerUnwritable)) (.error fault)

namespace Agree

variable {α β : Type} {quotable : Bool} {x y : Except Fault α}

private theorem mono {first : Bool} (h : Agree first x y) (less : first = false → quotable = false) :
    Agree quotable x y := by
  cases h with
  | ok a => exact .ok a
  | signal condition => exact .signal condition
  | refused why unsupported => exact .refused why unsupported
  | unquoted gap unsupported => exact .unquoted (less gap) unsupported

private theorem and_left (other : Bool) (h : Agree quotable x y) : Agree (quotable && other) x y :=
  h.mono fun gap => Bool.and_eq_false_iff.mpr (.inl gap)

private theorem and_right (other : Bool) (h : Agree quotable x y) : Agree (other && quotable) x y :=
  h.mono fun gap => Bool.and_eq_false_iff.mpr (.inr gap)

private theorem bind {f g : α → Except Fault β} (h : Agree quotable x y) (next : ∀ a, Agree quotable (f a) (g a)) :
    Agree quotable (x >>= f) (y >>= g) := by
  cases h with
  | ok a => exact next a
  | signal condition => exact .signal condition
  | refused why unsupported => exact .refused why unsupported
  | unquoted gap unsupported => exact .unquoted gap unsupported

private theorem map (h : Agree quotable x y) (f : α → β) : Agree quotable (x.map f) (y.map f) := by
  cases h with
  | ok a => exact .ok (f a)
  | signal condition => exact .signal condition
  | refused why unsupported => exact .refused why unsupported
  | unquoted gap unsupported => exact .unquoted gap unsupported

private theorem ok_iff (h : Agree quotable x y) (a : α) : x = .ok a ↔ y = .ok a := by
  cases h with
  | ok b => rfl
  | signal condition => rfl
  | refused why unsupported => exact iff_of_false nofun nofun
  | unquoted gap unsupported => exact iff_of_false nofun nofun

private theorem unsupported_iff (h : Agree quotable x y) :
    (∃ fault, y = .error fault ∧ fault.IsUnsupported) ↔
      (∃ why, x = .error (.refused why)) ∨ x = .error (.unusable .integerUnwritable) := by
  cases h with
  | ok a => exact iff_of_false nofun nofun
  | signal condition =>
    refine iff_of_false ?_ nofun
    rintro ⟨_, ⟨⟩, unsupported⟩
    exact Fault.not_isUnsupported_signal condition unsupported
  | refused why unsupported => exact iff_of_true ⟨_, rfl, unsupported⟩ (.inl ⟨why, rfl⟩)
  | unquoted gap unsupported => exact iff_of_true ⟨_, rfl, unsupported⟩ (.inr rfl)

private theorem signal_iff (h : Agree quotable x y) (condition : Signal) :
    x = .error (.signal condition) ↔ y = .error (.signal condition) := by
  have other {fault : Fault} (unsupported : fault.IsUnsupported) :
      (Except.error fault : Except Fault α) ≠ .error (.signal condition) := by
    rintro ⟨⟩
    exact Fault.not_isUnsupported_signal condition unsupported
  cases h with
  | ok a => rfl
  | signal _ => rfl
  | refused why unsupported => exact iff_of_false nofun (other unsupported)
  | unquoted gap unsupported => exact iff_of_false nofun (other unsupported)

private theorem quoted (h : Agree true x y) : x ≠ .error (.unusable .integerUnwritable) := by
  rintro rfl
  cases h with
  | unquoted gap unsupported => cases gap

end Agree

namespace Value

mutual

/-- The value with each floating-point number replaced by the decimal number that its text is read as. Sets stay
as they are. -/
def decimalized : Value → Value
  | .float x => (Decimal.read? x.text).elim (.float x) .decimal
  | .list items => .list (decimalizedAll items)
  | .tuple items => .tuple (decimalizedAll items)
  | .map entries => .map (decimalizedEntries entries)
  | v => v
termination_by structural v => v

def decimalizedAll : List Value → List Value
  | [] => []
  | item :: rest => item.decimalized :: decimalizedAll rest
termination_by structural items => items

def decimalizedEntries : List (Value × Value) → List (Value × Value)
  | [] => []
  | (key, value) :: rest => (key, value.decimalized) :: decimalizedEntries rest
termination_by structural entries => entries

end

mutual

/-- Whether the keys of all maps outside sets are texts. -/
def isTextKeyed : Value → Bool
  | .list items => areTextKeyed items
  | .tuple items => areTextKeyed items
  | .map entries => entriesTextKeyed entries
  | _ => true
termination_by structural v => v

def areTextKeyed : List Value → Bool
  | [] => true
  | item :: rest => item.isTextKeyed && areTextKeyed rest
termination_by structural items => items

def entriesTextKeyed : List (Value × Value) → Bool
  | [] => true
  | (key, value) :: rest => (key matches .text _) && value.isTextKeyed && entriesTextKeyed rest
termination_by structural entries => entries

end

mutual

/-- Whether all that stands in lists, tuples and maps has a written form. -/
def isQuotable : Value → Bool
  | .list items => areQuotable items
  | .tuple items => areQuotable items
  | .map entries => entriesQuotable entries
  | v => v.quoted?.isSome
termination_by structural v => v

def areQuotable : List Value → Bool
  | [] => true
  | item :: rest => item.isQuotable && areQuotable rest
termination_by structural items => items

def entriesQuotable : List (Value × Value) → Bool
  | [] => true
  | (_, value) :: rest => value.isQuotable && entriesQuotable rest
termination_by structural entries => entries

end

def isContainer : Value → Bool
  | .list _ | .tuple _ | .map _ => true
  | _ => false

end Value

namespace Attribute

/-- The entries one after another, where a later one replaces an earlier one of the same name. -/
def gathered (found named : List (Text × Attribute)) : List (Text × Attribute) :=
  named.foldl (fun found entry => insertEntry entry.1 entry.2 found) found

/-- What the serializer of plain values does: it serializes the members of lists and tuples and the values of maps
in their order, up to the first that fails, and any other value by its kind. It is free in how it words that it
does not support a value. -/
structure Serializes (serialize : Value → Except Fault Attribute) : Prop where
  plain : ∀ v, v.isContainer = false → Alike (ofPlain v) (serialize v)
  list : ∀ items, serialize (.list items) = (items.mapM serialize).map .list
  tuple : ∀ items, serialize (.tuple items) = (items.mapM serialize).map .list
  map : ∀ entries, serialize (.map (Record.ofTexts entries)) =
    ((entries.mapM fun entry => (serialize entry.2).map (entry.1, ·)).map (gathered [])).map .map

/-- The faults of plain values. -/
def IsPlainFault (fault : Fault) : Prop := fault = .wrongKind ∨ ∃ condition, fault = .signal condition

private theorem numeral_plainFault (x : Decimal) : FailsOnly IsPlainFault (numeral x) := by
  unfold numeral
  split
  next condition _ => exact .error (.inr ⟨condition, rfl⟩)
  next =>
    dsimp only
    split
    · exact .error (.inl rfl)
    · exact .ok _

private theorem ofPlain_plainFault (v : Value) : FailsOnly IsPlainFault (ofPlain v) := by
  cases v with
  | int n => exact (numeral_plainFault _).map _
  | decimal x => exact (numeral_plainFault x).map _
  | set frozen members =>
    rw [ofPlain, ofMembers]
    split
    · exact (FailsOnly.mapM fun x _ => numeral_plainFault x).map _
    · exact .ok _
    · exact .ok _
    · exact .error (.inl rfl)
  | null | bool | text | octets | binary => exact .ok _
  | _ => exact .error (.inl rfl)

private theorem isUnsupported_of_plainFault {fault : Fault} (plain : IsPlainFault fault)
    (unsupported : fault.IsUnsupported) :
    fault = .wrongKind := by
  rcases plain with same | ⟨condition, rfl⟩
  · exact same
  · exact absurd unsupported (Fault.not_isUnsupported_signal condition)

private theorem agree_ofPlainLiteral {v : Value} {y : Except Fault Attribute} (alike : Alike (ofPlain v) y) :
    Agree v.quoted?.isSome (ofPlainLiteral v) y := by
  unfold ofPlainLiteral
  cases made : ofPlain v with
  | ok item =>
    rw [made] at alike
    cases alike
    exact .ok item
  | error fault =>
    have plain := ofPlain_plainFault v fault made
    rw [made] at alike
    cases alike with
    | signal condition => exact .signal condition
    | unsupported unsupported unsupported' =>
      obtain rfl := isUnsupported_of_plainFault plain unsupported
      change Agree _ (v.quote >>= fun quotation => _) _
      cases quoted : v.quoted? with
      | none =>
        rw [Value.quote, quoted]
        exact .unquoted rfl unsupported'
      | some quotation =>
        rw [Value.quote, quoted]
        exact .refused _ unsupported'

section

variable {serialize : Value → Except Fault Attribute}

private theorem agree_plain (laws : Serializes serialize) (v : Value) (plain : v.isContainer = false) :
    Agree v.quoted?.isSome (ofPlainLiteral v) (serialize v) :=
  agree_ofPlainLiteral (laws.plain v plain)

mutual

private theorem agree_literal (laws : Serializes serialize) : (v : Value) → v.isTextKeyed = true →
    Agree v.isQuotable (ofLiteral v) (serialize v.decimalized)
  | .float x, _ => by
    rw [Value.decimalized, Binary64.decimal_read_text]
    exact agree_plain laws (.decimal x.decimal) rfl
  | .list items, keyed => by
    rw [Value.decimalized, laws.list]
    exact (agree_literals laws items keyed).map _
  | .tuple items, keyed => by
    rw [Value.decimalized, laws.tuple]
    exact (agree_literals laws items keyed).map _
  | .map entries, keyed => by
    obtain ⟨named, same, agree⟩ := agree_entries laws entries keyed
    rw [Value.decimalized, same, laws.map]
    exact (agree []).map _
  | .null, _ => agree_plain laws .null rfl
  | .bool b, _ => agree_plain laws (.bool b) rfl
  | .int n, _ => agree_plain laws (.int n) rfl
  | .decimal x, _ => agree_plain laws (.decimal x) rfl
  | .text t, _ => agree_plain laws (.text t) rfl
  | .octets growable data, _ => agree_plain laws (.octets growable data) rfl
  | .binary data, _ => agree_plain laws (.binary data) rfl
  | .set frozen members, _ => agree_plain laws (.set frozen members) rfl
  | .sequence kind quotation items, _ => agree_plain laws (.sequence kind quotation items) rfl
  | .object name, _ => agree_plain laws (.object name) rfl
  | .wildcard, _ => agree_plain laws .wildcard rfl

private theorem agree_literals (laws : Serializes serialize) : (items : List Value) → Value.areTextKeyed items = true →
    Agree (Value.areQuotable items) (ofLiterals items) ((Value.decimalizedAll items).mapM serialize)
  | [], _ => .ok []
  | item :: rest, keyed => by
    obtain ⟨first, others⟩ := Bool.and_eq_true_iff.mp keyed
    rw [ofLiterals_cons, Value.decimalizedAll, List.mapM_cons]
    refine ((agree_literal laws item first).and_left _).bind fun a => ?_
    exact ((agree_literals laws rest others).and_right _).bind fun more => .ok (a :: more)

private theorem agree_entries (laws : Serializes serialize) :
    (entries : Record) → Value.entriesTextKeyed entries = true →
    ∃ named, Value.decimalizedEntries entries = Record.ofTexts named ∧
      ∀ found, Agree (Value.entriesQuotable entries) (ofEntries found entries)
        ((named.mapM fun entry => (serialize entry.2).map (entry.1, ·)).map (gathered found))
  | [], _ => ⟨[], rfl, fun found => .ok found⟩
  | (key, v) :: rest, keyed => by
    obtain ⟨first, others⟩ := Bool.and_eq_true_iff.mp keyed
    obtain ⟨text, inner⟩ := Bool.and_eq_true_iff.mp first
    cases key with
    | text name =>
      obtain ⟨named, same, agree⟩ := agree_entries laws rest others
      refine ⟨(name, v.decimalized) :: named, congrArg _ same, fun found => ?_⟩
      have step : (((name, v.decimalized) :: named).mapM fun entry => (serialize entry.2).map (entry.1, ·)).map
          (gathered found) = serialize v.decimalized >>= fun item =>
            (named.mapM fun entry => (serialize entry.2).map (entry.1, ·)).map
              (gathered (insertEntry name item found)) := by
        rw [List.mapM_cons]
        cases serialize v.decimalized with
        | error fault => rfl
        | ok item => cases named.mapM fun entry => (serialize entry.2).map (entry.1, ·) <;> rfl
      rw [step, ofEntries_cons]
      refine ((agree_literal laws v inner).and_left _).bind fun item => ?_
      exact (agree (insertEntry name item found)).and_right _
    | _ => cases text

end

end

mutual

/-- A serializer of plain values that follows its laws word by word. -/
def serialized : Value → Except Fault Attribute
  | .list items => (serializedAll items).map .list
  | .tuple items => (serializedAll items).map .list
  | .map entries => ((serializedEntries entries).map (gathered [])).map .map
  | v => ofPlain v
termination_by structural v => v

def serializedAll : List Value → Except Fault (List Attribute)
  | [] => .ok []
  | item :: rest => do
    let first ← serialized item
    let others ← serializedAll rest
    return first :: others
termination_by structural items => items

def serializedEntries : List (Value × Value) → Except Fault (List (Text × Attribute))
  | [] => .ok []
  | (.text name, v) :: rest => do
    let first ← serialized v
    let others ← serializedEntries rest
    return (name, first) :: others
  | _ => .error .wrongKind
termination_by structural entries => entries

end

private theorem alike_ofPlain (v : Value) : Alike (ofPlain v) (ofPlain v) := by
  cases made : ofPlain v with
  | ok item => exact .ok item
  | error fault =>
    rcases ofPlain_plainFault v fault made with rfl | ⟨condition, rfl⟩
    · exact .unsupported (.inl rfl) (.inl rfl)
    · exact .signal condition

/-- The laws can be followed. -/
private theorem serializes_serialized : Serializes serialized := by
  have all (items : List Value) : serializedAll items = items.mapM serialized := by
    induction items with
    | nil => rfl
    | cons v items ih => rw [serializedAll, ih, List.mapM_cons]
  have named (entries : List (Text × Value)) : serializedEntries (Record.ofTexts entries) =
      entries.mapM fun entry => (serialized entry.2).map (entry.1, ·) := by
    induction entries with
    | nil => rfl
    | cons entry entries ih =>
      rw [List.mapM_cons, ← ih]
      change (serialized entry.2 >>= fun first => _) = _
      cases serialized entry.2 <;> rfl
  exact {
    plain := by
      intro v plain
      cases v with
      | list | tuple | map => cases plain
      | _ => exact alike_ofPlain _
    list := fun items => by rw [serialized, all]
    tuple := fun items => by rw [serialized, all]
    map := fun entries => by rw [serialized, named] }

/-- **Literals are serialized alike.** A literal whose maps have text keys has the wire form that the serializer
gives the literal with decimal numbers for its floating-point numbers. Where the serializer finds a value in it that
it does not support, the literal is refused, unless not all in it can be quoted. Each condition is signaled by both
or by neither. -/
theorem serializes_alike {serialize : Value → Except Fault Attribute} (laws : Serializes serialize) (v : Value)
    (keyed : v.isTextKeyed = true) :
    (∀ wire, ofLiteral v = .ok wire ↔ serialize v.decimalized = .ok wire) ∧
    ((∃ fault, serialize v.decimalized = .error fault ∧ fault.IsUnsupported) ↔
      (∃ why, ofLiteral v = .error (.refused why)) ∨ ofLiteral v = .error (.unusable .integerUnwritable)) ∧
    (v.isQuotable = true → ofLiteral v ≠ .error (.unusable .integerUnwritable)) ∧
    ∀ condition, ofLiteral v = .error (.signal condition) ↔
      serialize v.decimalized = .error (.signal condition) := by
  have agree := agree_literal laws v keyed
  refine ⟨agree.ok_iff, agree.unsupported_iff, fun quotable => ?_, agree.signal_iff⟩
  rw [quotable] at agree
  exact agree.quoted

def nested : Value :=
  .map [(.text "limits", .list [.int 3, .float (Binary64.ofDecimal false 5 (-1)), .tuple [.null]]),
    (.text "tags", .set false [.text "a", .text "b"])]

theorem serializes_alike_of_nested :
    (∃ wire, ofLiteral nested = .ok wire ∧ serialized nested.decimalized = .ok wire) ∧
      (∃ fault, serialized (Value.list [nested, .object "lock"]).decimalized = .error fault ∧
        fault.IsUnsupported) := by
  have alike := serializes_alike serializes_serialized nested (by decide)
  have refused := serializes_alike serializes_serialized (.list [nested, .object "lock"]) (by decide)
  constructor
  · cases made : ofLiteral nested with
    | ok wire => exact ⟨wire, rfl, (alike.1 wire).mp made⟩
    | error fault =>
      have accepted : (ofLiteral nested).isOk = true := by decide +kernel
      rw [made] at accepted
      cases accepted
  · refine refused.2.1.mpr (.inl ?_)
    cases made : ofLiteral (.list [nested, .object "lock"]) with
    | ok wire =>
      have failed : (ofLiteral (.list [nested, .object "lock"])).isOk = false := by decide +kernel
      rw [made] at failed
      cases failed
    | error fault =>
      obtain ⟨why, rfl⟩ := ofLiteral_refuses _ (by decide +kernel) fault made
      exact ⟨why, rfl⟩

private theorem quoted?_of_unwritten {n : Int} (unwritten : Value.numeral? n = none) (others : List Value) :
    (Value.set false (.int n :: others)).quoted? = none := by
  simp [Value.quoted?, Value.quotedItems?, unwritten]

/-- The serializer does not support a set of a number and a text. Where the number has too many digits, the set is
not quoted, and it is not refused. -/
private theorem not_refused_of_long {k : Nat} (long : Integer.digitLimit ≤ k) :
    let v : Value := .set false [.int (10 ^ k : Nat), .text "a"]
    (∀ serialize, Serializes serialize → ∃ fault, serialize v.decimalized = .error fault ∧ fault.IsUnsupported) ∧
      ¬ ∃ why, ofLiteral v = .error (.refused why) := by
  intro v
  have digits : Integer.digitLimit < digitCount (10 ^ k) := lt_digitCount (Nat.pow_le_pow_right (by decide) long)
  have unwritten : Value.numeral? (10 ^ k : Nat) = none := if_neg (Nat.not_le.mpr digits)
  have unquoted : v.quote = .error (.unusable .integerUnwritable) := by
    rw [Value.quote, quoted?_of_unwritten unwritten]
  have failed : ofLiteral v = .error (.unusable .integerUnwritable) := by
    change (v.quote >>= fun quotation => _) = _
    rw [unquoted]
    rfl
  constructor
  · intro serialize laws
    exact (agree_literal laws v rfl).unsupported_iff.mpr (.inr failed)
  · rintro ⟨why, refused⟩
    cases failed.symm.trans refused

theorem not_refused_of_long_number :
    let v : Value := .set false [.int (10 ^ 5000 : Nat), .text "a"]
    (∀ serialize, Serializes serialize → ∃ fault, serialize v.decimalized = .error fault ∧ fault.IsUnsupported) ∧
      ¬ ∃ why, ofLiteral v = .error (.refused why) :=
  not_refused_of_long (by decide)

end Attribute

end TableQuery
