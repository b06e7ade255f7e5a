/- Literals and the room for them.

   A literal that is not nested deeper than there is room has the outcome that it has with room without bounds.
   Whatever the room, a wire form is the same one. -/

import TableQuery.Attribute.Encoding
import TableQuery.Proofs.Outcomes

set_option autoImplicit false
set_option relaxedAutoImplicit false

namespace TableQuery

namespace Value

mutual

/-- How many values stand inside one another, the outermost one included. -/
def nesting : Value → Nat
  | .list items | .tuple items | .set _ items => itemsNesting items + 1
  | .map entries => entriesNesting entries + 1
  | _ => 1
termination_by structural v => v

def itemsNesting : List Value → Nat
  | [] => 0
  | item :: rest => max item.nesting (itemsNesting rest)
termination_by structural items => items

def entriesNesting : List (Value × Value) → Nat
  | [] => 0
  | (key, value) :: rest => max (max key.nesting value.nesting) (entriesNesting rest)
termination_by structural entries => entries

end

private theorem nesting_pos (v : Value) : 0 < v.nesting := by
  cases v <;> exact Nat.succ_pos _

end Value

namespace Attribute

private theorem ofLiteralWithin_zero (v : Value) : ofLiteralWithin (some 0) v = .error .tooDeep := by
  cases v <;> rfl

mutual

theorem ofLiteralWithin_of_nesting : (v : Value) → {room : Nat} → v.nesting ≤ room →
    ofLiteralWithin (some room) v = ofLiteral v
  | v, 0, enough => absurd v.nesting_pos (Nat.not_lt.mpr enough)
  | .list items, _ + 1, enough =>
    congrArg (Except.map Attribute.list) (ofLiteralsWithin_of_nesting items (Nat.le_of_succ_le_succ enough))
  | .tuple items, _ + 1, enough =>
    congrArg (Except.map Attribute.list) (ofLiteralsWithin_of_nesting items (Nat.le_of_succ_le_succ enough))
  | .map entries, _ + 1, enough =>
    congrArg (Except.map Attribute.map) (ofEntriesWithin_of_nesting entries [] (Nat.le_of_succ_le_succ enough))
  | .float _, _ + 1, _ | .null, _ + 1, _ | .bool _, _ + 1, _ | .int _, _ + 1, _ | .decimal _, _ + 1, _
  | .text _, _ + 1, _ | .octets .., _ + 1, _ | .binary _, _ + 1, _ | .set .., _ + 1, _ | .sequence .., _ + 1, _
  | .object _, _ + 1, _ | .wildcard, _ + 1, _ => rfl

private theorem ofLiteralsWithin_of_nesting : (items : List Value) → {room : Nat} → Value.itemsNesting items ≤ room →
    ofLiteralsWithin (some room) items = ofLiterals items
  | [], _, _ => rfl
  | item :: rest, room, enough => by
    obtain ⟨first, others⟩ := Nat.max_le.mp enough
    rw [ofLiterals_cons, ofLiteralsWithin, ofLiteralWithin_of_nesting item first,
      ofLiteralsWithin_of_nesting rest others]

private theorem ofEntriesWithin_of_nesting : (entries : Record) → (found : List (Text × Attribute)) → {room : Nat} →
    Value.entriesNesting entries ≤ room → ofEntriesWithin (some room) found entries = ofEntries found entries
  | [], _, _, _ => rfl
  | (key, value) :: rest, found, room, enough => by
    obtain ⟨first, others⟩ := Nat.max_le.mp enough
    rw [ofEntries_cons, ofEntriesWithin, ofLiteralWithin_of_nesting value (Nat.max_le.mp first).2]
    congr 1
    funext name
    congr 1
    funext item
    exact ofEntriesWithin_of_nesting rest (insertEntry name item found) others

end

mutual

theorem ofLiteral_of_within : (v : Value) → {room : Nat} → {wire : Attribute} →
    ofLiteralWithin (some room) v = .ok wire → ofLiteral v = .ok wire
  | v, 0, _, made => nomatch (ofLiteralWithin_zero v).symm.trans made
  | .list items, _ + 1, _, made => by
    obtain ⟨members, each, rfl⟩ := map_eq_ok.mp made
    exact congrArg (Except.map Attribute.list) (ofLiterals_of_within items each)
  | .tuple items, _ + 1, _, made => by
    obtain ⟨members, each, rfl⟩ := map_eq_ok.mp made
    exact congrArg (Except.map Attribute.list) (ofLiterals_of_within items each)
  | .map entries, _ + 1, _, made => by
    obtain ⟨named, each, rfl⟩ := map_eq_ok.mp made
    exact congrArg (Except.map Attribute.map) (ofEntries_of_within entries each)
  | .float _, _ + 1, _, made | .null, _ + 1, _, made | .bool _, _ + 1, _, made | .int _, _ + 1, _, made
  | .decimal _, _ + 1, _, made | .text _, _ + 1, _, made | .octets .., _ + 1, _, made
  | .binary _, _ + 1, _, made | .set .., _ + 1, _, made | .sequence .., _ + 1, _, made
  | .object _, _ + 1, _, made | .wildcard, _ + 1, _, made => made

private theorem ofLiterals_of_within : (items : List Value) → {room : Nat} → {wires : List Attribute} →
    ofLiteralsWithin (some room) items = .ok wires → ofLiterals items = .ok wires
  | [], _, _, made => made
  | item :: rest, _, _, made => by
    rw [ofLiteralsWithin] at made
    obtain ⟨wire, first, made⟩ := bind_eq_ok.mp made
    obtain ⟨wires, others, made⟩ := bind_eq_ok.mp made
    rw [ofLiterals_cons, ofLiteral_of_within item first, ofLiterals_of_within rest others]
    exact made

private theorem ofEntries_of_within : (entries : Record) → {room : Nat} → {found made : List (Text × Attribute)} →
    ofEntriesWithin (some room) found entries = .ok made → ofEntries found entries = .ok made
  | [], _, _, _, made => made
  | (key, value) :: rest, _, _, _, made => by
    rw [ofEntriesWithin] at made
    obtain ⟨name, plain, made⟩ := bind_eq_ok.mp made
    obtain ⟨item, first, made⟩ := bind_eq_ok.mp made
    rw [ofEntries_cons, plain]
    change (ofLiteral value >>= fun item => ofEntries (insertEntry name item _) rest) = _
    rw [ofLiteral_of_within value first]
    exact ofEntries_of_within rest made

end

end Attribute

end TableQuery
