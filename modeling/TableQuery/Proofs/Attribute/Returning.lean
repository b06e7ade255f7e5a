/- Literals come back from the wire.

   A literal is given a wire form, and the wire form is read again as part of an item. What is read is the literal
   with its numbers as decimal numbers, its tuples as lists, its octets as binaries and its sets as plain sets. -/

import TableQuery.Page
import TableQuery.Proofs.Attribute.Encoding
import TableQuery.Proofs.Number.Writing
import TableQuery.Proofs.Value.Equality

set_option autoImplicit false
set_option relaxedAutoImplicit false

namespace TableQuery

namespace Value

/-- The members of sets that come back: truth values, whole numbers and finite decimal numbers, texts, octets of the
fixed kind, and binaries. -/
inductive IsMember : Value → Prop
  | bool (b : Bool) : IsMember (.bool b)
  | int (n : Int) : IsMember (.int n)
  | decimal (negative : Bool) (coefficient : Nat) (exponent : Int) :
      IsMember (.decimal (.finite negative coefficient exponent))
  | text (t : Text) : IsMember (.text t)
  | octets (data : Octets) : IsMember (.octets false data)
  | binary (data : Octets) : IsMember (.binary data)

/-- The literals that come back: numbers are finite, the keys of maps are distinct texts, and the members of a set
are different from each other. -/
inductive IsLiteral : Value → Prop
  | null : IsLiteral .null
  | bool (b : Bool) : IsLiteral (.bool b)
  | int (n : Int) : IsLiteral (.int n)
  | decimal (negative : Bool) (coefficient : Nat) (exponent : Int) :
      IsLiteral (.decimal (.finite negative coefficient exponent))
  | float (negative : Bool) (mantissa : Nat) (exponent : Int) (form : IsBinary64 mantissa exponent) :
      IsLiteral (.float (.finite negative mantissa exponent form))
  | text (t : Text) : IsLiteral (.text t)
  | octets (growable : Bool) (data : Octets) : IsLiteral (.octets growable data)
  | binary (data : Octets) : IsLiteral (.binary data)
  | list {items : List Value} (each : ∀ item ∈ items, IsLiteral item) : IsLiteral (.list items)
  | tuple {items : List Value} (each : ∀ item ∈ items, IsLiteral item) : IsLiteral (.tuple items)
  | map {entries : List (Text × Value)} (apart : (entries.map Prod.fst).Nodup)
      (each : ∀ entry ∈ entries, IsLiteral entry.2) : IsLiteral (.map (Record.ofTexts entries))
  | set (frozen : Bool) {members : List Value} (each : ∀ v ∈ members, IsMember v)
      (apart : members.Pairwise fun a b => sameKey a b = false) : IsLiteral (.set frozen members)

/-- A member of a set as it comes back: numbers as decimal numbers, octets as binaries. -/
def returnedMember : Value → Value
  | .bool b => .decimal (.ofInt (if b then 1 else 0))
  | .int n => .decimal (.ofInt n)
  | .octets _ data => .binary data
  | v => v

mutual

/-- A literal as it comes back: numbers as decimal numbers, a floating-point number as the one that its shortest
form stands for, octets as binaries, tuples as lists and sets as plain sets. -/
def returned : Value → Value
  | .int n => .decimal (.ofInt n)
  | .float x => .decimal x.decimal
  | .octets _ data => .binary data
  | .list items => .list (returnedItems items)
  | .tuple items => .list (returnedItems items)
  | .set _ members => .set false (members.map returnedMember)
  | .map entries => .map (returnedEntries entries)
  | v => v
termination_by structural v => v

def returnedItems : List Value → List Value
  | [] => []
  | item :: rest => item.returned :: returnedItems rest
termination_by structural items => items

def returnedEntries : List (Value × Value) → List (Value × Value)
  | [] => []
  | (key, value) :: rest => (key, value.returned) :: returnedEntries rest
termination_by structural entries => entries

end

mutual

/-- A literal with lists in the place of tuples, and with decimal numbers of the same text in the place of
floating-point ones. -/
def leveled : Value → Value
  | .float x => .decimal x.decimal
  | .list items => .list (leveledItems items)
  | .tuple items => .list (leveledItems items)
  | .map entries => .map (leveledEntries entries)
  | v => v
termination_by structural v => v

def leveledItems : List Value → List Value
  | [] => []
  | item :: rest => item.leveled :: leveledItems rest
termination_by structural items => items

def leveledEntries : List (Value × Value) → List (Value × Value)
  | [] => []
  | (key, value) :: rest => (key, value.leveled) :: leveledEntries rest
termination_by structural entries => entries

end

private theorem returnedItems_eq (items : List Value) : returnedItems items = items.map returned := by
  induction items with
  | nil => rfl
  | cons item rest ih => rw [returnedItems, ih, List.map_cons]

private theorem leveledItems_eq (items : List Value) : leveledItems items = items.map leveled := by
  induction items with
  | nil => rfl
  | cons item rest ih => rw [leveledItems, ih, List.map_cons]

private theorem returnedEntries_ofTexts (entries : List (Text × Value)) :
    returnedEntries (Record.ofTexts entries) =
      Record.ofTexts (entries.map fun entry => (entry.1, entry.2.returned)) := by
  induction entries with
  | nil => rfl
  | cons entry rest ih => exact congrArg _ ih

private theorem leveledEntries_ofTexts (entries : List (Text × Value)) :
    leveledEntries (Record.ofTexts entries) =
      Record.ofTexts (entries.map fun entry => (entry.1, entry.2.leveled)) := by
  induction entries with
  | nil => rfl
  | cons entry rest ih => exact congrArg _ ih

end Value

namespace Attribute

open Value

private theorem decodeNumber_of_numeral {negative : Bool} {coefficient : Nat} {exponent : Int} {t : Text}
    (made : numeral (.finite negative coefficient exponent) = .ok t) :
    decodeNumber (.text t) = .ok (.finite negative coefficient exponent) := by
  unfold numeral at made
  split at made
  next => cases made
  next fitted fits =>
    have same : fitted = .finite negative coefficient exponent := by
      rw [Precision.fit] at fits
      split at fits
      · cases fits
      · exact (Except.ok.inj fits).symm
    subst same
    dsimp only at made
    split at made
    next => cases made
    next =>
      obtain rfl := Except.ok.inj made
      rw [decodeNumber, Decimal.read_text_finite, Option.getD_some, fitted, fits]

private theorem ofMembers_cases {members : List Value} {wire : Attribute} (made : ofMembers members = .ok wire) :
    (∃ numerals, wire = .numbers numerals ∧
      List.Forall₂ (fun v t => ∃ x, exactNumber? v = some x ∧ numeral x = .ok t) members numerals) ∨
    (∃ ts, wire = .texts ts ∧ List.Forall₂ (fun v t => textOf? v = some t) members ts) ∨
    (∃ items, wire = .binaries items ∧ List.Forall₂ (fun v item => octetsOf? v = some item) members items) := by
  unfold ofMembers at made
  split at made
  next xs exact =>
    obtain ⟨numerals, written, rfl⟩ := map_eq_ok.mp made
    refine .inl ⟨numerals, rfl, ?_⟩
    exact forall₂_join (mapM_eq_some.mp exact) (mapM_eq_ok.mp written)
  next ts _ texts =>
    obtain rfl := Except.ok.inj made
    exact .inr (.inl ⟨ts, rfl, mapM_eq_some.mp texts⟩)
  next items _ _ octets =>
    obtain rfl := Except.ok.inj made
    exact .inr (.inr ⟨items, rfl, mapM_eq_some.mp octets⟩)
  next => cases made

private theorem decodeSet_eq_ok {rule : Value → Except Fault Value} {items members : List Value}
    (each : List.Forall₂ (fun item v => rule item = .ok v ∧ v.isKey = true) items members)
    (apart : members.Pairwise fun a b => sameKey a b = false) :
    decodeSet rule (.list items) = .ok (.set false members) := by
  have read : (items.mapM fun item => (rule item).bind Attribute.member) = .ok members := by
    refine mapM_eq_ok.mpr (each.imp fun item v holds => ?_)
    rw [holds.1]
    exact if_pos holds.2
  unfold decodeSet
  exact bind_eq_ok.mpr ⟨items, rfl, bind_eq_ok.mpr ⟨members, read, by rw [distinct_of_pairwise apart]; rfl⟩⟩

private theorem sameKey_returnedMember {v w : Value} (hv : v.IsMember) (hw : w.IsMember) :
    sameKey v.returnedMember w.returnedMember = sameKey v w := by
  cases hv <;> cases hw <;> rfl

private theorem isKey_returnedMember {v : Value} (hv : v.IsMember) : v.returnedMember.isKey = true := by
  cases hv <;> rfl

private theorem same_returnedMember {v : Value} (hv : v.IsMember) : v.returnedMember.same v = .ok true := by
  cases hv with
  | decimal negative coefficient exponent => exact same_decimal_self negative coefficient exponent
  | bool b => cases b <;> decide
  | int n => exact same_decimal_self _ _ _
  | text t => simp [returnedMember, same]
  | octets data => simp [returnedMember, same, octets?]
  | binary data => simp [returnedMember, same, octets?]

private theorem decodeNumber_of_member {v : Value} (hv : v.IsMember) {x : Decimal} {t : Text}
    (number : exactNumber? v = some x) (made : numeral x = .ok t) :
    (decodeNumber (.text t)).map .decimal = .ok v.returnedMember := by
  cases hv with
  | bool b =>
    obtain rfl := Option.some.inj number
    rw [Decimal.ofInt] at made
    rw [decodeNumber_of_numeral made]
    rfl
  | int n =>
    obtain rfl := Option.some.inj number
    rw [decodeNumber_of_numeral made]
    rfl
  | decimal negative coefficient exponent =>
    obtain rfl := Option.some.inj number
    rw [decodeNumber_of_numeral made]
    rfl
  | _ => cases number

section Sets

variable {members : List Value} (each : ∀ v ∈ members, IsMember v)
  (apart : members.Pairwise fun a b => sameKey a b = false)

include each apart

private theorem decodeSet_of_members {α : Type} {rule : Value → Except Fault Value} {content : α → Value}
    {stands : Value → α → Prop} {contents : List α} (held : List.Forall₂ stands members contents)
    (read : ∀ v c, v.IsMember → stands v c → rule (content c) = .ok v.returnedMember) :
    decodeSet rule (.list (contents.map content)) = .ok (.set false (members.map returnedMember)) := by
  refine decodeSet_eq_ok ?_ ?_
  · rw [List.forall₂_map_left_iff, List.forall₂_map_right_iff]
    refine ((List.forall₂_and_left _ _).mpr ⟨each, held⟩).flip.imp fun c v holds => ?_
    exact ⟨read v c holds.1 holds.2, isKey_returnedMember holds.1⟩
  · rw [List.pairwise_map]
    refine apart.imp_of_mem fun {v w} hv hw different => ?_
    rw [sameKey_returnedMember (each v hv) (each w hw), different]

private theorem decode_of_members {frozen : Bool} {wire : Attribute} (made : ofMembers members = .ok wire) :
    decode wire.toValue = .ok (returned (.set frozen members)) := by
  rcases ofMembers_cases made with ⟨numerals, rfl, held⟩ | ⟨ts, rfl, held⟩ | ⟨items, rfl, held⟩
  · refine decodeSet_of_members each apart held ?_
    rintro v t member ⟨x, number, written⟩
    exact decodeNumber_of_member member number written
  · refine decodeSet_of_members each apart held ?_
    intro v t member text
    cases member with
    | text t =>
      obtain rfl := Option.some.inj text
      rfl
    | _ => cases text
  · refine decodeSet_of_members each apart held ?_
    intro v item member octets
    cases member with
    | octets data =>
      obtain rfl := Option.some.inj octets
      rfl
    | binary data =>
      obtain rfl := Option.some.inj octets
      rfl
    | _ => cases octets

end Sets

private theorem decodeItems_eq_ok {items : List Attribute} {values : List Value}
    (each : List.Forall₂ (fun item v => decode item.toValue = .ok v) items values) :
    decodeItems (toValues items) = .ok values := by
  induction each with
  | nil => rfl
  | cons first _ ih =>
    rw [toValues, decodeItems, first, ih]
    rfl

private theorem decodeEntries_eq_ok {entries : List (Text × Attribute)} {named : List (Text × Value)}
    (each : List.Forall₂ (fun entry part => entry.1 = part.1 ∧ decode entry.2.toValue = .ok part.2) entries named) :
    decodeEntries (toRecord entries) = .ok (Record.ofTexts named) := by
  induction each with
  | nil => rfl
  | @cons entry part _ _ first _ ih =>
    obtain ⟨name, item⟩ := entry
    obtain ⟨rfl, read⟩ : name = part.1 ∧ decode item.toValue = .ok part.2 := first
    rw [toRecord, decodeEntries, read, ih]
    rfl

private theorem ofEntries_ofTexts {entries : List (Text × Value)} {found made : List (Text × Attribute)}
    (run : ofEntries found (Record.ofTexts entries) = .ok made)
    (apart : (found.map Prod.fst ++ entries.map Prod.fst).Nodup) :
    ∃ more, made = found ++ more ∧
      List.Forall₂ (fun entry item => item.1 = entry.1 ∧ ofLiteral entry.2 = .ok item.2) entries more := by
  induction entries generalizing found with
  | nil =>
    obtain rfl := Except.ok.inj run
    exact ⟨[], (List.append_nil found).symm, .nil⟩
  | cons entry entries ih =>
    obtain ⟨name, literal⟩ := entry
    obtain ⟨_, plain, run⟩ := bind_eq_ok.mp run
    obtain rfl := Except.ok.inj plain
    obtain ⟨item, first, run⟩ := bind_eq_ok.mp run
    have fresh : name ∉ found.map Prod.fst := fun member =>
      (List.nodup_append.mp apart).2.2 name member name List.mem_cons_self rfl
    rw [insertEntry_eq, putNamed_of_notMem fresh] at run
    obtain ⟨more, rfl, others⟩ := ih run (by simpa using apart)
    exact ⟨(name, item) :: more, List.append_assoc _ _ _, .cons ⟨rfl, first⟩ others⟩

/-- A literal comes back if its wire form is read as the literal that it should come back as. -/
def Returns (v : Value) : Prop :=
  ∀ wire, ofLiteral v = .ok wire → decode wire.toValue = .ok v.returned

private theorem items_return {items : List Value} {wires : List Attribute} (made : ofLiterals items = .ok wires)
    (each : ∀ item ∈ items, Returns item) : decodeItems (toValues wires) = .ok (returnedItems items) := by
  have held := (List.forall₂_and_left _ _).mpr ⟨each, ofLiterals_eq_ok.mp made⟩
  rw [returnedItems_eq]
  refine decodeItems_eq_ok ?_
  rw [List.forall₂_map_right_iff]
  exact held.flip.imp fun wire v holds => holds.1 wire holds.2

private theorem entries_return {entries : List (Text × Value)} {wires : List (Text × Attribute)}
    (held : List.Forall₂ (fun entry wire => wire.1 = entry.1 ∧ ofLiteral entry.2 = .ok wire.2) entries wires)
    (each : ∀ entry ∈ entries, Returns entry.2) :
    decodeEntries (toRecord wires) = .ok (returnedEntries (Record.ofTexts entries)) := by
  have held := (List.forall₂_and_left _ _).mpr ⟨each, held⟩
  rw [returnedEntries_ofTexts]
  refine decodeEntries_eq_ok ?_
  rw [List.forall₂_map_right_iff]
  exact held.flip.imp fun wire entry holds => ⟨holds.2.1, holds.1 wire.2 holds.2.2⟩

/-- The wire form of a literal is read as the literal that comes back. -/
private theorem returns_of_literal {v : Value} (literal : v.IsLiteral) : Returns v := by
  have number : ∀ {negative coefficient exponent t},
      numeral (.finite negative coefficient exponent) = .ok t →
        decode (Attribute.number t).toValue = .ok (.decimal (.finite negative coefficient exponent)) := by
    intro negative coefficient exponent t written
    have read : decode (Attribute.number t).toValue = (decodeNumber (.text t)).map .decimal := rfl
    rw [read, decodeNumber_of_numeral written]
    rfl
  induction literal with
  | null | bool | text | octets | binary =>
    intro wire made
    obtain rfl := Except.ok.inj made
    rfl
  | int n =>
    intro wire made
    obtain ⟨t, written, rfl⟩ := map_eq_ok.mp (ofPlainLiteral_eq_ok.mp made)
    exact number written
  | decimal negative coefficient exponent =>
    intro wire made
    obtain ⟨t, written, rfl⟩ := map_eq_ok.mp (ofPlainLiteral_eq_ok.mp made)
    exact number written
  | float negative mantissa exponent form =>
    intro wire made
    obtain ⟨t, written, rfl⟩ := map_eq_ok.mp (ofPlainLiteral_eq_ok.mp made)
    obtain ⟨sign, coefficient, power, finite⟩ := Binary64.decimal_finite negative mantissa exponent form
    rw [returned, finite]
    rw [finite] at written
    exact number written
  | @list items _ ih =>
    intro wire made
    obtain ⟨wires, written, rfl⟩ := map_eq_ok.mp made
    exact congrArg (Except.map Value.list) (items_return written ih)
  | @tuple items _ ih =>
    intro wire made
    obtain ⟨wires, written, rfl⟩ := map_eq_ok.mp made
    exact congrArg (Except.map Value.list) (items_return written ih)
  | @map entries apart _ ih =>
    intro wire made
    obtain ⟨wires, written, rfl⟩ := map_eq_ok.mp made
    obtain ⟨_, rfl, held⟩ := ofEntries_ofTexts written apart
    exact congrArg (Except.map Value.map) (entries_return held ih)
  | set frozen each apart =>
    intro wire made
    exact decode_of_members each apart (ofPlainLiteral_eq_ok.mp made)

/-- What comes back equals the literal with lists for tuples and decimal numbers for floating-point ones. -/
private theorem returned_same {v : Value} (literal : v.IsLiteral) : v.returned.same v.leveled = .ok true := by
  have items_same {items : List Value} (each : ∀ item ∈ items, item.returned.same item.leveled = .ok true) :
      List.Forall₂ (fun a b => a.same b = .ok true) (returnedItems items) (leveledItems items) := by
    rw [returnedItems_eq, leveledItems_eq, List.forall₂_map_left_iff, List.forall₂_map_right_iff, List.forall₂_same]
    exact each
  induction literal with
  | null => rfl
  | bool b => cases b <;> decide
  | int n => exact same_decimal_self _ _ _
  | decimal negative coefficient exponent => exact same_decimal_self _ _ _
  | float negative mantissa exponent form =>
    obtain ⟨sign, coefficient, power, finite⟩ := Binary64.decimal_finite negative mantissa exponent form
    rw [returned, leveled, finite]
    exact same_decimal_self sign coefficient power
  | text t => simp [returned, leveled, same]
  | octets growable data => simp [returned, leveled, same, octets?]
  | binary data => simp [returned, leveled, same, octets?]
  | list _ ih => exact same_list (items_same ih)
  | tuple _ ih => exact same_list (items_same ih)
  | @map entries apart _ ih =>
    rw [returned, leveled, returnedEntries_ofTexts, leveledEntries_ofTexts]
    have names : (entries.map fun entry => (entry.1, entry.2.leveled)).map Prod.fst = entries.map Prod.fst := by
      rw [List.map_map]
      rfl
    refine same_ofTexts (names ▸ apart) ?_
    rw [List.forall₂_map_left_iff, List.forall₂_map_right_iff, List.forall₂_same]
    exact fun entry member => ⟨rfl, ih entry member⟩
  | @set frozen members each apart =>
    refine same_set ?_
    rw [List.forall₂_map_left_iff, List.forall₂_same]
    exact fun v member => same_returnedMember (each v member)

end Attribute

/-- An item of the wire holds literals under their names, each in its wire form. -/
def Record.IsItemOf (item : Value) (literals : List (Text × Value)) : Prop :=
  ∃ wires, item = .map (Attribute.toRecord wires) ∧
    List.Forall₂ (fun entry wire => wire.1 = entry.1 ∧ Attribute.ofLiteral entry.2 = .ok wire.2) literals wires

/-- **Literals come back from the wire.** Literals of any depth that get wire forms, and that a page holds in its
items, are read from the page: numbers as decimal numbers of the same value, tuples as lists, octets as binaries
and sets as plain sets. But for tuples and floating-point numbers, which come back as lists and as the decimal
numbers of the same text, what is read equals the literal. -/
theorem Page.literals_come_back {page : Page} {items : List (List (Text × Value))}
    (literals : ∀ item ∈ items, ∀ entry ∈ item, entry.2.IsLiteral)
    (held : List.Forall₂ Record.IsItemOf page.items items) :
    page.plainItems =
        .ok (items.map fun item => Record.ofTexts (item.map fun entry => (entry.1, entry.2.returned))) ∧
      ∀ item ∈ items, ∀ entry ∈ item, entry.2.returned.same entry.2.leveled = .ok true := by
  constructor
  · refine mapM_eq_ok.mpr ?_
    rw [List.forall₂_map_right_iff]
    refine ((List.forall₂_and_left _ _).mpr ⟨literals, held.flip⟩).flip.imp fun value item holds => ?_
    obtain ⟨each, wires, rfl, held⟩ := holds
    have read := Attribute.entries_return held fun entry member => Attribute.returns_of_literal (each entry member)
    rw [Value.returnedEntries_ofTexts] at read
    exact read
  · intro item member entry among
    exact Attribute.returned_same (literals item member entry among)

def Record.mixedItem (x : Binary64) : List (Text × Value) :=
  [("limits", .tuple [.int 3, .float x, .list []]),
    ("parts", .map (Record.ofTexts
      [("flags", .set true [.bool true, .decimal (.finite false 150 (-2))]), ("seal", .octets true [0x00]),
        ("none", .set false [])]))]

/-- The floating-point number is one half. -/
theorem Page.literals_come_back_of_mixedItem :
    ∃ x : Binary64, x.decimal = .finite false 5 (-1) ∧
      (∀ item ∈ [Record.mixedItem x], ∀ entry ∈ item, entry.2.IsLiteral) ∧
      ∃ page : Page, List.Forall₂ Record.IsItemOf page.items [Record.mixedItem x] ∧
        page.plainItems = .ok
          [[(.text "limits", .list [.decimal (.finite false 3 0), .decimal (.finite false 5 (-1)), .list []]),
            (.text "parts", .map
              [(.text "flags", .set false [.decimal (.finite false 1 0), .decimal (.finite false 150 (-2))]),
                (.text "seal", .binary [0x00]), (.text "none", .set false [])])]] := by
  obtain ⟨mantissa, exponent, form, half⟩ : ∃ mantissa exponent form,
      (Binary64.finite false mantissa exponent form).decimal = .finite false 5 (-1) :=
    ⟨4503599627370496, -53, by decide, by decide +kernel⟩
  generalize known : Binary64.finite false mantissa exponent form = x at half
  have empty {holds : Value → Prop} : ∀ v ∈ ([] : List Value), holds v := List.forall_mem_nil _
  have literals : ∀ item ∈ [Record.mixedItem x], ∀ entry ∈ item, entry.2.IsLiteral := by
    have limits : Value.IsLiteral (.tuple [.int 3, .float x, .list []]) := by
      rw [← known]
      exact .tuple (List.forall_mem_cons.mpr ⟨.int 3, List.forall_mem_cons.mpr
        ⟨.float false mantissa exponent form, List.forall_mem_singleton.mpr (.list empty)⟩⟩)
    have flags : Value.IsLiteral (.set true [.bool true, .decimal (.finite false 150 (-2))]) :=
      .set true (List.forall_mem_cons.mpr ⟨.bool true, List.forall_mem_singleton.mpr (.decimal false 150 (-2))⟩)
        (by decide +kernel)
    refine List.forall_mem_singleton.mpr (List.forall_mem_cons.mpr
      ⟨limits, List.forall_mem_singleton.mpr (.map (by decide) ?_)⟩)
    exact List.forall_mem_cons.mpr ⟨flags, List.forall_mem_cons.mpr
      ⟨.octets true [0x00], List.forall_mem_singleton.mpr (.set false empty .nil)⟩⟩
  let wires : List (Text × Attribute) :=
    [("limits", .list [.number "3", .number "0.5", .list []]),
      ("parts", .map [("flags", .numbers ["1", "1.50"]), ("seal", .octets true [0x00]), ("none", .numbers [])])]
  have number : Attribute.ofPlain (.decimal x.decimal) = .ok (.number "0.5") := by
    rw [half]
    rfl
  have float : Attribute.ofLiteral (.float x) = .ok (.number "0.5") := Attribute.ofPlainLiteral_eq_ok.mpr number
  have limits : Attribute.ofLiteral (.tuple [.int 3, .float x, .list []]) =
      .ok (.list [.number "3", .number "0.5", .list []]) :=
    congrArg (Except.map Attribute.list) (Attribute.ofLiterals_eq_ok.mpr (.cons rfl (.cons float (.cons rfl .nil))))
  have held : Record.IsItemOf (.map (Attribute.toRecord wires)) (Record.mixedItem x) :=
    ⟨wires, rfl, .cons ⟨rfl, limits⟩ (.cons ⟨rfl, rfl⟩ .nil)⟩
  let page : Page :=
    { items := [.map (Attribute.toRecord wires)], count := 1, scannedCount := 1, lastKey := .null,
      consumedCapacity := .null, truncated := false }
  have back := (page.literals_come_back literals (.cons held .nil)).1
  refine ⟨x, half, literals, page, .cons held .nil, ?_⟩
  rw [← half]
  exact back

end TableQuery
