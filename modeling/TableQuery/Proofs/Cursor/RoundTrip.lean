/- The cursor of a key map is URL-safe and reads back as the key map.

   The order of the entries leaves no mark on the cursor: attributes are written in the order of their names,
   and reading returns them in that order. -/

import TableQuery.Proofs.Base64
import TableQuery.Proofs.Cursor.Keys
import TableQuery.Proofs.Json.RoundTrip

set_option autoImplicit false
set_option relaxedAutoImplicit false

namespace TableQuery

def CodePoint.IsUrlSafe (c : CodePoint) : Prop :=
  c.liesIn [(0x30, 0x39), (0x41, 0x5A), (0x61, 0x7A)] = true ∨ c = .char '-' ∨ c = .char '_'

instance (c : CodePoint) : Decidable c.IsUrlSafe := inferInstanceAs (Decidable (_ ∨ _ ∨ _))

private theorem Base64.isUrlSafe_digit : ∀ g < 64, (CodePoint.char (Alphabet.urlSafe.digit g)).IsUrlSafe := by
  decide

private theorem CodePoint.IsUrlSafe.ascii {c : CodePoint} (h : c.IsUrlSafe) : 0x21 ≤ c.number ∧ c.number < 0x80 := by
  rcases h with h | rfl | rfl
  · simp [CodePoint.liesIn] at h
    omega
  · decide
  · decide

private theorem CodePoint.isBlank_of_ascii {c : CodePoint} (low : 0x21 ≤ c.number) (high : c.number < 0x80) :
    c.isBlank = false := by
  simp [CodePoint.isBlank, CodePoint.liesIn, CodePoint.wideBlanks]
  omega

private theorem Text.strip_eq_self {t : Text} (h : ∀ c ∈ t, c.isBlank = false) : t.strip = t := by
  have dropWhile_eq (s : Text) (hs : ∀ c ∈ s, c.isBlank = false) : s.dropWhile CodePoint.isBlank = s := by
    cases s with
    | nil => rfl
    | cons c s => exact List.dropWhile_cons_of_neg (by simp [hs c List.mem_cons_self])
  rw [Text.strip, Text.trimmed, dropWhile_eq t h, dropWhile_eq _ (by simpa using h), List.reverse_reverse]

private theorem Octets.ofAscii?_isNone {t : Text} (h : ∀ c ∈ t, c.number < 0x80) :
    (Octets.ofAscii? t).isNone = false := by
  unfold Octets.ofAscii?
  induction t with
  | nil => rfl
  | cons c t ih =>
    rw [List.mapM_cons, if_pos (h c List.mem_cons_self)]
    have rest := ih fun c member => h c (List.mem_cons_of_mem _ member)
    cases outcome : t.mapM fun c => if c.number < 0x80 then some (UInt8.ofNat c.number) else none with
    | none =>
      rw [outcome] at rest
      cases rest
    | some data => rfl

namespace KeyAttribute

private theorem encode_ascii (data : Octets) : ∀ c ∈ Base64.encode .standard data, c.number < 0x80 := by
  rw [Base64.encode, List.forall_mem_append]
  refine ⟨Base64.forall_mem_encodeBare (by decide) data, ?_⟩
  intro c member
  rw [List.eq_of_mem_replicate member]
  decide

private theorem octetsOfText_encode (data : Octets) :
    octetsOfText (Base64.encode .standard data) = .ok data := by
  rw [octetsOfText, Octets.ofAscii?_isNone (encode_ascii data), Base64.decode_encode]
  rfl

private theorem ofJson_toJson (part : KeyAttribute) : ofJson part.toJson = .ok part := by
  cases part with
  | text t => rfl
  | number numeral => rfl
  | octets data =>
    change (octetsOfText (Base64.encode .standard data)).map octets = _
    rw [octetsOfText_encode]
    rfl

theorem encode_whole (data : Octets) : Text.Whole (Base64.encode .standard data) := by
  intro c member
  have ascii := encode_ascii data c member
  cases c with
  | char x => exact ⟨x, rfl⟩
  | surrogate offset =>
    exact absurd (Nat.lt_of_le_of_lt (Nat.le_add_right _ _) ascii) (by decide)

private theorem single_ofTexts (kind : String) {depth : Nat} {t : Text} (whole : t.Whole) :
    Json.OfTexts Text.Whole (depth + 1) (.object [(Text.ofString kind, .text t)]) := by
  refine .object (List.nodup_singleton _) ?_ ?_
  · intro member hmember
    rw [List.mem_singleton.mp hmember]
    exact Text.whole_ofString kind
  · intro member hmember
    rw [List.mem_singleton.mp hmember]
    exact .text whole

private theorem toJson_ofTexts {part : KeyAttribute} (whole : part.Whole) (depth : Nat) :
    part.toJson.OfTexts Text.Whole (depth + 1) := by
  cases part with
  | text t => exact single_ofTexts "S" whole
  | number numeral => exact single_ofTexts "N" whole
  | octets data => exact single_ofTexts "B" (encode_whole data)

end KeyAttribute

namespace Key

theorem sorted_perm (key : Key) : key.sorted.Perm key := Text.sortBy_perm _ key

theorem Whole.sorted {key : Key} (whole : key.Whole) : key.sorted.Whole :=
  fun entry member => whole entry ((sorted_perm key).mem_iff.mp member)

def members (key : Key) : List (Text × Json) := key.sorted.map fun entry => (entry.1, entry.2.toJson)

theorem json_eq (key : Key) : key.json = (Json.object key.members).write := rfl

private theorem members_ofTexts {key : Key} {depth : Nat} (enough : 2 ≤ depth) (apart : (key.map Prod.fst).Nodup)
    (whole : key.Whole) : (Json.object key.members).OfTexts Text.Whole depth := by
  obtain ⟨inner, rfl⟩ := Nat.exists_eq_add_of_le' enough
  refine .object ?_ ?_ ?_
  · have names : key.members.map Prod.fst = key.sorted.map Prod.fst := by
      rw [members, List.map_map]
      rfl
    rw [names]
    exact ((sorted_perm key).map Prod.fst).nodup_iff.mpr apart
  · intro member hmember
    obtain ⟨entry, hentry, rfl⟩ := List.mem_map.mp hmember
    exact (whole.sorted entry hentry).1
  · intro member hmember
    obtain ⟨entry, hentry, rfl⟩ := List.mem_map.mp hmember
    exact KeyAttribute.toJson_ofTexts (whole.sorted entry hentry).2 inner

end Key

namespace Cursor

section

variable [DepthLimits]

private theorem keyOfJson_json {key : Key} (filled : key ≠ []) (apart : (key.map Prod.fst).Nodup)
    (whole : key.Whole) : keyOfJson key.json = .ok key.sorted := by
  have members : key.members.mapM (fun entry => (KeyAttribute.ofJson entry.2).map (entry.1, ·)) =
      .ok key.sorted := by
    rw [mapM_eq_ok, Key.members, List.forall₂_map_left_iff, List.forall₂_same]
    intro entry _
    rw [KeyAttribute.ofJson_toJson]
    rfl
  have nonempty : key.members ≠ [] := by
    rw [Key.members, Ne, List.map_eq_nil_iff]
    intro empty
    have perm := Key.sorted_perm key
    rw [empty] at perm
    exact filled perm.symm.eq_nil
  rw [keyOfJson, Key.json_eq, Json.read_write (Key.members_ofTexts DepthLimits.two_le_readable apart whole)]
  cases hmembers : key.members with
  | nil => exact absurd hmembers nonempty
  | cons member rest =>
    rw [hmembers] at members
    exact members

theorem decodeText_encodeBare {t : Text} {data : Octets} (encoded : Utf8.encode t = some data)
    (filled : data ≠ []) :
    decodeText (Base64.encodeBare .urlSafe data) = keyOfJson t := by
  have safe := Base64.forall_mem_encodeBare Base64.isUrlSafe_digit data
  have unblank : ∀ c ∈ Base64.encodeBare .urlSafe data, c.isBlank = false :=
    fun c member => CodePoint.isBlank_of_ascii (safe c member).ascii.1 (safe c member).ascii.2
  have held : content (Base64.encodeBare .urlSafe data) = .ok t := by
    rw [content, Octets.ofAscii?_isNone fun c member => (safe c member).ascii.2,
      Base64.decode_encodeBare]
    simp only [Utf8.decode_encode encoded]
    rfl
  have nonempty : Base64.encodeBare .urlSafe data ≠ [] := Base64.encodeBare_ne_nil filled
  rw [decodeText, Text.strip_eq_self unblank, held]
  rw [if_neg (by simpa using nonempty)]
  rfl

/-- A key of whole texts has a cursor; the cursor is URL-safe and holds the attributes in the order of their
names. -/
theorem decodeText_ofKey {key : Key} (filled : key ≠ []) (apart : (key.map Prod.fst).Nodup)
    (whole : key.Whole) :
    ∃ cursor, ofKey key = .ok cursor ∧ cursor ≠ [] ∧ (∀ c ∈ cursor, c.IsUrlSafe) ∧
      decodeText cursor = .ok key.sorted := by
  obtain ⟨data, encoded⟩ := Utf8.encode_eq_some (Key.members_ofTexts le_rfl apart whole).write_whole
  have data_ne : data ≠ [] := by
    rintro rfl
    have decoded := Utf8.decode_encode encoded
    cases decoded
  refine ⟨Base64.encodeBare .urlSafe data, ?_, Base64.encodeBare_ne_nil data_ne,
    Base64.forall_mem_encodeBare Base64.isUrlSafe_digit data, ?_⟩
  · rw [ofKey, Key.json_eq, encoded]
  · rw [decodeText_encodeBare encoded data_ne]
    exact keyOfJson_json filled apart whole

end

theorem ofKey_eq_of_perm {key other : Key} (apart : (key.map Prod.fst).Nodup) (perm : other.Perm key) :
    ofKey other = ofKey key := by
  have sorted : Key.sorted other = Key.sorted key := Text.sortBy_eq_of_perm apart perm
  rw [ofKey, ofKey, Key.json, Key.json, sorted]

theorem encode_heldBy {key : Key} {record : Record} (filled : record ≠ []) (held : key.HeldBy record)
    (apart : (key.map Prod.fst).Nodup) : encode (.map record) = ofKey key := by
  obtain ⟨found, hfound, perm⟩ := Key.ofRecord_perm held apart
  have present : (Value.map record).isTruthy = true := by simpa [Value.isTruthy] using filled
  rw [encode, present]
  change (Key.ofRecord record >>= ofKey) = _
  rw [hfound]
  exact ofKey_eq_of_perm apart perm

/-- A key map has a cursor of letters, digits, hyphens and low lines; the cursor reads back as a map that
equals the key map; and the same entries in another order have the same cursor. -/
theorem decode_encode_keyMap [DepthLimits] {record : Record} (h : record.IsKeyMap) :
    ∃ cursor, encode (.map record) = .ok cursor ∧ (∀ c ∈ cursor, c.IsUrlSafe) ∧
      (∃ key, decode (.text cursor) = .ok key ∧
        Value.same (.map key.toRecord) (.map record) = .ok true) ∧
      ∀ other : Record, other.Perm record → encode (.map other) = .ok cursor := by
  obtain ⟨key, held, filled, apart, whole⟩ := Key.ofKeyMap h
  obtain ⟨cursor, made, cursor_ne, safe, read⟩ := decodeText_ofKey filled apart whole
  refine ⟨cursor, ?_, safe, ⟨key.sorted, ?_, ?_⟩, ?_⟩
  · rw [encode_heldBy h.filled held apart, made]
  · have present : (Value.text cursor).isTruthy = true := by simpa [Value.isTruthy] using cursor_ne
    rw [decode, present]
    exact read
  · exact (Key.toRecord_heldBy key.sorted).same held (Key.sorted_perm key) apart
  · intro other perm
    obtain ⟨found, held', perm'⟩ := List.perm_comp_forall₂ perm held
    have apart' : (found.map Prod.fst).Nodup := (perm'.map Prod.fst).nodup_iff.mpr apart
    have filled' : other ≠ [] := by
      rintro rfl
      exact h.filled perm.symm.eq_nil
    rw [encode_heldBy filled' held' apart', ofKey_eq_of_perm apart perm', made]

/-- A key with an attribute of each kind: a quote, a line end and a letter outside ASCII, an empty name and
an empty numeral, and growable octets that need both marks of the alphabet. -/
def mixedKey : Record :=
  [(.text "venue\n", .map [(.text "S", .text "\"Café\\")]), (.text "", .map [(.text "N", .text "")]),
    (.text "at", .map [(.text "B", .octets true [0xFB, 0xFF, 0xBF, 0x00])])]

theorem decode_encode_keyMap_of_mixedKey :
    mixedKey.IsKeyMap ∧ ∃ cursor, encode (.map mixedKey) = .ok cursor ∧ (∀ c ∈ cursor, c.IsUrlSafe) ∧
      (∃ key, decode (.text cursor) = .ok key ∧
        Value.same (.map key.toRecord) (.map mixedKey) = .ok true) ∧
      encode (.map mixedKey.reverse) = .ok cursor := by
  have names : [Text.ofString "venue\n", Text.ofString "", Text.ofString "at"].Nodup := by decide
  have apart := names.map (f := Value.text) fun _ _ h => Value.text.inj h
  have isKeyMap : mixedKey.IsKeyMap :=
    { filled := List.cons_ne_nil _ _
      apart := apart
      named := by
        simp only [mixedKey, List.forall_mem_cons]
        exact ⟨⟨_, rfl, Text.whole_ofString _⟩, ⟨_, rfl, Text.whole_ofString _⟩,
          ⟨_, rfl, Text.whole_ofString _⟩, by simp⟩
      parts := by
        simp only [mixedKey, List.forall_mem_cons]
        exact ⟨⟨_, .text _, Text.whole_ofString _⟩, ⟨_, .number _, Text.whole_ofString _⟩,
          ⟨_, .octets _ _, trivial⟩, by simp⟩ }
  obtain ⟨cursor, made, safe, read, anyOrder⟩ := decode_encode_keyMap isKeyMap
  exact ⟨isKeyMap, cursor, made, safe, read, anyOrder _ (List.reverse_perm _)⟩

end Cursor

end TableQuery
