/- The version that a text records.

   A version is recorded by an object that has it as a member. Any other text counts as one that records nothing,
   and so does none at all, except that JSON which is no object has no members to ask for. -/

import TableQuery.Proofs.Json.Reading
import TableQuery.Release

set_option autoImplicit false
set_option relaxedAutoImplicit false

namespace TableQuery.Release

section Recording

variable [DepthLimits]

/-- A text is read as an object, whose member for the version is a text that is not empty. -/
def Records (recording : Option Text) (version : Text) : Prop :=
  ∃ t members, recording = some t ∧ Json.read t = .ok (.object members) ∧
    (Text.ofString "version", .text version) ∈ members ∧ version ≠ []

/-- A text is read as JSON, and the first code point of it that is no white space is no brace. -/
def RecordsNoObject (recording : Option Text) : Prop :=
  ∃ t, recording = some t ∧ (Json.read t).isOk = true ∧ (Json.skipSpace t).head? ≠ some (.char '\x7b')

private theorem records_iff {t version : Text} {members : List (Text × Json)}
    (read : Json.read t = .ok (.object members)) :
    Records (some t) version ↔ Json.member? members "version" = some (.text version) ∧ version ≠ [] := by
  rw [Json.member?, find?_eq_some_iff_mem (Json.names_of_read read)]
  constructor
  · rintro ⟨_, _, ⟨⟩, read', member, filled⟩
    obtain rfl := Json.object.inj (Except.ok.inj (read.symm.trans read'))
    exact ⟨member, filled⟩
  · rintro ⟨member, filled⟩
    exact ⟨t, members, rfl, read, member, filled⟩

/-- The version of an object is the one that it records, and unknown if it records none. -/
private theorem ofText_of_object {t : Text} {members : List (Text × Json)}
    (read : Json.read t = .ok (.object members)) :
    ∃ version, ofText (some t) = .ok version ∧
      (Records (some t) version ∨ version = unknown ∧ ∀ other, ¬ Records (some t) other) := by
  simp only [records_iff read, ofText, Option.map_some, read]
  split
  · rename_i c rest found
    exact ⟨c :: rest, rfl, .inl ⟨found, List.cons_ne_nil c rest⟩⟩
  · rename_i unfilled
    refine ⟨unknown, rfl, .inr ⟨rfl, ?_⟩⟩
    rintro other ⟨found, filled⟩
    obtain ⟨c, rest, rfl⟩ := List.exists_cons_of_ne_nil filled
    exact unfilled c rest found

private theorem ofText_of_error {t : Text} {fault : JsonFault} (read : Json.read t = .error fault) :
    ofText (some t) = .ok unknown := by rw [ofText, Option.map_some, read]

private theorem ofText_of_noObject {t : Text} {value : Json} (read : Json.read t = .ok value)
    (noObject : ¬ ∃ members, value = .object members) : ofText (some t) = .error .missingMember := by
  rw [ofText, Option.map_some, read]
  cases value with
  | object members => exact absurd ⟨members, rfl⟩ noObject
  | _ => rfl

private theorem recordsNoObject_iff {t : Text} {value : Json} (read : Json.read t = .ok value) :
    RecordsNoObject (some t) ↔ ¬ ∃ members, value = .object members := by
  rw [Json.isObject_iff_of_read read]
  constructor
  · rintro ⟨_, ⟨⟩, -, other⟩
    exact other
  · intro other
    exact ⟨t, rfl, isOk_iff.mpr ⟨value, read⟩, other⟩

/-- **Reading the version fails exactly on JSON that is no object.** Whatever the text, and if there is none, the
version is a text that is not empty: the one that is recorded, or unknown if none is. It fails for want of members
when the text is JSON but no object, and never in any other way. -/
theorem version_or_noObject (recording : Option Text) :
    (RecordsNoObject recording ∧ ofText recording = .error .missingMember) ∨
      (¬ RecordsNoObject recording ∧ ∃ version, ofText recording = .ok version ∧ version ≠ [] ∧
        (Records recording version ∨ version = unknown ∧ ∀ other, ¬ Records recording other)) := by
  have filled : unknown ≠ [] := by decide
  cases recording with
  | none =>
    refine .inr ⟨?_, unknown, rfl, filled, .inr ⟨rfl, ?_⟩⟩
    · rintro ⟨_, missing, -⟩
      cases missing
    · rintro other ⟨_, _, missing, -⟩
      cases missing
  | some t =>
    cases read : Json.read t with
    | error fault =>
      refine .inr ⟨?_, unknown, ofText_of_error read, filled, .inr ⟨rfl, ?_⟩⟩
      · rintro ⟨_, ⟨⟩, isJson, -⟩
        rw [read] at isJson
        cases isJson
      · rintro other ⟨_, _, ⟨⟩, object, -⟩
        rw [read] at object
        cases object
    | ok value =>
      by_cases object : ∃ members, value = .object members
      · have anObject := mt (recordsNoObject_iff read).mp (not_not.mpr object)
        obtain ⟨members, rfl⟩ := object
        obtain ⟨version, given, origin⟩ := ofText_of_object read
        refine .inr ⟨anObject, version, given, ?_, origin⟩
        rcases origin with ⟨_, _, _, _, _, recorded⟩ | ⟨rfl, -⟩
        · exact recorded
        · exact filled
      · exact .inl ⟨(recordsNoObject_iff read).mpr object, ofText_of_noObject read object⟩

end Recording

example : (ofText (some recorded)).toOption = some (Text.ofString "0.3.0") := by decide +kernel

/-- An empty array is JSON, and it has no members to ask for. -/
theorem ofText_array :
    Json.read "[]" = .ok (.array []) ∧ ofText (some (Text.ofString "[]")) = .error .missingMember := by
  have taken : Json.takeValue DepthLimits.readable 6 [.char '[', .char ']'] = .ok (.array [], []) := by
    rw [Json.takeValue]
    rfl
  have read : Json.read [.char '[', .char ']'] = .ok (.array []) := bind_eq_ok.mpr ⟨_, taken, rfl⟩
  have brackets : Text.ofString "[]" = [.char '[', .char ']'] := by decide
  rw [brackets]
  refine ⟨read, ofText_of_noObject read ?_⟩
  rintro ⟨members, same⟩
  cases same

end TableQuery.Release
