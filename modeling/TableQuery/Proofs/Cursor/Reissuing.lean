/- Cursors that are read can be issued again.

   Whatever the spelling of a cursor, the key that is read from it holds attributes under distinct names, at least
   one. If the key is without surrogate halves it has a cursor again, and this cursor is the normal form of the
   first one. Surrogate halves come from escapes alone, and they have no UTF-8 form. -/

import TableQuery.Proofs.Cursor.RoundTrip
import TableQuery.Proofs.Json.Reading

set_option autoImplicit false
set_option relaxedAutoImplicit false

namespace TableQuery

namespace Key

private theorem single_whole (kind : String) (t : Text) :
    Text.Whole (Json.object [(Text.ofString kind, .text t)]).write ↔ t.Whole := by
  have written : Text.Whole (Json.text t).write ↔ t.Whole := Json.writeText_whole
  rw [Json.write_object_whole, List.forall_mem_singleton, written]
  exact and_iff_right (Text.whole_ofString kind)

private theorem toJson_whole (part : KeyAttribute) : Text.Whole part.toJson.write ↔ part.Whole := by
  cases part with
  | text t => exact single_whole "S" t
  | number numeral => exact single_whole "N" numeral
  | octets data => exact (single_whole "B" _).trans (iff_true_intro (KeyAttribute.encode_whole data))

private theorem json_whole (key : Key) : Text.Whole key.json ↔ key.Whole := by
  have sorted : key.sorted.Whole ↔ key.Whole :=
    ⟨fun whole entry member => whole entry ((sorted_perm key).mem_iff.mpr member), Whole.sorted⟩
  rw [json_eq, Json.write_object_whole, ← sorted, members, List.forall_mem_map]
  exact forall₂_congr fun entry _ => and_congr_right fun _ => toJson_whole entry.2

end Key

namespace Cursor

theorem decode_text [DepthLimits] (c : Text) : decode (.text c) = decodeText c := by
  cases c with
  | nil => rfl
  | cons c rest => rfl

private theorem keyOfJson_eq_ok [DepthLimits] {t : Text} {key : Key} (given : keyOfJson t = .ok key) :
    ∃ members, Json.read t = .ok (.object members) ∧ members ≠ [] ∧
      List.Forall₂ (fun member entry => entry.1 = member.1 ∧ KeyAttribute.ofJson member.2 = .ok entry.2)
        members key := by
  unfold keyOfJson at given
  split at given
  next => cases given
  next => cases given
  next => cases given
  next member members read =>
    refine ⟨member :: members, read, List.cons_ne_nil _ _, (mapM_eq_ok.mp given).imp fun member entry made => ?_⟩
    obtain ⟨part, read, rfl⟩ := map_eq_ok.mp made
    exact ⟨rfl, read⟩
  next => cases given

/-- A key that is read from a cursor has attributes, under distinct names. -/
theorem decode_apart [DepthLimits] {c : Text} {key : Key} (accepted : decode (.text c) = .ok key) :
    key ≠ [] ∧ (key.map Prod.fst).Nodup := by
  rw [decode_text, decodeText] at accepted
  split at accepted
  · cases accepted
  · obtain ⟨t, -, given⟩ := bind_eq_ok.mp accepted
    obtain ⟨members, read, filled, held⟩ := keyOfJson_eq_ok given
    have names : key.map Prod.fst = members.map Prod.fst := by
      have same : List.Forall₂ (fun name other => name = other) (key.map Prod.fst) (members.map Prod.fst) := by
        rw [List.forall₂_map_left_iff, List.forall₂_map_right_iff]
        exact held.flip.imp fun _ _ holds => holds.1
      rwa [List.forall₂_eq_eq_eq] at same
    constructor
    · rintro rfl
      exact filled (List.forall₂_nil_right_iff.mp held)
    · rw [names]
      exact Json.names_of_read read

private theorem encode_toRecord {key : Key} (filled : key ≠ []) (apart : (key.map Prod.fst).Nodup) :
    encode (.map key.toRecord) = ofKey key := by
  refine encode_heldBy ?_ key.toRecord_heldBy apart
  simpa [Key.toRecord] using filled

private theorem encode_of_broken {key : Key} (filled : key ≠ []) (apart : (key.map Prod.fst).Nodup)
    (broken : ¬ key.Whole) :
    encode (.map key.toRecord) = .error .notEncodable := by
  have none : Utf8.encode key.json = none := Utf8.encode_eq_none fun whole => broken ((Key.json_whole key).mp whole)
  rw [encode_toRecord filled apart, ofKey, none]

/-- **Cursors are issued again.** A key that is read from a cursor of any spelling has a cursor exactly when it is
without surrogate halves. This cursor reads back as a key that equals the first one, and that has this very cursor.
Otherwise the key cannot be encoded. -/
theorem reissues [DepthLimits] {c : Text} {key : Key} (accepted : decode (.text c) = .ok key) :
    (key.Whole → ∃ cursor, encode (.map key.toRecord) = .ok cursor ∧
      ∃ again, decode (.text cursor) = .ok again ∧
        Value.same (.map again.toRecord) (.map key.toRecord) = .ok true ∧
        encode (.map again.toRecord) = .ok cursor) ∧
      (¬ key.Whole → encode (.map key.toRecord) = .error .notEncodable) := by
  obtain ⟨filled, apart⟩ := decode_apart accepted
  constructor
  · intro whole
    obtain ⟨cursor, made, -, -, read⟩ := decodeText_ofKey filled apart whole
    have perm := Key.sorted_perm key
    have filled' : key.sorted ≠ [] := fun empty => filled (empty ▸ perm).symm.eq_nil
    have apart' : (key.sorted.map Prod.fst).Nodup := (perm.map Prod.fst).nodup_iff.mpr apart
    refine ⟨cursor, ?_, key.sorted, ?_, ?_, ?_⟩
    · rw [encode_toRecord filled apart, made]
    · rw [decode_text, read]
    · exact (Key.toRecord_heldBy key.sorted).same key.toRecord_heldBy perm apart
    · rw [encode_toRecord filled' apart', ofKey_eq_of_perm apart perm, made]
  · exact encode_of_broken filled apart

/-- A cursor with white space around it, a foreign character in it, padding of its own, members in another order, an
escape that is not needed, and two members of one name. -/
theorem reissues_of_unusual_spelling :
    let key : Key := [("b", .number "2"), ("a", .text "x")]
    decode (.text " eyJiIjp7Ik4iOiIxIn0sICJhIjp7IlMiOi!JcdTAwNzgifSwgImIiOnsiTiI6IjIifX0=\n") = .ok key ∧
      ∃ cursor, encode (.map key.toRecord) = .ok cursor ∧
        ∃ again, decode (.text cursor) = .ok again ∧
          Value.same (.map again.toRecord) (.map key.toRecord) = .ok true ∧
          encode (.map again.toRecord) = .ok cursor := by
  intro key
  have accepted := eq_ok_of_toOption (by decide +kernel :
    (decode (.text " eyJiIjp7Ik4iOiIxIn0sICJhIjp7IlMiOi!JcdTAwNzgifSwgImIiOnsiTiI6IjIifX0=\n")).toOption = some key)
  refine ⟨accepted, (reissues accepted).1 ?_⟩
  exact List.forall_mem_cons.mpr ⟨⟨Text.whole_ofString "b", Text.whole_ofString "2"⟩,
    List.forall_mem_singleton.mpr ⟨Text.whole_ofString "a", Text.whole_ofString "x"⟩⟩

/-- A surrogate half that a cursor spells by an escape is read, and it cannot be encoded. -/
theorem half_not_reissued :
    decode (.text "eyJhIjp7IlMiOiJcdWQ4MDAifX0") = .ok [("a", .text [.surrogate 0])] ∧
      encode (.map (Key.toRecord [("a", .text [.surrogate 0])])) = .error .notEncodable := by
  constructor
  · exact eq_ok_of_toOption (by decide +kernel)
  · refine encode_of_broken (List.cons_ne_nil _ _) (List.nodup_singleton _) ?_
    intro whole
    obtain ⟨x, same⟩ := (whole _ List.mem_cons_self).2 _ List.mem_cons_self
    cases same

end Cursor

end TableQuery
