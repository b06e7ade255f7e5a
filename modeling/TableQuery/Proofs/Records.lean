/- Records under their text keys: what putting and asking for a value do to one another. -/

import Mathlib.Data.List.Induction
import Mathlib.Data.List.Nodup
import TableQuery.Value.Conversion

set_option autoImplicit false
set_option relaxedAutoImplicit false

namespace TableQuery

theorem Value.isText_iff {v : Value} {t : Text} : v.isText t = true ↔ v = .text t := by
  cases v <;> simp [Value.isText]

@[simp] theorem Value.isText_text (s t : Text) : (Value.text s).isText t = (s == t) := rfl

theorem Value.plain_eq_ok {v : Value} {t : Text} : v.plain = .ok t ↔ v.plain? = some t := by
  unfold plain
  cases v.plain? <;> simp

theorem Value.plain_eq_error {v : Value} {fault : Fault} :
    v.plain = .error fault ↔ v.plain? = none ∧ v.plainFault = fault := by
  unfold plain
  cases v.plain? <;> simp

theorem Value.quote_eq_ok {v : Value} {t : Text} : v.quote = .ok t ↔ v.quoted? = some t := by
  unfold quote
  cases v.quoted? <;> simp

theorem Value.quote_eq_error {v : Value} {fault : Fault} :
    v.quote = .error fault ↔ v.quoted? = none ∧ Fault.unusable .integerUnwritable = fault := by
  unfold quote
  cases v.quoted? <;> simp

section Named

variable {α : Type}

/-- Puts what stands under a name into a list: in the place of what had the name, and at the end otherwise. -/
def putNamed (name : Text) (a : α) : List (Text × α) → List (Text × α)
  | [] => [(name, a)]
  | entry :: rest => if entry.1 = name then (name, a) :: rest else entry :: putNamed name a rest

theorem putNamed_of_notMem {name : Text} {named : List (Text × α)} (fresh : name ∉ named.map Prod.fst) (a : α) :
    putNamed name a named = named ++ [(name, a)] := by
  induction named with
  | nil => rfl
  | cons entry named ih =>
    rw [List.map_cons, List.mem_cons, not_or] at fresh
    rw [putNamed, if_neg (Ne.symm fresh.1), ih fresh.2, List.cons_append]

private theorem names_putNamed (name : Text) (a : α) (named : List (Text × α)) :
    (putNamed name a named).map Prod.fst =
      if name ∈ named.map Prod.fst then named.map Prod.fst else named.map Prod.fst ++ [name] := by
  induction named with
  | nil => rfl
  | cons entry named ih =>
    rw [putNamed]
    by_cases taken : entry.1 = name
    · subst taken
      simp
    · rw [if_neg taken, List.map_cons, ih, List.map_cons]
      by_cases later : name ∈ named.map Prod.fst
      · rw [if_pos later, if_pos (List.mem_cons_of_mem _ later)]
      · rw [if_neg later, if_neg (List.not_mem_cons_of_ne_of_not_mem (Ne.symm taken) later), List.cons_append]

theorem nodup_putNamed (name : Text) (a : α) {named : List (Text × α)} (apart : (named.map Prod.fst).Nodup) :
    ((putNamed name a named).map Prod.fst).Nodup := by
  rw [names_putNamed]
  split
  · exact apart
  next fresh =>
    refine List.nodup_append.mpr ⟨apart, List.nodup_singleton name, fun other before _ last => ?_⟩
    rintro rfl
    rw [List.mem_singleton.mp last] at before
    exact fresh before

theorem find?_eq_some_iff_mem {entries : List (Text × α)}
    (apart : (entries.map Prod.fst).Nodup) {name : Text} {a : α} :
    (entries.find? fun entry => entry.1 = name).map (·.2) = some a ↔ (name, a) ∈ entries := by
  induction entries with
  | nil => simp
  | cons entry entries ih =>
    rw [List.map_cons, List.nodup_cons] at apart
    rw [List.find?_cons, List.mem_cons]
    by_cases here : entry.1 = name
    · have later : (name, a) ∉ entries :=
        fun member => apart.1 (here ▸ List.mem_map_of_mem (f := Prod.fst) member)
      obtain ⟨first, b⟩ := entry
      obtain rfl : first = name := here
      simp [later, eq_comm]
    · have other : (name, a) ≠ entry := fun same => here (same ▸ rfl)
      simp only [here, decide_false, other, false_or]
      exact ih apart.2

end Named

namespace Record

@[simp] theorem get?_nil (name : Text) : Record.get? [] name = none := rfl

theorem get?_cons (key value : Value) (rest : Record) (name : Text) :
    Record.get? ((key, value) :: rest) name =
      if key.isText name then some value else Record.get? rest name := by
  unfold Record.get?
  rw [List.find?_cons]
  cases key.isText name <;> rfl

private theorem get_cons (key value : Value) (rest : Record) (name : Text) :
    Record.get ((key, value) :: rest) name =
      if key.isText name then value else Record.get rest name := by
  unfold Record.get
  rw [get?_cons]
  split <;> rfl

theorem get?_put_self (record : Record) (name : Text) (value : Value) :
    (record.put name value).get? name = some value := by
  induction record with
  | nil => simp [Record.put, get?_cons]
  | cons entry rest ih =>
    obtain ⟨key, old⟩ := entry
    rw [Record.put]
    split
    · rename_i h
      rw [get?_cons, if_pos h]
    · rename_i h
      rw [get?_cons, if_neg h, ih]

theorem get?_put_of_ne (record : Record) {name other : Text} (value : Value) (h : name ≠ other) :
    (record.put name value).get? other = record.get? other := by
  have absent : (Value.text name).isText other = false := by simpa using h
  induction record with
  | nil => simp [Record.put, get?_cons, absent]
  | cons entry rest ih =>
    obtain ⟨key, old⟩ := entry
    rw [Record.put]
    split
    · rename_i hkey
      obtain rfl := Value.isText_iff.mp hkey
      simp [get?_cons, h]
    · rw [get?_cons, get?_cons, ih]

@[simp] theorem get_put_self (record : Record) (name : Text) (value : Value) :
    (record.put name value).get name = value := by
  rw [Record.get, get?_put_self, Option.getD_some]

theorem get_put_of_ne (record : Record) {name other : Text} (value : Value) (h : name ≠ other) :
    (record.put name value).get other = record.get other := by
  rw [Record.get, get?_put_of_ne record value h, Record.get]

theorem put_of_get?_eq_some {record : Record} {name : Text} {value : Value}
    (h : record.get? name = some value) : record.put name value = record := by
  induction record with
  | nil => cases h
  | cons entry rest ih =>
    obtain ⟨key, old⟩ := entry
    rw [get?_cons] at h
    rw [Record.put]
    split at h
    · obtain rfl := Option.some.inj h
      rw [if_pos ‹_›]
    · rw [if_neg ‹_›, ih h]

private theorem put_put_self (record : Record) (name : Text) (earlier later : Value) :
    (record.put name earlier).put name later = record.put name later := by
  induction record with
  | nil => simp [Record.put]
  | cons entry rest ih =>
    rw [Record.put, Record.put]
    split
    · rw [Record.put, if_pos ‹_›]
    · rw [Record.put, if_neg ‹_›, ih]

theorem put_comm (record : Record) {name other : Text} (value last : Value) (h : name ≠ other)
    (there : (record.get? other).isSome) :
    (record.put name value).put other last = (record.put other last).put name value := by
  induction record with
  | nil => cases there
  | cons entry rest ih =>
    obtain ⟨key, old⟩ := entry
    by_cases atOther : key.isText other = true
    · obtain rfl := Value.isText_iff.mp atOther
      have elsewhere : (Value.text other).isText name = false := by simpa using Ne.symm h
      simp [Record.put, elsewhere]
    · rw [get?_cons, if_neg atOther] at there
      by_cases atName : key.isText name = true
      · simp [Record.put, atName, atOther]
      · simp [Record.put, atName, atOther, ih there]

private theorem isSome_get?_put {record : Record} {other : Text} (name : Text) (value : Value)
    (there : (record.get? other).isSome) : ((record.put name value).get? other).isSome := by
  by_cases same : name = other
  · rw [same, get?_put_self, Option.isSome_some]
  · rwa [get?_put_of_ne record value same]

def putAll (puts : List (Text × Value)) (record : Record) : Record :=
  puts.foldl (fun record entry => record.put entry.1 entry.2) record

theorem putAll_append (front back : List (Text × Value)) (record : Record) :
    putAll (front ++ back) record = putAll back (putAll front record) := List.foldl_append

private theorem isSome_get?_putAll (puts : List (Text × Value)) {record : Record} {name : Text}
    (there : (record.get? name).isSome) : ((putAll puts record).get? name).isSome := by
  induction puts generalizing record with
  | nil => exact there
  | cons entry puts ih => exact ih (isSome_get?_put entry.1 entry.2 there)

private theorem put_putAll_put (puts : List (Text × Value)) (name : Text) (value : Value) {record : Record}
    (there : ∀ entry ∈ puts, (record.get? entry.1).isSome) :
    (putAll puts (record.put name value)).put name value = (putAll puts record).put name value := by
  induction puts generalizing record with
  | nil => exact put_put_self record name value value
  | cons entry puts ih =>
    obtain ⟨first, others⟩ := List.forall_mem_cons.mp there
    change (putAll puts ((record.put name value).put entry.1 entry.2)).put name value =
      (putAll puts (record.put entry.1 entry.2)).put name value
    -- Under the same name the earlier value is lost at once; under another one it waits for the last value.
    by_cases same : name = entry.1
    · rw [same, put_put_self]
    · rw [put_comm record value entry.2 same first]
      exact ih fun later member => isSome_get?_put entry.1 entry.2 (others later member)

private theorem isSome_get?_of_mem_puts (puts : List (Text × Value)) (record : Record) :
    ∀ entry ∈ puts, ((putAll puts record).get? entry.1).isSome := by
  induction puts generalizing record with
  | nil => exact fun entry member => absurd member List.not_mem_nil
  | cons entry puts ih =>
    refine List.forall_mem_cons.mpr ⟨isSome_get?_putAll puts ?_, ih _⟩
    rw [get?_put_self, Option.isSome_some]

theorem putAll_putAll (puts : List (Text × Value)) (record : Record) :
    putAll puts (putAll puts record) = putAll puts record := by
  induction puts using List.reverseRecOn with
  | nil => rfl
  | append_singleton puts last ih =>
    rw [putAll_append, putAll_append]
    change (putAll puts ((putAll puts record).put last.1 last.2)).put last.1 last.2 =
      (putAll puts record).put last.1 last.2
    rw [put_putAll_put puts last.1 last.2 (isSome_get?_of_mem_puts puts record), ih]

theorem get?_append (front back : Record) (name : Text) :
    Record.get? (front ++ back) name = (front.get? name).or (back.get? name) := by
  unfold Record.get?
  rw [List.find?_append]
  cases front.find? fun entry => entry.1.isText name <;> rfl

def ofTexts (entries : List (Text × Value)) : Record := entries.map fun entry => (.text entry.1, entry.2)

theorem ofTexts_append (front back : List (Text × Value)) :
    ofTexts (front ++ back) = ofTexts front ++ ofTexts back := List.map_append

theorem get_ofTexts_cases (entries : List (Text × Value)) (name : Text) :
    (ofTexts entries).get name = .null ∨ ∃ value, (name, value) ∈ entries ∧
      (ofTexts entries).get name = value := by
  induction entries with
  | nil => exact .inl rfl
  | cons entry entries ih =>
    obtain ⟨other, value⟩ := entry
    rw [ofTexts, List.map_cons, get_cons, Value.isText_text]
    by_cases same : other = name
    · exact .inr ⟨value, same ▸ List.mem_cons_self, if_pos (by simpa using same)⟩
    · rw [if_neg (by simpa using same)]
      refine ih.imp_right ?_
      rintro ⟨later, member, got⟩
      exact ⟨later, List.mem_cons_of_mem _ member, got⟩

theorem put_ofTexts {entries : List (Text × Value)} {name : Text} (fresh : name ∉ entries.map Prod.fst)
    (value : Value) : (ofTexts entries).put name value = ofTexts (entries ++ [(name, value)]) := by
  induction entries with
  | nil => rfl
  | cons entry entries ih =>
    rw [List.map_cons, List.mem_cons, not_or] at fresh
    rw [ofTexts, List.map_cons, Record.put, Value.isText_text, if_neg (by simpa using Ne.symm fresh.1)]
    exact congrArg _ (ih fresh.2)

theorem get?_filter {entries : List (Text × Value)} {keep : Text × Value → Bool} {name : Text}
    (kept : ∀ value, keep (name, value) = true) :
    (ofTexts (entries.filter keep)).get? name = (ofTexts entries).get? name := by
  induction entries with
  | nil => rfl
  | cons entry entries ih =>
    obtain ⟨other, value⟩ := entry
    by_cases same : other = name
    · subst same
      rw [List.filter_cons_of_pos (kept value)]
      simp [ofTexts, get?_cons]
    · have skipped : (ofTexts ((other, value) :: entries)).get? name = (ofTexts entries).get? name := by
        simp [ofTexts, get?_cons, same]
      rw [skipped, ← ih, List.filter_cons]
      split
      · simp [ofTexts, get?_cons, same]
      · rfl

theorem get?_map_text {α : Type} (entries : List (Text × α)) (f : α → Value) (name : Text) :
    Record.get? (entries.map fun entry => (.text entry.1, f entry.2)) name =
      ((entries.find? fun entry => entry.1 = name).map (·.2)).map f := by
  induction entries with
  | nil => rfl
  | cons entry entries ih =>
    rw [List.map_cons, get?_cons, Value.isText_text, ih, List.find?_cons]
    by_cases here : entry.1 = name <;> simp [here]

def NamedFrom (names : List Text) (record : Record) : Prop :=
  ∀ entry ∈ record, ∃ name ∈ names, entry.1 = .text name

theorem NamedFrom.get?_eq_none {names : List Text} {record : Record} (named : NamedFrom names record)
    {name : Text} (absent : name ∉ names) : record.get? name = none := by
  induction record with
  | nil => rfl
  | cons entry rest ih =>
    obtain ⟨other, member, hkey⟩ := named entry List.mem_cons_self
    have different : other ≠ name := fun same => absent (same ▸ member)
    obtain ⟨key, value⟩ := entry
    obtain rfl : key = .text other := hkey
    rw [get?_cons, Value.isText_text, if_neg (by simpa using different)]
    exact ih fun entry member => named entry (List.mem_cons_of_mem _ member)

theorem NamedFrom.append {names more : List Text} {front back : Record}
    (hfront : NamedFrom names front) (hback : NamedFrom more back) :
    NamedFrom (names ++ more) (front ++ back) := by
  intro entry member
  rcases List.mem_append.mp member with member | member
  · obtain ⟨name, named, h⟩ := hfront entry member
    exact ⟨name, List.mem_append_left _ named, h⟩
  · obtain ⟨name, named, h⟩ := hback entry member
    exact ⟨name, List.mem_append_right _ named, h⟩

theorem get?_between (middle : Record) (name : Text) {names more : List Text} {front back : Record}
    (hfront : NamedFrom names front) (hback : NamedFrom more back) (absent : name ∉ names ++ more) :
    Record.get? (front ++ (middle ++ back)) name = middle.get? name := by
  rw [List.mem_append, not_or] at absent
  rw [get?_append, get?_append, hfront.get?_eq_none absent.1, hback.get?_eq_none absent.2,
    Option.none_or, Option.or_none]

end Record

end TableQuery
