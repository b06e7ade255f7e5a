/- The dictionaries keep the tables.

   A table has one list where the dictionaries have entries both ways and a count. Giving a token takes the
   dictionaries of a table to those of the table after it, with the same token, so after any calls they are
   those of the tables, and the two ways and the count agree. -/

import TableQuery.Expression.Dictionaries
import TableQuery.Proofs.Expression.Sequences

set_option autoImplicit false
set_option relaxedAutoImplicit false

namespace TableQuery

namespace Dictionary

variable {α : Type}

private theorem get?_eq_none_iff {entries : Dictionary α} {key : Text} :
    entries.get? key = none ↔ key ∉ entries.map Prod.fst := by
  rw [get?, Option.map_eq_none_iff, List.find?_eq_none, List.mem_map, not_exists]
  refine forall_congr' fun entry => ?_
  rw [decide_eq_true_eq, not_and]

private theorem set_of_get?_eq_none {entries : Dictionary α} {key : Text} (absent : entries.get? key = none) (a : α) :
    entries.set key a = entries ++ [(key, a)] := by
  rw [get?_eq_none_iff] at absent
  induction entries with
  | nil => rfl
  | cons entry rest ih =>
    rw [List.map_cons, List.mem_cons, not_or] at absent
    rw [set, if_neg (Ne.symm absent.1), ih absent.2]
    rfl

end Dictionary

namespace NameTable

/-- The dictionaries that keep a table of names. -/
def dictionaries (table : NameTable) : NameDictionaries where
  source := ⟨table.stem, table.names.length⟩
  byToken := table.entries
  byName := table.entries.map Prod.swap

private theorem get?_places (stem : Text) (names : List Text) (first : Nat) (name : Text) :
    Dictionary.get? ((names.zipIdx first).map fun entry => (entry.1, token stem entry.2)) name =
      (names.idxOf? name).map fun index => token stem (index + first) := by
  induction names generalizing first with
  | nil => rfl
  | cons n names ih =>
    rw [List.zipIdx_cons, List.map_cons, Dictionary.get?, List.find?_cons, List.idxOf?_cons]
    by_cases same : n = name
    · simp [same]
    · have later := ih (first + 1)
      rw [Dictionary.get?] at later
      simpa [same, Function.comp_def, Nat.add_right_comm, Nat.add_assoc] using later

private theorem get?_byName (table : NameTable) (name : Text) :
    table.dictionaries.byName.get? name = table.tokenOf? name := by
  have places := get?_places table.stem table.names 0 name
  rw [tokenOf?]
  simpa [dictionaries, entries, Function.comp_def] using places

private theorem get?_byToken (table : NameTable) (t : Text) :
    table.dictionaries.byToken.get? t = table.resolve? t := rfl

private theorem entries_concat (table : NameTable) (name : Text) :
    NameTable.entries { table with names := table.names ++ [name] } =
      table.entries ++ [(token table.stem table.names.length, name)] := by
  simp [entries, List.zipIdx_append]

/-- A token of the dictionaries is one of the table, and so is what is kept afterwards. -/
private theorem tokenFor_dictionaries (table : NameTable) (name : Text) :
    table.dictionaries.tokenFor name = ((table.intern name).1, (table.intern name).2.dictionaries) := by
  rw [NameDictionaries.tokenFor, get?_byName, tokenOf?]
  cases found : table.names.idxOf? name with
  | some index =>
    rw [intern, found]
    rfl
  | none =>
    have unnamed : table.dictionaries.byName.get? name = none := by rw [get?_byName, tokenOf?, found]; rfl
    have unused : table.dictionaries.byToken.get? (token table.stem table.names.length) = none := by
      rw [get?_byToken, Option.eq_none_iff_forall_ne_some]
      intro other stands
      obtain ⟨index, entry, same⟩ := resolve?_eq_some_iff.mp stands
      obtain ⟨inside, -⟩ := List.getElem?_eq_some_iff.mp entry
      exact Nat.ne_of_gt inside (token_injective table.stem same)
    rw [intern, found]
    have byToken := Dictionary.set_of_get?_eq_none unused name
    have byName := Dictionary.set_of_get?_eq_none unnamed (token table.stem table.names.length)
    change (token table.stem table.names.length, NameDictionaries.mk ⟨table.stem, table.names.length + 1⟩
      (table.dictionaries.byToken.set (token table.stem table.names.length) name)
      (table.dictionaries.byName.set name (token table.stem table.names.length))) = _
    rw [byToken, byName]
    simp [dictionaries, entries_concat]

end NameTable

namespace ValueTable

/-- The dictionary that keeps a table of literals. -/
def dictionary (table : ValueTable) : ValueDictionary where
  source := ⟨table.stem, table.values.length⟩
  byToken := table.entries

private theorem tokenFor_dictionary (table : ValueTable) (value : Value) :
    table.dictionary.tokenFor value = ((table.add value).1, (table.add value).2.dictionary) := by
  have unused : table.dictionary.byToken.get? (table.add value).1 = none := table.resolve?_add value
  change ((table.add value).1, ValueDictionary.mk ⟨table.stem, table.values.length + 1⟩
    (table.dictionary.byToken.set (table.add value).1 value)) = _
  rw [Dictionary.set_of_get?_eq_none unused]
  simp [dictionary, add, entries, List.zipIdx_append]

end ValueTable

namespace Dictionaries

def mention (dictionaries : Dictionaries) : Mention → Dictionaries
  | .name name => { dictionaries with names := (dictionaries.names.tokenFor name).2 }
  | .literal literal => { dictionaries with values := (dictionaries.values.tokenFor literal).2 }

def mentionAll (dictionaries : Dictionaries) (mentions : List Mention) : Dictionaries :=
  mentions.foldl mention dictionaries

/-- The two ways in which names are kept agree, no token is used twice, and each source has given as many tokens as
there are entries. -/
structure InStep (dictionaries : Dictionaries) : Prop where
  bothWays : ∀ name t, dictionaries.names.byName.get? name = some t ↔ dictionaries.names.byToken.get? t = some name
  names : (dictionaries.names.byToken.map Prod.fst).Nodup
  values : (dictionaries.values.byToken.map Prod.fst).Nodup
  namesGiven : dictionaries.names.source.given = dictionaries.names.byToken.length ∧
    dictionaries.names.byName.length = dictionaries.names.byToken.length
  valuesGiven : dictionaries.values.source.given = dictionaries.values.byToken.length

end Dictionaries

namespace Tables

def dictionaries (tables : Tables) : Dictionaries := ⟨tables.names.dictionaries, tables.values.dictionary⟩

private theorem mention_dictionaries (tables : Tables) (mention : Mention) :
    tables.dictionaries.mention mention = (tables.mention mention).dictionaries := by
  cases mention with
  | name name =>
    have kept := congrArg Prod.snd (tables.names.tokenFor_dictionaries name)
    exact congrArg (Dictionaries.mk · tables.values.dictionary) kept
  | literal literal =>
    have kept := congrArg Prod.snd (tables.values.tokenFor_dictionary literal)
    exact congrArg (Dictionaries.mk tables.names.dictionaries) kept

private theorem mentionAll_dictionaries (tables : Tables) (mentions : List Mention) :
    tables.dictionaries.mentionAll mentions = (tables.mentionAll mentions).dictionaries := by
  induction mentions generalizing tables with
  | nil => rfl
  | cons mention mentions ih =>
    change (tables.dictionaries.mention mention).mentionAll mentions = _
    rw [mention_dictionaries]
    exact ih _

private theorem inStep_dictionaries {tables : Tables} (apart : tables.names.names.Nodup) :
    tables.dictionaries.InStep where
  bothWays name t := by
    change tables.names.dictionaries.byName.get? name = some t ↔ _
    rw [NameTable.get?_byName]
    exact NameTable.tokenOf?_eq_some_iff apart
  names := tables.names.entries_nodup
  values := tables.values.entries_nodup
  namesGiven := by simp [dictionaries, NameTable.dictionaries, NameTable.entries]
  valuesGiven := by simp [dictionaries, ValueTable.dictionary, ValueTable.entries]

end Tables

namespace Compiling

/-- The token that an action is given for a name is the next one of the dictionaries. -/
theorem tokenFor_name (tables : Tables) (c : CodePoint) (rest : Text) :
    ((name (.text (c :: rest))).runOn tables).1 = .ok (tables.dictionaries.names.tokenFor (c :: rest)).1 :=
  congrArg Except.ok (congrArg Prod.fst (tables.names.tokenFor_dictionaries (c :: rest))).symm

theorem tokenFor_value (tables : Tables) (v : Value) :
    ((value v).runOn tables).1 = .ok (tables.dictionaries.values.tokenFor v).1 :=
  congrArg Except.ok (congrArg Prod.fst (tables.values.tokenFor_dictionary v)).symm

/-- After any calls, whether they succeeded or failed, the dictionaries are those of the tables, and they are in
step. -/
theorem calls_keep_dictionaries (nameStem valueStem : Text) (calls : List Call) :
    let dictionaries := (Dictionaries.empty nameStem valueStem).mentionAll (calls.flatMap Call.mentions)
    dictionaries = (Call.run (.start nameStem valueStem) calls).2.dictionaries ∧ dictionaries.InStep := by
  intro dictionaries
  have kept : dictionaries = (Call.run (.start nameStem valueStem) calls).2.dictionaries := by
    rw [Call.mentions_run]
    exact (Tables.start nameStem valueStem).mentionAll_dictionaries _
  have empty : (Tables.start nameStem valueStem).names.names = ([] : List Text).eraseDups := rfl
  refine ⟨kept, ?_⟩
  rw [kept, Call.mentions_run]
  refine Tables.inStep_dictionaries ?_
  rw [Tables.names_mentionAll empty]
  exact Tables.nodup_eraseDups _

end Compiling

end TableQuery
