/- Sequences of calls on a pair of tables.

   A call asks for one token, or compiles conditions or a projection. Calls may fail; the next one goes on with the
   tables that are there. After any sequence of calls the tables hold what was mentioned: each name once, in the
   order of the first mentions, and each literal as often as it was mentioned. -/

import TableQuery.Proofs.Expression.Mentioning

set_option autoImplicit false
set_option relaxedAutoImplicit false

namespace TableQuery

/-- The token under which a name stands, if it does. -/
def NameTable.tokenOf? (table : NameTable) (name : Text) : Option Text :=
  (table.names.idxOf? name).map (token table.stem)

/-- The tables that a pair of stems starts with. -/
def Tables.start (nameStem valueStem : Text) : Tables := ⟨.empty nameStem, .empty valueStem⟩

namespace Compiling

inductive Call where
  | name (v : Value)
  | literal (v : Value)
  | conditions (allowed : List Text) (given : Value)
  | projection (attributes : Value)

namespace Call

def action : Call → Compiling Text
  | .name v => Compiling.name v
  | .literal v => Compiling.value v
  | .conditions allowed given => Clause.renderAll <$> Condition.compile allowed given
  | .projection attributes => Projection.render <$> Projection.compile attributes

def mentions : Call → List Mention
  | .name (.text n) => Mention.ofText n
  | .name _ => []
  | .literal v => [.literal v]
  | .conditions allowed given => Condition.mentionsOf allowed given
  | .projection attributes => Projection.mentions attributes

/-- The outcomes of calls one after another, and the tables afterwards. -/
def run (tables : Tables) : List Call → List (Except Fault Text) × Tables
  | [] => ([], tables)
  | call :: calls =>
    let (outcome, between) := call.action.runOn tables
    let (outcomes, last) := run between calls
    (outcome :: outcomes, last)

theorem runOn_map {α β : Type} (f : α → β) (action : Compiling α) (before : Tables) :
    (f <$> action).runOn before = ((action.runOn before).1.map f, (action.runOn before).2) := by
  rw [runOn, ExceptT.run_map]
  rfl

private theorem runOn_unquoted (v : Value) (before : Tables) :
    ((do throw (.refused (.nameUnusable (← v.quote))) : Compiling Text).runOn before).2 = before := by
  cases quoted : v.quote with
  | ok quotation => rfl
  | error fault => rfl

private theorem mentions_action (call : Call) (before : Tables) :
    (call.action.runOn before).2 = before.mentionAll call.mentions := by
  cases call with
  | name v =>
    cases v with
    | text n => exact (makes_name n).tables before
    | _ => exact runOn_unquoted _ before
  | literal v => rfl
  | projection attributes =>
    rw [action, runOn_map]
    exact Projection.mentions_compile attributes before
  | conditions allowed given =>
    rw [action, runOn_map]
    exact Condition.mentions_compile allowed given before

theorem mentions_run (calls : List Call) (before : Tables) :
    (run before calls).2 = before.mentionAll (calls.flatMap mentions) := by
  induction calls generalizing before with
  | nil => rfl
  | cons call calls ih =>
    rw [List.flatMap_cons, Tables.mentionAll_append, ← call.mentions_action before]
    exact ih _

private theorem filled_mentions (call : Call) : ∀ mention ∈ call.mentions, mention.Filled := by
  cases call with
  | name v =>
    cases v with
    | text n => exact Mention.filled_ofText n
    | _ => exact List.forall_mem_nil _
  | literal v => exact List.forall_mem_singleton.mpr trivial
  | conditions allowed given => exact Condition.filled_mentionsOf allowed given
  | projection attributes => exact Projection.filled_mentions attributes

end Call

end Compiling

namespace NameTable

variable {table : NameTable}

/-- The two sides of a table of distinct names are inverse to one another. -/
theorem tokenOf?_eq_some_iff (apart : table.names.Nodup) {name t : Text} :
    table.tokenOf? name = some t ↔ table.resolve? t = some name := by
  rw [tokenOf?, Option.map_eq_some_iff, resolve?_eq_some_iff]
  refine exists_congr fun index => ?_
  refine and_congr ?_ eq_comm
  rw [List.idxOf?_eq_some_iff, List.getElem?_eq_some_iff]
  constructor
  · rintro ⟨inside, same, -⟩
    exact ⟨inside, same⟩
  · rintro ⟨inside, same⟩
    refine ⟨inside, same, fun other earlier again => ?_⟩
    exact Nat.ne_of_lt earlier (apart.getElem_inj_iff.mp (again.trans same.symm))

private theorem intern_of_tokenOf? {name t : Text} (there : table.tokenOf? name = some t) :
    table.intern name = (t, table) := by
  obtain ⟨index, found, rfl⟩ := Option.map_eq_some_iff.mp there
  rw [intern, found]

private theorem entries_prefix {later : NameTable} (stem : later.stem = table.stem)
    (kept : table.names <+: later.names) :
    table.entries <+: later.entries := by
  obtain ⟨back, more⟩ := kept
  rw [entries, entries, ← more, stem, List.zipIdx_append, List.map_append]
  exact List.prefix_append _ _

end NameTable

namespace ValueTable

theorem resolve?_add (table : ValueTable) (value : Value) : table.resolve? (table.add value).1 = none := by
  rw [Option.eq_none_iff_forall_ne_some]
  intro other stands
  obtain ⟨index, entry, same⟩ := resolve?_eq_some_iff.mp stands
  obtain ⟨inside, -⟩ := List.getElem?_eq_some_iff.mp entry
  exact Nat.ne_of_gt inside (token_injective table.stem same)

private theorem entries_prefix {table later : ValueTable} (stem : later.stem = table.stem)
    (kept : table.values <+: later.values) : table.entries <+: later.entries := by
  obtain ⟨back, more⟩ := kept
  rw [entries, entries, ← more, stem, List.zipIdx_append, List.map_append]
  exact List.prefix_append _ _

end ValueTable

/-- Values under the first tokens of a stem, in order and without gaps. -/
def tabulated {α : Type} (stem : Text) (values : List α) : List (Text × α) :=
  (tokens stem values.length).zip values

namespace Tables

/-- Tables hold what was mentioned to them. The names stand under their tokens in the order of their first mentions;
they are distinct and not empty, a token is found by its name and a name by its token, and asking for a name that is
there gives its token and changes nothing. The literals stand under their tokens in the order of their mentions,
equal ones as well, and the next literal gets a token that stands for nothing yet. -/
structure Holds (tables : Tables) (nameStem valueStem : Text) (mentioned : List Mention) : Prop where
  names : tables.names.entries = tabulated nameStem (mentioned.filterMap Mention.name?).eraseDups
  apart : (tables.names.entries.map Prod.snd).Nodup
  filled : ∀ n ∈ tables.names.entries.map Prod.snd, n ≠ []
  inverse : ∀ n t, tables.names.tokenOf? n = some t ↔ tables.names.resolve? t = some n
  again : ∀ n t, tables.names.tokenOf? n = some t → (Compiling.name (.text n)).runOn tables = (.ok t, tables)
  literals : tables.values.entries = tabulated valueStem (mentioned.filterMap Mention.literal?)
  fresh : ∀ v, ∃ t after, Compiling.Runs (Compiling.value v) tables t after ∧ tables.values.resolve? t = none ∧
    after.names = tables.names ∧ after.values.entries = tables.values.entries ++ [(t, v)]

theorem nodup_eraseDups (names : List Text) : names.eraseDups.Nodup := by
  induction names using List.reverseRecOn with
  | nil => exact List.nodup_nil
  | append_singleton names last ih =>
    rw [eraseDups_concat]
    split
    · exact ih
    · rename_i fresh
      refine List.nodup_append.mpr ⟨ih, List.nodup_singleton _, ?_⟩
      rintro n member _ single rfl
      rw [List.mem_singleton.mp single] at member
      exact fresh (List.mem_eraseDups.mp member)

private theorem holds_mentionAll (nameStem valueStem : Text) {mentioned : List Mention}
    (filled : ∀ mention ∈ mentioned, mention.Filled) :
    ((start nameStem valueStem).mentionAll mentioned).Holds nameStem valueStem mentioned := by
  have empty : (start nameStem valueStem).names.names = ([] : List Text).eraseDups := rfl
  have extended := (start nameStem valueStem).mentionAll_extends mentioned
  have names := names_mentionAll empty mentioned
  have literals := values_mentionAll (start nameStem valueStem) mentioned
  generalize (start nameStem valueStem).mentionAll mentioned = tables at extended names literals
  have apart : tables.names.names.Nodup := names ▸ nodup_eraseDups _
  have listed : tables.names.entries.map Prod.snd = tables.names.names := by
    rw [NameTable.entries_eq_zip, List.map_snd_zip (by simp [tokens])]
  have unempty : ∀ n ∈ tables.names.names, n ≠ [] := by
    intro n member
    rw [names, List.nil_append] at member
    obtain ⟨mention, among, given⟩ := List.mem_filterMap.mp (List.mem_eraseDups.mp member)
    cases mention with
    | name n' =>
      obtain rfl := Option.some.inj given
      exact filled _ among
    | literal v => cases given
  constructor
  case names =>
    rw [NameTable.entries_eq_zip, extended.nameStem, names]
    rfl
  case apart => rwa [listed]
  case filled => rwa [listed]
  case inverse => exact fun n t => NameTable.tokenOf?_eq_some_iff apart
  case again =>
    intro n t there
    have same := NameTable.intern_of_tokenOf? there
    obtain ⟨index, found, -⟩ := Option.map_eq_some_iff.mp there
    obtain ⟨inside, here, -⟩ := List.idxOf?_eq_some_iff.mp found
    cases n with
    | nil => exact absurd here (unempty _ (List.getElem_mem inside))
    | cons c rest =>
      change (Except.ok (tables.names.intern (c :: rest)).1, { tables with names := (tables.names.intern _).2 }) = _
      rw [same]
  case literals =>
    rw [ValueTable.entries_eq_zip, extended.valueStem, literals]
    rfl
  case fresh =>
    intro v
    exact ⟨_, _, rfl, tables.values.resolve?_add v, rfl, tables.values.entries_add v⟩

end Tables

namespace Compiling

/-- **Tables hold what was mentioned, whatever the calls.** After any sequence of calls on a pair of new tables,
whether they succeeded or failed, the tables hold what the calls mentioned: each name once, under the tokens of its
stem in order, and all literals one by one. No call changes or removes what was entered before, even if it fails. -/
theorem calls_fill_tables (nameStem valueStem : Text) (calls : List Call) :
    let tables := (Call.run (.start nameStem valueStem) calls).2
    tables.Holds nameStem valueStem (calls.flatMap Call.mentions) ∧
      ∀ call : Call, let later := (call.action.runOn tables).2
        tables.names.entries <+: later.names.entries ∧ tables.values.entries <+: later.values.entries := by
  intro tables
  constructor
  · have filled : ∀ mention ∈ calls.flatMap Call.mentions, mention.Filled := by
      intro mention member
      obtain ⟨call, -, mentioned⟩ := List.mem_flatMap.mp member
      exact call.filled_mentions mention mentioned
    change (Call.run (.start nameStem valueStem) calls).2.Holds _ _ _
    rw [Call.mentions_run]
    exact Tables.holds_mentionAll nameStem valueStem filled
  · intro call later
    have extended : later.Extends tables := by
      change (call.action.runOn tables).2.Extends tables
      rw [call.mentions_action]
      exact tables.mentionAll_extends call.mentions
    exact ⟨NameTable.entries_prefix extended.nameStem extended.names,
      ValueTable.entries_prefix extended.valueStem extended.values⟩

example :
    let calls : List Call :=
      [.name (.text "a"),
        .conditions Operator.filterNames (.map [(.text "b", .map [(.text "between", .list [.int 1])])]),
        .conditions Operator.filterNames (.map [(.text "a", .map [(.text "eq", .int 1)])])]
    (Call.run (.start "#n" ":v") calls).2.names.entries =
      ([("#n0", "a"), ("#n1", "b")] : List (Text × Text)) := by decide

end Compiling

end TableQuery
