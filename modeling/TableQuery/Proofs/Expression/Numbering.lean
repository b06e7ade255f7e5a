/- How compiling numbers tokens.

   The tables of a request know which tokens have occurred so far: those of names, each counted at its first
   occurrence, are the tokens of the name table in order, and those of literals are the tokens of the literal
   table one by one. Each step of compiling adds the tokens that it gives, and the tables go on knowing. What
   else is known of the tokens that occurred is kept in the same way, if a single token keeps it. -/

import TableQuery.Proofs.Expression.Placeholders

set_option autoImplicit false
set_option relaxedAutoImplicit false

namespace TableQuery

open Grammar

section Kinds

private theorem Grammar.nameTokens_append (front back : List Text) :
    nameTokens (front ++ back) = nameTokens front ++ nameTokens back := List.filter_append ..

theorem Grammar.literalTokens_append (front back : List Text) :
    literalTokens (front ++ back) = literalTokens front ++ literalTokens back := List.filter_append ..

private theorem Grammar.IsToken.head? {sigil : Char} {t : Text} (h : IsToken sigil t) :
    t.head? = some (.char sigil) := by
  obtain ⟨rest, rfl, -⟩ := h
  rfl

theorem kinds_of_isName {t : Text} (h : IsName t) :
    nameTokens [t] = [t] ∧ literalTokens [t] = [] := by
  simp [nameTokens, literalTokens, h.head?]

theorem kinds_of_isLiteral {t : Text} (h : IsLiteral t) :
    nameTokens [t] = [] ∧ literalTokens [t] = [t] := by
  simp [nameTokens, literalTokens, h.head?]

theorem Clause.Proper.literalTokens {clause : Clause} (proper : clause.Proper) :
    literalTokens clause.tokens = clause.phrase.operands := by
  have subject : ¬ clause.phrase.subject.head? = some (.char ':') := by simp [proper.subject.head?]
  have operands : ∀ t ∈ clause.phrase.operands, t.head? = some (.char ':') :=
    fun t member => (proper.operands t member).head?
  rw [tokens, Grammar.literalTokens, List.filter_cons_of_neg (by simpa using subject)]
  exact List.filter_eq_self.mpr (by simpa using operands)

theorem Grammar.IsPlaceholder.mem_kinds {t : Text} (h : IsPlaceholder t) {occurred : List Text}
    (member : t ∈ occurred) : t ∈ nameTokens occurred ∨ t ∈ literalTokens occurred := by
  rcases h with name | literal
  · exact .inl (List.mem_filter.mpr ⟨member, decide_eq_true name.head?⟩)
  · exact .inr (List.mem_filter.mpr ⟨member, decide_eq_true literal.head?⟩)

private theorem tokens_succ (stem : Text) (count : Nat) :
    tokens stem (count + 1) = tokens stem count ++ [token stem count] := by
  rw [tokens, tokens, List.range_succ, List.map_append, List.map_singleton]

private theorem mem_tokens {stem t : Text} {count : Nat} :
    t ∈ tokens stem count ↔ ∃ index < count, token stem index = t := by
  simp [tokens]

private theorem token_mem_tokens {stem : Text} {index count : Nat} :
    token stem index ∈ tokens stem count ↔ index < count := by
  rw [mem_tokens]
  constructor
  · rintro ⟨other, within, same⟩
    exact token_injective stem same ▸ within
  · exact fun within => ⟨index, within, rfl⟩

theorem eraseDups_concat (occurred : List Text) (t : Text) :
    (occurred ++ [t]).eraseDups = if t ∈ occurred then occurred.eraseDups else occurred.eraseDups ++ [t] := by
  rw [List.eraseDups_append]
  by_cases before : t ∈ occurred <;> simp [List.removeAll, List.eraseDups_cons, before]

end Kinds

namespace Tables

/-- The tables of a request number the tokens that occurred: names by their first occurrences, literals one
by one. -/
structure Numbers (tables : Tables) (occurred : List Text) : Prop where
  nameStem : tables.names.stem = NameTable.requestStem
  valueStem : tables.values.stem = ValueTable.requestStem
  names : (nameTokens occurred).eraseDups = tokens NameTable.requestStem tables.names.names.length
  apart : tables.names.names.Nodup
  literals : literalTokens occurred = tokens ValueTable.requestStem tables.values.values.length
  placeholders : ∀ t ∈ occurred, IsPlaceholder t

theorem fresh_numbers : fresh.Numbers [] := ⟨rfl, rfl, rfl, List.nodup_nil, rfl, by simp⟩

variable {tables : Tables} {occurred : List Text}

private theorem Numbers.intern (h : tables.Numbers occurred) (name : Text) :
    ({ tables with names := (tables.names.intern name).2 } : Tables).Numbers
      (occurred ++ [(tables.names.intern name).1]) := by
  obtain ⟨nameStem, valueStem, names, apart, literals, placeholders⟩ := h
  have isName (index : Nat) : IsName (token tables.names.stem index) := by
    rw [nameStem]
    exact token_isToken index
  have occurs (index : Nat) : token tables.names.stem index ∈ nameTokens occurred ↔
      index < tables.names.names.length := by
    rw [← List.mem_eraseDups, names, nameStem, token_mem_tokens]
  unfold NameTable.intern
  cases found : tables.names.names.idxOf? name with
  | some index =>
    obtain ⟨inside, -, -⟩ := List.idxOf?_eq_some_iff.mp found
    refine ⟨nameStem, valueStem, ?_, apart, ?_, ?_⟩
    · rw [nameTokens_append, (kinds_of_isName (isName index)).1, eraseDups_concat,
        if_pos ((occurs index).mpr inside), names]
    · rw [literalTokens_append, (kinds_of_isName (isName index)).2, List.append_nil, literals]
    · exact List.forall_mem_append.mpr ⟨placeholders, List.forall_mem_singleton.mpr (.inl (isName index))⟩
  | none =>
    have absent : name ∉ tables.names.names := List.idxOf?_eq_none_iff.mp found
    have unseen := (occurs tables.names.names.length).not.mpr (Nat.lt_irrefl _)
    refine ⟨nameStem, valueStem, ?_, ?_, ?_, ?_⟩
    · rw [nameTokens_append, (kinds_of_isName (isName _)).1, eraseDups_concat, if_neg unseen, names,
        List.length_append, List.length_singleton, tokens_succ, nameStem]
    · exact List.nodup_append.mpr ⟨apart, List.nodup_singleton _, by
        rintro other member _ last rfl
        exact absent (List.mem_singleton.mp last ▸ member)⟩
    · rw [literalTokens_append, (kinds_of_isName (isName _)).2, List.append_nil, literals]
    · exact List.forall_mem_append.mpr ⟨placeholders, List.forall_mem_singleton.mpr (.inl (isName _))⟩

private theorem Numbers.add (h : tables.Numbers occurred) (value : Value) :
    ({ tables with values := (tables.values.add value).2 } : Tables).Numbers
      (occurred ++ [(tables.values.add value).1]) := by
  obtain ⟨nameStem, valueStem, names, apart, literals, placeholders⟩ := h
  have isLiteral : IsLiteral (token tables.values.stem tables.values.values.length) := by
    rw [valueStem]
    exact token_isToken _
  refine ⟨nameStem, valueStem, ?_, apart, ?_, ?_⟩
  · rw [ValueTable.add, nameTokens_append, (kinds_of_isLiteral isLiteral).1, List.append_nil, names]
  · rw [ValueTable.add, literalTokens_append, (kinds_of_isLiteral isLiteral).2, literals, List.length_append,
      List.length_singleton, tokens_succ, valueStem]
  · exact List.forall_mem_append.mpr ⟨placeholders, List.forall_mem_singleton.mpr (.inr isLiteral)⟩

end Tables

namespace Compiling

/-- An account of the tokens that occurred is kept: each token that is made goes to its end. -/
structure Accounts (account : Tables → List Text → Prop) : Prop where
  intern {tables : Tables} {occurred : List Text} : account tables occurred → ∀ name : Text,
    account { tables with names := (tables.names.intern name).2 }
      (occurred ++ [(tables.names.intern name).1])
  add {tables : Tables} {occurred : List Text} : account tables occurred → ∀ value : Value,
    account { tables with values := (tables.values.add value).2 } (occurred ++ [(tables.values.add value).1])

theorem accounts_numbers : Accounts Tables.Numbers := ⟨Tables.Numbers.intern, Tables.Numbers.add⟩

namespace Accounts

variable {account : Tables → List Text → Prop} {before after : Tables} {occurred : List Text}

private theorem mapM {α β : Type} {f : α → Compiling β} (tokens : β → List Text)
    (step : ∀ a first b second occurred, Runs (f a) first b second → account first occurred →
      account second (occurred ++ tokens b))
    {values : List α} {results : List β} (h : Runs (values.mapM f) before results after)
    (known : account before occurred) : account after (occurred ++ results.flatMap tokens) := by
  induction values generalizing before results occurred with
  | nil =>
    rw [List.mapM_nil, runs_pure] at h
    obtain ⟨rfl, rfl⟩ := h
    rwa [List.flatMap_nil, List.append_nil]
  | cons a values ih =>
    rw [List.mapM_cons, runs_bind] at h
    obtain ⟨b, first, made, h⟩ := h
    obtain ⟨rest, second, others, h⟩ := runs_bind.mp h
    obtain ⟨rfl, rfl⟩ := runs_pure.mp h
    rw [List.flatMap_cons, ← List.append_assoc]
    exact ih others (step a _ b _ _ made known)

variable (accounts : Accounts account)
include accounts

private theorem ofName {v : Value} {t : Text} (h : Runs (name v) before t after) (known : account before occurred) :
    account after (occurred ++ [t]) := by
  unfold name at h
  split at h
  · rename_i c rest
    cases h
    exact accounts.intern known (c :: rest)
  · obtain ⟨_, _, -, h⟩ := runs_bind.mp h
    exact absurd h not_runs_throw

private theorem ofValue {v : Value} {t : Text} (h : Runs (value v) before t after) (known : account before occurred) :
    account after (occurred ++ [t]) := by
  cases h
  exact accounts.add known v

section Operands

variable {subject : Text} {clause : Clause} (known : account before (occurred ++ [subject]))
include known

private theorem unary {form : Text → Clause} {operand : Value}
    (read : ∀ t, (form t).tokens = [subject, t])
    (h : Runs (value operand >>= fun t => pure (form t)) before clause after) :
    account after (occurred ++ clause.tokens) := by
  obtain ⟨t, valued, ht, h⟩ := runs_bind.mp h
  obtain ⟨rfl, rfl⟩ := runs_pure.mp h
  have valued := accounts.ofValue ht known
  rw [List.append_assoc] at valued
  rwa [read]

private theorem between {low high : Value}
    (h : Runs (value low >>= fun l => value high >>= fun u => pure (.between subject l u))
      before clause after) : account after (occurred ++ clause.tokens) := by
  obtain ⟨lowToken, first, hlow, h⟩ := runs_bind.mp h
  obtain ⟨highToken, second, hhigh, h⟩ := runs_bind.mp h
  obtain ⟨rfl, rfl⟩ := runs_pure.mp h
  have both := accounts.ofValue hhigh (accounts.ofValue hlow known)
  rwa [List.append_assoc, List.append_assoc] at both

private theorem membership {values : List Value}
    (h : Runs (values.mapM value >>= fun tokens => pure (.membership subject tokens)) before clause after) :
    account after (occurred ++ clause.tokens) := by
  obtain ⟨tokens, valued, htokens, h⟩ := runs_bind.mp h
  obtain ⟨rfl, rfl⟩ := runs_pure.mp h
  have members := mapM (fun t => [t]) (fun _ _ _ _ _ => accounts.ofValue) htokens known
  rwa [List.flatMap_singleton', List.append_assoc] at members

end Operands

open Condition

/-- Compiling a clause adds its tokens, in the order in which its text has them. -/
private theorem compileClause {n operator : Text} {operand : Value} {clause : Clause}
    (h : Runs (compileClause n operator operand) before clause after) (known : account before occurred) :
    account after (occurred ++ clause.tokens) := by
  obtain ⟨subject, named, hsubject, h⟩ := runs_bind.mp h
  replace known := accounts.ofName hsubject known
  cases given : Operator.ofName? operator with
  | none =>
    rw [given] at h
    exact absurd h not_runs_throw
  | some op =>
    rw [given] at h
    cases op with
    | comparison sort => exact accounts.unary known (fun _ => rfl) h
    | beginsWith => exact accounts.unary known (fun _ => rfl) h
    | contains => exact accounts.unary known (fun _ => rfl) h
    | lacks => exact accounts.unary known (fun _ => rfl) h
    | between =>
      obtain ⟨⟨low, high⟩, _, lifted, h⟩ := runs_bind.mp h
      obtain ⟨-, rfl⟩ := runs_lift.mp lifted
      exact accounts.between known h
    | membership =>
      obtain ⟨values, _, lifted, h⟩ := runs_bind.mp h
      obtain ⟨-, rfl⟩ := runs_lift.mp lifted
      exact accounts.membership known h
    | absent =>
      obtain ⟨rfl, rfl⟩ := runs_pure.mp h
      exact known
    | present =>
      obtain ⟨rfl, rfl⟩ := runs_pure.mp h
      exact known

private theorem compileDemand {demand : Value × Value × Value} {clause : Clause}
    (h : Runs (compileDemand demand) before clause after) (known : account before occurred) :
    account after (occurred ++ clause.tokens) := by
  obtain ⟨n, _, lifted, h⟩ := runs_bind.mp h
  obtain ⟨-, rfl⟩ := runs_lift.mp lifted
  obtain ⟨word, _, lifted, h⟩ := runs_bind.mp h
  obtain ⟨-, rfl⟩ := runs_lift.mp lifted
  exact accounts.compileClause h known

theorem compileRecord {allowed : List Text} {conditions : Record} {clauses : List Clause}
    (h : Runs (compileRecord allowed conditions) before clauses after) (known : account before occurred) :
    account after (occurred ++ clauses.flatMap Clause.tokens) := by
  obtain ⟨_, _, lifted, h⟩ := runs_bind.mp h
  obtain ⟨-, rfl⟩ := runs_lift.mp lifted
  exact mapM Clause.tokens (fun _ _ _ _ _ => accounts.compileDemand) h known

theorem projection {v : Value} {tokens : List Text} (h : Runs (Projection.compile v) before tokens after)
    (known : account before occurred) : account after (occurred ++ tokens) := by
  obtain ⟨listed, _, lifted, h⟩ := runs_bind.mp h
  obtain ⟨-, rfl⟩ := runs_lift.mp lifted
  have each := mapM (fun t => [t])
    (by
      intro item _ t _ _ h known
      obtain ⟨name, _, lifted, h⟩ := runs_bind.mp h
      obtain ⟨-, rfl⟩ := runs_lift.mp lifted
      exact accounts.ofName h known) h known
  rwa [List.flatMap_singleton'] at each

end Accounts

end Compiling

end TableQuery
