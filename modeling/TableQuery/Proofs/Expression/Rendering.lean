/- The text of clauses is spelled by the grammar.

   The words of a clause's text are those of the clause, and clauses and names in a row are spelled as a
   condition and as a projection. -/

import Mathlib.Data.List.Basic
import TableQuery.Expression.Compile
import TableQuery.Proofs.Expression.Grammar

set_option autoImplicit false
set_option relaxedAutoImplicit false

namespace TableQuery

open Grammar

def Comparison.word : Comparison → Text
  | .equal => "eq"
  | .different => "ne"
  | .greater => "gt"
  | .less => "lt"
  | .atLeast => "gte"
  | .atMost => "lte"

private theorem Comparison.word_sign_mem (comparison : Comparison) :
    (comparison.word, comparison.sign) ∈ signs := by
  cases comparison <;> decide

private theorem Comparison.words_sign (comparison : Comparison) : words comparison.sign = [comparison.sign] := by
  cases comparison <;> rfl

namespace Clause

def phrase : Clause → Phrase
  | .compares name comparison operand => ⟨comparison.word, name, [operand]⟩
  | .beginsWith name operand => ⟨"begins_with", name, [operand]⟩
  | .between name low high => ⟨"between", name, [low, high]⟩
  | .membership name operands => ⟨"in", name, operands⟩
  | .contains name operand => ⟨"contains", name, [operand]⟩
  | .lacks name operand => ⟨"not_contains", name, [operand]⟩
  | .absent name => ⟨"null", name, []⟩
  | .present name => ⟨"not_null", name, []⟩

/-- A clause of tokens: a membership lists at least one. -/
structure Proper (clause : Clause) : Prop where
  subject : IsName clause.phrase.subject
  operands : ∀ operand ∈ clause.phrase.operands, IsLiteral operand
  listed : clause.phrase.operator = "in" → clause.phrase.operands ≠ []

end Clause

section Pieces

private theorem words_name {t : Text} (h : IsName t) : words t = [t] := h.words (by decide)

private theorem words_literal {t : Text} (h : IsLiteral t) : words t = [t] := h.words (by decide)

private theorem words_comma (s rest : Text) :
    words (s ++ (Text.ofString ", " ++ rest)) = words s ++ Text.ofString "," :: words rest := by
  have space := words_space [] rest
  have comma := words_mark (by decide : isMark (.char ',') = true) s (.char ' ' :: rest)
  rw [List.nil_append, words_nil, List.nil_append] at space
  rw [space] at comma
  exact comma

private theorem words_close (s : Text) :
    words (s ++ Text.ofString ")") = words s ++ [Text.ofString ")"] :=
  words_mark (by decide) s []

private theorem words_open {function opened : Text} (split : opened = function ++ [.char '('])
    (plain : words function = [function]) (rest : Text) :
    words (opened ++ rest) = function :: Text.ofString "(" :: words rest := by
  rw [split, List.append_assoc, List.singleton_append, words_mark (by decide), plain]
  rfl

private theorem words_unary {function opened name : Text} (split : opened = function ++ [.char '('])
    (plain : words function = [function]) (h : IsName name) :
    words (opened ++ (name ++ Text.ofString ")")) =
      [function, Text.ofString "(", name, Text.ofString ")"] := by
  rw [words_open split plain, words_close, words_name h]
  rfl

private theorem words_binary {function opened name value : Text} (split : opened = function ++ [.char '('])
    (plain : words function = [function]) (h : IsName name) (h' : IsLiteral value) :
    words (opened ++ (name ++ (Text.ofString ", " ++ (value ++ Text.ofString ")")))) =
      [function, Text.ofString "(", name, Text.ofString ",", value, Text.ofString ")"] := by
  rw [words_open split plain, words_comma, words_close, words_name h, words_literal h']
  rfl

private theorem words_joined {ts : List Text} (h : ∀ t ∈ ts, words t = [t]) :
    words (Text.joined ", " ts) = ts.intersperse (Text.ofString ",") := by
  induction ts with
  | nil => rfl
  | cons t ts ih =>
    have here := h t List.mem_cons_self
    have others := ih fun t member => h t (List.mem_cons_of_mem _ member)
    cases ts with
    | nil =>
      rw [Text.joined, List.intercalate_singleton, here]
      rfl
    | cons second ts =>
      rw [Text.joined, List.intercalate_cons_cons, List.append_assoc, words_comma, here,
        List.intersperse_cons_cons, ← others]
      rfl

private theorem words_comparison {name value : Text} (h : IsName name) (h' : IsLiteral value)
    (comparison : Comparison) :
    words (name ++ (Text.ofString " " ++ (comparison.sign ++ (Text.ofString " " ++ value)))) =
      [name, comparison.sign, value] := by
  change words (name ++ .char ' ' :: (comparison.sign ++ .char ' ' :: value)) = _
  rw [words_space, words_space, words_name h, comparison.words_sign, words_literal h']
  rfl

private theorem words_between {name low high : Text} (h : IsName name) (hlow : IsLiteral low)
    (hhigh : IsLiteral high) :
    words (name ++ (Text.ofString " BETWEEN " ++ (low ++ (Text.ofString " AND " ++ high)))) =
      [name, Text.ofString "BETWEEN", low, Text.ofString "AND", high] := by
  change words (name ++ .char ' ' :: (Text.ofString "BETWEEN" ++ .char ' ' ::
    (low ++ .char ' ' :: (Text.ofString "AND" ++ .char ' ' :: high)))) = _
  rw [words_space, words_space, words_space, words_space, words_name h, words_literal hlow,
    words_literal hhigh]
  rfl

private theorem words_membership {name : Text} {values : List Text} (h : IsName name)
    (literals : ∀ value ∈ values, IsLiteral value) :
    words (name ++ (Text.ofString " IN (" ++ (Text.joined ", " values ++ Text.ofString ")"))) =
      name :: Text.ofString "IN" :: Text.ofString "(" ::
        (values.intersperse (Text.ofString ",") ++ [Text.ofString ")"]) := by
  change words (name ++ .char ' ' :: (Text.ofString "IN" ++ .char ' ' :: ([] ++ .char '(' ::
    (Text.joined ", " values ++ Text.ofString ")")))) = _
  rw [words_space, words_space, words_mark (by decide), words_close, words_name h,
    words_joined fun value member => words_literal (literals value member)]
  rfl

end Pieces

/-- The text of a clause of tokens spells the clause. -/
private theorem Clause.spelled {clause : Clause} (proper : clause.Proper) :
    Spelled clause.phrase (words clause.render) := by
  obtain ⟨subject, operands, listed⟩ := proper
  have contains_opened : Text.ofString "contains(" = Text.ofString "contains" ++ [.char '('] := by
    decide +kernel
  cases clause with
  | compares name comparison operand =>
    have name_token : IsName name := subject
    have value : IsLiteral operand := operands operand List.mem_cons_self
    simp only [Clause.render, List.append_assoc]
    rw [words_comparison name_token value]
    exact .comparison comparison.word_sign_mem name_token value
  | beginsWith name operand =>
    have name_token : IsName name := subject
    have value : IsLiteral operand := operands operand List.mem_cons_self
    have opened : Text.ofString "begins_with(" = Text.ofString "begins_with" ++ [.char '('] := by
      decide +kernel
    simp only [Clause.render, List.append_assoc]
    rw [words_binary opened (by decide +kernel) name_token value]
    exact .beginsWith name_token value
  | between name low high =>
    have name_token : IsName name := subject
    have low_token : IsLiteral low := operands low List.mem_cons_self
    have high_token : IsLiteral high := operands high (List.mem_cons_of_mem _ List.mem_cons_self)
    simp only [Clause.render, List.append_assoc]
    rw [words_between name_token low_token high_token]
    exact .between name_token low_token high_token
  | membership name values =>
    have name_token : IsName name := subject
    have tokens : ∀ value ∈ values, IsLiteral value := operands
    simp only [Clause.render, List.append_assoc]
    rw [words_membership name_token tokens]
    exact .membership name_token (listed rfl) tokens
  | contains name operand =>
    have name_token : IsName name := subject
    have value : IsLiteral operand := operands operand List.mem_cons_self
    simp only [Clause.render, List.append_assoc]
    rw [words_binary contains_opened (by decide +kernel) name_token value]
    exact .contains name_token value
  | lacks name operand =>
    have name_token : IsName name := subject
    have value : IsLiteral operand := operands operand List.mem_cons_self
    have negated : Text.ofString "NOT contains(" =
        Text.ofString "NOT" ++ .char ' ' :: Text.ofString "contains(" := by decide +kernel
    simp only [Clause.render, List.append_assoc]
    rw [negated, List.append_assoc, List.cons_append, words_space,
      words_binary contains_opened (by decide +kernel) name_token value]
    exact .lacks name_token value
  | absent name =>
    have name_token : IsName name := subject
    have opened : Text.ofString "attribute_not_exists(" =
        Text.ofString "attribute_not_exists" ++ [.char '('] := by decide +kernel
    simp only [Clause.render, List.append_assoc]
    rw [words_unary opened (by decide +kernel) name_token]
    exact .absent name_token
  | present name =>
    have name_token : IsName name := subject
    have opened : Text.ofString "attribute_exists(" =
        Text.ofString "attribute_exists" ++ [.char '('] := by decide +kernel
    simp only [Clause.render, List.append_assoc]
    rw [words_unary opened (by decide +kernel) name_token]
    exact .present name_token

theorem Clause.conjunction {clauses : List Clause} (filled : clauses ≠ [])
    (proper : ∀ clause ∈ clauses, clause.Proper) :
    Conjunction (clauses.map phrase) (words (renderAll clauses)) := by
  induction clauses with
  | nil => exact absurd rfl filled
  | cons clause clauses ih =>
    have here := Clause.spelled (proper clause List.mem_cons_self)
    cases clauses with
    | nil =>
      rw [renderAll, List.map_singleton, List.map_singleton, Text.joined, List.intercalate_singleton]
      exact .last here
    | cons second clauses =>
      have others := ih (List.cons_ne_nil _ _) fun c member => proper c (List.mem_cons_of_mem _ member)
      have split : words (renderAll (clause :: second :: clauses)) =
          words clause.render ++ Text.ofString "AND" :: words (renderAll (second :: clauses)) := by
        rw [renderAll, List.map_cons, List.map_cons, Text.joined, List.intercalate_cons_cons,
          List.append_assoc]
        change words (clause.render ++ .char ' ' :: (Text.ofString "AND" ++ .char ' ' ::
          renderAll (second :: clauses))) = _
        rw [words_space, words_space]
        rfl
      rw [split]
      exact .more here others

theorem Projection.listing {names : List Text} (filled : names ≠ []) (h : ∀ name ∈ names, IsName name) :
    Listing names (words (Projection.render names)) := by
  rw [Projection.render, words_joined fun name member => words_name (h name member)]
  induction names with
  | nil => exact absurd rfl filled
  | cons name names ih =>
    have here := h name List.mem_cons_self
    cases names with
    | nil => exact .last here
    | cons second names =>
      rw [List.intersperse_cons_cons]
      exact .more here (ih (List.cons_ne_nil _ _) fun t member => h t (List.mem_cons_of_mem _ member))

end TableQuery
