/- The placeholders that occur in expressions, and the tables that number them.

   A placeholder is a sigil with the letters, digits and low lines that follow it, wherever it stands in a
   text. The text of a clause holds the tokens of the clause in their order and no other placeholder, and
   compiling numbers tokens as they occur: names by their first occurrences, literals one by one. -/

import TableQuery.Proofs.Expression.Compiling

set_option autoImplicit false
set_option relaxedAutoImplicit false

namespace TableQuery

namespace Grammar

def isSigil (c : CodePoint) : Bool := c = .char '#' || c = .char ':'

def isTokenPart (c : CodePoint) : Bool := c.liesIn [(0x30, 0x39), (0x41, 0x5A), (0x5F, 0x5F), (0x61, 0x7A)]

/-- The placeholders in a text, in the order of their occurrence. -/
def placeholders : Text → List Text
  | [] => []
  | c :: rest =>
    if isSigil c then (c :: rest.takeWhile isTokenPart) :: placeholders rest else placeholders rest

def nameTokens (occurred : List Text) : List Text := occurred.filter fun t => t.head? = some (.char '#')

def literalTokens (occurred : List Text) : List Text := occurred.filter fun t => t.head? = some (.char ':')

def IsPlaceholder (t : Text) : Prop := IsName t ∨ IsLiteral t

/-- A text behind which a token ends. -/
def Ends (rest : Text) : Prop := ∀ c ∈ rest.head?, isTokenPart c = false

def isSeparator : Text → Bool
  | [] => false
  | c :: rest => !isTokenPart c && (c :: rest).all fun c => !isSigil c

private theorem ends_nil : Ends [] := by simp [Ends]

private theorem placeholders_of_no_sigil {s : Text} (plain : ∀ c ∈ s, isSigil c = false) (rest : Text) :
    placeholders (s ++ rest) = placeholders rest := by
  induction s with
  | nil => rfl
  | cons c s ih =>
    obtain ⟨here, others⟩ := List.forall_mem_cons.mp plain
    rw [List.cons_append, placeholders, if_neg (by simp [here]), ih others]

section Separators

variable {separator : Text} (h : isSeparator separator = true)
include h

private theorem ends_of_separator (rest : Text) : Ends (separator ++ rest) := by
  cases separator with
  | nil => cases h
  | cons c separator =>
    rw [isSeparator, Bool.and_eq_true, Bool.not_eq_true'] at h
    simpa [Ends] using h.1

private theorem placeholders_separator (rest : Text) : placeholders (separator ++ rest) = placeholders rest := by
  cases separator with
  | nil => cases h
  | cons c separator =>
    rw [isSeparator, Bool.and_eq_true, List.all_eq_true] at h
    refine placeholders_of_no_sigil ?_ rest
    intro other member
    simpa using h.2 other member

end Separators

private theorem placeholders_isToken {sigil : Char} {t : Text} (h : IsToken sigil t)
    (marks : isSigil (.char sigil) = true) {rest : Text} (ends : Ends rest) :
    placeholders (t ++ rest) = t :: placeholders rest := by
  obtain ⟨body, rfl, -, letters⟩ := h
  have whole : (body ++ rest).takeWhile isTokenPart = body := by
    rw [List.takeWhile_append_of_pos (p := isTokenPart) letters]
    cases rest with
    | nil => rw [List.takeWhile_nil, List.append_nil]
    | cons c rest =>
      have stops : isTokenPart c = false := ends c rfl
      rw [List.takeWhile_cons_of_neg (by simp [stops]), List.append_nil]
  have plain : ∀ c ∈ body, isSigil c = false := by
    intro c member
    have letter := letters c member
    cases marked : isSigil c with
    | false => rfl
    | true =>
      rw [isSigil, Bool.or_eq_true, decide_eq_true_eq, decide_eq_true_eq] at marked
      rcases marked with rfl | rfl <;> cases letter
  rw [List.cons_append, placeholders, if_pos marks, whole, placeholders_of_no_sigil plain]

private theorem placeholders_token {t : Text} (h : IsPlaceholder t) {rest : Text} (ends : Ends rest) :
    placeholders (t ++ rest) = t :: placeholders rest :=
  h.elim (fun name => placeholders_isToken name rfl ends)
    (fun literal => placeholders_isToken literal rfl ends)

private theorem placeholders_joined {α : Type} {separator : Text} (apart : isSeparator separator = true)
    {render : α → Text} {tokens : α → List Text} {values : List α}
    (each : ∀ a ∈ values, ∀ rest, Ends rest →
      placeholders (render a ++ rest) = tokens a ++ placeholders rest) {rest : Text} (ends : Ends rest) :
    placeholders (Text.joined separator (values.map render) ++ rest) =
      values.flatMap tokens ++ placeholders rest := by
  induction values with
  | nil => rfl
  | cons a values ih =>
    obtain ⟨here, others⟩ := List.forall_mem_cons.mp each
    cases values with
    | nil =>
      rw [List.map_singleton, Text.joined, List.intercalate_singleton, here rest ends, List.flatMap_singleton]
    | cons b values =>
      have later := ih others
      rw [Text.joined] at later ⊢
      rw [List.map_cons, List.map_cons, List.intercalate_cons_cons, List.append_assoc, List.append_assoc,
        here _ (ends_of_separator apart _), placeholders_separator apart, ← List.map_cons, later,
        ← List.append_assoc]
      rfl

end Grammar

open Grammar

namespace Clause

def tokens (clause : Clause) : List Text := clause.phrase.subject :: clause.phrase.operands

private theorem placeholders_infix {name operand middle : Text} (hname : IsPlaceholder name)
    (hoperand : IsPlaceholder operand) (apart : isSeparator middle = true) {rest : Text} (ends : Ends rest) :
    placeholders (name ++ (middle ++ (operand ++ rest))) = name :: operand :: placeholders rest := by
  rw [placeholders_token hname (ends_of_separator apart _), placeholders_separator apart,
    placeholders_token hoperand ends]

private theorem placeholders_call {opened name : Text} (plain : opened.all (fun c => !isSigil c) = true)
    (hname : IsPlaceholder name) {middle : Text} (ends : Ends middle) :
    placeholders (opened ++ (name ++ middle)) = name :: placeholders middle := by
  have no_sigil : ∀ c ∈ opened, isSigil c = false := by simpa using plain
  rw [placeholders_of_no_sigil no_sigil, placeholders_token hname ends]

private theorem placeholders_unary {opened name : Text} (plain : opened.all (fun c => !isSigil c) = true)
    (hname : IsPlaceholder name) (rest : Text) :
    placeholders (opened ++ (name ++ (Text.ofString ")" ++ rest))) = [name] ++ placeholders rest := by
  have close : isSeparator ")" = true := by decide
  rw [placeholders_call plain hname (ends_of_separator close _), placeholders_separator close]
  rfl

private theorem placeholders_binary {opened name operand : Text}
    (plain : opened.all (fun c => !isSigil c) = true) (hname : IsPlaceholder name)
    (hoperand : IsPlaceholder operand) (rest : Text) :
    placeholders (opened ++ (name ++ (Text.ofString ", " ++ (operand ++ (Text.ofString ")" ++ rest))))) =
      name :: operand :: placeholders rest := by
  have comma : isSeparator ", " = true := by decide
  have close : isSeparator ")" = true := by decide
  rw [placeholders_call plain hname (ends_of_separator comma _), placeholders_separator comma,
    placeholders_token hoperand (ends_of_separator close _), placeholders_separator close]

/-- The text of a clause has the tokens of the clause as its placeholders. -/
private theorem placeholders_render {clause : Clause} (proper : ∀ t ∈ clause.tokens, IsPlaceholder t) {rest : Text}
    (ends : Ends rest) : placeholders (clause.render ++ rest) = clause.tokens ++ placeholders rest := by
  obtain ⟨subject, operands⟩ := List.forall_mem_cons.mp proper
  have close : isSeparator ")" = true := by decide
  cases clause with
  | compares name comparison operand =>
    have hname : IsPlaceholder name := subject
    have sign : isSeparator (" " ++ (comparison.sign ++ " ")) = true := by cases comparison <;> decide
    have split : render (.compares name comparison operand) ++ rest =
        name ++ ((" " ++ (comparison.sign ++ " ")) ++ (operand ++ rest)) := by
      simp only [render, List.append_assoc]
    rw [split]
    exact placeholders_infix hname (operands operand List.mem_cons_self) sign ends
  | beginsWith name operand =>
    simp only [render, List.append_assoc]
    exact placeholders_binary (by decide) subject (operands operand List.mem_cons_self) rest
  | between name low high =>
    have hname : IsPlaceholder name := subject
    have range : isSeparator " BETWEEN " = true := by decide
    have both : isSeparator " AND " = true := by decide
    obtain ⟨hlow, hhigh⟩ := List.forall_mem_cons.mp operands
    simp only [render, List.append_assoc]
    rw [placeholders_token hname (ends_of_separator range _), placeholders_separator range,
      placeholders_infix hlow (hhigh high List.mem_cons_self) both ends]
    rfl
  | membership name values =>
    have hname : IsPlaceholder name := subject
    have listed : isSeparator " IN (" = true := by decide
    have comma : isSeparator ", " = true := by decide
    have each : ∀ t ∈ values, ∀ rest, Ends rest → placeholders (id t ++ rest) = [t] ++ placeholders rest :=
      fun t member rest ends => placeholders_token (operands t member) ends
    have members := placeholders_joined comma each (ends_of_separator close rest)
    rw [List.map_id, List.flatMap_singleton'] at members
    simp only [render, List.append_assoc]
    rw [placeholders_token hname (ends_of_separator listed _), placeholders_separator listed, members,
      placeholders_separator close]
    rfl
  | contains name operand =>
    simp only [render, List.append_assoc]
    exact placeholders_binary (by decide) subject (operands operand List.mem_cons_self) rest
  | lacks name operand =>
    simp only [render, List.append_assoc]
    exact placeholders_binary (by decide) subject (operands operand List.mem_cons_self) rest
  | absent name =>
    simp only [render, List.append_assoc]
    exact placeholders_unary (by decide) subject rest
  | present name =>
    simp only [render, List.append_assoc]
    exact placeholders_unary (by decide) subject rest

theorem placeholders_renderAll {clauses : List Clause}
    (proper : ∀ clause ∈ clauses, ∀ t ∈ clause.tokens, IsPlaceholder t) :
    placeholders (renderAll clauses) = clauses.flatMap tokens := by
  have both : isSeparator " AND " = true := by decide
  have joined := placeholders_joined both
    (fun clause member _ ends => placeholders_render (proper clause member) ends) ends_nil
  rw [List.append_nil, placeholders, List.append_nil] at joined
  exact joined

end Clause

theorem Projection.placeholders_render {names : List Text} (proper : ∀ t ∈ names, IsPlaceholder t) :
    placeholders (Projection.render names) = names := by
  have comma : isSeparator ", " = true := by decide
  have each : ∀ t ∈ names, ∀ rest, Ends rest → placeholders (id t ++ rest) = [t] ++ placeholders rest :=
    fun t member rest ends => placeholders_token (proper t member) ends
  have joined := placeholders_joined comma each ends_nil
  rw [List.map_id, List.flatMap_singleton', List.append_nil, placeholders, List.append_nil] at joined
  exact joined

end TableQuery
