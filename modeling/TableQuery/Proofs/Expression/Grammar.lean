/- The grammar of expressions.

   An expression is a row of words: spaces separate words, and each parenthesis and each comma is a word of
   its own. A condition joins clauses by AND, although a range between two values has an AND of its own; a
   projection lists names between commas. Whatever words are a condition are one in one way only. -/

import TableQuery.Text.Basic

set_option autoImplicit false
set_option relaxedAutoImplicit false

namespace TableQuery.Grammar

section Words

/-- Parentheses and the comma are words of their own. -/
def isMark (c : CodePoint) : Bool := c = .char '(' || c = .char ')' || c = .char ','

def begun (word : Text) : List Text := if word.isEmpty then [] else [word]

/-- The words of a text that continues a word. -/
def wordsFrom (word : Text) : Text → List Text
  | [] => begun word
  | c :: rest =>
    if c = .char ' ' then begun word ++ wordsFrom [] rest
    else if isMark c then begun word ++ [c] :: wordsFrom [] rest
    else wordsFrom (word ++ [c]) rest

def words (t : Text) : List Text := wordsFrom [] t

def isPlain (c : CodePoint) : Bool := c != .char ' ' && !isMark c

private theorem wordsFrom_space (word s rest : Text) :
    wordsFrom word (s ++ .char ' ' :: rest) = wordsFrom word s ++ words rest := by
  induction s generalizing word with
  | nil => rfl
  | cons c s ih =>
    rw [List.cons_append, wordsFrom, wordsFrom]
    split
    · rw [ih, List.append_assoc]
    split
    · rw [ih, List.append_assoc, List.cons_append]
    · exact ih _

private theorem wordsFrom_mark {mark : CodePoint} (h : isMark mark = true) (word s rest : Text) :
    wordsFrom word (s ++ mark :: rest) = wordsFrom word s ++ [mark] :: words rest := by
  induction s generalizing word with
  | nil =>
    have no_space : mark ≠ .char ' ' := by
      rintro rfl
      cases h
    simp only [List.nil_append, wordsFrom, if_neg no_space, if_pos h]
    rfl
  | cons c s ih =>
    rw [List.cons_append, wordsFrom, wordsFrom]
    split
    · rw [ih, List.append_assoc]
    split
    · rw [ih, List.append_assoc, List.cons_append]
    · exact ih _

private theorem wordsFrom_plain {t : Text} (plain : ∀ c ∈ t, isPlain c = true) (word : Text) :
    wordsFrom word t = begun (word ++ t) := by
  induction t generalizing word with
  | nil => rw [wordsFrom, List.append_nil]
  | cons c t ih =>
    have here := plain c List.mem_cons_self
    simp only [isPlain, Bool.and_eq_true, bne_iff_ne, Bool.not_eq_true'] at here
    rw [wordsFrom, if_neg here.1, if_neg (by simp [here.2]),
      ih fun c member => plain c (List.mem_cons_of_mem _ member), List.append_assoc]
    rfl

@[simp] theorem words_nil : words [] = [] := rfl

theorem words_space (s rest : Text) : words (s ++ .char ' ' :: rest) = words s ++ words rest :=
  wordsFrom_space [] s rest

theorem words_mark {mark : CodePoint} (h : isMark mark = true) (s rest : Text) :
    words (s ++ mark :: rest) = words s ++ [mark] :: words rest :=
  wordsFrom_mark h [] s rest

private theorem words_plain {t : Text} (filled : t ≠ []) (plain : ∀ c ∈ t, isPlain c = true) : words t = [t] := by
  rw [words, wordsFrom_plain plain, List.nil_append, begun, if_neg (by simpa using filled)]

end Words

section Clauses

/-- A token is a sigil followed by letters, digits and low lines. -/
def IsToken (sigil : Char) (t : Text) : Prop :=
  ∃ rest, t = .char sigil :: rest ∧ rest ≠ [] ∧
    ∀ c ∈ rest, c.liesIn [(0x30, 0x39), (0x41, 0x5A), (0x5F, 0x5F), (0x61, 0x7A)] = true

def IsName (t : Text) : Prop := IsToken '#' t

def IsLiteral (t : Text) : Prop := IsToken ':' t

/-- A clause as it is read: what is demanded, by the name of the operator, and the tokens of the attribute and
of the operands. -/
structure Phrase where
  operator : Text
  subject : Text
  operands : List Text
  deriving DecidableEq, Repr

def signs : List (Text × Text) :=
  [("eq", "="), ("ne", "<>"), ("gt", ">"), ("lt", "<"), ("gte", ">="), ("lte", "<=")]

/-- The words that spell a clause. -/
inductive Spelled : Phrase → List Text → Prop
  | comparison {operator sign name value : Text} :
      (operator, sign) ∈ signs → IsName name → IsLiteral value →
      Spelled ⟨operator, name, [value]⟩ [name, sign, value]
  | beginsWith {name value : Text} : IsName name → IsLiteral value →
      Spelled ⟨"begins_with", name, [value]⟩ ["begins_with", "(", name, ",", value, ")"]
  | between {name low high : Text} : IsName name → IsLiteral low → IsLiteral high →
      Spelled ⟨"between", name, [low, high]⟩ [name, "BETWEEN", low, "AND", high]
  | membership {name : Text} {values : List Text} :
      IsName name → values ≠ [] → (∀ value ∈ values, IsLiteral value) →
      Spelled ⟨"in", name, values⟩
        (name :: "IN" :: "(" :: (values.intersperse (Text.ofString ",") ++ [Text.ofString ")"]))
  | contains {name value : Text} : IsName name → IsLiteral value →
      Spelled ⟨"contains", name, [value]⟩ ["contains", "(", name, ",", value, ")"]
  | lacks {name value : Text} : IsName name → IsLiteral value →
      Spelled ⟨"not_contains", name, [value]⟩ ["NOT", "contains", "(", name, ",", value, ")"]
  | absent {name : Text} : IsName name →
      Spelled ⟨"null", name, []⟩ ["attribute_not_exists", "(", name, ")"]
  | present {name : Text} : IsName name →
      Spelled ⟨"not_null", name, []⟩ ["attribute_exists", "(", name, ")"]

/-- The words that spell a condition: clauses with AND between them. -/
inductive Conjunction : List Phrase → List Text → Prop
  | last {phrase : Phrase} {ws : List Text} : Spelled phrase ws → Conjunction [phrase] ws
  | more {phrase : Phrase} {phrases : List Phrase} {ws rest : List Text} :
      Spelled phrase ws → Conjunction phrases rest →
      Conjunction (phrase :: phrases) (ws ++ Text.ofString "AND" :: rest)

/-- The words that spell a projection: names with commas between them. -/
inductive Listing : List Text → List Text → Prop
  | last {name : Text} : IsName name → Listing [name] [name]
  | more {name : Text} {names rest : List Text} :
      IsName name → Listing names rest → Listing (name :: names) (name :: Text.ofString "," :: rest)

private theorem IsToken.ne {sigil : Char} {t word : Text} (h : IsToken sigil t)
    (other : word.head? ≠ some (.char sigil)) : t ≠ word := by
  rintro rfl
  obtain ⟨rest, rfl, -⟩ := h
  exact other rfl

theorem IsToken.words {sigil : Char} {t : Text} (h : IsToken sigil t)
    (plain : isPlain (.char sigil) = true) : words t = [t] := by
  obtain ⟨rest, rfl, -, letters⟩ := h
  refine words_plain (List.cons_ne_nil _ _) ?_
  intro c member
  rcases List.mem_cons.mp member with rfl | member
  · exact plain
  · have letter := letters c member
    cases split : isPlain c with
    | true => rfl
    | false =>
      simp only [isPlain, isMark, Bool.and_eq_false_iff, bne_eq_false_iff_eq, Bool.not_eq_false',
        Bool.or_eq_true, decide_eq_true_eq] at split
      rcases split with rfl | (rfl | rfl) | rfl <;> cases letter

end Clauses

section Reading

/-- Takes operands up to and with the closing parenthesis. -/
def takeOperands : List Text → List Text × List Text
  | [] => ([], [])
  | word :: rest =>
    if word = Text.ofString ")" then ([], rest)
    else
      let (operands, after) := takeOperands rest
      (if word = Text.ofString "," then operands else word :: operands, after)

/-- Takes the rest of a clause that begins with an attribute. -/
def takeRelation (name : Text) : List Text → Option (Phrase × List Text)
  | word :: first :: rest =>
    if word = Text.ofString "BETWEEN" then
      match rest with
      | _ :: high :: rest => some (⟨"between", name, [first, high]⟩, rest)
      | _ => none
    else if word = Text.ofString "IN" then
      let (operands, rest) := takeOperands rest
      some (⟨"in", name, operands⟩, rest)
    else (signs.find? fun entry => entry.2 = word).map fun entry => (⟨entry.1, name, [first]⟩, rest)
  | _ => none

/-- Takes a clause from the front of a row of words. -/
def takePhrase : List Text → Option (Phrase × List Text)
  | [] => none
  | word :: rest =>
    if word = Text.ofString "begins_with" ∨ word = Text.ofString "contains" then
      match rest with
      | _ :: name :: _ :: value :: _ :: rest => some (⟨word, name, [value]⟩, rest)
      | _ => none
    else if word = Text.ofString "NOT" then
      match rest with
      | _ :: _ :: name :: _ :: value :: _ :: rest => some (⟨"not_contains", name, [value]⟩, rest)
      | _ => none
    else if word = Text.ofString "attribute_not_exists" then
      match rest with
      | _ :: name :: _ :: rest => some (⟨"null", name, []⟩, rest)
      | _ => none
    else if word = Text.ofString "attribute_exists" then
      match rest with
      | _ :: name :: _ :: rest => some (⟨"not_null", name, []⟩, rest)
      | _ => none
    else takeRelation word rest

private theorem takeOperands_intersperse {values : List Text} (h : ∀ value ∈ values, IsLiteral value)
    (rest : List Text) :
    takeOperands (values.intersperse (Text.ofString ",") ++ Text.ofString ")" :: rest) = (values, rest) := by
  induction values with
  | nil => rfl
  | cons value values ih =>
    have literal := h value List.mem_cons_self
    have no_end : value ≠ Text.ofString ")" := literal.ne (by decide)
    have no_comma : value ≠ Text.ofString "," := literal.ne (by decide)
    have others := ih fun value member => h value (List.mem_cons_of_mem _ member)
    cases values with
    | nil =>
      simp only [List.intersperse_singleton, List.singleton_append, takeOperands, if_neg no_end,
        if_neg no_comma]
      rfl
    | cons second values =>
      simp only [List.intersperse_cons_cons, List.cons_append, takeOperands, if_neg no_end, if_neg no_comma,
        others, if_neg (by decide : ¬ Text.ofString "," = Text.ofString ")"), if_true]

private theorem takePhrase_name {name : Text} (h : IsName name) (rest : List Text) :
    takePhrase (name :: rest) = takeRelation name rest := by
  have function : ¬ (name = Text.ofString "begins_with" ∨ name = Text.ofString "contains") :=
    not_or.mpr ⟨h.ne (by decide), h.ne (by decide)⟩
  have negation : name ≠ Text.ofString "NOT" := h.ne (by decide)
  have absent : name ≠ Text.ofString "attribute_not_exists" := h.ne (by decide)
  have present : name ≠ Text.ofString "attribute_exists" := h.ne (by decide)
  unfold takePhrase
  simp only [if_neg function, if_neg negation, if_neg absent, if_neg present]

private theorem takeRelation_sign {operator sign : Text} (h : (operator, sign) ∈ signs) (name value : Text)
    (rest : List Text) :
    takeRelation name (sign :: value :: rest) = some (⟨operator, name, [value]⟩, rest) := by
  simp only [signs, List.mem_cons, Prod.mk.injEq, List.not_mem_nil, or_false] at h
  rcases h with ⟨rfl, rfl⟩ | ⟨rfl, rfl⟩ | ⟨rfl, rfl⟩ | ⟨rfl, rfl⟩ | ⟨rfl, rfl⟩ | ⟨rfl, rfl⟩ <;> rfl

private theorem Spelled.takePhrase {phrase : Phrase} {ws : List Text} (h : Spelled phrase ws) (rest : List Text) :
    takePhrase (ws ++ rest) = some (phrase, rest) := by
  cases h with
  | comparison sign name _ => exact (takePhrase_name name _).trans (takeRelation_sign sign _ _ rest)
  | between name _ _ => exact takePhrase_name name _
  | membership name _ values =>
    rw [List.cons_append, takePhrase_name name, List.cons_append, List.cons_append, List.append_assoc,
      List.singleton_append]
    simp only [takeRelation, takeOperands_intersperse values]
    rfl
  | beginsWith _ _ => rfl
  | contains _ _ => rfl
  | lacks _ _ => rfl
  | absent _ => rfl
  | present _ => rfl

/-- A row of words is a condition in one way at most. -/
theorem Conjunction.unique {phrases others : List Phrase} {ws : List Text} (h : Conjunction phrases ws)
    (h' : Conjunction others ws) : phrases = others := by
  -- The first clause is read off the front, and what is left then shows whether another one follows.
  induction h generalizing others with
  | @last phrase ws spelled =>
    have read := spelled.takePhrase []
    cases h' with
    | last spelled' =>
      rw [spelled'.takePhrase []] at read
      rw [(Prod.mk.inj (Option.some.inj read)).1]
    | more spelled' _ =>
      rw [List.append_nil, spelled'.takePhrase] at read
      exact absurd (Prod.mk.inj (Option.some.inj read)).2 (List.cons_ne_nil _ _)
  | @more phrase phrases ws rest spelled _ ih =>
    have read := spelled.takePhrase (Text.ofString "AND" :: rest)
    generalize hall : ws ++ Text.ofString "AND" :: rest = all at h' read
    cases h' with
    | last spelled' =>
      rw [← List.append_nil all, spelled'.takePhrase] at read
      exact absurd (Prod.mk.inj (Option.some.inj read)).2.symm (List.cons_ne_nil _ _)
    | more spelled' further =>
      rw [spelled'.takePhrase] at read
      obtain ⟨rfl, left⟩ := Prod.mk.inj (Option.some.inj read)
      obtain ⟨-, rfl⟩ := List.cons.inj left
      rw [ih further]

theorem Listing.unique {names others ws : List Text} (h : Listing names ws) (h' : Listing others ws) :
    names = others := by
  induction h generalizing others with
  | last _ =>
    cases h' with
    | last _ => rfl
  | more _ _ ih =>
    cases h' with
    | more _ further => rw [ih further]

theorem Conjunction.ne_nil {phrases : List Phrase} {ws : List Text} (h : Conjunction phrases ws) :
    ws ≠ [] := by
  cases h with
  | last spelled =>
    rintro rfl
    cases spelled.takePhrase []
  | more => exact List.append_ne_nil_of_right_ne_nil _ (List.cons_ne_nil _ _)

theorem Listing.ne_nil {names ws : List Text} (h : Listing names ws) : ws ≠ [] := by
  cases h <;> exact List.cons_ne_nil _ _

end Reading

end TableQuery.Grammar
