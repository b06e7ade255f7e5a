/- The candidates that versions name.

   A version names a candidate when it is the three numbers of a release, a mark with or without a point after it,
   and the number of the candidate. Such a version is brought into its normal form, which names no candidate any more,
   and so is one that is followed by a single line end. Any other version stays as it is. -/

import TableQuery.Proofs.Number.Writing
import TableQuery.Release

set_option autoImplicit false
set_option relaxedAutoImplicit false

namespace TableQuery.Release

/-- A text that is not empty and has digits of one kind alone. -/
def IsNumeral (isDigit : CodePoint → Bool) (t : Text) : Prop := t ≠ [] ∧ ∀ c ∈ t, isDigit c = true

instance decidableIsNumeral (isDigit : CodePoint → Bool) : DecidablePred (IsNumeral isDigit) := fun _ =>
  inferInstanceAs (Decidable (_ ∧ _))

private theorem IsNumeral.notMem {isDigit : CodePoint → Bool} {t : Text} (numeral : IsNumeral isDigit t) {c : CodePoint}
    (other : isDigit c = false) : c ∉ t := by
  intro member
  have digit := numeral.2 c member
  rw [other] at digit
  cases digit

/-- A candidate of a release, with its numbers as they are written: those of the release in decimal digits of any
script, and its own in ASCII digits. -/
structure Candidate where
  major : Text
  minor : Text
  patch : Text
  number : Text
  major_isNumeral : IsNumeral (·.digit?.isSome) major
  minor_isNumeral : IsNumeral (·.digit?.isSome) minor
  patch_isNumeral : IsNumeral (·.digit?.isSome) patch
  number_isNumeral : IsNumeral (·.asciiDigit?.isSome) number

namespace Candidate

variable (candidate : Candidate)

def release : Text := candidate.major ++ "." ++ candidate.minor ++ "." ++ candidate.patch

def normalForm : Text := candidate.release ++ "rc" ++ candidate.number

/-- The whole of a text names the candidate. -/
inductive Names : Text → Prop
  | plain : Names (candidate.release ++ "-rc" ++ candidate.number)
  | pointed : Names (candidate.release ++ "-rc." ++ candidate.number)

/-- A text names the candidate up to a line end, its last code point. -/
def NamesLine (version : Text) : Prop := ∃ named, candidate.Names named ∧ version = named ++ "\n"

end Candidate

section Reading

variable {t rest : Text}

private theorem takeDigits?_eq_some_iff {digits : Text} :
    takeDigits? t = some (digits, rest) ↔
      t = digits ++ rest ∧ IsNumeral (·.digit?.isSome) digits ∧ ∀ c ∈ rest.head?, c.digit?.isSome = false := by
  constructor
  · intro taken
    rw [takeDigits?] at taken
    split at taken
    next => cases taken
    next run after filled spanned =>
      obtain ⟨rfl, rfl⟩ := Prod.mk.inj (Option.some.inj taken)
      obtain ⟨parts, inside, stops⟩ := Text.span_eq_iff.mp spanned
      exact ⟨parts, ⟨filled, inside⟩, stops⟩
  · rintro ⟨parts, ⟨filled, inside⟩, stops⟩
    have spanned := Text.span_eq_iff.mpr ⟨parts, inside, stops⟩
    obtain ⟨c, run, rfl⟩ := List.exists_cons_of_ne_nil filled
    rw [takeDigits?, spanned]

private theorem takePoint?_eq_some_iff : takePoint? t = some rest ↔ t = Text.ofString "." ++ rest := by
  constructor
  · intro taken
    rw [takePoint?.eq_def] at taken
    split at taken
    next =>
      obtain rfl := Option.some.inj taken
      rfl
    next => cases taken
  · rintro rfl
    rfl

private theorem stops_point : ∀ c ∈ (Text.ofString "." ++ rest).head?, c.digit?.isSome = false := by
  rintro _ ⟨⟩
  decide

private theorem takeTriple?_eq_some_iff {triple : Text} :
    takeTriple? t = some (triple, rest) ↔
      ∃ major minor patch, IsNumeral (·.digit?.isSome) major ∧ IsNumeral (·.digit?.isSome) minor ∧
        IsNumeral (·.digit?.isSome) patch ∧ triple = major ++ "." ++ minor ++ "." ++ patch ∧ t = triple ++ rest ∧
        ∀ c ∈ rest.head?, c.digit?.isSome = false := by
  -- A point ends a number, so of the conditions on what follows the numbers only the last says something.
  simp only [takeTriple?, Option.bind_eq_bind, Option.bind_eq_some_iff, Prod.exists, takeDigits?_eq_some_iff,
    takePoint?_eq_some_iff, Option.pure_def, Option.some.injEq, Prod.mk.injEq]
  constructor
  · rintro ⟨major, _, ⟨rfl, hmajor, -⟩, _, rfl, minor, _, ⟨rfl, hminor, -⟩, _, rfl, patch, _,
      ⟨rfl, hpatch, stops⟩, rfl, rfl⟩
    refine ⟨major, minor, patch, hmajor, hminor, hpatch, rfl, ?_, stops⟩
    simp only [List.append_assoc]
  · rintro ⟨major, minor, patch, hmajor, hminor, hpatch, rfl, rfl, stops⟩
    refine ⟨major, _, ⟨?_, hmajor, stops_point⟩, _, rfl, minor, _, ⟨rfl, hminor, stops_point⟩, _, rfl,
      patch, rest, ⟨rfl, hpatch, stops⟩, rfl, rfl⟩
    simp only [List.append_assoc]

/-- A point after the mark belongs to the mark. -/
private theorem takeMark?_eq_some_iff :
    takeMark? t = some rest ↔
      t = Text.ofString "-rc." ++ rest ∨ t = Text.ofString "-rc" ++ rest ∧ rest.head? ≠ some (.char '.') := by
  constructor
  · intro taken
    rw [takeMark?.eq_def] at taken
    split at taken
    next =>
      obtain rfl := Option.some.inj taken
      exact .inl rfl
    next unpointed =>
      obtain rfl := Option.some.inj taken
      refine .inr ⟨rfl, ?_⟩
      intro point
      obtain ⟨after, rfl⟩ := List.head?_eq_some_iff.mp point
      exact unpointed after rfl
    next => cases taken
  · rintro (rfl | ⟨rfl, unpointed⟩)
    · rfl
    · change takeMark? (.char '-' :: .char 'r' :: .char 'c' :: rest) = some rest
      rw [takeMark?]
      rintro after rfl
      exact unpointed rfl

private theorem stops_of_takeMark? (taken : takeMark? t = some rest) : ∀ c ∈ t.head?, c.digit?.isSome = false := by
  rcases takeMark?_eq_some_iff.mp taken with rfl | ⟨rfl, -⟩
  all_goals
    rintro _ ⟨⟩
    decide

private theorem takeNumber?_eq_some_iff {number : Text} :
    takeNumber? t = some number ↔
      IsNumeral (·.asciiDigit?.isSome) number ∧ (t = number ∨ t = number ++ Text.ofString "\n") := by
  constructor
  · intro taken
    rw [takeNumber?] at taken
    split at taken
    next => cases taken
    next run filled spanned =>
      obtain rfl := Option.some.inj taken
      obtain ⟨parts, inside, -⟩ := Text.span_eq_iff.mp spanned
      exact ⟨⟨filled, inside⟩, .inl (parts.trans (List.append_nil run))⟩
    next run filled spanned =>
      obtain rfl := Option.some.inj taken
      obtain ⟨parts, inside, -⟩ := Text.span_eq_iff.mp spanned
      exact ⟨⟨filled, inside⟩, .inr parts⟩
    next => cases taken
  · rintro ⟨⟨filled, inside⟩, ends⟩
    obtain ⟨c, run, rfl⟩ := List.exists_cons_of_ne_nil filled
    rcases ends with rfl | rfl
    · have spanned := Text.span_eq_iff.mpr ⟨(List.append_nil (c :: run)).symm, inside, nofun⟩
      rw [takeNumber?, spanned]
    · have stops : ∀ d ∈ (Text.ofString "\n").head?, d.asciiDigit?.isSome = false := by decide
      have spanned := Text.span_eq_iff.mpr ⟨rfl, inside, stops⟩
      rw [takeNumber?, spanned]
      rfl

end Reading

namespace Candidate

variable {candidate : Candidate} {version : Text}

private theorem unpointed_number (tail : Text) : (candidate.number ++ tail).head? ≠ some (.char '.') := by
  intro point
  obtain ⟨c, run, number⟩ := List.exists_cons_of_ne_nil candidate.number_isNumeral.1
  have noPoint : .char '.' ∉ candidate.number := candidate.number_isNumeral.notMem (by decide)
  rw [number] at point noPoint
  obtain rfl := Option.some.inj point
  exact noPoint List.mem_cons_self

private theorem names_or_namesLine_iff :
    candidate.Names version ∨ candidate.NamesLine version ↔
      ∃ marked rest, version = candidate.release ++ marked ∧ takeMark? marked = some rest ∧
        takeNumber? rest = some candidate.number := by
  simp only [takeMark?_eq_some_iff, takeNumber?_eq_some_iff, candidate.number_isNumeral, true_and]
  -- Either side has four cases: two marks, each with the number at the end of the text or before a line end.
  constructor
  · rintro ((plain | pointed) | ⟨_, plain | pointed, rfl⟩)
    · have unpointed : candidate.number.head? ≠ some (.char '.') := by
        rw [← List.append_nil candidate.number]
        exact unpointed_number []
      exact ⟨_, _, List.append_assoc .., .inr ⟨rfl, unpointed⟩, .inl rfl⟩
    · exact ⟨_, _, List.append_assoc .., .inl rfl, .inl rfl⟩
    · exact ⟨_, _, by simp only [List.append_assoc], .inr ⟨rfl, unpointed_number _⟩, .inr rfl⟩
    · exact ⟨_, _, by simp only [List.append_assoc], .inl rfl, .inr rfl⟩
  · rintro ⟨_, _, rfl, rfl | ⟨rfl, -⟩, rfl | rfl⟩
    · rw [← List.append_assoc]
      exact .inl .pointed
    · simp only [← List.append_assoc]
      exact .inr ⟨_, .pointed, rfl⟩
    · rw [← List.append_assoc]
      exact .inl .plain
    · simp only [← List.append_assoc]
      exact .inr ⟨_, .plain, rfl⟩

variable {c : CodePoint}

private theorem notMem_release (other : c.digit?.isSome = false) (noPoint : c ≠ .char '.') : c ∉ candidate.release := by
  have major : c ∉ candidate.major := candidate.major_isNumeral.notMem other
  have minor : c ∉ candidate.minor := candidate.minor_isNumeral.notMem other
  have patch : c ∉ candidate.patch := candidate.patch_isNumeral.notMem other
  have point : c ∉ Text.ofString "." := fun member => noPoint (List.mem_singleton.mp member)
  simp only [release, List.mem_append, not_or]
  exact ⟨⟨⟨⟨major, point⟩, minor⟩, point⟩, patch⟩

private theorem dash_notMem_normalForm : .char '-' ∉ candidate.normalForm := by
  have release : .char '-' ∉ candidate.release := notMem_release (by decide) (by decide)
  have number : .char '-' ∉ candidate.number := candidate.number_isNumeral.notMem (by decide)
  have letters : .char '-' ∉ Text.ofString "rc" := by decide
  simp only [normalForm, List.mem_append, not_or]
  exact ⟨⟨release, letters⟩, number⟩

private theorem Names.dash_mem (names : candidate.Names version) : .char '-' ∈ version := by
  have plain : .char '-' ∈ Text.ofString "-rc" := by decide
  have pointed : .char '-' ∈ Text.ofString "-rc." := by decide
  cases names with
  | plain => exact List.mem_append_left _ (List.mem_append_right _ plain)
  | pointed => exact List.mem_append_left _ (List.mem_append_right _ pointed)

private theorem dash_mem (names : candidate.Names version ∨ candidate.NamesLine version) : .char '-' ∈ version := by
  rcases names with names | ⟨named, names, rfl⟩
  · exact names.dash_mem
  · exact List.mem_append_left _ names.dash_mem

private theorem Names.lineEnd_notMem (names : candidate.Names version) : .char '\n' ∉ version := by
  have release : .char '\n' ∉ candidate.release := notMem_release (by decide) (by decide)
  have number : .char '\n' ∉ candidate.number := candidate.number_isNumeral.notMem (by decide)
  have plain : .char '\n' ∉ Text.ofString "-rc" := by decide
  have pointed : .char '\n' ∉ Text.ofString "-rc." := by decide
  cases names with
  | plain =>
    simp only [List.mem_append, not_or]
    exact ⟨⟨release, plain⟩, number⟩
  | pointed =>
    simp only [List.mem_append, not_or]
    exact ⟨⟨release, pointed⟩, number⟩

end Candidate

variable {version normal : Text}

private theorem candidate?_eq_some_iff :
    candidate? version = some normal ↔
      ∃ candidate : Candidate, (candidate.Names version ∨ candidate.NamesLine version) ∧
        normal = candidate.normalForm := by
  simp only [candidate?, Option.bind_eq_bind, Option.bind_eq_some_iff, Prod.exists, takeTriple?_eq_some_iff,
    Option.pure_def, Option.some.injEq]
  constructor
  · rintro ⟨_, marked, ⟨major, minor, patch, hmajor, hminor, hpatch, rfl, rfl, -⟩,
      rest, mark, number, taken, rfl⟩
    have hnumber := (takeNumber?_eq_some_iff.mp taken).1
    refine ⟨⟨major, minor, patch, number, hmajor, hminor, hpatch, hnumber⟩, ?_, rfl⟩
    exact Candidate.names_or_namesLine_iff.mpr ⟨marked, rest, rfl, mark, taken⟩
  · rintro ⟨candidate, names, rfl⟩
    obtain ⟨marked, rest, rfl, mark, taken⟩ := Candidate.names_or_namesLine_iff.mp names
    have stops := stops_of_takeMark? mark
    exact ⟨candidate.release, marked, ⟨_, _, _, candidate.major_isNumeral, candidate.minor_isNumeral,
      candidate.patch_isNumeral, rfl, rfl, stops⟩, rest, mark, _, taken, rfl⟩

private theorem normalize_of_names {candidate : Candidate}
    (names : candidate.Names version ∨ candidate.NamesLine version) : normalize version = candidate.normalForm := by
  rw [normalize, candidate?_eq_some_iff.mpr ⟨candidate, names, rfl⟩, Option.getD_some]

private theorem normalize_of_unnamed
    (unnamed : ¬ ∃ candidate : Candidate, candidate.Names version ∨ candidate.NamesLine version) :
    normalize version = version := by
  cases taken : candidate? version with
  | none => rw [normalize, taken, Option.getD_none]
  | some normal =>
    obtain ⟨candidate, names, -⟩ := candidate?_eq_some_iff.mp taken
    exact absurd ⟨candidate, names⟩ unnamed

private theorem normalize_of_dashless (dashless : .char '-' ∉ version) : normalize version = version := by
  apply normalize_of_unnamed
  rintro ⟨candidate, names⟩
  exact dashless (Candidate.dash_mem names)

/-- **Normalizing rewrites the candidates, and nothing else.** Whatever the version, if the whole of it names a
candidate, or all of it but a line end that it ends with, it becomes the normal form of that candidate; and it stays
as it is exactly if it names none in either way. Normalizing twice is normalizing once. -/
theorem rewrites_candidates (version : Text) :
    (∀ candidate : Candidate, candidate.Names version ∨ candidate.NamesLine version →
      normalize version = candidate.normalForm) ∧
    (normalize version = version ↔
      ¬ ∃ candidate : Candidate, candidate.Names version ∨ candidate.NamesLine version) ∧
    normalize (normalize version) = normalize version := by
  refine ⟨fun candidate => normalize_of_names, ⟨?_, normalize_of_unnamed⟩, ?_⟩
  · rintro same ⟨candidate, names⟩
    have normal : version = candidate.normalForm := same.symm.trans (normalize_of_names names)
    apply candidate.dash_notMem_normalForm
    rw [← normal]
    exact Candidate.dash_mem names
  · by_cases named : ∃ candidate : Candidate, candidate.Names version ∨ candidate.NamesLine version
    · obtain ⟨candidate, names⟩ := named
      rw [normalize_of_names names]
      exact normalize_of_dashless candidate.dash_notMem_normalForm
    · rw [normalize_of_unnamed named, normalize_of_unnamed named]

def mixedDigits : Candidate where
  major := "\u0661\u0662"
  minor := "0"
  patch := "3"
  number := "04"
  major_isNumeral := by decide
  minor_isNumeral := by decide
  patch_isNumeral := by decide
  number_isNumeral := by decide

theorem rewrites_candidates_of_mixedDigits :
    mixedDigits.Names "\u0661\u0662.0.3-rc.04" ∧
      normalize "\u0661\u0662.0.3-rc.04" = Text.ofString "\u0661\u0662.0.3rc04" ∧
      ¬ ∃ candidate : Candidate, candidate.Names "1.0.3-rc.\u0664" ∨ candidate.NamesLine "1.0.3-rc.\u0664" := by
  have names : mixedDigits.Names "\u0661\u0662.0.3-rc.04" := .pointed
  have other : normalize "1.0.3-rc.\u0664" = Text.ofString "1.0.3-rc.\u0664" := by decide
  exact ⟨names, (rewrites_candidates _).1 mixedDigits (.inl names), (rewrites_candidates _).2.1.mp other⟩

/-- A line end after a candidate is dropped, though the whole of the text names none. -/
theorem normalize_drops_lineEnd :
    (¬ ∃ candidate : Candidate, candidate.Names "1.2.3-rc4\n") ∧
      normalize "1.2.3-rc4\n" = Text.ofString "1.2.3rc4" ∧
      normalize "1.2.3-rc4\n" ≠ Text.ofString "1.2.3-rc4\n" := by
  refine ⟨?_, by decide, by decide⟩
  rintro ⟨candidate, names⟩
  exact names.lineEnd_notMem (by decide)

end TableQuery.Release
