/- Blank variables of an environment.

   What is read from a variable is its text without the blanks around it, and a variable without a value has the
   empty text. So a number that is blank counts as unset. The strategy is different: its default is taken before the
   blanks are dropped, and a strategy of blanks is refused. -/

import Mathlib.Data.List.TakeWhile
import TableQuery.Proofs.Backoff.Environment
import TableQuery.Proofs.Records

set_option autoImplicit false
set_option relaxedAutoImplicit false

namespace TableQuery

private theorem Text.strip_of_blank {t : Text} (blank : ∀ c ∈ t, c.isBlank = true) : t.strip = [] := by
  have dropped : t.dropWhile CodePoint.isBlank = [] := List.dropWhile_eq_nil_iff.mpr blank
  rw [strip, trimmed, dropped]
  rfl

namespace Policy

private theorem usual_accepted :
    makeExponential (Number.float usualBase).toValue (Number.float usualGreatest).toValue (.ofInt? none) = .ok usual :=
  makeExponential_eq_ok.mpr
    ⟨rfl, eq_ok_of_toOption (by decide +kernel), eq_ok_of_toOption (by decide +kernel), nofun⟩

end Policy

namespace Environment

def set (environment : Environment) (name t : Text) : Environment := putNamed name (some t) environment

def unset (environment : Environment) (name : Text) : Environment := environment.filter fun entry => entry.1 ≠ name

variable {environment other : Environment} {name t : Text}

private theorem text_cons (entry : Text × Option Text) (rest : Environment) (name : Text) :
    text (entry :: rest) name = if entry.1 = name then entry.2.getD [] else text rest name := by
  rw [text, List.find?_cons]
  by_cases here : entry.1 = name
  · rw [if_pos here, decide_eq_true here]
    rfl
  · rw [if_neg here, decide_eq_false here]
    rfl

private theorem text_set_self (environment : Environment) (name t : Text) : (environment.set name t).text name = t := by
  unfold set
  induction environment with
  | nil => rw [putNamed, text_cons, if_pos rfl, Option.getD_some]
  | cons entry rest ih =>
    rw [putNamed]
    split
    · rw [text_cons, if_pos rfl, Option.getD_some]
    · rename_i elsewhere
      rw [text_cons, if_neg elsewhere, ih]

private theorem text_set_of_ne (environment : Environment) {name asked : Text} (t : Text) (apart : asked ≠ name) :
    (environment.set name t).text asked = environment.text asked := by
  unfold set
  induction environment with
  | nil => rw [putNamed, text_cons, if_neg apart.symm]
  | cons entry rest ih =>
    rw [putNamed]
    split
    · rename_i here
      rw [text_cons, text_cons, if_neg apart.symm, here, if_neg apart.symm]
    · rw [text_cons, text_cons, ih]

private theorem text_unset_self (environment : Environment) (name : Text) :
    (environment.unset name).text name = [] := by
  have absent : (environment.unset name).find? (fun entry => entry.1 = name) = none := by
    rw [List.find?_eq_none]
    intro entry member
    simpa using (List.mem_filter.mp member).2
  rw [text, absent]
  rfl

private theorem text_unset_of_ne (environment : Environment) {name asked : Text} (apart : asked ≠ name) :
    (environment.unset name).text asked = environment.text asked := by
  have kept : (fun entry : Text × Option Text =>
      decide (decide (entry.1 ≠ name) = true ∧ decide (entry.1 = asked) = true)) =
        fun entry => decide (entry.1 = asked) := by
    funext entry
    by_cases here : entry.1 = asked
    · simp [here, apart]
    · simp [here]
  rw [text, text, unset, List.find?_filter, kept]

private theorem seconds_congr (name : Text) (default : Binary64)
    (alike : (environment.text name).strip = (other.text name).strip) :
    environment.seconds name default = other.seconds name default := by rw [seconds, seconds, alike]

private theorem whole_congr (name : Text) (alike : (environment.text name).strip = (other.text name).strip) :
    environment.whole? name = other.whole? name := by rw [whole?, whole?, alike]

private theorem policy_congr (strategy : environment.strategy = other.strategy)
    (alike : ∀ name, (environment.text name).strip = (other.text name).strip) :
    environment.policy = other.policy := by
  have seconds : ∀ name default, environment.seconds name default = other.seconds name default :=
    fun name default => seconds_congr name default (alike name)
  rw [policy, policy, strategy]
  simp only [seconds, whole_congr ceilingName (alike ceilingName)]

/-- Where all settings are blank, the usual policy is made: the defaults pass the checks. -/
private theorem policy_of_blank (strategy : environment.strategy = usualStrategy)
    (blank : ∀ name, (environment.text name).strip = []) : environment.policy = .ok Policy.usual := by
  have seconds : ∀ name default, environment.seconds name default = .ok default :=
    fun name default => seconds_eq_ok.mpr (.inl ⟨blank name, rfl⟩)
  have whole : environment.whole? ceilingName = .ok none := by
    rw [whole?, blank]
    rfl
  have other : usualStrategy ≠ Text.ofString "constant" := by decide
  rw [policy, strategy, if_neg other, if_pos rfl]
  refine bind_eq_ok.mpr ⟨_, seconds .., bind_eq_ok.mpr ⟨_, seconds .., bind_eq_ok.mpr ⟨_, whole, ?_⟩⟩⟩
  exact Policy.usual_accepted

private theorem strip_set_eq_unset (environment : Environment) (name asked : Text) (blank : ∀ c ∈ t, c.isBlank = true) :
    ((environment.set name t).text asked).strip = ((environment.unset name).text asked).strip := by
  by_cases same : asked = name
  · rw [same, text_set_self, text_unset_self, Text.strip_of_blank blank]
    rfl
  · rw [text_set_of_ne environment t same, text_unset_of_ne environment same]

private theorem strategy_unset (environment : Environment) :
    (environment.unset strategyName).strategy = usualStrategy := by
  rw [strategy, text_unset_self]
  decide

private theorem strategy_set_blank (environment : Environment) (filled : t ≠ []) (blank : ∀ c ∈ t, c.isBlank = true) :
    (environment.set strategyName t).strategy = [] := by
  have present : ¬ t.isEmpty = true := fun empty => filled (List.isEmpty_iff.mp empty)
  rw [strategy, text_set_self, if_neg present, Text.strip_of_blank blank]
  rfl

private theorem strategy_set_eq_unset (environment : Environment) (empty : name = strategyName → t = []) :
    (environment.set name t).strategy = (environment.unset name).strategy := by
  have same : (environment.set name t).text strategyName = (environment.unset name).text strategyName := by
    by_cases here : strategyName = name
    · subst here
      rw [text_set_self, text_unset_self, empty rfl]
    · rw [text_set_of_ne environment t here, text_unset_of_ne environment here]
  rw [strategy, strategy, same]

/-- **A blank variable counts as unset, unless it is the strategy.** Whether a variable is set to a text of blanks or
not set makes no difference to the number of retries, and it makes one to the policy exactly when the variable is the
strategy and the text is not empty. The environment is then refused, whatever the other variables hold. -/
theorem blank_counts_as_unset (environment : Environment) (name : Text) (blank : ∀ c ∈ t, c.isBlank = true) :
    (environment.set name t).maxRetries = (environment.unset name).maxRetries ∧
      ((environment.set name t).policy = (environment.unset name).policy ↔ (name = strategyName → t = [])) ∧
      (name = strategyName → t ≠ [] →
        (environment.set name t).policy = .error (.refused (.strategyUnknown []))) := by
  have alike := fun asked => strip_set_eq_unset environment name asked blank
  have refused : name = strategyName → t ≠ [] →
      (environment.set name t).policy = .error (.refused (.strategyUnknown [])) := by
    rintro rfl filled
    have unnamed := strategy_set_blank environment filled blank
    have unknown : ¬ (environment.set strategyName t).KnowsStrategy := by
      rw [KnowsStrategy, unnamed]
      decide
    rw [policy_of_unknown unknown, unnamed]
  refine ⟨?_, ⟨fun same => ?_, fun empty => ?_⟩, refused⟩
  · rw [maxRetries, maxRetries, whole_congr retriesName (alike retriesName)]
  · rintro rfl
    by_contra filled
    rw [refused rfl filled] at same
    obtain ⟨why, given, ofSetting⟩ := policy_of_known (.inr (strategy_unset environment)) _ same.symm
    exact ofSetting [] (Fault.refused.inj given).symm
  · exact policy_congr (strategy_set_eq_unset environment empty) alike

/-- With an ideographic space and a plain one, a base counts as unset, and a strategy is refused. -/
theorem blank_counts_as_unset_of_base :
    let environment : Environment := [(strategyName, some "constant"), (baseName, some "3")]
    let spaces : Text := "\u3000 "
    (∀ c ∈ spaces, c.isBlank = true) ∧
      (environment.set baseName spaces).policy = (environment.unset baseName).policy ∧
      (environment.set strategyName spaces).policy = .error (.refused (.strategyUnknown [])) := by
  intro environment spaces
  have blank : ∀ c ∈ spaces, c.isBlank = true := by decide
  refine ⟨blank, (blank_counts_as_unset environment baseName blank).2.1.mpr ?_,
    (blank_counts_as_unset environment strategyName blank).2.2 rfl (by decide)⟩
  intro same
  exact absurd same (by decide)

/-- A strategy of one space is refused; without a strategy the usual policy is made. -/
theorem policy_blank_strategy :
    (set [] strategyName " ").policy = .error (.refused (.strategyUnknown [])) ∧
      (unset [] strategyName).policy = .ok Policy.usual := by
  have unknown : ¬ (set [] strategyName " ").KnowsStrategy := by decide
  exact ⟨policy_of_unknown unknown, policy_of_blank (strategy_unset []) fun _ => rfl⟩

end Environment

end TableQuery
