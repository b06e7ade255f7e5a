/- Back-off settings of an environment.

   Whatever the variables hold, they are refused or they give a policy. The policy is usable, with finite settings
   and finite delays that are not negative and not above the maximum, exactly when no number of seconds that is
   read is infinite or a not-a-number: neither of these is refused. -/

import TableQuery.Backoff.Environment
import TableQuery.Proofs.Backoff.Delay
import TableQuery.Proofs.Value.Fitting

set_option autoImplicit false
set_option relaxedAutoImplicit false

namespace TableQuery

/-- A setting is refused, and not the strategy. -/
def Fault.RefusesSetting (fault : Fault) : Prop :=
  ∃ why, fault = .refused why ∧ ∀ strategy, why ≠ .strategyUnknown strategy

namespace Policy

def settings : Policy → List Number
  | .constant seconds => [seconds]
  | .exponential base greatest ceiling => base :: greatest :: ceiling.toList
  | .listed delays => delays

def greatest? : Policy → Option Number
  | .exponential _ greatest _ => some greatest
  | _ => none

/-- A policy is usable when its settings are finite numbers that are not negative, and so is the delay after each
attempt, which is no greater than the maximum. -/
structure Usable (policy : Policy) : Prop where
  settings : ∀ x ∈ policy.settings, ∃ v, x.value? = some v ∧ 0 ≤ v
  delays : ∀ (attempt : ℤ) (delay : Number), policy.delay (.int attempt) = .ok delay →
    ∃ v, delay.value? = some v ∧ 0 ≤ v ∧ ∀ greatest ∈ policy.greatest?, ∃ g, greatest.value? = some g ∧ v ≤ g

private theorem makeConstant_eq_ok (seconds : Number) {policy : Policy} :
    makeConstant seconds.toValue = .ok policy ↔ policy = .constant seconds ∧ seconds.below (.int 0) = .ok false := by
  simp only [makeConstant, bind_eq_ok, setting_eq_ok (Number.toNumber_toValue _), pure_eq_ok]
  constructor
  · rintro ⟨_, ⟨rfl, unsigned⟩, rfl⟩
    exact ⟨rfl, unsigned⟩
  · rintro ⟨rfl, unsigned⟩
    exact ⟨seconds, ⟨rfl, unsigned⟩, rfl⟩

private theorem nonneg_of_below {x : Binary64} {v : ℚ} (unsigned : Number.below (.float x) (.int 0) = .ok false)
    (value : x.value? = some v) : 0 ≤ v := Number.toBinary64_nonneg unsigned rfl value

private theorem usable_constant {x : Binary64} {v : ℚ} (unsigned : Number.below (.float x) (.int 0) = .ok false)
    (value : x.value? = some v) : (constant (.float x)).Usable where
  settings := by
    intro y listed
    obtain rfl := List.mem_singleton.mp listed
    exact ⟨v, value, nonneg_of_below unsigned value⟩
  delays := by
    intro attempt delay given
    obtain rfl := Except.ok.inj given
    refine ⟨v, value, nonneg_of_below unsigned value, ?_⟩
    intro greatest none_given
    cases none_given

private theorem usable_exponential {x y : Binary64} {b g : ℚ} {ceiling : Option ℤ}
    (unsigned : Number.below (.float x) (.int 0) = .ok false)
    (ordered : Number.below (.float y) (.float x) = .ok false) (positive : ∀ last ∈ ceiling, 1 ≤ last)
    (start : x.value? = some b) (most : y.value? = some g) :
    (exponential (.float x) (.float y) (ceiling.map .int)).Usable := by
  have base_nonneg : 0 ≤ b := nonneg_of_below unsigned start
  have base_le : b ≤ g := by
    rw [Number.below_eq (x := .float y) most (y := .float x) start] at ordered
    exact not_lt.mp (of_decide_eq_false (Except.ok.inj ordered))
  have greatest_nonneg : 0 ≤ g := base_nonneg.trans base_le
  constructor
  · intro setting listed
    simp only [settings, List.mem_cons, Option.mem_toList, Option.map_eq_some_iff] at listed
    rcases listed with rfl | rfl | ⟨last, given, rfl⟩
    · exact ⟨b, start, base_nonneg⟩
    · exact ⟨g, most, greatest_nonneg⟩
    · have first : (1 : ℤ) ≤ last := positive last given
      refine ⟨last, rfl, ?_⟩
      exact_mod_cast (by omega : 0 ≤ last)
  · intro attempt delay given
    by_cases early : attemptFor ceiling attempt ≤ 1024
    · have converted : (Number.float x).toBinary64 = .ok x := rfl
      have cap : (Number.float y).value? = some g := most
      obtain ⟨delay', given', value⟩ :=
        waits_min converted start base_nonneg cap (Binary64.value_lt most) positive early
      obtain rfl := Except.ok.inj (given.symm.trans given')
      have grown : 0 ≤ b * 2 ^ (attemptFor ceiling attempt - 1) := by positivity
      refine ⟨_, value, le_min greatest_nonneg grown, ?_⟩
      rintro _ ⟨⟩
      exact ⟨g, most, min_le_left ..⟩
    · have late : (exponential (.float x) (.float y) (ceiling.map .int)).delay (.int attempt) = .error .tooLarge :=
        delay_eq_tooLarge (not_le.mp early)
      cases late.symm.trans given

private theorem usual_finite : (∃ v, usualSeconds.value? = some v) ∧ (∃ v, usualBase.value? = some v) ∧
    ∃ v, usualGreatest.value? = some v := by
  have seconds : usualSeconds = .finite false 4503599627370496 (-52) (by decide) := by decide +kernel
  have base : usualBase = .finite false 7205759403792794 (-57) (by decide) := by decide +kernel
  have greatest : usualGreatest = .finite false 4503599627370496 (-52) (by decide) := by decide +kernel
  rw [seconds, base, greatest]
  exact ⟨⟨_, rfl⟩, ⟨_, rfl⟩, ⟨_, rfl⟩⟩

private theorem setting_failsOnly {given : Value} {x least : Number} {low : Bool} {why : Refusal}
    (number : given.toNumber = .ok x) (compared : x.below least = .ok low)
    (ofSetting : ∀ strategy, why ≠ .strategyUnknown strategy) :
    FailsOnly Fault.RefusesSetting (setting given least why) := by
  have step : setting given least why = if low then .error (.refused why) else .ok x := by
    rw [setting, number]
    change (x.below least >>= fun low => _) = _
    rw [compared]
    cases low <;> rfl
  rw [step]
  cases low
  · exact .ok x
  · exact .error ⟨why, rfl, ofSetting⟩

private theorem ceilingOf_failsOnly (ceiling : Option ℤ) :
    FailsOnly Fault.RefusesSetting (ceilingOf (.ofInt? ceiling)) := by
  cases ceiling with
  | none => exact .ok none
  | some last =>
    have checked : FailsOnly Fault.RefusesSetting (setting (.int last) (.int 0) .ceilingNotPositive) :=
      setting_failsOnly (x := .int last) rfl rfl nofun
    refine checked.bind ?_
    intro x _
    split
    · exact .error ⟨_, rfl, nofun⟩
    · exact .ok _

private theorem makeConstant_failsOnly (x : Binary64) : FailsOnly Fault.RefusesSetting (makeConstant (.float x)) := by
  refine FailsOnly.bind (setting_failsOnly (x := .float x) rfl rfl nofun) ?_
  exact fun _ _ => .ok _

private theorem makeExponential_failsOnly (x y : Binary64) (ceiling : Option ℤ) :
    FailsOnly Fault.RefusesSetting (makeExponential (.float x) (.float y) (.ofInt? ceiling)) := by
  refine FailsOnly.bind (setting_failsOnly (x := .float x) rfl rfl nofun) ?_
  intro base given
  obtain ⟨rfl, -⟩ := (setting_eq_ok rfl).mp given
  refine FailsOnly.bind (setting_failsOnly (x := .float y) rfl rfl nofun) ?_
  intro greatest _
  exact (ceilingOf_failsOnly ceiling).bind fun _ _ => .ok _

end Policy

namespace Environment

/-- The variables that the strategy of an environment reads seconds from. -/
def secondsNames (environment : Environment) : List Text :=
  if environment.strategy = Text.ofString "constant" then [baseName] else [baseName, greatestName]

def ReadsFinite (environment : Environment) : Prop :=
  ∀ name ∈ environment.secondsNames, ∀ x, Binary64.read? (environment.text name).strip = some x →
    ∃ v, x.value? = some v

variable {environment : Environment} {name : Text} {default x : Binary64}

theorem seconds_eq_ok : environment.seconds name default = .ok x ↔
    (environment.text name).strip = [] ∧ x = default ∨ Binary64.read? (environment.text name).strip = some x := by
  rw [seconds]
  generalize (environment.text name).strip = raw
  cases raw with
  | nil =>
    have unread : Binary64.read? [] = none := rfl
    simp [unread, eq_comm]
  | cons c rest =>
    cases Binary64.read? (c :: rest) <;> simp

private theorem seconds_failsOnly : FailsOnly Fault.RefusesSetting (environment.seconds name default) := by
  rw [seconds]
  split
  · exact .ok _
  · split
    · exact .ok _
    · exact .error ⟨_, rfl, nofun⟩

private theorem whole_failsOnly : FailsOnly Fault.RefusesSetting (environment.whole? name) := by
  rw [whole?]
  split
  · exact .ok _
  · split
    · exact .ok _
    · exact .error ⟨_, rfl, nofun⟩

def KnowsStrategy (environment : Environment) : Prop :=
  environment.strategy = Text.ofString "constant" ∨ environment.strategy = usualStrategy

instance decidableKnowsStrategy (environment : Environment) : Decidable environment.KnowsStrategy :=
  inferInstanceAs (Decidable (_ ∨ _))

theorem policy_of_known (known : environment.KnowsStrategy) : FailsOnly Fault.RefusesSetting environment.policy := by
  rw [policy]
  split
  · exact seconds_failsOnly.bind fun x _ => Policy.makeConstant_failsOnly x
  · rename_i other
    rw [if_pos (known.resolve_left other)]
    refine seconds_failsOnly.bind fun x _ => ?_
    refine seconds_failsOnly.bind fun y _ => ?_
    exact whole_failsOnly.bind fun ceiling _ => Policy.makeExponential_failsOnly x y ceiling

theorem policy_of_unknown (unknown : ¬ environment.KnowsStrategy) :
    environment.policy = .error (.refused (.strategyUnknown environment.strategy)) := by
  rw [KnowsStrategy, not_or] at unknown
  rw [policy, if_neg unknown.1, if_neg unknown.2]

private theorem policy_failsOnly (environment : Environment) : FailsOnly Fault.IsRefusal environment.policy := by
  by_cases known : environment.KnowsStrategy
  · intro fault failed
    obtain ⟨why, rfl, -⟩ := policy_of_known known fault failed
    exact ⟨why, rfl⟩
  · rw [policy_of_unknown known]
    exact .refused _

/-- An environment that is accepted gives a constant policy with the seconds that it reads, or an exponential one
whose settings have been checked. -/
private theorem policy_eq_ok {policy : Policy} (given : environment.policy = .ok policy) :
    (environment.strategy = Text.ofString "constant" ∧ ∃ x, environment.seconds baseName Policy.usualSeconds = .ok x ∧
      policy = .constant (.float x) ∧ Number.below (.float x) (.int 0) = .ok false) ∨
    environment.strategy ≠ Text.ofString "constant" ∧ ∃ x y ceiling,
      environment.seconds baseName Policy.usualBase = .ok x ∧
      environment.seconds greatestName Policy.usualGreatest = .ok y ∧
      policy = .exponential (.float x) (.float y) (Option.map Number.int ceiling) ∧
      Number.below (.float x) (.int 0) = .ok false ∧ Number.below (.float y) (.float x) = .ok false ∧
      ∀ last ∈ ceiling, 1 ≤ last := by
  rw [Environment.policy] at given
  by_cases constant : environment.strategy = Text.ofString "constant"
  · rw [if_pos constant, bind_eq_ok] at given
    obtain ⟨x, read, made⟩ := given
    exact .inl ⟨constant, x, read, (Policy.makeConstant_eq_ok (.float x)).mp made⟩
  · rw [if_neg constant] at given
    refine .inr ⟨constant, ?_⟩
    split at given
    · simp only [bind_eq_ok] at given
      obtain ⟨x, read, y, read', ceiling, -, made⟩ := given
      have given : Policy.makeExponential (Number.float x).toValue (Number.float y).toValue (.ofInt? ceiling) =
          .ok policy := made
      exact ⟨x, y, ceiling, read, read', Policy.makeExponential_eq_ok.mp given⟩
    · cases given

private theorem finite_of_seconds (usual : ∃ v, default.value? = some v)
    (read : environment.seconds name default = .ok x)
    (finite : ∀ y, Binary64.read? (environment.text name).strip = some y → ∃ v, y.value? = some v) :
    ∃ v, x.value? = some v := by
  rcases seconds_eq_ok.mp read with ⟨-, rfl⟩ | found
  · exact usual
  · exact finite x found

private theorem eq_of_seconds {y : Binary64} (read : environment.seconds name default = .ok x)
    (found : Binary64.read? (environment.text name).strip = some y) : y = x :=
  Except.ok.inj ((seconds_eq_ok.mpr (.inr found)).symm.trans read)

/-- **An environment is refused or gives a policy, and the policy is usable unless it was given an infinity or a
not-a-number.** Then its settings are finite and not negative, and so is the delay after every attempt that has one,
which is no greater than the maximum of an exponential policy. -/
theorem refused_or_usable (environment : Environment) :
    (∃ why, environment.policy = .error (.refused why)) ∨
      ∃ policy, environment.policy = .ok policy ∧ (policy.Usable ↔ environment.ReadsFinite) := by
  cases outcome : environment.policy with
  | error fault =>
    obtain ⟨why, rfl⟩ := policy_failsOnly environment fault outcome
    exact .inl ⟨why, rfl⟩
  | ok policy =>
    refine .inr ⟨policy, rfl, ?_⟩
    rcases policy_eq_ok outcome with ⟨constant, x, read, rfl, unsigned⟩ |
      ⟨exponential, x, y, ceiling, read, read', rfl, unsigned, ordered, positive⟩
    · rw [ReadsFinite, secondsNames, if_pos constant, List.forall_mem_singleton]
      constructor
      · intro usable z found
        obtain rfl := eq_of_seconds read found
        obtain ⟨v, value, -⟩ := usable.settings (.float z) List.mem_cons_self
        exact ⟨v, value⟩
      · intro finite
        obtain ⟨v, value⟩ := finite_of_seconds Policy.usual_finite.1 read finite
        exact Policy.usable_constant unsigned value
    · rw [ReadsFinite, secondsNames, if_neg exponential, List.forall_mem_cons, List.forall_mem_singleton]
      constructor
      · intro usable
        constructor
        · intro z found
          obtain rfl := eq_of_seconds read found
          obtain ⟨v, value, -⟩ := usable.settings (.float z) List.mem_cons_self
          exact ⟨v, value⟩
        · intro z found
          obtain rfl := eq_of_seconds read' found
          obtain ⟨v, value, -⟩ := usable.settings (.float z) (List.mem_cons_of_mem _ List.mem_cons_self)
          exact ⟨v, value⟩
      · rintro ⟨finite, finite'⟩
        obtain ⟨b, start⟩ := finite_of_seconds Policy.usual_finite.2.1 read finite
        obtain ⟨g, most⟩ := finite_of_seconds Policy.usual_finite.2.2 read' finite'
        exact Policy.usable_exponential unsigned ordered positive start most

/-- A not-a-number is not refused: the constant policy then waits for one after every attempt. -/
theorem policy_nan :
    let environment : Environment := [(strategyName, some "constant"), (baseName, some "nan")]
    environment.policy = .ok (.constant (.float .nan)) ∧ ¬ (Policy.constant (.float .nan)).Usable := by
  intro environment
  have constant : environment.strategy = Text.ofString "constant" := by decide +kernel
  have read : environment.seconds baseName Policy.usualSeconds = .ok .nan :=
    seconds_eq_ok.mpr (.inr (by decide +kernel))
  constructor
  · rw [policy, if_pos constant, read]
    exact (Policy.makeConstant_eq_ok (.float .nan)).mpr ⟨rfl, rfl⟩
  · intro usable
    obtain ⟨v, value, -⟩ := usable.settings (.float .nan) List.mem_cons_self
    cases value

end Environment

end TableQuery
