import Mathlib.Data.List.Forall2
import RecordFlow.Pipeline.Basic
import RecordFlow.Proofs.Filter.Spelling
import RecordFlow.Proofs.Transform.Spelling

/-!
# Building a pipeline step by step

Each step is judged on its own: it describes one stage, or there is something wrong with it wherever
it stands. A list of steps is built if it has a step and all of them describe stages, and then every
stage is that of its own step. Otherwise the first bad step and its position tell the error, and the
steps around it have no part in it.
-/
namespace RecordFlow

theorem Value.word?_eq_some_iff {v : Value} {n : UInt64} :
    v.word? = some n ↔ v = .number (.ofWord n) := by
  constructor
  · intro read
    cases v with
    | number m => rw [Path.eq_ofWord_of_toWord? read]
    | _ => cases read
  · rintro rfl
    exact Path.toWord?_ofWord n

namespace Stage

/-- The stage that a configuration gives under an operator: a filter or a transform by its
expression, a limit by its count. -/
inductive Configured (registry : Registry) (config : Value) : String → Stage → Prop
  | filter {v : Value} {f : Filter} : config.field? "expression" = some v →
      Filter.ofValue v = .ok f → Configured registry config "filter" (filter f)
  | transform {v : Value} {t : Transform} : config.field? "expression" = some v →
      Transform.ofValue registry v = .ok t → Configured registry config "transform" (transform t)
  | limit {n : UInt64} : config.field? "count" = some (.number (.ofWord n)) →
      Configured registry config "limit" (limit n.toNat)

/-- The stage that a step describes. -/
def Described (registry : Registry) (step : Value) (stage : Stage) : Prop :=
  ∃ operator config, step.field? "operator" = some (.string operator) ∧
    step.field? "config" = some config ∧ Configured registry config operator stage

/-- The step is accepted on its own. -/
def Accepted (registry : Registry) (step : Value) : Prop := ∃ stage, Described registry step stage

/-- Filters and transforms have an expression, be it a right or a wrong one. -/
def hasExpression (operator : String) (config : Value) : Bool :=
  (operator = "filter" ∨ operator = "transform") && (config.field? "expression").isSome

def CarriesExpression (step : Value) : Prop :=
  ∃ operator config, step.field? "operator" = some (.string operator) ∧
    step.field? "config" = some config ∧ hasExpression operator config = true

/-- An expression error or a validation error. -/
def blame (inExpression : Bool) (message : String) : Error :=
  if inExpression then .expression message else .validation message

/-- What is wrong with a step, but for its position: whether the expression is at fault, and the
message around the name of the step. -/
structure Complaint where
  inExpression : Bool
  before : String
  after : String

/-- The complaint about the step at a position, counted from zero. A blank ends the position. -/
def Complaint.error (c : Complaint) (index : Nat) : Error :=
  blame c.inExpression (c.before ++ "step #" ++ toString index ++ " " ++ c.after)

variable {registry : Registry}

/-! ## One configuration -/

/-- How a configuration is judged. -/
inductive Judged (registry : Registry) (operator : String) (config : Value) :
    Except Error Stage → Prop
  | accepted {stage : Stage} : Configured registry config operator stage →
      Judged registry operator config (.ok stage)
  | refused (m : String) :
      Judged registry operator config (.error (blame (hasExpression operator config) m))

theorem Judged.of_blame {operator : String} {config : Value} {inExpression : Bool} (m : String)
    (carried : hasExpression operator config = inExpression) :
    Judged registry operator config (.error (blame inExpression m)) :=
  carried ▸ .refused m

/-- Filters and transforms are judged alike, each by its own engine. -/
theorem judged_expression {α : Type} {operator : String} {config : Value} {P : Value → α → Prop}
    {read : Value → Except Error α} {make : α → Stage}
    (engine : operator = "filter" ∨ operator = "transform") (reads : ∀ v, Reads (P v) (read v))
    (each : ∀ v x, config.field? "expression" = some v → read v = .ok x →
      Configured registry config operator (make x)) :
    Judged registry operator config
      (expressionOf operator config >>= fun v => read v >>= fun x => pure (make x)) := by
  rw [expressionOf]
  cases found : config.field? "expression" with
  | none =>
    have without : hasExpression operator config = false := by
      rw [hasExpression, found, Option.isSome_none, Bool.and_false]
    exact Judged.of_blame _ without
  | some v =>
    have carried : hasExpression operator config = true := by simp [hasExpression, found, engine]
    change Judged registry operator config (read v >>= fun x => pure (make x))
    generalize result : read v = outcome
    cases result ▸ reads v with
    | read _ => exact .accepted (each v _ found result)
    | refused m => exact Judged.of_blame m carried

theorem judged_ofConfig (registry : Registry) (operator : String) (config : Value) :
    Judged registry operator config (ofConfig registry operator config) := by
  unfold ofConfig
  split_ifs with filters transforms limits
  · subst filters
    exact judged_expression (.inl rfl) Filter.reads_ofValue fun _ _ => .filter
  · subst transforms
    exact judged_expression (.inr rfl) Transform.reads_ofValue fun _ _ => .transform
  · subst limits
    cases counted : config.field? "count" with
    | none => exact .refused _
    | some v =>
      rw [Option.bind_some]
      cases whole : v.word? with
      | none => exact .refused _
      | some n =>
        rw [Value.word?_eq_some_iff.mp whole] at counted
        exact .accepted (.limit counted)
  · have without : hasExpression operator config = false := by
      simp [hasExpression, filters, transforms]
    exact Judged.of_blame _ without

theorem ofConfig_of_configured {operator : String} {config : Value} {stage : Stage}
    (h : Configured registry config operator stage) :
    ofConfig registry operator config = .ok stage ∧ stage.name = operator := by
  refine ⟨?_, by cases h <;> rfl⟩
  cases h with
  | filter found read | transform found read =>
    simp [ofConfig, expressionOf, found, read, bind, Except.bind, pure, Except.pure]
  | limit found => simp [ofConfig, found, Value.word?_eq_some_iff.mpr rfl]

/-! ## One step -/

theorem blame_atStage (inExpression : Bool) (m stage : String) :
    (blame inExpression m).atStage stage = blame inExpression (stage ++ ": " ++ m) := by
  cases inExpression <;> rfl

variable {step : Value} {operator : String}

/-- A step without a configuration is read as one with an empty configuration. -/
def configOf (step : Value) : Value := (step.field? "config").getD .null

theorem told_iff {P : String → Value → Prop}
    (named : step.field? "operator" = some (.string operator)) (empty : ¬ P operator .null) :
    (∃ other config, step.field? "operator" = some (.string other) ∧
      step.field? "config" = some config ∧ P other config) ↔ P operator (configOf step) := by
  constructor
  · rintro ⟨other, config, named', found, holds⟩
    cases named.symm.trans named'
    rwa [configOf, found]
  · intro holds
    refine ⟨operator, configOf step, named, ?_, holds⟩
    unfold configOf at holds ⊢
    cases found : step.field? "config" with
    | some config => rfl
    | none =>
      rw [found] at holds
      exact absurd holds empty

theorem described_iff (named : step.field? "operator" = some (.string operator)) (stage : Stage) :
    Described registry step stage ↔ Configured registry (configOf step) operator stage := by
  refine told_iff named ?_
  intro configured
  cases configured with
  | filter absent | transform absent | limit absent => cases absent

theorem carriesExpression_iff (named : step.field? "operator" = some (.string operator)) :
    CarriesExpression step ↔ hasExpression operator (configOf step) = true := by
  refine told_iff named ?_
  simp [hasExpression, Value.field?, Value.fields?]

theorem ofStep_named (named : step.field? "operator" = some (.string operator)) (index : Nat) :
    ofStep registry index step =
      match ofConfig registry operator (configOf step) with
      | .ok stage => .ok (operator, stage)
      | .error e => .error (e.atStage (stepName index ++ " (" ++ operator ++ ")")) := by
  cases step with
  | object fields =>
    have entry : Fields.get? "operator" fields = some (.string operator) := named
    have config : (Fields.get? "config" fields).getD .null = configOf (.object fields) := rfl
    cases built : ofConfig registry operator (configOf (.object fields)) <;>
      simp only [ofStep, Value.fields?, entry, Option.bind_some, Value.string?, config, built]
  | _ => cases named

/-- Without an operator the complaint does not depend on the position either. -/
theorem ofStep_nameless (registry : Registry)
    (nameless : ∀ operator, step.field? "operator" ≠ some (.string operator)) :
    ∃ after, ∀ index, ofStep registry index step =
      .error (Complaint.error ⟨false, "pipeline ", after⟩ index) := by
  cases step with
  | object fields =>
    have unnamed : (Fields.get? "operator" fields).bind Value.string? = none := by
      cases entry : Fields.get? "operator" fields with
      | none => rfl
      | some v =>
        cases v with
        | string operator => exact absurd entry (nameless operator)
        | _ => rfl
    refine ⟨"missing string 'operator'", ?_⟩
    intro index
    simp only [ofStep, Value.fields?, unnamed, Complaint.error, String.append_assoc]
    rfl
  | _ =>
    refine ⟨"must be an object", ?_⟩
    intro index
    simp only [ofStep, Value.fields?, Complaint.error, String.append_assoc]
    rfl

theorem ofStep_of_described {stage : Stage} (h : Described registry step stage) (index : Nat) :
    ofStep registry index step = .ok (stage.name, stage) := by
  obtain ⟨operator, config, named, found, configured⟩ := h
  obtain ⟨made, name⟩ := ofConfig_of_configured configured
  rw [ofStep_named named, configOf, found, Option.getD_some, made, name]

/-- A step that describes no stage is complained about in one way, wherever it stands. -/
theorem exists_complaint (bad : ¬ Accepted registry step) :
    ∃ c : Complaint, (c.inExpression = true ↔ CarriesExpression step) ∧
      c.before ∈ ["", "pipeline "] ∧
      ∀ index, ofStep registry index step = .error (c.error index) := by
  by_cases named : ∃ operator, step.field? "operator" = some (.string operator)
  · obtain ⟨operator, named⟩ := named
    generalize result : ofConfig registry operator (configOf step) = outcome
    cases result ▸ judged_ofConfig registry operator (configOf step) with
    | accepted configured => exact absurd ⟨_, (described_iff named _).mpr configured⟩ bad
    | refused m =>
      refine ⟨⟨hasExpression operator (configOf step), "", "(" ++ operator ++ "): " ++ m⟩,
        (carriesExpression_iff named).symm, List.mem_cons_self, ?_⟩
      intro index
      simp only [ofStep_named named, result, blame_atStage, Complaint.error, String.append_assoc,
        String.empty_append]
      rfl
  · obtain ⟨after, refused⟩ := ofStep_nameless registry (not_exists.mp named)
    refine ⟨⟨false, "pipeline ", after⟩, ⟨nofun, ?_⟩, List.mem_cons_of_mem _ List.mem_cons_self,
      refused⟩
    rintro ⟨operator, _, here, -⟩
    exact absurd ⟨operator, here⟩ named

theorem ofStep_eq_ok_iff {index : Nat} {operator : String} {stage : Stage} :
    ofStep registry index step = .ok (operator, stage) ↔
      operator = stage.name ∧ Described registry step stage := by
  constructor
  · intro built
    by_cases accepted : Accepted registry step
    · obtain ⟨other, described⟩ := accepted
      cases (ofStep_of_described described index).symm.trans built
      exact ⟨rfl, described⟩
    · obtain ⟨c, -, -, refused⟩ := exists_complaint accepted
      cases (refused index).symm.trans built
  · rintro ⟨rfl, described⟩
    exact ofStep_of_described described index

end Stage

namespace Pipeline

open Stage (Described Accepted Complaint CarriesExpression)

variable {registry : Registry}

/-! ## All steps -/

theorem stagesFrom_cons (index : Nat) (step : Value) (rest : List Value) :
    (stagesFrom registry index (step :: rest)).1 =
      (Stage.ofStep registry index step).bind fun e =>
        (stagesFrom registry (index + 1) rest).1.map (e.2 :: ·) := by
  rw [stagesFrom]
  cases Stage.ofStep registry index step <;> rfl

theorem stagesFrom_eq_ok_iff {index : Nat} {steps : List Value} {stages : List Stage} :
    (stagesFrom registry index steps).1 = .ok stages ↔
      List.Forall₂ (Described registry) steps stages := by
  induction steps generalizing index stages with
  | nil => simp [stagesFrom, eq_comm]
  | cons step rest ih =>
    rw [stagesFrom_cons, List.forall₂_cons_left_iff]
    constructor
    · intro built
      cases first : Stage.ofStep registry index step with
      | error e => simp [first, Except.bind] at built
      | ok e =>
        obtain ⟨operator, stage⟩ := e
        cases others : (stagesFrom registry (index + 1) rest).1 with
        | error e => simp [first, others, Except.bind, Except.map] at built
        | ok later =>
          simp only [first, others, Except.bind, Except.map, Except.ok.injEq] at built
          exact ⟨stage, later, (Stage.ofStep_eq_ok_iff.mp first).2, ih.mp others, built.symm⟩
    · rintro ⟨stage, later, described, others, rfl⟩
      rw [Stage.ofStep_of_described described, Except.bind, ih.mpr others]
      rfl

/-- Good steps are passed, and a bad one after them ends the building with what is wrong with it. -/
theorem stagesFrom_of_bad {before : List Value} (good : ∀ step ∈ before, Accepted registry step)
    {bad : Value} {c : Complaint}
    (refused : ∀ index, Stage.ofStep registry index bad = .error (c.error index))
    (index : Nat) (after : List Value) :
    (stagesFrom registry index (before ++ bad :: after)).1 =
      .error (c.error (index + before.length)) := by
  induction before generalizing index with
  | nil =>
    rw [List.nil_append, stagesFrom_cons, refused]
    rfl
  | cons step before ih =>
    obtain ⟨⟨stage, described⟩, good⟩ := List.forall_mem_cons.mp good
    rw [List.cons_append, stagesFrom_cons, Stage.ofStep_of_described described, Except.bind,
      ih good, List.length_cons, Nat.add_right_comm, Nat.add_assoc]
    rfl

theorem exists_described_iff {steps : List Value} :
    (∃ stages, List.Forall₂ (Described registry) steps stages) ↔
      ∀ step ∈ steps, Accepted registry step := by
  induction steps with
  | nil => exact ⟨fun _ => nofun, fun _ => ⟨[], .nil⟩⟩
  | cons step rest ih =>
    rw [List.forall_mem_cons, ← ih]
    constructor
    · rintro ⟨_, described⟩
      cases described with
      | cons first later => exact ⟨⟨_, first⟩, ⟨_, later⟩⟩
    · rintro ⟨⟨stage, first⟩, ⟨stages, later⟩⟩
      exact ⟨stage :: stages, .cons first later⟩

theorem ofSteps_eq (steps : List Value) :
    (ofSteps registry steps).1 = (stagesFrom registry 0 steps).1.bind fun stages =>
      (validate ⟨stages⟩).map fun _ => ⟨stages⟩ := by
  unfold ofSteps
  rcases stagesFrom registry 0 steps with ⟨_ | stages, log⟩
  · rfl
  · dsimp only [Except.bind]
    cases validate ⟨stages⟩ <;> rfl

theorem validate_eq_ok_iff {p : Pipeline} : p.validate = .ok () ↔ p.stages ≠ [] := by
  rw [validate]
  cases p.stages <;> simp

theorem ofSteps_eq_ok_iff {steps : List Value} {p : Pipeline} :
    (ofSteps registry steps).1 = .ok p ↔
      steps ≠ [] ∧ List.Forall₂ (Described registry) steps p.stages := by
  rw [ofSteps_eq]
  constructor
  · intro built
    cases listed : (stagesFrom registry 0 steps).1 with
    | error e =>
      rw [listed] at built
      cases built
    | ok stages =>
      rw [listed, Except.bind] at built
      cases checked : validate ⟨stages⟩ with
      | error e =>
        rw [checked] at built
        cases built
      | ok _ =>
        rw [checked] at built
        cases built
        have described := stagesFrom_eq_ok_iff.mp listed
        refine ⟨?_, described⟩
        rintro rfl
        exact validate_eq_ok_iff.mp checked (List.forall₂_nil_left_iff.mp described)
  · rintro ⟨nonempty, described⟩
    have valid : p.validate = .ok () := by
      rw [validate_eq_ok_iff]
      intro none
      rw [none] at described
      exact nonempty (List.forall₂_nil_right_iff.mp described)
    rw [stagesFrom_eq_ok_iff.mpr described, Except.bind, valid]
    rfl

theorem ofSteps_of_bad {before : List Value} (good : ∀ step ∈ before, Accepted registry step)
    {bad : Value} {c : Complaint}
    (refused : ∀ index, Stage.ofStep registry index bad = .error (c.error index))
    (after : List Value) :
    (ofSteps registry (before ++ bad :: after)).1 = .error (c.error before.length) := by
  rw [ofSteps_eq, stagesFrom_of_bad good refused, Nat.zero_add]
  rfl

/-- A list of steps is built exactly if it has a step and each is accepted on its own, and then each
stage is the one that its step builds alone. A bad step behind good ones gives one complaint, of a
kind that the step itself tells and with a message that names the step by its position, whatever the
good ones are and whatever follows. Without a step there is a pipeline error. -/
theorem ofSteps_stepwise (registry : Registry) :
    (∀ steps, (∃ p, (ofSteps registry steps).1 = .ok p) ↔
      steps ≠ [] ∧ ∀ step ∈ steps, Accepted registry step) ∧
    (∀ steps p, (ofSteps registry steps).1 = .ok p →
      List.Forall₂ (fun step stage => Described registry step stage ∧
        (ofSteps registry [step]).1 = .ok ⟨[stage]⟩) steps p.stages) ∧
    (∀ bad, ¬ Accepted registry bad →
      ∃ c : Complaint, (c.inExpression = true ↔ CarriesExpression bad) ∧
        c.before ∈ ["", "pipeline "] ∧
        ∀ before after, (∀ step ∈ before, Accepted registry step) →
          (ofSteps registry (before ++ bad :: after)).1 = .error (c.error before.length)) ∧
    (ofSteps registry []).1 = .error (.pipeline "pipeline" "no stages configured") := by
  refine ⟨?_, ?_, ?_, rfl⟩
  · intro steps
    simp only [ofSteps_eq_ok_iff, exists_and_left, ← exists_described_iff]
    refine and_congr_right fun _ => ⟨?_, ?_⟩
    · rintro ⟨p, described⟩
      exact ⟨p.stages, described⟩
    · rintro ⟨stages, described⟩
      exact ⟨⟨stages⟩, described⟩
  · intro steps p built
    refine List.Forall₂.imp ?_ (ofSteps_eq_ok_iff.mp built).2
    intro step stage described
    exact ⟨described, ofSteps_eq_ok_iff.mpr ⟨List.cons_ne_nil step [], .cons described .nil⟩⟩
  · intro bad rejected
    obtain ⟨c, kind, named, refused⟩ := Stage.exists_complaint rejected
    refine ⟨c, kind, named, ?_⟩
    intro before after good
    exact ofSteps_of_bad good refused after

/-- A limit before a filter whose expression is wrong: the filter is the step at fault, whatever
follows it. -/
theorem ofSteps_stepwise_bad_filter :
    let limit : Value := .object [("operator", .string "limit"),
      ("config", .object [("count", .number (.ofWord 1))])]
    let bad : Value := .object [("operator", .string "filter"),
      ("config", .object [("expression", .array [.string "bogus"])])]
    Accepted .empty limit ∧ ¬ Accepted .empty bad ∧ CarriesExpression bad ∧
    ∀ after, (ofSteps .empty (limit :: bad :: after)).1 =
      .error (.expression "step #1 (filter): unknown filter tag 'bogus'") := by
  intro limit bad
  obtain ⟨succeeds, -, fails, -⟩ := ofSteps_stepwise .empty
  have good : ∀ step ∈ [limit], Accepted .empty step := ((succeeds [limit]).mp ⟨_, rfl⟩).2
  have rejected : ¬ Accepted .empty bad := by
    intro accepted
    obtain ⟨p, built⟩ := (succeeds [bad]).mpr ⟨List.cons_ne_nil _ _, by simpa using accepted⟩
    cases built
  obtain ⟨c, kind, -, refused⟩ := fails bad rejected
  have told : (.error (c.error 1) : Except Error Pipeline) =
      .error (.expression "step #1 (filter): unknown filter tag 'bogus'") :=
    (refused [limit] [] good).symm
  refine ⟨good limit List.mem_cons_self, rejected, kind.mp ?_, ?_⟩
  · by_contra message
    rw [Complaint.error, Bool.eq_false_iff.mpr message] at told
    cases told
  · intro after
    exact (refused [limit] after good).trans told

end Pipeline
end RecordFlow
