import TableQuery.Proofs.Steps
import TableQuery.Request.Run

/-!
# Options in any place

Options are set amid the steps that add clauses, in any order and more than once. An option holds
what it was set to last, no step that adds clauses looks at an option, and no setting looks at
anything. So a run of steps comes to its last settings and to the steps that add clauses.

* **`content_set_self`**, **`content_set_of_ne`** — what one setting does to each option.
* **`content_settings`** — what a run of settings does: the last one of each option counts.
* **`steps_gathered`** — all settings of a run of steps can be made first.
* **`options_anywhere`** — runs with the same last settings that add the same clauses cannot be told
  apart.
-/

namespace TableQuery

/-! ## Options by their names -/

inductive OptionName where
  | index
  | key
  | columns
  | limit
  | scanIndexForward
  | exclusiveStartKey
  | consistentRead
  | dryRun
  | keySchema
  deriving DecidableEq

/-- What an option holds. -/
def OptionName.Content : OptionName → Type
  | .index => Option String
  | .key => Item
  | .columns => List String
  | .limit => Option Int32
  | .scanIndexForward => Option Bool
  | .exclusiveStartKey => AttributeMap
  | .consistentRead => Option Bool
  | .dryRun => Bool
  | .keySchema => Option KeySchema

/-- The option that a setting sets. -/
def Setting.option : Setting → OptionName
  | .index _ => .index
  | .key _ => .key
  | .select _ => .columns
  | .limit _ => .limit
  | .scanIndexForward _ => .scanIndexForward
  | .exclusiveStartKey _ => .exclusiveStartKey
  | .consistentRead _ => .consistentRead
  | .dryRun _ => .dryRun
  | .withKeys _ => .keySchema

/-- The last setting of an option. -/
def Setting.lastOf (name : OptionName) (settings : List Setting) : Option Setting :=
  (settings.filter fun s => s.option = name).getLast?

namespace Options

def content (o : Options) : (name : OptionName) → name.Content
  | .index => o.index
  | .key => o.key
  | .columns => o.columns
  | .limit => o.limit
  | .scanIndexForward => o.scanIndexForward
  | .exclusiveStartKey => o.exclusiveStartKey
  | .consistentRead => o.consistentRead
  | .dryRun => o.dryRun
  | .keySchema => o.keySchema

/-- Nothing but the nine options is kept. -/
theorem eq_of_content {o o' : Options} (h : ∀ name, o.content name = o'.content name) : o = o' := by
  obtain ⟨index, key, columns, limit, forward, start, consistent, dry, schema⟩ := o
  cases h .index
  cases h .key
  cases h .columns
  cases h .limit
  cases h .scanIndexForward
  cases h .exclusiveStartKey
  cases h .consistentRead
  cases h .dryRun
  cases h .keySchema
  rfl

/-- A setting replaces its option, whatever was set before. -/
theorem content_set_self (o o' : Options) (s : Setting) :
    (o.set s).content s.option = (o'.set s).content s.option := by
  cases s <;> rfl

/-- A setting leaves every other option as it is. -/
theorem content_set_of_ne (o : Options) {s : Setting} {name : OptionName} (h : s.option ≠ name) :
    (o.set s).content name = o.content name := by
  cases s <;> cases name <;> first | rfl | exact absurd rfl h

/-- **After a run of settings** an option holds what it was set to last. -/
theorem content_settings (o : Options) (settings : List Setting) (name : OptionName) :
    (settings.foldl set o).content name
      = ((Setting.lastOf name settings).elim o o.set).content name := by
  -- the last setting comes first in the induction: it counts, or does not matter
  induction settings using List.reverseRecOn with
  | nil => rfl
  | append_singleton settings s ih =>
    rw [List.foldl_append, List.foldl_cons, List.foldl_nil]
    by_cases h : s.option = name
    · subst h
      have hlast : Setting.lastOf s.option (settings ++ [s]) = some s := by
        simp [Setting.lastOf]
      rw [hlast]
      exact content_set_self _ o s
    · have hlast : Setting.lastOf name (settings ++ [s]) = Setting.lastOf name settings := by
        simp [Setting.lastOf, h]
      rw [content_set_of_ne _ h, ih, hlast]

theorem settings_congr {settings settings' : List Setting}
    (h : ∀ name, Setting.lastOf name settings = Setting.lastOf name settings') (o : Options) :
    settings.foldl set o = settings'.foldl set o :=
  eq_of_content fun name => by rw [content_settings, content_settings, h]

end Options

/-! ## Settings before everything else -/

namespace Step

/-- The settings of a run of steps. -/
def settings (steps : List Step) : List Setting := steps.filterMap setting?

/-- The steps that add clauses, by whatever method. -/
def additions (steps : List Step) : List Step := steps.filter fun s => s.setting?.isNone

/-- The same clauses are added in the same order, and each option is set to the same last. -/
structure SameButPlacement (steps steps' : List Step) : Prop where
  additions : additions steps = additions steps'
  settings : ∀ name, Setting.lastOf name (settings steps) = Setting.lastOf name (settings steps')

end Step

namespace Request

def withOptions (r : Request) (options : Options) : Request := { r with options }

/-- A step that adds clauses does not look at the options. -/
theorem step_withOptions (r : Request) (options : Options) {s : Step} (h : s.setting? = none) :
    (r.withOptions options).step s = (r.step s).map (·.withOptions options) := by
  cases s with
  | set setting => cases h
  | add slot calls => rfl
  | addNamed name arguments =>
    show (r.withOptions options).addNamed name arguments
      = (r.addNamed name arguments).map (·.withOptions options)
    unfold addNamed
    cases Shorthand.named name with
    | error e => rfl
    | ok shorthand =>
      show (shorthand.call arguments >>= _) = (shorthand.call arguments >>= _).map _
      cases shorthand.call arguments <;> rfl

/-- **All settings can be made first.** -/
theorem steps_gathered (r : Request) (steps : List Step) :
    r.steps steps
      = (r.withOptions ((Step.settings steps).foldl Options.set r.options)).steps
          (Step.additions steps) := by
  induction steps generalizing r with
  | nil => rfl
  | cons s rest ih =>
    cases hs : s.setting? with
    | some setting =>
      cases s with
      | set _ =>
        cases hs
        exact ih (r.set setting)
      | add slot calls => cases hs
      | addNamed name arguments => cases hs
    | none =>
      have hsettings : Step.settings (s :: rest) = Step.settings rest := by
        simp [Step.settings, hs]
      have hadditions : Step.additions (s :: rest) = s :: Step.additions rest := by
        simp [Step.additions, hs]
      -- a step that sets nothing stays where it is, and runs the same whatever the options are
      rw [hsettings, hadditions]
      show (r.step s >>= (·.steps rest)) = ((r.withOptions _).step s >>= (·.steps _))
      rw [step_withOptions r _ hs]
      cases hstep : r.step s with
      | error e => rfl
      | ok r₁ =>
        -- the options it leaves are those that the rest of the steps begins with
        have hoptions : r₁.options = r.options := by
          rw [(step_options hstep).1, hs]
          rfl
        rw [← hoptions]
        exact ih r₁

/-- Runs that differ in nothing but the place of settings come to the same, from any request on. -/
theorem steps_congr {steps steps' : List Step} (same : Step.SameButPlacement steps steps')
    (r : Request) : r.steps steps = r.steps steps' := by
  rw [steps_gathered r steps, steps_gathered r steps', same.additions,
    Options.settings_congr same.settings]

/-- No command tells two requests apart: each is refused or prepared alike, and comes out alike with
every client, which is called alike. -/
structure Alike (r r' : Request) : Prop where
  prepare : ∀ command, r'.prepare command = r.prepare command
  run : ∀ {σ : Type} (client : Client σ) (command : Command) (s : σ),
    r'.run client command s = r.run client command s
  countQueried : ∀ {σ : Type} (client : Client σ) (s : σ),
    r'.countQueried client s = r.countQueried client s
  countScanned : ∀ {σ : Type} (client : Client σ) (s : σ),
    r'.countScanned client s = r.countScanned client s

theorem Alike.refl (r : Request) : Alike r r :=
  ⟨fun _ => rfl, fun _ _ _ => rfl, fun _ _ => rfl, fun _ _ => rfl⟩

/-- **Options may be set anywhere.** Two runs of steps that add the same clauses, and that set each
option to the same last, are refused with the same error or lead to requests that cannot be told
apart, wherever the options are set among the clauses and however often they are set again. -/
theorem options_anywhere {steps steps' : List Step} (same : Step.SameButPlacement steps steps')
    (config : Config) (table : String) :
    Lockstep Alike ((config.table table).steps steps) ((config.table table).steps steps') := by
  rw [← steps_congr same]
  cases (config.table table).steps steps with
  | error e => exact .error e
  | ok r => exact .ok (Alike.refl r)

/-- Options before and after the clauses, some of them set again. -/
def restlessSteps : List Step :=
  [.set (.dryRun false), .set (.select ["Views"]), .set (.withKeys { partition := "Views" }),
    .add .filter [.compare .and "Views" (.operator ">" (.number "3"))], .set (.limit 5),
    .set (.select ["Subject", "Views"]),
    .addNamed "keyCondition" (.comparison "ForumName" (.bare "S3")), .set (.limit 1),
    .set (.withKeys { partition := "ForumName", sort := some "Subject" }), .set (.dryRun true)]

/-- The same clauses after the same options, each of which is set once. -/
def settledSteps : List Step :=
  [.set (.withKeys { partition := "ForumName", sort := some "Subject" }), .set (.limit 1),
    .set (.dryRun true), .set (.select ["Subject", "Views"]),
    .add .filter [.compare .and "Views" (.operator ">" (.number "3"))],
    .addNamed "keyCondition" (.comparison "ForumName" (.bare "S3"))]

theorem options_anywhere_settled :
    ∃ r r' p, (Config.table {} "Thread").steps restlessSteps = .ok r
      ∧ (Config.table {} "Thread").steps settledSteps = .ok r'
      ∧ Lockstep Alike (.ok r : Except RequestError Request) (.ok r')
      ∧ r.run Client.disconnected .get () = (.ok (.preview p), ())
      ∧ p.operation = .query ∧ p.parameters.limit = some 1
      ∧ p.parameters.projectionExpression = some "#3, #1"
      ∧ p.parameters.keyConditionExpression = some "#2 = :2" := by
  have same : Step.SameButPlacement restlessSteps settledSteps :=
    ⟨rfl, fun name => by cases name <;> rfl⟩
  have made : (Config.table {} "Thread").steps restlessSteps = .ok _ := rfl
  have made' : (Config.table {} "Thread").steps settledSteps = .ok _ := rfl
  have alike := options_anywhere same {} "Thread"
  rw [made, made'] at alike
  exact ⟨_, _, _, made, made', alike, rfl, rfl, rfl, rfl, rfl⟩

end Request

end TableQuery
