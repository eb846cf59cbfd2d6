import Mathlib.Data.List.Infix
import WorkflowLint.Proofs.Registry.History
import WorkflowLint.Proofs.Registry.Remembering
import WorkflowLint.Proofs.Rules.Levels

/-! The order in which the findings on a workflow come, and what each of them depends on.

They come in blocks: one for the workflow, then for each job one of its own and one for each of its
steps. Under stable replies a block is told by its own part of the document alone, whatever the registry
was asked before. So a change to one job shows in the blocks of that job and nowhere else. -/

set_option autoImplicit false

namespace WorkflowLint

inductive Scope where
  | workflow
  | job (key : String)
  | step (key : String) (number : Nat)
  deriving DecidableEq, Repr

namespace Scope

def missingName : Scope → Finding
  | .workflow => .warning "Name key missing for workflow."
  | .job key => .warning ("Name key missing for job key '" ++ key ++ "'.")
  | .step key number => .warning ("Name key missing for " ++ Rules.stepPlace key number ++ ".")

def lowercaseName (text : String) : Scope → Finding
  | .workflow => .warning ("Name value for workflow is not capitalized. [" ++ text ++ "]")
  | .job key => .warning ("Name value of job key '" ++ key ++ "' is not capitalized. [" ++ text ++ "]")
  | .step key number =>
    .warning ("Name value in " ++ Rules.stepPlace key number ++ " is not capitalized. [" ++ text ++ "]")

def nameFinding (scope : Scope) : Option String → Option Finding
  | none => some scope.missingName
  | some text => if Text.isCapitalized text then none else some (scope.lowercaseName text)

theorem missingName_ne_lowercaseName (scope : Scope) (text : String) :
    scope.missingName ≠ scope.lowercaseName text := by
  intro same
  -- The texts part at their second word already.
  have words := congrArg (fun finding : Finding => finding.description.toList.take 6) same
  cases scope <;> simp [missingName, lowercaseName, Finding.warning] at words

end Scope

structure Block where
  scope : Scope
  findings : List Finding
  deriving DecidableEq, Repr

namespace Rules

def floatingRunner (label : String) : Finding :=
  .warning ("Runner version is set to '" ++ label ++ "', but needs to be pinned to a version.")

def exposedVariable (key name : String) : Finding :=
  .warning ("Environment variable '" ++ name ++ "' of job key '" ++ key ++
    "' does not start with an underscore.")

def brokenScript (key : String) (number : Nat) : Finding :=
  .warning ("Run in " ++ stepPlace key number ++ " should be a single line.")

def runnerFindings (rules : RuleSettings) (labels : List String) : List Finding :=
  let marker := rules.floatingRunnerMarker
  (labels.filter fun label => marker ≠ "" ∧ marker.toList <:+: label.toList).map floatingRunner

def environmentFindings (key : String) (names : List String) : List Finding :=
  (names.filter fun name => ¬['_'] <+: name.toList).map (exposedVariable key)

/-- What a registry with fixed answers has to say about a reference, where it is asked. -/
def remarkOn (rules : RuleSettings) (registry : ActionRegistry Id) (key : String) (number : Nat)
    (text : String) : Option Finding :=
  (lookedUp? rules.internalNamespace text).bind fun action =>
    remarkFor key number text (registry.isPresent (.remote action)) (registry.updateUrl (.remote action))

def usesFindings (rules : RuleSettings) (registry : ActionRegistry Id) (key : String) (number : Nat)
    (text : String) : List Finding :=
  written rules key number text ++ (remarkOn rules registry key number text).toList

def scriptFinding (key : String) (number : Nat) (text : String) : Option Finding :=
  if text.toList.count '\n' = 1 then some (brokenScript key number) else none

def jobBlock (rules : RuleSettings) (key : String) (job : Job) : Block where
  scope := .job key
  findings := runnerFindings rules (job.runsOn.elim [] RunsOn.toLabels) ++
    ((Scope.job key).nameFinding job.name).toList ++ environmentFindings key (job.env.getD [])

def stepBlock (rules : RuleSettings) (registry : ActionRegistry Id) (key : String) (number : Nat)
    (step : Step) : Block where
  scope := .step key number
  findings := ((Scope.step key number).nameFinding step.name).toList ++
    step.uses.elim [] (usesFindings rules registry key number) ++
    (step.run.bind (scriptFinding key number)).toList

def jobBlocks (rules : RuleSettings) (registry : ActionRegistry Id) (entry : String × Job) : List Block :=
  jobBlock rules entry.1 entry.2 ::
    (entry.2.steps.zipIdx 1).map fun numbered => stepBlock rules registry entry.1 numbered.2 numbered.1

end Rules

namespace Workflow

def nameBlock (name : Option String) : Block := ⟨.workflow, (Scope.workflow.nameFinding name).toList⟩

def blocks (rules : RuleSettings) (registry : ActionRegistry Id) (workflow : Workflow) : List Block :=
  nameBlock workflow.name :: workflow.entries.flatMap (Rules.jobBlocks rules registry)

end Workflow

section Names

structure Finding.OnName (finding : Finding) : Prop where
  level : finding.level = .warning
  start : finding.description.toList.head? = some 'N'

theorem Scope.missingName_onName (scope : Scope) : scope.missingName.OnName := by
  cases scope <;> exact ⟨rfl, by simp [missingName, Finding.warning]⟩

theorem Scope.lowercaseName_onName (scope : Scope) (text : String) : (scope.lowercaseName text).OnName := by
  cases scope <;> exact ⟨rfl, by simp [lowercaseName, Finding.warning]⟩

/-- All that the block says on names is what there is to say on this one. -/
def Block.Names (block : Block) (name : Option String) : Prop :=
  ∀ finding ∈ block.findings, finding.OnName → block.scope.nameFinding name = some finding

theorem Block.Names.not_both {block : Block} {name : Option String} (names : block.Names name) :
    ¬(block.scope.missingName ∈ block.findings ∧
      ∃ text, block.scope.lowercaseName text ∈ block.findings) := by
  rintro ⟨missing, text, lowercase⟩
  have first := names _ missing block.scope.missingName_onName
  have second := names _ lowercase (block.scope.lowercaseName_onName text)
  exact block.scope.missingName_ne_lowercaseName text (Option.some.inj (first.symm.trans second))

namespace Rules

variable (rules : RuleSettings) (registry : ActionRegistry Id) (key : String) (number : Nat)

theorem not_onName_floatingRunner (label : String) : ¬(floatingRunner label).OnName := by
  intro named
  have start := named.start
  simp [floatingRunner, Finding.warning] at start

theorem not_onName_exposedVariable (name : String) : ¬(exposedVariable key name).OnName := by
  intro named
  have start := named.start
  simp [exposedVariable, Finding.warning] at start

theorem not_onName_brokenScript : ¬(brokenScript key number).OnName := by
  intro named
  have start := named.start
  simp [brokenScript, Finding.warning] at start

theorem not_onName_usesFindings (text : String) :
    ∀ finding ∈ usesFindings rules registry key number text, ¬finding.OnName := by
  intro finding found named
  rcases List.mem_append.mp found with found | found
  · -- What the text of a reference leads to are errors.
    cases (bracketed_written rules key number text finding found).level.symm.trans named.level
  · -- Of the two remarks one is an error, and the other begins with the number of the step.
    obtain ⟨action, _, remarked⟩ := Option.bind_eq_some_iff.mp (Option.mem_toList.mp found)
    unfold remarkFor at remarked
    split at remarked
    · obtain ⟨url, _, rfl⟩ := Option.map_eq_some_iff.mp remarked
      have start := named.start
      simp [outdatedAction, Finding.warning] at start
    · cases remarked
      cases named.level

theorem jobBlock_names (job : Job) : (jobBlock rules key job).Names job.name := by
  intro finding found named
  simp only [jobBlock, List.mem_append] at found
  rcases found with (found | found) | found
  · obtain ⟨label, _, rfl⟩ := List.mem_map.mp found
    exact absurd named (not_onName_floatingRunner label)
  · exact Option.mem_toList.mp found
  · obtain ⟨name, _, rfl⟩ := List.mem_map.mp found
    exact absurd named (not_onName_exposedVariable key name)

theorem stepBlock_names (step : Step) : (stepBlock rules registry key number step).Names step.name := by
  intro finding found named
  simp only [stepBlock, List.mem_append] at found
  rcases found with (found | found) | found
  · exact Option.mem_toList.mp found
  · cases used : step.uses with
    | none => simp [used] at found
    | some text =>
      rw [used] at found
      exact absurd named (not_onName_usesFindings rules registry key number text finding found)
  · obtain ⟨text, _, broken⟩ := Option.bind_eq_some_iff.mp (Option.mem_toList.mp found)
    obtain ⟨_, same⟩ := Option.ite_none_right_eq_some.mp broken
    cases same
    exact absurd named (not_onName_brokenScript key number)

end Rules

theorem Workflow.blocks_name (rules : RuleSettings) (registry : ActionRegistry Id) (workflow : Workflow) :
    ∀ block ∈ workflow.blocks rules registry, ∃ name, block.Names name := by
  intro block member
  rcases List.mem_cons.mp member with rfl | member
  · exact ⟨workflow.name, fun finding found _ => Option.mem_toList.mp found⟩
  · obtain ⟨entry, _, member⟩ := List.mem_flatMap.mp member
    rcases List.mem_cons.mp member with rfl | member
    · exact ⟨entry.2.name, Rules.jobBlock_names rules entry.1 entry.2⟩
    · obtain ⟨numbered, _, rfl⟩ := List.mem_map.mp member
      exact ⟨numbered.1.name, Rules.stepBlock_names rules registry entry.1 numbered.2 numbered.1⟩

end Names

section Blocks

namespace Rules

theorem collectFrom_id {α β : Type} (f : α → Nat → Id (List β)) (start : Nat) (items : List α) :
    (collectFrom f start items : Id (List β)) = (items.zipIdx start).flatMap fun entry => f entry.1 entry.2 := by
  induction items generalizing start with
  | nil => rfl
  | cons item rest ih => exact congrArg (List.append (f item start)) (ih (start + 1))

-- Jobs are not numbered, so their results need no places.
theorem collect_id {α β : Type} (f : α → Id (List β)) (items : List α) :
    (collect f items : Id (List β)) = items.flatMap f := by
  induction items with
  | nil => rfl
  | cons item rest ih => exact congrArg (List.append (f item)) ih

theorem filterMap_ite {α β : Type} (kind : α → Prop) [DecidablePred kind] (f : α → β) (items : List α) :
    (items.filterMap fun item => if kind item then some (f item) else none) =
      (items.filter fun item => kind item).map f := by
  rw [← List.filterMap_eq_map, List.filterMap_filter]
  simp

theorem isFloating_iff (marker label : String) :
    isFloating marker label = true ↔ marker ≠ "" ∧ marker.toList <:+: label.toList := by
  simp [isFloating, Text.occursIn_iff]

theorem nameFindings_eq {scope : Scope} {missing : String} {lowercase : String → String}
    (missingText : .warning missing = scope.missingName)
    (lowercaseText : ∀ text, .warning (lowercase text) = scope.lowercaseName text) (name : Option String) :
    nameFindings missing lowercase name = (scope.nameFinding name).toList := by
  cases name with
  | none => exact congrArg (fun finding => [finding]) missingText
  | some text =>
    rw [nameFindings, Scope.nameFinding, ← lowercaseText]
    split <;> rfl

variable (rules : RuleSettings) (registry : ActionRegistry Id) (key : String) (number : Nat)

theorem runner_eq (runsOn : Option RunsOn) :
    runner rules runsOn = runnerFindings rules (runsOn.elim [] RunsOn.toLabels) := by
  -- A job without a runner is as one whose runner has no labels.
  have labels : (runsOn.map RunsOn.toLabels).getD [] = runsOn.elim [] RunsOn.toLabels := by
    cases runsOn <;> rfl
  rw [runner, runnerFindings, labels, ← filterMap_ite]
  simp only [isFloating_iff, floatingRunner]

theorem environment_eq (env : Option (List String)) :
    environment key env = environmentFindings key (env.getD []) := by
  rw [environment, environmentFindings, ← filterMap_ite]
  refine congrArg (fun warn => (env.getD []).filterMap warn) (funext fun name => ?_)
  have start : ['_'] <+: name.toList ↔ name.toList.head? = some '_' := by
    cases name.toList <;> simp [eq_comm]
  simp only [start, ite_not]
  rfl

theorem script_eq (run : Option String) :
    script key number run = (run.bind (scriptFinding key number)).toList := by
  cases run with
  | none => rfl
  | some text =>
    rw [script, Option.bind_some, scriptFinding]
    split <;> rfl

theorem remark_of_explainsUse {text : String} {remark : Option Finding}
    (explained : ExplainsUse (.exactly registry) rules.internalNamespace key number text remark) :
    remark = remarkOn rules registry key number text := by
  unfold ExplainsUse at explained
  unfold remarkOn
  cases asked : lookedUp? rules.internalNamespace text with
  | none => simpa [asked] using explained
  | some action =>
    simp only [asked] at explained
    obtain ⟨present, url, known, followed, rfl⟩ := explained
    rw [Option.bind_some, ← known]
    cases present with
    -- Where the action is missing, it does not matter what is known of updates.
    | false => rfl
    | true => rw [followed rfl]

theorem uses_id (text : String) :
    (uses rules registry key number text : Id (List Finding)) = usesFindings rules registry key number text := by
  obtain ⟨remark, explained, found⟩ := uses_holds rules (answers_exactly registry) key number text
  rw [found, remark_of_explainsUse rules registry key number explained]
  rfl

theorem step_id (item : Step) :
    (step rules registry key number item : Id (List Finding)) =
      (stepBlock rules registry key number item).findings := by
  have named : stepName key number item.name = ((Scope.step key number).nameFinding item.name).toList :=
    nameFindings_eq rfl (fun _ => rfl) item.name
  unfold step stepBlock
  rw [named, script_eq]
  cases item.uses with
  | none => rfl
  | some text => exact congrArg (fun found => _ ++ found ++ _) (uses_id rules registry key number text)

theorem job_id (entry : String × Job) :
    (job rules registry entry.1 entry.2 : Id (List Finding)) =
      (jobBlocks rules registry entry).flatMap Block.findings := by
  have named : jobName entry.1 entry.2.name = ((Scope.job entry.1).nameFinding entry.2.name).toList :=
    nameFindings_eq rfl (fun _ => rfl) entry.2.name
  unfold job
  rw [steps_eq_collectFrom, collectFrom_id, runner_eq, environment_eq, named, jobBlocks, List.flatMap_cons,
    List.flatMap_map]
  exact congrArg _ (List.flatMap_congr fun numbered _ => step_id rules registry entry.1 numbered.2 numbered.1)

end Rules

theorem Workflow.findings_id (rules : RuleSettings) (registry : ActionRegistry Id) (workflow : Workflow) :
    (workflow.findings rules registry : Id (List Finding)) =
      (workflow.blocks rules registry).flatMap Block.findings := by
  have named : Rules.workflowName workflow.name = (nameBlock workflow.name).findings :=
    Rules.nameFindings_eq rfl (fun _ => rfl) workflow.name
  unfold findings
  rw [Rules.collect_id, named, blocks, List.flatMap_cons, List.flatMap_assoc]
  exact congrArg _ (List.flatMap_congr fun entry _ => Rules.job_id rules registry entry)

end Blocks

namespace Registry

/-- Whatever is asked, under stable replies only faithful entries are added to the memo. -/
theorem Query.ask_ensures (settings : Settings) (answer : String → Reply) (query : Query) :
    (query.ask (remembering settings)).Ensures (faithful settings answer) fun _ => True := by
  let logic := Task.results (faithful settings answer)
  have answers := remembering_answers_directly settings answer
  cases query with
  | presence text => exact logic.bind (answers.present text) fun _ _ => logic.pure trivial
  | update text => exact logic.bind (answers.update text) fun _ _ => logic.pure trivial
  | newest text =>
    have newest : logic.Holds ((remembering settings).newest (.parse text)) fun _ => True := by
      cases parsed : ActionRef.parse text with
      | inTree raw => exact logic.pure trivial
      | unpinned raw => exact logic.pure trivial
      | remote action => exact logic.mono (fun _ _ => trivial) (rememberedNewest_directly parsed)
    exact logic.bind newest fun _ _ => logic.pure trivial

def askInOrder (settings : Settings) (queries : List Query) : Task (List Answer) :=
  .inOrder (queries.map (Query.ask (remembering settings)))

theorem askInOrder_ensures (settings : Settings) (answer : String → Reply) (queries : List Query) :
    (askInOrder settings queries).Ensures (faithful settings answer) fun _ => True := by
  refine Task.inOrder_holds (Task.results (faithful settings answer)) fun task member => ?_
  obtain ⟨query, _, rfl⟩ := List.mem_map.mp member
  exact query.ask_ensures settings answer

end Registry

namespace Workflow

open Registry (Query Reply Transport askInOrder direct remembering)

/-- Under stable replies, and whatever the registry was asked before, the findings on a workflow are
those of its blocks: on its name, then on the runner, the name and the variables of each job, and after
these on the name, the reference and the script of each of its steps. Jobs that are put in, taken out,
changed or moved lead to their own findings in their own place, between the same ones on all others. No
scope has its name reported both missing and lowercase. -/
theorem findings_inOrder (rules : RuleSettings) (settings : Registry.Settings) (answer : String → Reply)
    {σ : Type} (asked : List Query) (state : σ) :
    let memo := ((askInOrder settings asked).run (Transport.fixed answer) .empty state).memo
    let found (workflow : Workflow) := ((workflow.findings rules (remembering settings)).run
      (Transport.fixed answer) memo state).value
    let registry := direct settings answer
    (∀ workflow, found workflow = (workflow.blocks rules registry).flatMap Block.findings) ∧
    (∀ name before after, ∃ front back, ∀ jobs,
      found ⟨name, some (before ++ jobs ++ after)⟩ =
        front ++ jobs.flatMap (fun entry => (Rules.jobBlocks rules registry entry).flatMap Block.findings) ++
          back) ∧
    ∀ (workflow : Workflow), ∀ block ∈ workflow.blocks rules registry,
      ¬(block.scope.missingName ∈ block.findings ∧
        ∃ text, block.scope.lowercaseName text ∈ block.findings) := by
  intro memo found registry
  have replies : ∀ url (state : σ), (Transport.fixed answer url state).1 = answer url := fun _ _ => rfl
  have faithful : (Registry.faithful settings answer).Admits memo :=
    ((Registry.askInOrder_ensures settings answer asked).run replies (Registry.Contract.admits_empty _) state).2.1
  -- What the registry was asked before can only have left faithful entries, and from these it answers
  -- as the one without a memo does; so all that is left is to sort the findings of that one.
  have inBlocks : ∀ workflow, found workflow = (workflow.blocks rules registry).flatMap Block.findings := by
    intro workflow
    have directly := Rules.findings_exactly rules
      (Registry.remembering_answers_directly settings answer) workflow
    exact (directly.run replies faithful state).1.trans (workflow.findings_id rules registry)
  refine ⟨inBlocks, ?_, ?_⟩
  · intro name before after
    let jobFindings (jobs : List (String × Job)) :=
      jobs.flatMap fun entry => (Rules.jobBlocks rules registry entry).flatMap Block.findings
    -- Neither side mentions the jobs between them.
    refine ⟨(nameBlock name).findings ++ jobFindings before, jobFindings after, fun jobs => ?_⟩
    rw [inBlocks]
    simp only [blocks, entries, jobFindings, Option.getD_some, List.flatMap_cons, List.flatMap_assoc,
      List.flatMap_append, List.append_assoc]
  · intro workflow block member
    obtain ⟨name, names⟩ := workflow.blocks_name rules registry block member
    exact names.not_both

theorem findings_twoJobs :
    let first : String × Job :=
      ("first", { runsOn := some (.label "macos-latest"), steps := [{ uses := some "a/b" }] })
    let second : String × Job := ("second", { name := some "second", env := some ["X"] })
    let found (jobs : List (String × Job)) := ((findings {} (remembering {}) ⟨some "lower", some jobs⟩).run
      (Transport.fixed fun _ => .ok .null) .empty ()).value
    found [first, second] = [
      .warning "Name value for workflow is not capitalized. [lower]",
      .warning "Runner version is set to 'macos-latest', but needs to be pinned to a version.",
      .warning "Name key missing for job key 'first'.",
      .warning "Name key missing for step 1 of job key 'first'.",
      .error "Step 1 of job key 'first' does not have a valid action hash. (missing '@' character)",
      .warning "Name value of job key 'second' is not capitalized. [second]",
      .warning "Environment variable 'X' of job key 'second' does not start with an underscore."] ∧
    (∃ front back,
      found [first, second] = front ++ (Rules.jobBlocks {} (direct {} fun _ => .ok .null) first).flatMap
        Block.findings ++ back ∧
      found [second] = front ++ back) ∧
    (Scope.job "first").missingName ∈ (Rules.jobBlock {} first.1 first.2).findings ∧
    ∀ text, (Scope.job "first").lowercaseName text ∉ (Rules.jobBlock {} first.1 first.2).findings := by
  intro first second found
  obtain ⟨inBlocks, inPlace, single⟩ := findings_inOrder {} {} (fun _ => .ok .null) [] ()
  have missing : (Scope.job "first").missingName ∈ (Rules.jobBlock {} first.1 first.2).findings := by
    decide +kernel
  refine ⟨(inBlocks ⟨some "lower", some [first, second]⟩).trans (by decide +kernel), ?_, missing, ?_⟩
  · obtain ⟨front, back, same⟩ := inPlace (some "lower") [] [second]
    refine ⟨front, back, (same [first]).trans ?_, (same []).trans ?_⟩
    · rw [List.flatMap_singleton]
    · rw [List.flatMap_nil, List.append_nil]
  · intro text lowercase
    exact single ⟨some "lower", some [first, second]⟩ (Rules.jobBlock {} first.1 first.2) (.tail _ (.head _))
      ⟨missing, text, lowercase⟩

end Workflow

end WorkflowLint
