import Mathlib.Logic.Relation
import WorkflowLint.Lint
import WorkflowLint.Proofs.Yaml.Tables

/-! Changes of a document that its workflow does not show.

A workflow is made of three kinds of records, with tables of jobs and variables and lists of steps between
them. The records do not mind the order of their entries nor what they have no field for; the tables keep the
order of theirs. What a change makes of the workflow is put together along the way from the root. -/

set_option autoImplicit false

namespace WorkflowLint

open Yaml (Decoder Document Node RecordEdit AtKey AtEntry AtItem Reordered BetweenMappings
  betweenMappings_atEntry betweenMappings_atKey betweenMappings_reordered)
open Yaml.Decoder (Carries Slot Apart SteadyNodes Blind InOrder steady_text blind_text steady_any blind_any
  steady_pure steady_throw steadyFields_slots blindFields_slots carries_atKey carries_atEntry
  carries_reordered carries_optional carries_atItem carries_inItem
  runDocument_eq_ok_iff)

section Slots

def textSlot {α : Type} (label : String) (put : α → Option String → α) : Slot α where
  label := label
  Content := Option String
  read := decodeOptionalText
  put := put
  steady := (steady_text _).optional
  blind := (blind_text _).optional

def Step.slots : List (Slot Step) :=
  [textSlot "name" fun step name => { step with name },
    textSlot "uses" fun step uses => { step with uses },
    textSlot "run" fun step run => { step with run }]

theorem Step.decode_eq : Step.decode = Decoder.record "struct Step" (slots.map Slot.field) {} := rfl

theorem Step.apart : Apart slots := by
  intro slot member other member' different
  simp only [slots, List.mem_cons, List.not_mem_nil, or_false] at member member'
  rcases member with rfl | rfl | rfl <;> rcases member' with rfl | rfl | rfl <;>
    first
    | exact absurd rfl different
    | exact fun _ _ _ => rfl

theorem Step.steady_decode : SteadyNodes Step.decode := (steadyFields_slots slots).record _ _

theorem Step.blind_decode : Blind Step.decode := (blindFields_slots slots).record _ _

theorem RunsOn.steady_decode : SteadyNodes RunsOn.decode := by
  refine fun _ node => (steady_any _ _ _ node).bind fun _ => ?_
  split
  · exact steady_pure _
  · exact steady_throw _

theorem RunsOn.blind_decode : Blind RunsOn.decode :=
  fun _ node => (blind_any _ _ _ node).bind fun _ => .refl _

theorem steady_value : SteadyNodes Decoder.value := fun _ node => steady_any _ _ _ node

theorem steady_decodeNames : SteadyNodes decodeNames :=
  fun context node => (steady_value.table context node).bind fun _ => steady_pure _

theorem blind_decodeNames : Blind decodeNames := by
  have blind_value : Blind Decoder.value := fun _ node => blind_any _ _ _ node
  exact fun context node => (blind_value.table context node).bind fun _ => .refl _

def Job.envSlot : Slot Job where
  label := "env"
  Content := Option (List String)
  read := Decoder.optional decodeNames
  put job env := { job with env }
  steady := steady_decodeNames.optional
  blind := blind_decodeNames.optional

def Job.stepsSlot : Slot Job where
  label := "steps"
  Content := List Step
  read := Decoder.list Step.decode
  put job steps := { job with steps }
  steady := Step.steady_decode.list
  blind := Step.blind_decode.list

def Job.slots : List (Slot Job) :=
  [textSlot "name" fun job name => { job with name },
    { label := "runs-on"
      Content := Option RunsOn
      read := Decoder.optional RunsOn.decode
      put := fun job runsOn => { job with runsOn }
      steady := RunsOn.steady_decode.optional
      blind := RunsOn.blind_decode.optional },
    envSlot, stepsSlot]

theorem Job.decode_eq : Job.decode = Decoder.record "struct Job" (slots.map Slot.field) {} := rfl

theorem Job.apart : Apart slots := by
  intro slot member other member' different
  simp only [slots, List.mem_cons, List.not_mem_nil, or_false] at member member'
  rcases member with rfl | rfl | rfl | rfl <;> rcases member' with rfl | rfl | rfl | rfl <;>
    first
    | exact absurd rfl different
    | exact fun _ _ _ => rfl

theorem Job.steady_decode : SteadyNodes Job.decode := (steadyFields_slots slots).record _ _

theorem Job.blind_decode : Blind Job.decode := (blindFields_slots slots).record _ _

def Workflow.jobsSlot : Slot Workflow where
  label := "jobs"
  Content := Option (List (String × Job))
  read := Decoder.optional (Decoder.table Job.decode)
  put workflow jobs := { workflow with jobs }
  steady := Job.steady_decode.table.optional
  blind := Job.blind_decode.table.optional

def Workflow.slots : List (Slot Workflow) :=
  [textSlot "name" fun workflow name => { workflow with name }, jobsSlot]

theorem Workflow.decode_eq :
    Workflow.decode = Decoder.record "struct WorkflowDocument" (slots.map Slot.field) {} := rfl

theorem Workflow.apart : Apart slots := by
  intro slot member other member' different
  simp only [slots, List.mem_cons, List.not_mem_nil, or_false] at member member'
  rcases member with rfl | rfl <;> rcases member' with rfl | rfl <;>
    first
    | exact absurd rfl different
    | exact fun _ _ _ => rfl

theorem Workflow.steady_decode : SteadyNodes Workflow.decode := (steadyFields_slots slots).record _ _

theorem Workflow.blind_decode : Blind Workflow.decode := (blindFields_slots slots).record _ _

end Slots

section Carries

theorem Step.carries_recordEdit : Carries Step.decode (RecordEdit ["name", "uses", "run"]) Eq := by
  rw [Step.decode_eq]
  exact Yaml.Decoder.carries_recordEdit apart

theorem Job.carries_recordEdit : Carries Job.decode (RecordEdit ["name", "runs-on", "env", "steps"]) Eq := by
  rw [Job.decode_eq]
  exact Yaml.Decoder.carries_recordEdit apart

theorem Workflow.carries_recordEdit : Carries Workflow.decode (RecordEdit ["name", "jobs"]) Eq := by
  rw [Workflow.decode_eq]
  exact Yaml.Decoder.carries_recordEdit apart

variable {inside : Node → Node → Prop}

theorem carries_decodeNames {change : List (String × Yaml.Value) → List (String × Yaml.Value) → Prop}
    (carried : Carries (Decoder.table Decoder.value) inside change) :
    Carries decodeNames inside fun names names' =>
      ∃ table table', change table table' ∧ names = table.map Prod.fst ∧ names' = table'.map Prod.fst := by
  intro node node' related context names gives
  obtain ⟨table, read, rfl⟩ := (steady_value.table context node).map_eq_pure_iff.mp gives
  obtain ⟨table', read', changed⟩ := carried node node' related context table read
  exact ⟨table'.map Prod.fst, by rw [decodeNames, read', pure_bind], table, table', changed, rfl, rfl⟩

theorem Job.carries_env {change : List String → List String → Prop}
    (mappings : BetweenMappings inside) (carried : Carries decodeNames inside change) :
    Carries Job.decode (AtKey "env" inside) fun job job' =>
      ∃ names names', change names names' ∧ job.env = some names ∧ job' = { job with env := some names' } := by
  have env := carries_optional steady_decodeNames mappings carried
  refine (carries_atKey apart envSlot rfl env).mono fun job job' => ?_
  rintro ⟨rest, _, _, rfl, rfl, names, names', rfl, rfl, changed⟩
  exact ⟨names, names', changed, rfl, rfl⟩

theorem Job.carries_steps (carried : Carries (Decoder.list Step.decode) inside Eq) :
    Carries Job.decode (AtKey "steps" inside) Eq := by
  refine (carries_atKey apart stepsSlot rfl carried).mono fun job job' => ?_
  rintro ⟨rest, steps, _, rfl, rfl, rfl⟩
  rfl

theorem Workflow.carries_jobs {change : List (String × Job) → List (String × Job) → Prop}
    (mappings : BetweenMappings inside) (carried : Carries (Decoder.table Job.decode) inside change) :
    Carries Workflow.decode (AtKey "jobs" inside) fun workflow workflow' =>
      ∃ jobs jobs', change jobs jobs' ∧ workflow.jobs = some jobs ∧
        workflow' = { workflow with jobs := some jobs' } := by
  have jobs := carries_optional Job.steady_decode.table mappings carried
  refine (carries_atKey apart jobsSlot rfl jobs).mono fun workflow workflow' => ?_
  rintro ⟨rest, _, _, rfl, rfl, jobs, jobs', rfl, rfl, changed⟩
  exact ⟨jobs, jobs', changed, rfl, rfl⟩

/-- A change inside a job that the job does not show. -/
theorem Workflow.carries_inJob {key : String} (carried : Carries Job.decode inside Eq) :
    Carries Workflow.decode (AtKey "jobs" (AtKey key inside)) Eq := by
  have item : Carries (Decoder.table Job.decode) (AtKey key inside) Eq := carries_inItem Job.steady_decode carried
  refine (carries_jobs (betweenMappings_atKey _ _) item).mono fun workflow workflow' => ?_
  rintro ⟨jobs, _, rfl, given, rfl⟩
  rw [← given]

theorem Workflow.carries_reordered_jobs {entries entries' : List (Node × Node)} :
    Carries Workflow.decode (AtKey "jobs" (Reordered entries entries')) fun workflow workflow' =>
      ∃ jobs jobs', InOrder Job.decode entries entries' jobs jobs' ∧ workflow.jobs = some jobs ∧
        workflow' = { workflow with jobs := some jobs' } := by
  have : Nonempty Job := ⟨{}⟩
  exact carries_jobs (betweenMappings_reordered _ _) (carries_reordered Job.steady_decode)

theorem Workflow.carries_reordered_env {before after : List (Node × Node)} {key : String}
    {entries entries' : List (Node × Node)} :
    Carries Workflow.decode (AtKey "jobs" (AtEntry before after key (AtKey "env" (Reordered entries entries'))))
      fun workflow workflow' =>
        if some key ∈ after.map (fun entry => entry.1.text?) then workflow' = workflow
        else ∃ job table table', InOrder Decoder.value entries entries' table table' ∧
          job.env = some (table.map Prod.fst) ∧
          ∃ jobs jobs', Keyed.DifferAt key job { job with env := some (table'.map Prod.fst) } jobs jobs' ∧
            workflow.jobs = some jobs ∧ workflow' = { workflow with jobs := some jobs' } := by
  have : Nonempty Yaml.Value := ⟨.null⟩
  have reordered : Carries (Decoder.table Decoder.value) (Reordered entries entries') _ :=
    carries_reordered steady_value
  have env := Job.carries_env (betweenMappings_reordered _ _) (carries_decodeNames reordered)
  have jobs : Carries (Decoder.table Job.decode) (AtEntry before after key _) _ :=
    carries_atEntry Job.steady_decode env
  refine (carries_jobs (betweenMappings_atEntry _ _ _ _) jobs).mono fun workflow workflow' => ?_
  rintro ⟨jobs, jobs', changed, given, rfl⟩
  split at changed
  · next again => rw [if_pos again, changed, ← given]
  · next last =>
    obtain ⟨job, _, ⟨_, _, ⟨table, table', ordered, rfl, rfl⟩, known, rfl⟩, differ⟩ := changed
    rw [if_neg last]
    exact ⟨job, table, table', ordered, known, jobs, jobs', differ, given, rfl⟩

end Carries

/-- A document before and after a change that its workflow does not show: entries of one of its records come
in another order, or there is one more or one less that no field is there for. The marks of nodes may change
as they like. -/
inductive Edit : Node → Node → Prop
  | document {node node' : Node} : RecordEdit ["name", "jobs"] node node' → Edit node node'
  | job {key : String} {node node' : Node} :
      AtKey "jobs" (AtKey key (RecordEdit ["name", "runs-on", "env", "steps"])) node node' → Edit node node'
  | step {key : String} {node node' : Node} :
      AtKey "jobs" (AtKey key (AtKey "steps" (AtItem (RecordEdit ["name", "uses", "run"])))) node node' →
      Edit node node'
  | moved {node node' : Node} : node.withoutMarks = node'.withoutMarks → Edit node node'

theorem Edit.carries : Carries Workflow.decode Edit Eq := by
  intro node node' edit
  cases edit with
  | document edit => exact Workflow.carries_recordEdit node node' edit
  | job edit => exact Workflow.carries_inJob Job.carries_recordEdit node node' edit
  | step edit =>
    have steps := carries_atItem Step.steady_decode Step.carries_recordEdit
    exact Workflow.carries_inJob (Job.carries_steps steps) node node' edit
  | moved same => exact fun context workflow gives => ⟨workflow, Workflow.blind_decode.eq_pure same gives, rfl⟩

theorem Edit.decode_all {node node' : Node} (edits : Relation.ReflTransGen Edit node node') {context : Yaml.Context}
    {workflow : Workflow} (gives : Workflow.decode context node = pure workflow) :
    Workflow.decode context node' = pure workflow := by
  induction edits with
  | refl => exact gives
  | tail _ edit ih =>
    obtain ⟨_, gives', rfl⟩ := Edit.carries _ _ edit context workflow ih
    exact gives'

def Workflow.ofDocument (document : Document) : Except Yaml.Error Workflow := Decoder.runDocument decode document

theorem Workflow.ofYaml_eq (text : String) : ofYaml text = ofDocument (Document.ofText text) := rfl

/-- Files draw the same findings where the text of one is this document and the text of the other that one. -/
def Lint.AlikeFor (document other : Document) : Prop :=
  ∀ (files files' : FileSystem) (path path' : Path) (text text' : String),
    files.readText path = .ok text → Document.ofText text = document →
    files'.readText path' = .ok text' → Document.ofText text' = other →
    ∀ (m : Type → Type) [Monad m] (settings : RuleSettings) (registry : ActionRegistry m),
      fileFindings files' settings registry path' = fileFindings files settings registry path

theorem Lint.fileFindings_ofDocument {m : Type → Type} [Monad m] {files : FileSystem} {path : Path} {text : String}
    {document : Document} {workflow : Workflow} (reads : files.readText path = .ok text)
    (written : Document.ofText text = document) (loads : Workflow.ofDocument document = .ok workflow)
    (settings : RuleSettings) (registry : ActionRegistry m) :
    fileFindings files settings registry path = workflow.findings settings registry := by
  have loaded : Workflow.load files path = .ok workflow := by
    simp only [Workflow.load, reads, Workflow.ofYaml_eq, written, loads]
  rw [fileFindings, loaded]

theorem Lint.alikeFor_of_loads {document other : Document} {workflow : Workflow}
    (loads : Workflow.ofDocument document = .ok workflow) (loads' : Workflow.ofDocument other = .ok workflow) :
    AlikeFor document other := by
  intro files files' path path' text text' reads written reads' written' m _ settings registry
  rw [fileFindings_ofDocument reads written loads, fileFindings_ofDocument reads' written' loads']

/-- Only the keys that have fields matter to the workflow of a document without aliases and tags, and only
jobs and variables have an order. -/
theorem Workflow.ofDocument_edited {document other : Document} {workflow : Workflow}
    (plain : document.root.isPlain = true) (loads : ofDocument document = .ok workflow)
    (complete : other.fault = none ∧ other.isLast = true) :
    (Relation.ReflTransGen Edit document.root other.root →
      ofDocument other = .ok workflow ∧ Lint.AlikeFor document other) ∧
    (∀ entries entries' tree, AtKey "jobs" (Reordered entries entries') document.root tree →
      Relation.ReflTransGen Edit tree other.root →
      ∃ jobs jobs', InOrder Job.decode entries entries' jobs jobs' ∧ workflow.jobs = some jobs ∧
        ofDocument other = .ok { workflow with jobs := some jobs' }) ∧
    (∀ before after key entries entries' tree,
      AtKey "jobs" (AtEntry before after key (AtKey "env" (Reordered entries entries'))) document.root tree →
      Relation.ReflTransGen Edit tree other.root →
      if some key ∈ after.map (fun entry => entry.1.text?) then ofDocument other = .ok workflow
      else ∃ job table table', InOrder Decoder.value entries entries' table table' ∧
        job.env = some (table.map Prod.fst) ∧
        ∃ jobs jobs', Keyed.DifferAt key job { job with env := some (table'.map Prod.fst) } jobs jobs' ∧
          workflow.jobs = some jobs ∧ ofDocument other = .ok { workflow with jobs := some jobs' }) := by
  have read : decode Decoder.root document.root = pure workflow := by
    obtain ⟨⟨jumps, gives⟩, _⟩ := runDocument_eq_ok_iff.mp loads
    exact (steady_decode Decoder.root document.root).eq_pure plain gives
  have loaded : ∀ {tree workflow'}, decode Decoder.root tree = pure workflow' →
      Relation.ReflTransGen Edit tree other.root → ofDocument other = .ok workflow' := by
    intro tree workflow' gives edits
    have same := Edit.decode_all edits gives
    exact runDocument_eq_ok_iff.mpr ⟨⟨0, congrFun (congrFun same other) 0⟩, complete⟩
  refine ⟨fun edits => ?_, fun entries entries' tree edit edits => ?_,
    fun before after key entries entries' tree edit edits => ?_⟩
  · have loads' := loaded read edits
    exact ⟨loads', Lint.alikeFor_of_loads loads loads'⟩
  · obtain ⟨_, gives, jobs, jobs', ordered, given, rfl⟩ := carries_reordered_jobs _ _ edit _ _ read
    exact ⟨jobs, jobs', ordered, given, loaded gives edits⟩
  · obtain ⟨_, gives, changed⟩ := carries_reordered_env _ _ edit _ _ read
    split at changed
    · next again =>
      rw [if_pos again]
      exact loaded (changed ▸ gives) edits
    · next last =>
      obtain ⟨job, table, table', ordered, known, jobs, jobs', differ, given, rfl⟩ := changed
      rw [if_neg last]
      exact ⟨job, table, table', ordered, known, jobs, jobs', differ, given, loaded gives edits⟩

theorem Workflow.ofDocument_edited_twoJobs :
    let text : String → Node := .scalar .start none .doubleQuoted
    let mapping : List (Node × Node) → Node := .mapping .start none
    let alone (root : Node) : Document := ⟨root, [], 0, none, true⟩
    let env := [(text "B", text "1"), (text "A", text "2")]
    let zeta (env : List (Node × Node)) := (text "zeta", mapping [(text "env", mapping env)])
    let alpha := (text "alpha", mapping [])
    let document (jobs : List (Node × Node)) :=
      alone (mapping [(text "name", text "Build"), (text "jobs", mapping jobs)])
    let workflow : Workflow := ⟨some "Build", some [("zeta", { env := some ["B", "A"] }), ("alpha", {})]⟩
    (document [zeta env, alpha]).root.isPlain = true ∧ ofDocument (document [zeta env, alpha]) = .ok workflow ∧
      ofDocument (alone (mapping [(text "jobs", mapping [zeta env, alpha]), (text "on", text "push"),
        (text "name", text "Build")])) = .ok workflow ∧
      (∃ jobs jobs', InOrder Job.decode [zeta env, alpha] [alpha, zeta env] jobs jobs' ∧ workflow.jobs = some jobs ∧
        ofDocument (document [alpha, zeta env]) = .ok { workflow with jobs := some jobs' }) ∧
      ∃ job table table', InOrder Decoder.value env env.reverse table table' ∧ job.env = some (table.map Prod.fst) ∧
        ∃ jobs jobs', Keyed.DifferAt "zeta" job { job with env := some (table'.map Prod.fst) } jobs jobs' ∧
          workflow.jobs = some jobs ∧
          ofDocument (document [zeta env.reverse, alpha]) = .ok { workflow with jobs := some jobs' } := by
  intro text mapping alone env zeta alpha document workflow
  have plain : (document [zeta env, alpha]).root.isPlain = true := rfl
  have loads : ofDocument (document [zeta env, alpha]) = .ok workflow := by
    have reads : (ofDocument (document [zeta env, alpha])).toOption = some workflow := by
      simp only [document, alone, zeta, alpha, env, mapping, text, workflow]
      decide +kernel
    cases run : ofDocument (document [zeta env, alpha]) with
    | ok found =>
      rw [run] at reads
      cases reads
      rfl
    | error e =>
      rw [run] at reads
      cases reads
  have edited := fun other complete => @ofDocument_edited _ other _ plain loads complete
  refine ⟨plain, loads, ?_, ?_, ?_⟩
  · refine ((edited _ ⟨rfl, rfl⟩).1 (.tail (.single (.document (.permuted (List.Perm.swap _ _ _)))) ?_)).1
    exact .document (.inserted [_] [_] rfl (by decide) rfl)
  · refine (edited _ ⟨rfl, rfl⟩).2.1 _ _ _ ⟨[_], [], ⟨rfl, ?_⟩⟩ .refl
    exact ⟨List.Perm.swap _ _ _, by decide⟩
  · refine (edited _ ⟨rfl, rfl⟩).2.2 [] [alpha] "zeta" env env.reverse _ ⟨[_], [], ⟨rfl, ⟨rfl, ?_⟩⟩⟩ .refl
    exact ⟨[], [], ⟨rfl, ⟨env.reverse_perm.symm, by decide⟩⟩⟩

end WorkflowLint
