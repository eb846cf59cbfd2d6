import WorkflowLint.Proofs.Yaml.Covers
import WorkflowLint.Yaml.Decoder.Any

/-! Trees that differ in nothing but where their nodes stand.

Marks are told in errors and are used for nothing else. So decoders succeed alike with a tree and with the
same tree without its marks, and give the same then. -/

set_option autoImplicit false

namespace WorkflowLint.Yaml

namespace Node

mutual

def withoutMarks : Node → Node
  | .scalar _ tag style text => .scalar .start tag style text
  | .sequence _ tag items => .sequence .start tag (allWithoutMarks items)
  | .mapping _ tag entries => .mapping .start tag (entriesWithoutMarks entries)
  | .alias _ target => .alias .start target
  | .cut => .cut

def allWithoutMarks : List Node → List Node
  | [] => []
  | node :: rest => node.withoutMarks :: allWithoutMarks rest

def entriesWithoutMarks : List (Node × Node) → List (Node × Node)
  | [] => []
  | (key, value) :: rest => (key.withoutMarks, value.withoutMarks) :: entriesWithoutMarks rest

end

theorem allWithoutMarks_eq (items : List Node) : allWithoutMarks items = items.map withoutMarks := by
  induction items with
  | nil => rfl
  | cons item rest ih => rw [allWithoutMarks, ih, List.map_cons]

theorem entriesWithoutMarks_eq (entries : List (Node × Node)) :
    entriesWithoutMarks entries = entries.map fun entry => (entry.1.withoutMarks, entry.2.withoutMarks) := by
  induction entries with
  | nil => rfl
  | cons entry rest ih => rw [entriesWithoutMarks, ih, List.map_cons]

mutual

theorem isWhole_withoutMarks (node : Node) : node.withoutMarks.isWhole = node.isWhole := by
  cases node with
  | sequence mark tag items => exact areWhole_withoutMarks items
  | mapping mark tag entries => exact entriesAreWhole_withoutMarks entries
  | _ => rfl

theorem areWhole_withoutMarks (items : List Node) : areWhole (allWithoutMarks items) = areWhole items := by
  cases items with
  | nil => rfl
  | cons item rest => rw [allWithoutMarks, areWhole, areWhole, isWhole_withoutMarks item, areWhole_withoutMarks rest]

theorem entriesAreWhole_withoutMarks (entries : List (Node × Node)) :
    entriesAreWhole (entriesWithoutMarks entries) = entriesAreWhole entries := by
  cases entries with
  | nil => rfl
  | cons entry rest =>
    rw [entriesWithoutMarks, entriesAreWhole, entriesAreWhole, isWhole_withoutMarks entry.1,
      isWhole_withoutMarks entry.2, entriesAreWhole_withoutMarks rest]

end

end Node

namespace Decoder

variable {α β : Type}

/-- Two decoders that succeed alike, whatever they fail for. -/
def Alike (decoder other : Decoder α) : Prop :=
  ∀ document jumps, (decoder document jumps).toOption = (other document jumps).toOption

def Blind (decoder : Context → Node → Decoder α) : Prop :=
  ∀ context node, Alike (decoder context node.withoutMarks) (decoder context node)

section Steps

variable {decoder other : Decoder α}

theorem Alike.refl (decoder : Decoder α) : Alike decoder decoder := fun _ _ => rfl

theorem toOption_bind (first : Decoder α) (next : α → Decoder β) (document : Document) (jumps : Nat) :
    ((first >>= next) document jumps).toOption =
      (first document jumps).toOption.bind fun given => (next given.1 document given.2).toOption := by
  rw [bind_apply]
  cases first document jumps <;> rfl

theorem Alike.bind {next next' : α → Decoder β} (first : Alike decoder other)
    (rest : ∀ value, Alike (next value) (next' value)) : Alike (decoder >>= next) (other >>= next') := by
  intro document jumps
  rw [toOption_bind, toOption_bind, first document jumps]
  exact congrArg _ (funext fun given => rest given.1 document given.2)

theorem toOption_placed {mark : Mark} {path : Path} (decoder : Decoder α) (document : Document) (jumps : Nat) :
    (placed mark path decoder document jumps).toOption = (decoder document jumps).toOption := by
  unfold placed
  split
  · next failed => rw [failed]; rfl
  · rfl

theorem Alike.placed {mark mark' : Mark} {path path' : Path} (alike : Alike decoder other) :
    Alike (placed mark path decoder) (placed mark' path' other) := by
  intro document jumps
  rw [toOption_placed, toOption_placed, alike document jumps]

theorem alike_throw (e e' : Error) : Alike (throw e : Decoder α) (throw e') := fun _ _ => rfl

theorem Alike.foldlM {ι : Type} {step step' : β → ι → Decoder β}
    (steps : ∀ state item, Alike (step state item) (step' state item)) (items : List ι) (start : β) :
    Alike (items.foldlM step start) (items.foldlM step' start) := by
  induction items generalizing start with
  | nil => exact .refl _
  | cons item rest ih =>
    rw [List.foldlM_cons, List.foldlM_cons]
    exact (steps start item).bind fun state => ih state

theorem Alike.mapM {ι : Type} {read read' : ι → Decoder β} (reads : ∀ item, Alike (read item) (read' item))
    (items : List ι) : Alike (items.mapM read) (items.mapM read') := by
  induction items with
  | nil => exact .refl _
  | cons item rest ih =>
    rw [List.mapM_cons, List.mapM_cons]
    exact (reads item).bind fun value => ih.bind fun values => .refl _

/-- What is the same for all documents is so for a decoder that succeeds alike. -/
theorem Alike.eq_pure (alike : Alike decoder other) {value : α} (same : decoder = pure value) :
    other = pure value := by
  funext document jumps
  have given := alike document jumps
  rw [same] at given
  cases run : other document jumps with
  | ok reached =>
    rw [run] at given
    cases given
    rfl
  | error e =>
    rw [run] at given
    cases given

end Steps

section Nodes

theorem keyStep_withoutMarks (key : Node) : keyStep key.withoutMarks = keyStep key := by
  cases key <;> rfl

/-- An alias leads to the same node in both trees. -/
theorem alike_resolve {next : Node → Decoder α} {node : Node}
    (rest : ∀ found, Alike (next found.withoutMarks) (next found)) :
    Alike (resolve node.withoutMarks >>= next) (resolve node >>= next) := by
  cases node with
  | «alias» mark target => exact (Alike.refl _).bind fun found => .refl _
  | cut => exact (Alike.refl _).bind fun found => .refl _
  | scalar mark tag style text => exact rest (.scalar mark tag style text)
  | sequence mark tag items => exact rest (.sequence mark tag items)
  | mapping mark tag entries => exact rest (.mapping mark tag entries)

theorem alike_mismatch (expected : String) (context : Context) (node : Node) :
    Alike (mismatch expected context node.withoutMarks : Decoder α) (mismatch expected context node) := by
  cases node with
  | scalar mark tag style text =>
    simp only [Node.withoutMarks, mismatch]
    cases Scalar.value tag style text <;> exact alike_throw _ _
  | sequence mark tag items => exact alike_throw _ _
  | mapping mark tag entries => exact alike_throw _ _
  | «alias» mark target => exact .refl _
  | cut => exact .refl _

theorem alike_enter (mark mark' : Mark) (context : Context) : Alike (enter mark context) (enter mark' context) := by
  unfold enter
  split
  · exact alike_throw _ _
  · exact .refl _

theorem ignore_withoutMarks (node : Node) : ignore node.withoutMarks = ignore node := by
  rw [ignore, ignore, node.isWhole_withoutMarks]

theorem presence_withoutMarks (node : Node) : presence node.withoutMarks = presence node := by
  cases node with
  | scalar mark tag style text => cases style <;> rfl
  | _ => rfl

theorem blind_text (expected : String) : Blind (text expected) := by
  refine fun context node => alike_resolve fun found => ?_
  cases found with
  | scalar mark tag style text => exact .refl _
  | _ => exact alike_mismatch expected context _

variable {decoder : Context → Node → Decoder α}

theorem Blind.optional (blind : Blind decoder) : Blind (optional decoder) := by
  intro context node
  rw [optional_eq, optional_eq]
  refine alike_resolve fun found => ?_
  rw [presence_withoutMarks]
  refine (Alike.refl _).bind fun present => ?_
  split
  · exact (blind context found).bind fun value => .refl _
  · exact .refl _

theorem Blind.list (blind : Blind decoder) : Blind (list decoder) := by
  refine fun context node => alike_resolve fun found => ?_
  cases found with
  | scalar mark tag style text =>
    simp only [Node.withoutMarks]
    split
    · exact .refl _
    · exact alike_mismatch "a sequence" context (.scalar mark tag style text)
  | sequence mark tag items =>
    simp only [Node.withoutMarks, Node.allWithoutMarks_eq, List.zipIdx_map, List.mapM_map]
    exact ((alike_enter _ _ context).bind fun inner => .mapM (fun item => blind _ item.1) items.zipIdx).placed
  | _ => exact alike_mismatch "a sequence" context _

theorem blind_foldEntries {expected : String} {step : Context → α → Node × Node → Decoder α} {start : α}
    (steps : ∀ inner state entry,
      Alike (step inner state (entry.1.withoutMarks, entry.2.withoutMarks)) (step inner state entry)) :
    Blind (foldEntries expected step start) := by
  refine fun context node => alike_resolve fun found => ?_
  cases found with
  | scalar mark tag style text =>
    simp only [Node.withoutMarks]
    split
    · exact .refl _
    · exact alike_mismatch expected context (.scalar mark tag style text)
  | mapping mark tag entries =>
    simp only [Node.withoutMarks, Node.entriesWithoutMarks_eq, List.foldlM_map]
    exact ((alike_enter _ _ context).bind fun inner => .foldlM (steps inner) entries start).placed
  | _ => exact alike_mismatch expected context _

theorem Blind.table (blind : Blind decoder) : Blind (table decoder) := by
  refine blind_foldEntries fun inner entries ⟨key, value⟩ => ?_
  dsimp only
  rw [keyStep_withoutMarks]
  exact (blind_text _ inner key).bind fun name => (blind _ value).bind fun item => .refl _

def BlindFields (fields : List (String × Field α)) : Prop :=
  ∀ entry ∈ fields, ∀ value, Blind fun context node => entry.2 context value node

theorem BlindFields.record {fields : List (String × Field α)} (blind : BlindFields fields) (expected : String)
    (start : α) : Blind (record expected fields start) := by
  intro context node
  rw [record_eq, record_eq]
  refine (blind_foldEntries (fun inner state entry => ?_) context node).bind fun state => .refl _
  unfold recordStep
  rw [keyStep_withoutMarks, ignore_withoutMarks]
  refine (blind_text _ inner entry.1).bind fun name => ?_
  split
  · next field found =>
    split
    · exact .refl _
    · exact (blind _ (mem_of_lookup found) _ _ entry.2).bind fun value => .refl _
  · exact .refl _

theorem Alike.withTag (demand : Demand) (tag : Option String) {content content' : Decoder Value}
    (alike : Alike content content') : Alike (withTag demand tag content) (withTag demand tag content') := by
  unfold Decoder.withTag
  split
  · exact alike
  · split
    · exact .refl _
    · split
      · exact .refl _
      · exact alike.bind fun value => .refl _

theorem blind_any (demand : Demand) (depth : Nat) (path : Path) (node : Node) :
    Alike (any demand depth path node.withoutMarks) (any demand depth path node) := by
  induction depth generalizing path node with
  | zero =>
    unfold any
    refine alike_resolve fun found => ?_
    cases found with
    | scalar mark tag style text => exact (Alike.refl _).placed
    | sequence mark tag items => exact ((alike_throw _ _).withTag demand tag).placed
    | mapping mark tag entries => exact ((alike_throw _ _).withTag demand tag).placed
    | _ => exact .refl _
  | succ depth ih =>
    unfold any
    refine alike_resolve fun found => ?_
    cases found with
    | scalar mark tag style text => exact (Alike.refl _).placed
    | sequence mark tag items =>
      simp only [Node.withoutMarks, Node.allWithoutMarks_eq, List.zipIdx_map, List.mapM_map]
      refine (Alike.withTag demand tag ?_).placed
      exact (Alike.mapM (fun item => ih _ item.1) items.zipIdx).bind fun values => .refl _
    | mapping mark tag entries =>
      simp only [Node.withoutMarks, Node.entriesWithoutMarks_eq, List.foldlM_map]
      refine (Alike.withTag demand tag ?_).placed
      refine (Alike.foldlM (fun values entry => ?_) entries []).bind fun values => .refl _
      rw [keyStep_withoutMarks]
      refine (ih path entry.1).bind fun key => ?_
      have last := (ih (keyStep entry.1 :: path) entry.2).bind fun value =>
        Alike.refl (pure (values ++ [(key, value)]))
      split
      · exact (Alike.refl _).bind fun _ => last
      · exact last
    | _ => exact .refl _

theorem Blind.eq_pure (blind : Blind decoder) {context : Context} {node other : Node}
    (same : node.withoutMarks = other.withoutMarks) {value : α} (gives : decoder context node = pure value) :
    decoder context other = pure value := by
  have unmarked : decoder context other.withoutMarks = pure value := by
    rw [← same]
    exact Alike.eq_pure (fun document jumps => (blind context node document jumps).symm) gives
  exact (blind context other).eq_pure unmarked

end Nodes

end Decoder

end WorkflowLint.Yaml
