import WorkflowLint.Proofs.Yaml.Covers
import WorkflowLint.Yaml.Decoder.Any

/-! Decoding where no alias is followed.

A decoder looks at its document for nothing but where aliases lead, and its state is the number of those
that it has followed. As this only grows, a success that leaves it alone is one without aliases all the way
down, and then the decoder gives the same for every document: it is a `pure` one. So what can be read of a
tree without aliases is told by equations between decoders. -/

set_option autoImplicit false

namespace WorkflowLint.Yaml

namespace Node

mutual

/-- Whether a tree is written without aliases and tags, and nothing of it is cut off. -/
def isPlain : Node → Bool
  | .scalar _ tag _ _ => tag.isNone
  | .sequence _ tag items => tag.isNone && arePlain items
  | .mapping _ tag entries => tag.isNone && entriesArePlain entries
  | .alias .. => false
  | .cut => false

def arePlain : List Node → Bool
  | [] => true
  | node :: rest => node.isPlain && arePlain rest

def entriesArePlain : List (Node × Node) → Bool
  | [] => true
  | (key, value) :: rest => key.isPlain && value.isPlain && entriesArePlain rest

end

theorem arePlain_iff {items : List Node} : arePlain items = true ↔ ∀ item ∈ items, item.isPlain = true := by
  induction items with
  | nil => simp [arePlain]
  | cons item rest ih => simp [arePlain, ih]

theorem entriesArePlain_iff {entries : List (Node × Node)} :
    entriesArePlain entries = true ↔ ∀ entry ∈ entries, entry.1.isPlain = true ∧ entry.2.isPlain = true := by
  induction entries with
  | nil => simp [entriesArePlain]
  | cons entry rest ih => simp [entriesArePlain, ih]

section Parts

variable {mark : Mark} {tag : Option String}

theorem isPlain_sequence {items : List Node} (plain : (sequence mark tag items).isPlain = true) :
    ∀ item ∈ items, item.isPlain = true :=
  arePlain_iff.mp (Bool.and_eq_true_iff.mp (by simpa only [isPlain] using plain)).2

theorem isPlain_mapping {entries : List (Node × Node)} (plain : (mapping mark tag entries).isPlain = true) :
    ∀ entry ∈ entries, entry.1.isPlain = true ∧ entry.2.isPlain = true :=
  entriesArePlain_iff.mp (Bool.and_eq_true_iff.mp (by simpa only [isPlain] using plain)).2

end Parts

end Node

namespace Decoder

variable {α β : Type}

/-- The number of aliases that have been followed only grows. A success that leaves it as it is comes for
every document alike, and where `plain` holds, there is no other success. -/
def Steady (plain : Prop) (decoder : Decoder α) : Prop :=
  ∀ document jumps value after, decoder document jumps = .ok (value, after) →
    jumps ≤ after ∧ (after = jumps → decoder = pure value) ∧ (plain → after = jumps)

def SteadyNodes (decoder : Context → Node → Decoder α) : Prop :=
  ∀ context node, Steady (node.isPlain = true) (decoder context node)

section Steps

variable {plain : Prop} {decoder : Decoder α}

theorem Steady.mono {stronger : Prop} (steady : Steady plain decoder) (implies : stronger → plain) :
    Steady stronger decoder := by
  intro document jumps value after gives
  obtain ⟨grown, alike, unaliased⟩ := steady document jumps value after gives
  exact ⟨grown, alike, fun given => unaliased (implies given)⟩

theorem steady_pure (value : α) : Steady plain (pure value) := by
  intro document jumps given after gives
  cases gives
  exact ⟨Nat.le_refl _, fun _ => rfl, fun _ => rfl⟩

theorem steady_throw (e : Error) : Steady plain (throw e : Decoder α) := by
  intro document jumps value after gives
  cases gives

theorem steady_failAtCut : Steady plain (failAtCut : Decoder α) := by
  intro document jumps value after gives
  cases gives

theorem Steady.bind {next : α → Decoder β} (first : Steady plain decoder)
    (rest : ∀ value, Steady plain (next value)) : Steady plain (decoder >>= next) := by
  intro document jumps value after gives
  rw [bind_apply] at gives
  split at gives
  · next middle between given =>
    obtain ⟨grown, alike, unaliased⟩ := first document jumps middle between given
    obtain ⟨more, next_alike, next_unaliased⟩ := rest middle document between value after gives
    refine ⟨Nat.le_trans grown more, fun same => ?_, fun holds => ?_⟩
    · have still : between = jumps := by omega
      rw [alike still, pure_bind, next_alike (by omega)]
    · rw [next_unaliased holds, unaliased holds]
  · cases gives

theorem placed_eq_pure_iff {mark : Mark} {path : Path} {value : α} :
    placed mark path decoder = pure value ↔ decoder = pure value := by
  constructor <;> intro same <;> funext document jumps
  · exact placed_eq_ok_iff.mp (congrFun (congrFun same document) jumps)
  · exact placed_eq_ok_iff.mpr (congrFun (congrFun same document) jumps)

theorem Steady.placed {mark : Mark} {path : Path} (steady : Steady plain decoder) :
    Steady plain (placed mark path decoder) := by
  simpa only [Steady, placed_eq_ok_iff, placed_eq_pure_iff] using steady

theorem Steady.foldlM {ι : Type} {step : β → ι → Decoder β} {items : List ι}
    (steps : ∀ item ∈ items, ∀ state, Steady plain (step state item)) (start : β) :
    Steady plain (items.foldlM step start) := by
  induction items generalizing start with
  | nil => exact steady_pure start
  | cons item rest ih =>
    rw [List.foldlM_cons]
    exact (steps item List.mem_cons_self start).bind fun state =>
      ih (fun other member => steps other (List.mem_cons_of_mem _ member)) state

theorem Steady.mapM {ι : Type} {read : ι → Decoder β} {items : List ι}
    (reads : ∀ item ∈ items, Steady plain (read item)) : Steady plain (items.mapM read) := by
  induction items with
  | nil => exact steady_pure []
  | cons item rest ih =>
    rw [List.mapM_cons]
    refine (reads item List.mem_cons_self).bind fun value => ?_
    exact (ih fun other member => reads other (List.mem_cons_of_mem _ member)).bind fun values => steady_pure _

end Steps

section Equations

variable {plain : Prop} {decoder : Decoder α}

def nothing : Document := ⟨.cut, [], 0, none, true⟩

theorem eq_of_pure_eq {value other : α} (same : (pure value : Decoder α) = pure other) : value = other := by
  cases congrFun (congrFun same nothing) 0
  rfl

theorem throw_ne_pure {e : Error} {value : α} : (throw e : Decoder α) ≠ pure value := by
  intro same
  cases congrFun (congrFun same nothing) 0

/-- What gives one value for all documents and follows no aliases does so at each step. -/
theorem Steady.bind_eq_pure_iff {next : α → Decoder β} (first : Steady plain decoder)
    (rest : ∀ value, Steady plain (next value)) {result : β} :
    decoder >>= next = pure result ↔ ∃ value, decoder = pure value ∧ next value = pure result := by
  constructor
  · intro same
    have gives := congrFun (congrFun same nothing) 0
    rw [bind_apply] at gives
    split at gives
    · next middle between given =>
      obtain ⟨grown, alike, _⟩ := first nothing 0 middle between given
      obtain ⟨more, next_alike, _⟩ := rest middle nothing between result 0 gives
      exact ⟨middle, alike (by omega), next_alike (by omega)⟩
    · cases gives
  · rintro ⟨value, rfl, same⟩
    rw [pure_bind, same]

theorem Steady.map_eq_pure_iff (first : Steady plain decoder) {f : α → β} {result : β} :
    (decoder >>= fun value => pure (f value)) = pure result ↔ ∃ value, decoder = pure value ∧ f value = result := by
  rw [first.bind_eq_pure_iff fun value => steady_pure (f value)]
  exact exists_congr fun value => and_congr_right fun _ => ⟨eq_of_pure_eq, congrArg pure⟩

/-- What a tree without aliases is read as does not depend on where it stands. -/
theorem Steady.eq_pure (steady : Steady plain decoder) (holds : plain) {document : Document} {jumps : Nat}
    {value : α} {after : Nat} (gives : decoder document jumps = .ok (value, after)) : decoder = pure value := by
  obtain ⟨_, alike, unaliased⟩ := steady document jumps value after gives
  exact alike (unaliased holds)

end Equations

section Nodes

/-- An alias counts, and any other node is read as it is. -/
theorem steady_resolve {next : Node → Decoder α} {node : Node}
    (rest : ∀ found, Steady (found.isPlain = true) (next found)) :
    Steady (node.isPlain = true) (resolve node >>= next) := by
  cases node with
  | «alias» mark target =>
    intro document jumps value after gives
    rw [bind_apply] at gives
    split at gives
    · next found between given =>
      have counted : between = jumps + 1 := by
        rw [resolve, follow_apply] at given
        split at given
        · cases given
        · split at given <;> cases given
          rfl
      obtain ⟨more, _⟩ := rest found document between value after gives
      exact ⟨by omega, fun same => by omega, nofun⟩
    · cases gives
  | cut =>
    intro document jumps value after gives
    cases gives
  | _ => exact rest _

theorem steady_mismatch {plain : Prop} (expected : String) (context : Context) (node : Node) :
    Steady plain (mismatch expected context node : Decoder α) := by
  unfold mismatch
  split
  · split <;> exact steady_throw _
  · exact steady_throw _
  · exact steady_throw _
  · exact steady_failAtCut

theorem steady_enter {plain : Prop} (mark : Mark) (context : Context) : Steady plain (enter mark context) := by
  unfold enter
  split
  · exact steady_throw _
  · exact steady_pure _

theorem steady_ignore {plain : Prop} (node : Node) : Steady plain (ignore node) := by
  unfold ignore
  split
  · exact steady_pure _
  · exact steady_failAtCut

theorem steady_text (expected : String) : SteadyNodes (text expected) := by
  refine fun context node => steady_resolve fun found => ?_
  split
  · exact steady_pure _
  · exact steady_mismatch _ _ _

theorem steady_presence {plain : Prop} (node : Node) : Steady plain (presence node) := by
  unfold presence
  split
  · split
    · exact steady_pure _
    · split
      · split
        · exact steady_pure _
        · exact steady_throw _
      · exact steady_pure _
  · exact steady_pure _

variable {decoder : Context → Node → Decoder α}

theorem SteadyNodes.optional (steady : SteadyNodes decoder) : SteadyNodes (optional decoder) := by
  intro context node
  rw [optional_eq]
  refine steady_resolve fun found => (steady_presence found).bind fun present => ?_
  split
  · exact (steady context found).bind fun value => steady_pure _
  · exact steady_pure _

theorem SteadyNodes.list (steady : SteadyNodes decoder) : SteadyNodes (list decoder) := by
  refine fun context node => steady_resolve fun found => ?_
  split
  · next mark tag items =>
    refine ((steady_enter mark context).bind fun inner => Steady.mapM fun entry member => ?_).placed
    have inside : entry.1 ∈ items := List.fst_mem_of_mem_zipIdx member
    exact (steady _ entry.1).mono fun plain => Node.isPlain_sequence plain entry.1 inside
  · split
    · exact steady_pure _
    · exact steady_mismatch _ _ _
  · exact steady_mismatch _ _ _

theorem steady_foldEntries {expected : String} {step : Context → α → Node × Node → Decoder α} {start : α}
    (steps : ∀ inner state entry,
      Steady (entry.1.isPlain = true ∧ entry.2.isPlain = true) (step inner state entry)) :
    SteadyNodes (foldEntries expected step start) := by
  refine fun context node => steady_resolve fun found => ?_
  split
  · next mark tag entries =>
    refine ((steady_enter mark context).bind fun inner => Steady.foldlM (fun entry member state => ?_) _).placed
    exact (steps inner state entry).mono fun plain => Node.isPlain_mapping plain entry member
  · split
    · exact steady_pure _
    · exact steady_mismatch _ _ _
  · exact steady_mismatch _ _ _

theorem SteadyNodes.table (steady : SteadyNodes decoder) : SteadyNodes (table decoder) := by
  refine steady_foldEntries fun inner entries entry => ?_
  refine ((steady_text _ inner entry.1).mono And.left).bind fun name => ?_
  exact ((steady _ entry.2).mono And.right).bind fun item => steady_pure _

def SteadyFields (fields : List (String × Field α)) : Prop :=
  ∀ entry ∈ fields, ∀ value, SteadyNodes fun context node => entry.2 context value node

theorem SteadyFields.step {fields : List (String × Field α)} (steady : SteadyFields fields)
    (inner : Context) (state : List String × α) (entry : Node × Node) :
    Steady (entry.1.isPlain = true ∧ entry.2.isPlain = true) (recordStep fields inner state entry) := by
  refine ((steady_text _ inner entry.1).mono And.left).bind fun name => ?_
  split
  · next field found =>
    split
    · exact steady_throw _
    · exact ((steady _ (mem_of_lookup found) _ _ entry.2).mono And.right).bind fun value => steady_pure _
  · exact (steady_ignore entry.2).bind fun _ => steady_pure _

theorem SteadyFields.record {fields : List (String × Field α)} (steady : SteadyFields fields)
    (expected : String) (start : α) : SteadyNodes (record expected fields start) := by
  intro context node
  rw [record_eq]
  exact (steady_foldEntries steady.step context node).bind fun state => steady_pure _

theorem steady_withTag {plain : Prop} (demand : Demand) (tag : Option String) {content : Decoder Value}
    (steady : Steady plain content) : Steady plain (withTag demand tag content) := by
  unfold withTag
  split
  · exact steady
  · split
    · exact steady_throw _
    · split
      · exact steady_throw _
      · exact steady.bind fun value => steady_pure _

theorem steady_scalar {plain : Prop} (demand : Demand) (tag : Option String) (style : ScalarStyle)
    (text : String) : Steady plain (scalar demand tag style text) := by
  unfold scalar
  split
  · split
    · exact steady_pure _
    · exact steady_throw _
  · exact steady_pure _
  · exact steady_throw _

theorem steady_any (demand : Demand) (depth : Nat) (path : Path) (node : Node) :
    Steady (node.isPlain = true) (any demand depth path node) := by
  induction depth generalizing path node with
  | zero =>
    unfold any
    refine steady_resolve fun found => ?_
    split
    · exact (steady_withTag _ _ (steady_scalar _ _ _ _)).placed
    · exact (steady_withTag _ _ (steady_throw _)).placed
    · exact (steady_withTag _ _ (steady_throw _)).placed
    · exact steady_failAtCut
  | succ depth ih =>
    unfold any
    refine steady_resolve fun found => ?_
    split
    · exact (steady_withTag _ _ (steady_scalar _ _ _ _)).placed
    · next mark tag items =>
      refine (steady_withTag _ _ (Steady.bind (Steady.mapM fun entry member => ?_) fun _ => steady_pure _)).placed
      have inside : entry.1 ∈ items := List.fst_mem_of_mem_zipIdx member
      exact (ih _ entry.1).mono fun plain => Node.isPlain_sequence plain entry.1 inside
    · next mark tag entries =>
      refine (steady_withTag _ _ (Steady.bind (Steady.foldlM (fun entry member values => ?_) _)
        fun _ => steady_pure _)).placed
      have parts : (Node.mapping mark tag entries).isPlain = true →
          entry.1.isPlain = true ∧ entry.2.isPlain = true := fun plain => Node.isPlain_mapping plain entry member
      refine ((ih _ entry.1).mono fun plain => (parts plain).1).bind fun key => ?_
      have last := ((ih (keyStep entry.1 :: path) entry.2).mono fun plain => (parts plain).2).bind
        fun value => steady_pure (values ++ [(key, value)])
      dsimp only
      split
      · exact (steady_throw _).bind fun _ => last
      · exact last
    · exact steady_failAtCut

end Nodes

end Decoder

end WorkflowLint.Yaml
