import Mathlib.Algebra.GroupWithZero.Nat

/-! What is written to a terminal, in parts: texts that are shown, and control sequences.

The places of the control sequences follow from the parts. What stands there is deleted by its place, so
that a sequence inside a text that is shown stays. -/

set_option autoImplicit false

namespace WorkflowLint.Terminal

inductive Part where
  | shown (text : String)
  /-- A control sequence, of which nothing is shown. -/
  | control (sequence : String)
  deriving DecidableEq, Repr

def Part.text : Part → String
  | .shown text => text
  | .control sequence => sequence

def Part.visibleText : Part → String
  | .shown text => text
  | .control _ => ""

def Part.sequence? : Part → Option String
  | .shown _ => none
  | .control sequence => some sequence

def written (parts : List Part) : String := String.join (parts.map Part.text)

def visible (parts : List Part) : String := String.join (parts.map Part.visibleText)

/-- A stretch of a text: the place of its first character, and its characters. -/
structure Span where
  start : Nat
  text : String
  deriving DecidableEq, Repr

def Span.Covers (span : Span) (place : Nat) : Prop :=
  span.start ≤ place ∧ place < span.start + span.text.length

instance (span : Span) : DecidablePred span.Covers :=
  fun place => inferInstanceAs (Decidable (span.start ≤ place ∧ place < span.start + span.text.length))

def Span.StandsIn (span : Span) (text : String) : Prop :=
  ∃ before after, text = before ++ span.text ++ after ∧ before.length = span.start

/-- The characters, from the place `start` on, that no span covers. -/
def uncovered (spans : List Span) (start : Nat) (text : List Char) : List Char :=
  ((text.zipIdx start).filter fun c => ∀ span ∈ spans, ¬span.Covers c.2).map Prod.fst

def delete (spans : List Span) (text : String) : String :=
  String.ofList (uncovered spans 0 text.toList)

/-- Where control sequences stand in what is written from the place `start` on. -/
def controls : Nat → List Part → List Span
  | _, [] => []
  | start, .shown text :: rest => controls (start + text.length) rest
  | start, .control sequence :: rest => ⟨start, sequence⟩ :: controls (start + sequence.length) rest

section Parts

variable {α : Type} (parts rest : List Part) (partsOf : α → List Part) (items : List α)

@[simp] theorem written_append : written (parts ++ rest) = written parts ++ written rest := by
  simp [written]

@[simp] theorem visible_append : visible (parts ++ rest) = visible parts ++ visible rest := by
  simp [visible]

theorem join_map_flatMap (text : Part → String) :
    String.join ((items.flatMap partsOf).map text) =
      String.join (items.map fun item => String.join ((partsOf item).map text)) := by
  induction items with
  | nil => rfl
  | cons item rest ih => simp [ih]

theorem written_flatMap :
    written (items.flatMap partsOf) = String.join (items.map fun item => written (partsOf item)) :=
  join_map_flatMap partsOf items Part.text

theorem visible_flatMap :
    visible (items.flatMap partsOf) = String.join (items.map fun item => visible (partsOf item)) :=
  join_map_flatMap partsOf items Part.visibleText

theorem length_written :
    (written parts).length =
      (visible parts).length + ((parts.filterMap Part.sequence?).map String.length).sum := by
  induction parts with
  | nil => rfl
  | cons part rest ih =>
    have tail : (written (part :: rest)).length = part.text.length + (written rest).length := by
      simp [written]
    rw [tail, ih]
    cases part with
    | shown text =>
      simp [visible, Part.text, Part.visibleText, Part.sequence?, List.filterMap_cons, Nat.add_assoc]
    | control sequence =>
      simp [visible, Part.text, Part.visibleText, Part.sequence?, Nat.add_left_comm]

theorem controls_text (start : Nat) :
    (controls start parts).map Span.text = parts.filterMap Part.sequence? := by
  induction parts generalizing start with
  | nil => rfl
  | cons part rest ih =>
    cases part with
    | shown text => exact ih _
    | control sequence => simp [controls, Part.sequence?, ih]

end Parts

theorem start_le_of_mem_controls {span : Span} {start : Nat} {parts : List Part}
    (member : span ∈ controls start parts) : start ≤ span.start := by
  induction parts generalizing start with
  | nil => cases member
  | cons part rest ih =>
    cases part with
    | shown text => exact Nat.le_of_add_right_le (ih member)
    | control sequence =>
      rcases List.mem_cons.mp member with rfl | later
      · exact Nat.le_refl start
      · exact Nat.le_of_add_right_le (ih later)

theorem standsIn_of_mem_controls {span : Span} {before : String} {parts : List Part}
    (member : span ∈ controls before.length parts) : span.StandsIn (before ++ written parts) := by
  induction parts generalizing before with
  | nil => cases member
  | cons part rest ih =>
    have passed : before ++ written (part :: rest) = (before ++ part.text) ++ written rest := by
      simp [written, String.append_assoc]
    rw [passed]
    cases part with
    | shown text =>
      refine ih ?_
      rwa [String.length_append]
    | control sequence =>
      rcases List.mem_cons.mp member with rfl | later
      · exact ⟨before, written rest, rfl, rfl⟩
      · refine ih ?_
        rwa [String.length_append]

section Uncovered

variable {spans : List Span} {start : Nat} {text : List Char}

theorem uncovered_append (spans : List Span) (start : Nat) (first rest : List Char) :
    uncovered spans start (first ++ rest) =
      uncovered spans start first ++ uncovered spans (start + first.length) rest := by
  simp [uncovered, List.zipIdx_append]

theorem uncovered_of_none (none : ∀ place, start ≤ place → place < start + text.length →
    ∀ span ∈ spans, ¬span.Covers place) : uncovered spans start text = text := by
  have all : (text.zipIdx start).filter (fun c => ∀ span ∈ spans, ¬span.Covers c.2) =
      text.zipIdx start := by
    refine List.filter_eq_self.mpr fun c member => decide_eq_true fun span inSpans => ?_
    obtain ⟨low, high, _⟩ := List.mem_zipIdx member
    exact none c.2 low (by omega) span inSpans
  rw [uncovered, all, List.zipIdx_map_fst]

theorem uncovered_of_all (all : ∀ place, start ≤ place → place < start + text.length →
    ∃ span ∈ spans, span.Covers place) : uncovered spans start text = [] := by
  rw [uncovered, List.map_eq_nil_iff]
  refine List.filter_eq_nil_iff.mpr fun c member uncovers => ?_
  obtain ⟨low, high, _⟩ := List.mem_zipIdx member
  obtain ⟨span, inSpans, covers⟩ := all c.2 low (by omega)
  exact of_decide_eq_true uncovers span inSpans covers

/-- A span that ends before a text starts covers none of it. -/
theorem uncovered_cons_of_ended {span : Span} (ended : span.start + span.text.length ≤ start) :
    uncovered (span :: spans) start text = uncovered spans start text := by
  unfold uncovered
  congr 1
  refine List.filter_congr fun c member => ?_
  obtain ⟨low, _, _⟩ := List.mem_zipIdx member
  have passed : ¬span.Covers c.2 := fun covers => absurd covers.2 (by omega)
  simp [passed]

end Uncovered

/-- What the spans of the control sequences leave is what is shown, wherever the text starts. -/
theorem uncovered_controls (start : Nat) (parts : List Part) :
    uncovered (controls start parts) start (written parts).toList = (visible parts).toList := by
  induction parts generalizing start with
  | nil => rfl
  | cons part rest ih =>
    have opened : (written (part :: rest)).toList = part.text.toList ++ (written rest).toList := by
      simp [written]
    rw [opened, uncovered_append, String.length_toList]
    cases part with
    | shown text =>
      have kept : uncovered (controls (start + text.length) rest) start text.toList = text.toList := by
        refine uncovered_of_none fun place _ high span member covers => ?_
        have later := start_le_of_mem_controls member
        rw [String.length_toList] at high
        exact absurd covers.1 (by omega)
      calc _ = text.toList ++ (visible rest).toList := by rw [controls, Part.text, kept, ih]
        _ = _ := by simp [visible, Part.visibleText]
    | control sequence =>
      have gone : uncovered (controls start (.control sequence :: rest)) start sequence.toList = [] := by
        refine uncovered_of_all fun place low high => ?_
        rw [String.length_toList] at high
        exact ⟨⟨start, sequence⟩, List.mem_cons_self, low, high⟩
      have left : uncovered (controls start (.control sequence :: rest)) (start + sequence.length)
          (written rest).toList = (visible rest).toList :=
        (uncovered_cons_of_ended (Nat.le_refl _)).trans (ih _)
      calc _ = [] ++ (visible rest).toList := by rw [Part.text, gone, left]
        _ = _ := by simp [visible, Part.visibleText]

theorem delete_controls (parts : List Part) :
    delete (controls 0 parts) (written parts) = visible parts := by
  rw [delete, uncovered_controls, String.ofList_toList]

/-- A sequence that is part of a text is kept. -/
example : delete (controls 0 [.control "\x1b[33m", .shown "a\x1b[33m"]) "\x1b[33ma\x1b[33m" = "a\x1b[33m" := by
  decide +kernel

end WorkflowLint.Terminal
