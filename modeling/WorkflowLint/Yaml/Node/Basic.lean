import WorkflowLint.Yaml.Token.Basic

/-! YAML documents as trees. Each node stands where its first property or character does. A document that
is not well-formed is known up to the place where that shows. -/

set_option autoImplicit false

namespace WorkflowLint.Yaml

inductive Node where
  | scalar (mark : Mark) (tag : Option String) (style : ScalarStyle) (text : String)
  | sequence (mark : Mark) (tag : Option String) (items : List Node)
  | mapping (mark : Mark) (tag : Option String) (entries : List (Node × Node))
  /-- Another node of the document, by its number. -/
  | alias (mark : Mark) (target : Nat)
  /-- What cannot be known, behind the place where the document breaks off. -/
  | cut

inductive Fault where
  | malformed
  | unknownAnchor (mark : Mark)
  deriving DecidableEq, Repr

structure Document where
  root : Node
  /-- The nodes that aliases lead to, by their numbers. -/
  anchored : List (Nat × Node)
  /-- How many marks the tree takes to write: one for a scalar or an alias, two for a collection. -/
  size : Nat
  fault : Option Fault
  /-- Whether the text ends with this document. -/
  isLast : Bool

namespace Node

/-- The plain scalar that stands where nothing is written. -/
def empty (mark : Mark) : Node := .scalar mark none .plain ""

mutual

def isWhole : Node → Bool
  | .scalar .. => true
  | .sequence _ _ items => areWhole items
  | .mapping _ _ entries => entriesAreWhole entries
  | .alias .. => true
  | .cut => false

def areWhole : List Node → Bool
  | [] => true
  | node :: rest => node.isWhole && areWhole rest

def entriesAreWhole : List (Node × Node) → Bool
  | [] => true
  | (key, value) :: rest => key.isWhole && value.isWhole && entriesAreWhole rest

end

end Node

end WorkflowLint.Yaml
