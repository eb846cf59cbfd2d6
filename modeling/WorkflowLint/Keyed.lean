/-! Tables in the order in which their keys first came. -/

set_option autoImplicit false

namespace WorkflowLint.Keyed

variable {κ β : Type} [BEq κ]

/-- Gives a key a value: in place where the key is known, else behind all others. -/
def put (key : κ) (value : β) : List (κ × β) → List (κ × β)
  | [] => [(key, value)]
  | entry :: rest => if entry.1 == key then (entry.1, value) :: rest else entry :: put key value rest

def ofList (entries : List (κ × β)) : List (κ × β) :=
  entries.foldl (fun table entry => put entry.1 entry.2 table) []

def firsts (keys : List κ) : List κ :=
  keys.foldl (fun seen key => if seen.contains key then seen else seen ++ [key]) []

theorem keys_put [LawfulBEq κ] (key : κ) (value : β) (table : List (κ × β)) :
    (put key value table).map Prod.fst =
      if key ∈ table.map Prod.fst then table.map Prod.fst else table.map Prod.fst ++ [key] := by
  induction table with
  | nil => simp [put]
  | cons entry rest ih =>
    by_cases h : entry.1 = key
    · simp [put, h]
    · have hne : ¬key = entry.1 := fun e => h e.symm
      simp only [put, beq_iff_eq, h, if_false, List.map_cons, ih, List.mem_cons, hne, false_or]
      split <;> simp

theorem lookup_put_self [LawfulBEq κ] (key : κ) (value : β) (table : List (κ × β)) :
    (put key value table).lookup key = some value := by
  induction table with
  | nil => simp [put]
  | cons entry rest ih =>
    by_cases h : entry.1 = key
    · simp [put, h]
    · obtain ⟨k, v⟩ := entry
      have hne : (key == k) = false := beq_eq_false_iff_ne.2 fun e => h e.symm
      rw [put, if_neg (by simpa using h), List.lookup_cons, hne]
      exact ih

end WorkflowLint.Keyed
