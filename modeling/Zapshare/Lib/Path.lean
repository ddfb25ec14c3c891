import Mathlib.Tactic.Common

/-!
# Path names

What a path name leads to, from a directory, where no component is a symbolic link. A directory is
given by the components that lead to it from the root; whether they exist is not asked.

## Main results

* `Path.resolve_of_isName` — a name leads to an entry of the directory itself
-/

namespace Path

/-- The `/` between the components. -/
def separator : UInt8 := 47

/-- The component `.`, which stays where it is. -/
def here : List UInt8 := [46]

/-- The component `..`, which leads up. -/
def up : List UInt8 := [46, 46]

/-- The next component; nothing leads up from the root. -/
def enter (dir : List (List UInt8)) (component : List UInt8) : List (List UInt8) :=
  if component = [] ∨ component = here then dir
  else if component = up then dir.dropLast
  else dir ++ [component]

/-- Where a path name leads. One that begins with a separator begins at the root. -/
def resolve (dir : List (List UInt8)) (path : List UInt8) : List (List UInt8) :=
  (path.splitOn separator).foldl enter (if path.head? = some separator then [] else dir)

/-- The name of an entry of a directory: one component, and not one of the two that every directory
has. -/
structure IsName (path : List UInt8) : Prop where
  ne_nil : path ≠ []
  notMem : separator ∉ path
  ne_here : path ≠ here
  ne_up : path ≠ up

variable {dir : List (List UInt8)} {path : List UInt8}

instance : Decidable (IsName path) :=
  decidable_of_iff (path ≠ [] ∧ separator ∉ path ∧ path ≠ here ∧ path ≠ up)
    ⟨fun ⟨h, h', h'', h'''⟩ => ⟨h, h', h'', h'''⟩, fun ⟨h, h', h'', h'''⟩ => ⟨h, h', h'', h'''⟩⟩

/-- **A name leads to an entry of the directory.** -/
theorem resolve_of_isName (h : IsName path) : resolve dir path = dir ++ [path] := by
  have hsplit : path.splitOn separator = [path] := List.splitOn_eq_singleton h.notMem
  have hhead : path.head? ≠ some separator := by
    intro hhead
    exact h.notMem (List.mem_of_mem_head? hhead)
  rw [resolve, hsplit, if_neg hhead, List.foldl_cons, List.foldl_nil, enter]
  simp [h.ne_nil, h.ne_here, h.ne_up]

example : resolve [[1], [2]] (up ++ separator :: [3]) = [[1], [3]] := by decide

end Path
