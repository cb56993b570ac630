/-!
# Continuations

What is left to match at one nesting level, together with what every enclosing level still needs.
-/
namespace Descent

/-- A pattern and the patterns of the enclosing levels, the innermost first. -/
structure Continuation (α : Type) where
  pattern : List α
  parents : List (List α)
  deriving DecidableEq, Repr

namespace Continuation

variable {α : Type}

/-- Nothing left to match and no enclosing level. -/
def outermost : Continuation α := ⟨[], []⟩

def push (pattern : List α) (parent : Continuation α) : Continuation α :=
  ⟨pattern, parent.pattern :: parent.parents⟩

def parent? (c : Continuation α) : Option (Continuation α) :=
  match c.parents with
  | [] => none
  | pattern :: parents => some ⟨pattern, parents⟩

def depth (c : Continuation α) : Nat := c.parents.length + 1

@[simp]
theorem parent?_outermost : (outermost : Continuation α).parent? = none := rfl

@[simp]
theorem parent?_push (pattern : List α) (c : Continuation α) : (c.push pattern).parent? = some c :=
  rfl

@[simp]
theorem depth_outermost : (outermost : Continuation α).depth = 1 := rfl

@[simp]
theorem depth_push (pattern : List α) (c : Continuation α) : (c.push pattern).depth = c.depth + 1 :=
  rfl

/-- A level and those that patterns make when each is pushed onto the one before it. -/
def levelsFrom (c : Continuation α) : List (List α) → List (Continuation α)
  | [] => [c]
  | pattern :: rest => c :: levelsFrom (c.push pattern) rest

/-- The levels that patterns make, the outermost first. -/
def levels (patterns : List (List α)) : List (Continuation α) := levelsFrom outermost patterns

end Continuation

end Descent
