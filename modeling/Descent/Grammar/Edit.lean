import Descent.Grammar

/-!
# Edits

The ways in which a grammar is changed, as data, so that a history of a grammar is a list.
-/
namespace Descent.Grammar

inductive Edit
  | setName (name : String)
  | setStart (s : Symbol)
  | setEscape (s : Symbol)
  | declareTerminal (s : Symbol)
  | declareNonTerminal (s : Symbol)
  /-- Adds a right-hand side and then appends `pushed` to it. -/
  | addAlternative (s : Symbol) (rhs pushed : List UInt8)
  | clear
  deriving DecidableEq, Repr

def edit (g : Grammar) : Edit → Grammar
  | .setName name => g.setName name
  | .setStart s => g.setStart s
  | .setEscape s => g.setEscape s
  | .declareTerminal s => g.declareTerminal s
  | .declareNonTerminal s => g.declareNonTerminal s
  | .addAlternative s rhs pushed => (g.addAlternative s rhs).extendLast s pushed
  | .clear => .empty

inductive Reply
  | done
  | added (isNew : Bool)
  /-- The right-hand side that was added, as it now stands. -/
  | slot (rhs : Option (List UInt8))
  deriving DecidableEq, Repr

def reply (g : Grammar) : Edit → Reply
  | .declareTerminal s => .added (!g.isTerminal s)
  | .declareNonTerminal s => .added (!g.isDeclared s)
  | .addAlternative s rhs pushed => .slot ((g.edit (.addAlternative s rhs pushed)).lastAlternative? s)
  | _ => .done

def ofEdits (edits : List Edit) : Grammar := edits.foldl edit empty

end Descent.Grammar
