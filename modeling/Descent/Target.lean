/-!
# Targets

The languages that recognizers are emitted in.
-/
namespace Descent

inductive Target
  | rust
  | c
  deriving DecidableEq, Repr

def Target.label : Target → String
  | .rust => "rust"
  | .c => "c"

end Descent
