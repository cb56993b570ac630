/-!
# Blanks

The characters of the Unicode property White_Space, trimming, and cutting a text at separators and
into lines.
U+200B and U+FEFF are no blanks: the property does not hold of them.
-/
namespace Descent.Text

/-- The twenty-five code points of the property White_Space. -/
def isBlank (c : Char) : Bool :=
  let n := c.toNat
  (9 ≤ n && n ≤ 13) || n == 0x20 || n == 0x85 || n == 0xA0 || n == 0x1680 ||
    (0x2000 ≤ n && n ≤ 0x200A) || n == 0x2028 || n == 0x2029 || n == 0x202F || n == 0x205F ||
    n == 0x3000

def trimStart (cs : List Char) : List Char := cs.dropWhile isBlank

def trimEnd (cs : List Char) : List Char := (trimStart cs.reverse).reverse

def trim (cs : List Char) : List Char := trimEnd (trimStart cs)

section Lines

variable {α : Type}

/-- The runs between the elements that satisfy `p`, the empty ones included: one more than there are
such elements. -/
def cut (p : α → Bool) : List α → List (List α)
  | [] => [[]]
  | a :: rest =>
    if p a then [] :: cut p rest
    else match cut p rest with
      | [] => [[a]]
      | run :: runs => (a :: run) :: runs

variable [DecidableEq α]

/-- A line without the carriage return that it ends with. -/
def dropReturn (ret : α) (line : List α) : List α :=
  if line.getLast? = some ret then line.dropLast else line

/-- The lines of a text, of bytes or of characters. A line feed ends a line, with the carriage return
in front of it; what stands behind the last one is a line unless it is empty. -/
def lines (feed ret : α) (text : List α) : List (List α) :=
  let pieces := cut (· == feed) text
  pieces.dropLast.map (dropReturn ret) ++ pieces.getLast?.toList.filter (!·.isEmpty)

end Lines

end Descent.Text
