import Descent.Ruleset
import Descent.Text.Digits

/-!
# Spellings

How names, bytes and patterns are written inside emitted source. Every spelling is printable ASCII on
one line, so nothing that a grammar holds can leave its place. Bytes in Rust literals and in comments
take two hexadecimal digits; bytes in C literals always take three octal digits, so that a digit that
follows is never swallowed, and a question mark is escaped, so that no trigraph arises.
-/
namespace Descent.Emission

/-- The letter behind the backslash of a short escape. -/
def shortEscape? : Char → Option Char
  | '\t' => some 't'
  | '\r' => some 'r'
  | '\n' => some 'n'
  | '\'' => some '\''
  | '"' => some '"'
  | '\\' => some '\\'
  | _ => none

/-- Printable ASCII, the space included. -/
def isPlain (c : Char) : Bool := 0x20 ≤ c.toNat && c.toNat ≤ 0x7E

/-- A character of a name; what is not printable ASCII goes by its code point. -/
def nameChar (c : Char) : List Char :=
  match shortEscape? c with
  | some letter => ['\\', letter]
  | none =>
    if isPlain c then [c] else '\\' :: 'u' :: '\x7b' :: Text.hexDigits c.toNat ++ ['\x7d']

def nameText : Option String → List Char
  | none => "<unnamed>".toList
  | some name => if name.isEmpty then "<unnamed>".toList else name.toList.flatMap nameChar

def asciiByte (b : Symbol) : List Char :=
  match shortEscape? b.char with
  | some letter => ['\\', letter]
  | none => if isPlain b.char then [b.char] else '\\' :: 'x' :: Text.hexPair b

def rustByte (b : Symbol) : List Char := 'b' :: '\'' :: asciiByte b ++ ['\'']

def rustBytes (bytes : List UInt8) : List Char := 'b' :: '"' :: bytes.flatMap asciiByte ++ ['"']

/-- A byte of a C literal between quotes of the given kind. -/
def cByte (quote : Char) (b : Symbol) : List Char :=
  if b.char = '\\' ∨ b.char = '?' ∨ b.char = quote then ['\\', b.char]
  else if isPlain b.char then [b.char]
  else '\\' :: Text.octalTriple b

def cChar (b : Symbol) : List Char := '\'' :: cByte '\'' b ++ ['\'']

def cString (bytes : List UInt8) : List Char := '"' :: bytes.flatMap (cByte '"') ++ ['"']

def separated (separator : List Char) : List (List Char) → List Char
  | [] => []
  | [text] => text
  | text :: rest => text ++ separator ++ separated separator rest

def quoted (rhs : List UInt8) : List Char := '"' :: rhs.flatMap asciiByte ++ ['"']

/-- A rule on one line, for a comment. -/
def summary (r : Rule) : List Char :=
  r.symbol.shown ++ [':', ' '] ++
    if r.alternatives.isEmpty then "(no alternatives)".toList
    else separated [' ', '|', ' '] (r.rights.map quoted)

def routine (s : Symbol) : String := "match_" ++ String.ofList s.ident

end Descent.Emission
