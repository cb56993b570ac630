import Descent.Text.Digits

/-!
# Symbols

A symbol is one byte; capital letters of ASCII name non-terminals. A symbol has two spellings: one
for messages, and one for listings, where the listing's own punctuation is spelled as a hexadecimal
escape so that any of the 256 symbols can stand in a list.
-/
namespace Descent

abbrev Symbol := UInt8

namespace Symbol

def isNonTerminal (s : Symbol) : Bool := 65 ≤ s && s ≤ 90

def isGraphic (s : Symbol) : Bool := 33 ≤ s && s ≤ 126

def isAlphanumeric (s : Symbol) : Bool :=
  (48 ≤ s && s ≤ 57) || (65 ≤ s && s ≤ 90) || (97 ≤ s && s ≤ 122)

def char (s : Symbol) : Char := Char.ofUInt8 s

/-- A backslash, an `x` and two digits. -/
def escaped (s : Symbol) : List Char := '\\' :: 'x' :: Text.hexPair s

/-- How messages show a symbol: itself if it is visible, else its escape. -/
def shown (s : Symbol) : List Char := if s.isGraphic then [s.char] else s.escaped

/-- The characters that a listing gives a meaning of their own. -/
def isPunctuation (s : Symbol) : Bool :=
  s.char ∈ [',', '\x7b', '\x7d', '(', ')', '\\', '#', '=']

/-- How listings write a symbol: punctuation and invisible symbols by their escape. -/
def token (s : Symbol) : List Char := if s.isPunctuation then s.escaped else s.shown

/-- The symbol that a token stands for: any one-byte character, or an escape with digits in either
case. -/
def ofToken? : List Char → Option Symbol
  | [c] => if c.toNat < 128 then some (UInt8.ofNat c.toNat) else none
  | ['\\', 'x', high, low] => Text.hexByte? high low
  | _ => none

/-- The part of an identifier that names a symbol: the letter or digit itself, else `x` and its two
digits. -/
def ident (s : Symbol) : List Char := if s.isAlphanumeric then [s.char] else 'x' :: Text.hexPair s

inductive Kind
  | terminal
  | nonTerminal
  | escape
  deriving DecidableEq, Repr

/-- The kind of a symbol under an escape marker; the marker wins over its own letter case. -/
def kind (marker s : Symbol) : Kind :=
  if s = marker then .escape else if s.isNonTerminal then .nonTerminal else .terminal

end Symbol

end Descent
