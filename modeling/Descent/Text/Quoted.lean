import Descent.Text.Digits
import Descent.Text.Unprintable

/-!
# Quoted texts

How a report quotes a text: between double quotes, with quotes, backslashes and everything that is not
printable escaped. An apostrophe stays as it is.
-/
namespace Descent.Text

def numbered (c : Char) : List Char := '\\' :: 'u' :: '\x7b' :: hexDigits c.toNat ++ ['\x7d']

def quotedChar (c : Char) : List Char :=
  match c with
  | '"' => ['\\', '"']
  | '\\' => ['\\', '\\']
  | '\n' => ['\\', 'n']
  | '\r' => ['\\', 'r']
  | '\t' => ['\\', 't']
  | c =>
    if c.toNat = 0 then ['\\', '0']
    else if c.toNat < 0x20 ∨ 0x7F ≤ c.toNat ∧ isUnprintable c then numbered c
    else [c]

def quote (text : String) : String :=
  String.ofList ('"' :: text.toList.flatMap quotedChar ++ ['"'])

end Descent.Text
