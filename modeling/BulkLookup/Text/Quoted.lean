import BulkLookup.Text.Unprintable

/-!
# Quoted text

A string is shown between double quotes. The quote, the backslash and the common controls are
written with a backslash and a letter, and every other character that cannot be shown by itself
with its code point in lower-case hexadecimal digits, as many as are needed. All else stands for
itself; in particular an apostrophe does.

## Main definitions

* `Quoted.escape` — the characters written for one character
* `Quoted.quote` — the quoted form of a string
-/

namespace BulkLookup.Quoted

/-- The code point of a character, in braces. -/
def codePoint (c : Char) : List Char :=
  ['\\', 'u', '\x7b'] ++ Nat.toDigits 16 c.toNat ++ ['\x7d']

/-- The characters written for one character. -/
def escape (c : Char) : List Char :=
  match c with
  | '"' => ['\\', '"']
  | '\\' => ['\\', '\\']
  | '\t' => ['\\', 't']
  | '\n' => ['\\', 'n']
  | '\r' => ['\\', 'r']
  | '\x00' => ['\\', '0']
  | c => if isUnprintable c then codePoint c else [c]

/-- The quoted form of a string. -/
def quote (s : String) : String := String.ofList ('"' :: s.toList.flatMap escape ++ ['"'])

end BulkLookup.Quoted
