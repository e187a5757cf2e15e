/-!
Control characters in messages.
-/

namespace SortedBlob.Text

/-- A code point as an escape between braces, in hexadecimal. -/
def codePoint (code : Nat) : String :=
  "\\u\x7b" ++ String.ofList (Nat.toDigits 16 code) ++ "\x7d"

/-- Bell, backspace, form feed, escape, delete and the controls from `80` to `9F` can be
commands to a terminal and are written out; tabs, line ends and the rest stay. -/
def inertChar (c : Char) : List Char :=
  match c.toNat with
  | 0x07 => "\\x07".toList
  | 0x08 => "\\x08".toList
  | 0x0C => "\\x0c".toList
  | 0x1B => "\\x1b".toList
  | 0x7F => "\\x7f".toList
  | code => if 0x80 ≤ code ∧ code ≤ 0x9F then (codePoint code).toList else [c]

/-- The text as it can be shown on any terminal. -/
def inert (text : String) : String := String.ofList (text.toList.flatMap inertChar)

end SortedBlob.Text
