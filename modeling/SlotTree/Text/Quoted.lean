import SlotTree.Text.Printable

/-!
Quoted text. The mark around it is an apostrophe, or a quotation mark where the text has
apostrophes and no quotation mark. The mark and the backslash get a backslash in front, three
control characters have a letter of their own, and every other unprintable character is written
by its number.
-/

namespace SlotTree.Text

def apostrophe : Char := '\x27'

def quotationMark : Char := '\x22'

def hexDigits : Nat → Nat → List Char
  | 0, _ => []
  | count + 1, code => hexDigits count (code / 16) ++ [Nat.digitChar (code % 16)]

def numbered (code : Nat) : List Char :=
  if code < 0x100 then '\\' :: 'x' :: hexDigits 2 code
  else if code < 0x10000 then '\\' :: 'u' :: hexDigits 4 code
  else '\\' :: 'U' :: hexDigits 8 code

def escape (mark c : Char) : List Char :=
  if c = mark ∨ c = '\\' then ['\\', c]
  else if c = '\n' then ['\\', 'n']
  else if c = '\r' then ['\\', 'r']
  else if c = '\t' then ['\\', 't']
  else if isPrintable c then [c]
  else numbered c.toNat

def markFor (cs : List Char) : Char :=
  if apostrophe ∈ cs ∧ quotationMark ∉ cs then quotationMark else apostrophe

def quotedChars (cs : List Char) : List Char :=
  markFor cs :: cs.flatMap (escape (markFor cs)) ++ [markFor cs]

def quoted (s : String) : String :=
  String.ofList (quotedChars s.toList)

end SlotTree.Text
