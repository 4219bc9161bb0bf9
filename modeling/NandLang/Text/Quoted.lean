import NandLang.Text.Hex
import NandLang.Text.Printable

/-! Quoted text: how a message shows a string so that every character in it can be told. -/
namespace NandLang.Text

/-- Single quotes, unless that would escape a quote that double quotes would not. -/
def quoteMark (cs : List Char) : Char :=
  if cs.contains '\x27' && !cs.contains '\x22' then '\x22' else '\x27'

def escapeCode (n : Nat) : List Char :=
  if n < 0x100 then '\x5c' :: 'x' :: hex 2 n
  else if n < 0x10000 then '\x5c' :: 'u' :: hex 4 n
  else '\x5c' :: 'U' :: hex 8 n

def quoteChar (mark c : Char) : List Char :=
  if c = mark || c = '\x5c' then ['\x5c', c]
  else if c = '\n' then ['\x5c', 'n']
  else if c = '\r' then ['\x5c', 'r']
  else if c = '\t' then ['\x5c', 't']
  else if isPrintable c then [c]
  else escapeCode c.toNat

def quotedChars (cs : List Char) : List Char :=
  let mark := quoteMark cs
  mark :: cs.flatMap (quoteChar mark) ++ [mark]

def quoted (s : String) : String :=
  String.ofList (quotedChars s.toList)

end NandLang.Text
