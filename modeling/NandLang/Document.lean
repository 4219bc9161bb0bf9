import NandLang.Text.Hex

/-! JSON documents as the command line prints them: indented, ASCII only, fields in their order. -/
namespace NandLang

inductive Document
  | null
  | bool (value : Bool)
  | int (value : Int)
  | text (value : String)
  | list (items : List Document)
  | record (fields : List (String × Document))
  deriving Repr

namespace Document

/-- Code points past the sixteen-bit ones are written as a surrogate pair. -/
def escapeUnits (n : Nat) : List Char :=
  let unit (u : Nat) : List Char := '\x5c' :: 'u' :: Text.hex 4 u
  if n < 0x10000 then unit n
  else unit (0xd800 + (n - 0x10000) / 0x400) ++ unit (0xdc00 + (n - 0x10000) % 0x400)

def escapeChar (c : Char) : List Char :=
  if c = '\x22' || c = '\x5c' then ['\x5c', c]
  else if c = '\n' then ['\x5c', 'n']
  else if c = '\r' then ['\x5c', 'r']
  else if c = '\t' then ['\x5c', 't']
  else if c = '\x08' then ['\x5c', 'b']
  else if c = '\x0c' then ['\x5c', 'f']
  else if 0x20 ≤ c.toNat && c.toNat < 0x7f then [c]
  else escapeUnits c.toNat

def stringText (s : String) : String :=
  String.ofList ('\x22' :: s.toList.flatMap escapeChar ++ ['\x22'])

def newline (depth : Nat) : String :=
  String.ofList ('\n' :: List.replicate (2 * depth) ' ')

mutual

def render (depth : Nat) : Document → String
  | .null => "null"
  | .bool b => if b then "true" else "false"
  | .int n => toString n
  | .text s => stringText s
  | .list [] => "[]"
  | .list items =>
    "[" ++ String.intercalate "," (renderItems (depth + 1) items) ++ newline depth ++ "]"
  | .record [] => "\x7b\x7d"
  | .record fields =>
    "\x7b" ++ String.intercalate "," (renderFields (depth + 1) fields) ++ newline depth ++ "\x7d"

def renderItems (depth : Nat) : List Document → List String
  | [] => []
  | item :: rest => (newline depth ++ render depth item) :: renderItems depth rest

def renderFields (depth : Nat) : List (String × Document) → List String
  | [] => []
  | (name, value) :: rest =>
    (newline depth ++ stringText name ++ ": " ++ render depth value) :: renderFields depth rest

end

def ofOption (f : α → Document) : Option α → Document
  | none => .null
  | some a => f a

end Document
end NandLang
