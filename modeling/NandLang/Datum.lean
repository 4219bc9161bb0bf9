import NandLang.Number.Binary64
import NandLang.Text.Quoted

/-! Data that forms are read into: atoms, lists in round or square brackets, and quoted data. A
datum is shown in two ways: `written` as a form again, `shown` as a value in a message. -/
namespace NandLang

inductive Bracket
  | round
  | square
  deriving DecidableEq, Repr

namespace Bracket

def closer : Bracket → Char
  | .round => ')'
  | .square => ']'

end Bracket

inductive Datum
  | symbol (name : String)
  | int (value : Int)
  | float (value : Number.Binary64)
  | text (value : String)
  | list (items : List Datum)
  | brackets (items : List Datum)
  | quoted (datum : Datum)
  deriving Repr

namespace Datum

def form (b : Bracket) (items : List Datum) : Datum :=
  match b with
  | .round => .list items
  | .square => .brackets items

/-- An atom is the first of integer, float and symbol that it can be. -/
def ofAtom (cs : List Char) : Datum :=
  match Number.int? cs with
  | some n => .int n
  | none =>
    match Number.Binary64.ofNumeral? cs with
    | some x => .float x
    | none => .symbol (String.ofList cs)

def symbolSpecials : List Char :=
  ['\x5c', '\x27', '\x60', '\x22', '(', ')', '[', ']', ' ', ',', '?', ';', '#']

def textSpecials : List (Char × Char) :=
  [('\x5c', '\x5c'), ('\x22', '\x22'), ('\x08', 'b'), ('\x0c', 'f'), ('\n', 'n'), ('\r', 'r'),
   ('\t', 't')]

def atomEscape (c : Char) : List Char :=
  if symbolSpecials.contains c then [c] else ['\x5c', c]

def textEscape (c : Char) : List Char :=
  match textSpecials.find? (·.2 == c) with
  | some (raw, _) => [raw]
  | none => ['\x5c', c]

def writeSymbol (s : String) : String :=
  String.ofList (s.toList.flatMap fun c =>
    if symbolSpecials.contains c then ['\x5c', c] else [c])

def writeText (s : String) : String :=
  String.ofList ('\x22' :: s.toList.flatMap (fun c =>
    match textSpecials.lookup c with
    | some letter => ['\x5c', letter]
    | none => [c]) ++ ['\x22'])

mutual

def written : Datum → String
  | .symbol s => writeSymbol s
  | .int n => toString n
  | .float x => String.ofList x.text
  | .text s => writeText s
  | .list items => "(" ++ String.intercalate " " (writtenAll items) ++ ")"
  | .brackets items => "[" ++ String.intercalate " " (writtenAll items) ++ "]"
  | .quoted d => "'" ++ d.written

def writtenAll : List Datum → List String
  | [] => []
  | d :: rest => d.written :: writtenAll rest

end

mutual

def shown : Datum → String
  | .symbol s => s!"Symbol({Text.quoted s})"
  | .int n => toString n
  | .float x => String.ofList x.text
  | .text s => Text.quoted s
  | .list items => "[" ++ String.intercalate ", " (shownAll items) ++ "]"
  | .brackets items => "Brackets(I=[" ++ String.intercalate ", " (shownAll items) ++ "])"
  | .quoted d => "Quoted(" ++ d.shown ++ ")"

def shownAll : List Datum → List String
  | [] => []
  | d :: rest => d.shown :: shownAll rest

end

def describe (d : Datum) : String :=
  match d with
  | .list _ => "form " ++ d.written
  | .symbol _ => "Symbol " ++ d.shown
  | .int _ => "int " ++ d.shown
  | .float _ => "float " ++ d.shown
  | .text _ => "str " ++ d.shown
  | .brackets _ => "Brackets " ++ d.shown
  | .quoted _ => "Quoted " ++ d.shown

end Datum
end NandLang
