import NandLang.Datum

/-! Reading data from text, one character at a time. The reader knows what it is in the middle of,
the data of the innermost open form, and the forms around that one, so reading a text is reading
its parts in turn. -/
namespace NandLang

inductive ReadError
  | openText
  | mismatch (expected : Bracket) (found : Option Bracket)
  | bareQuote (pos : Nat)
  | excess (pos : Nat)
  | notOne (count : Nat)
  deriving DecidableEq, Repr

def ReadError.bracketText : Option Bracket → String
  | none => "None"
  | some b => Text.quoted (String.ofList [b.closer])

def ReadError.reason (text : List Char) : ReadError → String
  | .openText => "'NoneType' object has no attribute 'start'"
  | .mismatch expected found =>
    "Not enough closing brackets. Expected " ++ bracketText (some expected) ++
      " to be the last letter in the sexp. Got: " ++ bracketText found
  | .bareQuote pos => s!"No s-exp is found after an apostrophe at position {pos}"
  | .excess pos =>
    "Too many closing brackets. Expected no character left in the sexp. Got: " ++
      Text.quoted (String.ofList (text.drop pos))
  | .notOne _ => ""

namespace Reader

/-- What the reader is in the middle of; characters stand newest first. After a backslash the next
character is escaped. -/
inductive Mode
  | between
  | comment
  | text (chars : List Char) (escaped : Bool)
  | atom (chars : List Char) (escaped : Bool)
  deriving DecidableEq, Repr

/-- The data read at one level, newest first, and the positions of the apostrophes that wait for
the next datum, newest first. -/
structure Level where
  items : List Datum := []
  quotes : List Nat := []
  deriving Repr

/-- Every waiting apostrophe quotes the datum once. -/
def Level.push (l : Level) (d : Datum) : Level :=
  ⟨l.quotes.foldl (fun d _ => .quoted d) d :: l.items, []⟩

def Level.close (l : Level) : Except ReadError (List Datum) :=
  match l.quotes with
  | [] => .ok l.items.reverse
  | pos :: _ => .error (.bareQuote pos)

end Reader

/-- A reader between two characters. `outer` holds the levels around the current one, each with the
bracket that was opened in it. -/
structure Reader where
  mode : Reader.Mode := .between
  level : Reader.Level := {}
  outer : List (Bracket × Reader.Level) := []
  pos : Nat := 0
  deriving Repr

namespace Reader

def isBlank (c : Char) : Bool :=
  c = ' ' || c = '\t' || c = '\n' || c = '\r' || c = '\x0b' || c = '\x0c'

def opens? (c : Char) : Option Bracket :=
  if c = '(' then some .round else if c = '[' then some .square else none

def closes? (c : Char) : Option Bracket :=
  if c = ')' then some .round else if c = ']' then some .square else none

def endsAtom (c : Char) : Bool :=
  isBlank c || (opens? c).isSome || (closes? c).isSome || c = '\x22' || c = ';'

def push (r : Reader) (d : Datum) : Reader :=
  { r with level := r.level.push d, mode := .between }

def mark (r : Reader) : Reader :=
  { r with level := { r.level with quotes := r.pos :: r.level.quotes } }

def openForm (r : Reader) (b : Bracket) : Reader :=
  { r with level := {}, outer := (b, r.level) :: r.outer }

/-- Waiting apostrophes are looked at before the bracket is. -/
def closeForm (r : Reader) (b : Bracket) : Except ReadError Reader :=
  match r.level.close, r.outer with
  | .error e, _ => .error e
  | .ok _, [] => .error (.excess r.pos)
  | .ok items, (expected, level) :: outer =>
    if expected = b then .ok { r with level := level.push (.form b items), outer := outer }
    else .error (.mismatch expected (some b))

def start (r : Reader) (c : Char) : Except ReadError Reader :=
  match opens? c, closes? c with
  | some b, _ => .ok (r.openForm b)
  | none, some b => r.closeForm b
  | none, none =>
    if isBlank c then .ok r
    else if c = '\x27' then .ok r.mark
    else if c = '\x22' then .ok { r with mode := .text [] false }
    else if c = ';' then .ok { r with mode := .comment }
    else if c = '\x5c' then .ok { r with mode := .atom [] true }
    else .ok { r with mode := .atom [c] false }

def endAtom (r : Reader) (chars : List Char) : Reader := r.push (.ofAtom chars.reverse)

def step (r : Reader) (c : Char) : Except ReadError Reader :=
  match r.mode with
  | .between => r.start c
  | .comment => .ok (if c = '\n' then { r with mode := .between } else r)
  | .text chars true => .ok { r with mode := .text ((Datum.textEscape c).reverse ++ chars) false }
  | .text chars false =>
    if c = '\x22' then .ok (r.push (.text (String.ofList chars.reverse)))
    else if c = '\x5c' then .ok { r with mode := .text chars true }
    else .ok { r with mode := .text (c :: chars) false }
  | .atom chars true => .ok { r with mode := .atom ((Datum.atomEscape c).reverse ++ chars) false }
  | .atom chars false =>
    if endsAtom c then (r.endAtom chars).start c
    else if c = '\x5c' then .ok { r with mode := .atom chars true }
    else .ok { r with mode := .atom (c :: chars) false }

def feed (r : Reader) (c : Char) : Except ReadError Reader :=
  (r.step c).map fun next => { next with pos := next.pos + 1 }

def close (r : Reader) : Except ReadError (List Datum) :=
  match r.level.close, r.outer with
  | .error e, _ => .error e
  | .ok items, [] => .ok items
  | .ok _, (expected, _) :: _ => .error (.mismatch expected none)

def finish (r : Reader) : Except ReadError (List Datum) :=
  match r.mode with
  | .text .. => .error .openText
  | .between | .comment => r.close
  | .atom chars false => (r.endAtom chars).close
  | .atom chars true => (r.endAtom ('\x5c' :: chars)).close

end Reader

namespace Datum

def readAll (text : List Char) : Except ReadError (List Datum) :=
  (text.foldlM Reader.feed {}).bind Reader.finish

/-- A text as one form. The line ends keep a comment on the last line from hiding the closing
bracket. -/
def wrap (text : List Char) : List Char := '(' :: '\n' :: text ++ ['\n', ')']

def readForms (text : List Char) : Except ReadError (List Datum) :=
  match readAll (wrap text) with
  | .ok [.list items] => .ok items
  | .ok data => .error (.notOne data.length)
  | .error e => .error e

end Datum
end NandLang
