import NandLang.Keyword
import NandLang.Node
import NandLang.SyntaxError

/-! From data to trees. An expression is a literal, a name or a `nand` form; a statement is a form
that its keyword tells. Every node made here carries the location of the text. -/
namespace NandLang

def legalName (cs : List Char) : Bool :=
  match cs with
  | [] => false
  | c :: rest => (c.isAlpha || c = '_') && rest.all fun c => c.isAlphanum || c = '_' || c = '-'

/-- A line end behind a name is let pass. -/
def admitsName (cs : List Char) : Bool :=
  legalName cs || (cs.getLast? = some '\n' && legalName cs.dropLast)

namespace Datum

def toName : Datum → Except SyntaxError Name
  | .symbol w =>
    if (Keyword.ofWord? w).isSome then .error (.keywordName w)
    else if admitsName w.toList then .ok w
    else .error (.illegalName w)
  | d => .error (.notName d)

def toExpr (loc : Option Loc) : Datum → Except SyntaxError Node
  | .symbol w =>
    match Keyword.ofWord? w with
    | some .yes => .ok (.lit true loc)
    | some .no => .ok (.lit false loc)
    | _ => (toName (.symbol w)).map (.var · loc)
  | .list [] => .error .emptyForm
  | .list (.symbol tag :: args) =>
    if Keyword.ofWord? tag = some .nand then
      match args with
      | [l, r] => do .ok (.nand (← l.toExpr loc) (← r.toExpr loc) loc)
      | _ => .error (.arity tag 2 (.symbol tag :: args))
    else .error (.unknownExpression tag)
  | .list (head :: _) => .error (.headless head)
  | d => .error (.notExpression d)

mutual

def toStmt (loc : Option Loc) : Datum → Except SyntaxError Node
  | .list [] => .error .emptyForm
  | .list (.symbol tag :: args) =>
    match Keyword.ofWord? tag, args with
    | some .decl, [x, e] => do .ok (.decl (← x.toName) (← e.toExpr loc) loc)
    | some .assign, [x, e] => do .ok (.assign (← x.toName) (← e.toExpr loc) loc)
    | some .ifThen, [c, b] => do .ok (.ifThen (← c.toExpr loc) (← b.toStmt loc) loc)
    | some .whileDo, [c, b] => do .ok (.whileDo (← c.toExpr loc) (← b.toStmt loc) loc)
    | some .seq, first :: rest => do
      .ok (Node.sequence loc (← first.toStmt loc) (← toStmts loc rest))
    | some .free, [x] => do .ok (.free (← x.toName) loc)
    | some .seq, [] => .error .emptySequence
    | some .free, _ => .error (.arity tag 1 (.symbol tag :: args))
    | some .decl, _ | some .assign, _ | some .ifThen, _ | some .whileDo, _ =>
      .error (.arity tag 2 (.symbol tag :: args))
    | _, _ => .error (.unknownStatement tag)
  | .list (head :: _) => .error (.headless head)
  | d => .error (.notStatement d)

def toStmts (loc : Option Loc) : List Datum → Except SyntaxError (List Node)
  | [] => .ok []
  | d :: rest => do .ok ((← d.toStmt loc) :: (← toStmts loc rest))

end

end Datum

namespace Node

def readForms (text : String) : Except SyntaxError (List Datum) :=
  (Datum.readForms text.toList).mapError (.unreadable (Datum.wrap text.toList))

/-- A program is a row of statements. A text that cannot be read at all has no location. -/
def parse (text : String) (file : String) : Except ParseError Node :=
  let loc := some { file := file : Loc }
  match readForms text with
  | .error e => .error ⟨e, none⟩
  | .ok [] => .error ⟨.emptyProgram, loc⟩
  | .ok (first :: rest) =>
    match first.toStmt loc, Datum.toStmts loc rest with
    | .error e, _ => .error ⟨e, loc⟩
    | .ok _, .error e => .error ⟨e, loc⟩
    | .ok first, .ok rest => .ok (sequence loc first rest)

def anonymous : String := "<string>"

/-- A single expression. Its errors have no location. -/
def parseExpr (text : String) : Except ParseError Node :=
  let loc := some { file := anonymous : Loc }
  match readForms text with
  | .error e => .error ⟨e, none⟩
  | .ok [d] => (d.toExpr loc).mapError (⟨·, none⟩)
  | .ok data => .error ⟨.expressionCount data.length, none⟩

end Node
end NandLang
