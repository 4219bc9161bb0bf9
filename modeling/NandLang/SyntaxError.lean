import NandLang.Datum.Reader
import NandLang.ErrorCode

/-! Why a text is no program. -/
namespace NandLang

inductive SyntaxError
  | unreadable (text : List Char) (error : ReadError)
  | emptyProgram
  | expressionCount (count : Nat)
  | emptyForm
  | headless (head : Datum)
  | unknownExpression (tag : String)
  | unknownStatement (tag : String)
  | notExpression (found : Datum)
  | notStatement (found : Datum)
  | arity (tag : String) (expected : Nat) (form : List Datum)
  | emptySequence
  | notName (found : Datum)
  | keywordName (name : String)
  | illegalName (name : String)
  deriving Repr

namespace SyntaxError

def code : SyntaxError → ErrorCode
  | .unreadable .. | .expressionCount _ => .malformedForm
  | .emptyProgram => .emptyProgram
  | .emptyForm | .headless _ | .unknownExpression _ | .unknownStatement _ => .unknownForm
  | .notExpression _ | .notStatement _ => .unknownForm
  | .arity .. | .emptySequence => .wrongArity
  | .notName _ | .keywordName _ | .illegalName _ => .invalidName

def text : SyntaxError → String
  | .unreadable text e => "S-expression syntax error: " ++ e.reason text
  | .emptyProgram => "program is empty"
  | .expressionCount count => s!"expected exactly one expression, got {count}"
  | .emptyForm => "unexpected empty form ()"
  | .headless head => "expected symbol, got " ++ head.describe
  | .unknownExpression tag => s!"unknown expression form ({tag} ...)"
  | .unknownStatement tag => s!"unknown statement form ({tag} ...)"
  | .notExpression found => "expected an expression, got " ++ found.describe
  | .notStatement found => "expected a statement form, got " ++ found.describe
  | .arity tag expected form =>
    let plural := if expected = 1 then "" else "s"
    s!"({tag} ...) takes {expected} argument{plural}, got {form.length - 1}: " ++
      (Datum.list form).written
  | .emptySequence => "(seq ...) needs at least one statement"
  | .notName found => "expected a variable name, got " ++ found.describe
  | .keywordName name => s!"'{name}' is a keyword and cannot name a variable"
  | .illegalName name => s!"invalid variable name '{name}'"

end SyntaxError

structure ParseError where
  cause : SyntaxError
  loc : Option Loc
  deriving Repr

def ParseError.failure (e : ParseError) : Failure := ⟨e.cause.text, e.cause.code, e.loc⟩

end NandLang
