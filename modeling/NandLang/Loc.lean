import NandLang.Text.Quoted

/-! Source locations. A tree that was not read from a source has none. -/
namespace NandLang

structure Loc where
  file : String := "<unknown>"
  line : Int := 0
  col : Int := 0
  deriving DecidableEq, Repr

namespace Loc

def text (l : Loc) : String := s!"{l.file}:{l.line}:{l.col}"

def describe (l : Loc) : String :=
  s!"SourceLoc(file={Text.quoted l.file}, line={l.line}, col={l.col})"

def textOf (l : Option Loc) : String := (l.getD {}).text

end Loc
end NandLang
