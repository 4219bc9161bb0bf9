import NandLang.Document
import NandLang.ErrorCode
import NandLang.Node

/-! Diagnostics: why the scope checker refused a tree. -/
namespace NandLang

structure Diagnostic where
  code : ErrorCode
  name : Name
  node : Node
  loc : Option Loc := none
  deriving DecidableEq, Repr

namespace Diagnostic

def message (d : Diagnostic) : String :=
  if d.code.same .redeclared then s!"variable '{d.name}' is already declared in this scope"
  else s!"variable '{d.name}' is not declared in this scope"

def document (d : Diagnostic) : Document :=
  .record [
    ("code", .text d.code.text),
    ("category", .text d.code.category.label),
    ("name", .text d.name),
    ("message", .text d.message),
    ("location", .text (Loc.textOf d.loc))]

def line (d : Diagnostic) : String :=
  s!"{Loc.textOf d.loc}: error: [{d.code.text}] {d.message}"

end Diagnostic
end NandLang
