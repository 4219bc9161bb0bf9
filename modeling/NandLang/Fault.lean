import NandLang.Document
import NandLang.ErrorCode
import NandLang.Node
import NandLang.Store

/-! Faults: what can go wrong with a variable while a program runs. -/
namespace NandLang

inductive FaultKind
  | undeclared
  | invalidLocation
  | redeclared
  | alreadyFreed
  deriving DecidableEq, Repr

namespace FaultKind

def all : List FaultKind := [.undeclared, .invalidLocation, .redeclared, .alreadyFreed]

def label : FaultKind → String
  | .undeclared => "UNDECLARED_VARIABLE"
  | .invalidLocation => "INVALID_LOCATION"
  | .redeclared => "REDECLARED_VARIABLE"
  | .alreadyFreed => "ALREADY_FREED"

def text : FaultKind → String
  | .undeclared => "undeclared-variable"
  | .invalidLocation => "invalid-location"
  | .redeclared => "redeclared-variable"
  | .alreadyFreed => "already-freed"

def code : FaultKind → ErrorCode
  | .undeclared => .unbound
  | .invalidLocation => .invalidLocation
  | .redeclared => .rebound
  | .alreadyFreed => .alreadyFreed

end FaultKind

structure Fault where
  kind : FaultKind
  name : Name
  location : Option Location := none
  loc : Option Loc := none
  deriving DecidableEq, Repr

namespace Fault

def text (f : Fault) : String :=
  match f.kind with
  | .undeclared => s!"variable '{f.name}' is not bound in the environment"
  | .invalidLocation =>
    let place := match f.location with
      | some l => toString l
      | none => "None"
    s!"location {place} of '{f.name}' is not in memory"
  | .redeclared => s!"variable '{f.name}' is already bound"
  | .alreadyFreed => s!"variable '{f.name}' has already been freed"

def failure (f : Fault) : Failure := ⟨f.text, f.kind.code, f.loc⟩

def document (f : Fault) : Document :=
  .record [
    ("kind", .text f.kind.text),
    ("code", .text f.kind.code.text),
    ("name", .text f.name),
    ("location", .ofOption .int f.location),
    ("message", .text f.text),
    ("source", .text (Loc.textOf f.loc))]

end Fault
end NandLang
