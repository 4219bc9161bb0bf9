import NandLang.Allocator

/-! Settings of a run, as they are asked for. What cannot be honoured is warned about and left
out. -/
namespace NandLang

structure Settings where
  maxSteps : Option Int := none
  checkInvariants : Bool := false
  allocator : String := Allocator.bump.name
  deriving DecidableEq, Repr

inductive SettingsWarning
  | negativeSteps
  | unknownAllocator (name : String)
  deriving DecidableEq, Repr

def SettingsWarning.text : SettingsWarning → String
  | .negativeSteps => "max_steps must be non-negative"
  | .unknownAllocator name =>
    s!"allocator must be one of {Allocator.choices}, got {Text.quoted name}"

namespace Settings

def limit (s : Settings) : Option Nat :=
  s.maxSteps.bind fun k => if k < 0 then none else some k.toNat

def warnings (s : Settings) : List SettingsWarning :=
  (if s.maxSteps.isSome && s.limit.isNone then [.negativeSteps] else []) ++
  (if (Allocator.ofName? s.allocator).isNone then [.unknownAllocator s.allocator] else [])

end Settings
end NandLang
