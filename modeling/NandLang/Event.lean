import NandLang.Diagnostic
import NandLang.Fault
import NandLang.Settings

/-! The log: what the checker, the machine and the command line tell about their work. -/
namespace NandLang

inductive LogLevel
  | debug
  | info
  | warning
  | error
  deriving DecidableEq, Repr

namespace LogLevel

def label : LogLevel → String
  | .debug => "DEBUG"
  | .info => "INFO"
  | .warning => "WARNING"
  | .error => "ERROR"

def rank : LogLevel → Nat
  | .debug => 0
  | .info => 1
  | .warning => 2
  | .error => 3

end LogLevel

inductive Event
  | refused (diagnostic : Diagnostic)
  | setting (warning : SettingsWarning)
  | notExecuted
  | declared (name : Name) (location : Location) (value : Bool)
  | iteration (number : Nat)
  | released (name : Name) (location : Location)
  | faulted (steps : Nat) (fault : Fault)
  | spent (limit : Nat)
  | fileMissing (path : String)
  | fileUnreadable (path : String) (reason : String)
  deriving DecidableEq, Repr

namespace Event

def level : Event → LogLevel
  | .refused _ | .declared .. | .iteration _ | .released .. => .debug
  | .notExecuted | .faulted .. | .spent _ => .info
  | .setting _ => .warning
  | .fileMissing _ | .fileUnreadable .. => .error

def source : Event → String
  | .refused _ => "formallang.checker"
  | .fileMissing _ | .fileUnreadable .. => "formallang"
  | _ => "formallang.interpreter"

def message : Event → String
  | .refused d => "rejected: " ++ d.line
  | .setting w => "RuntimeConfig: " ++ w.text
  | .notExecuted => "program rejected by the checker; not executing"
  | .declared x l v =>
    let value := if v then "True" else "False"
    s!"decl {x} @{l} = {value}"
  | .iteration n => s!"while iteration {n}"
  | .released x l => s!"free {x} @{l}"
  | .faulted steps f => s!"fault after {steps} steps: {f.failure.message}"
  | .spent limit => s!"step budget of {limit} exhausted"
  | .fileMissing path => s!"file not found: {path}"
  | .fileUnreadable path reason => s!"cannot read {path}: {reason}"

end Event
end NandLang
