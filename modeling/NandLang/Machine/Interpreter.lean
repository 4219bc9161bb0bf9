import NandLang.Machine
import NandLang.Scope

/-! An interpreter carries its step count from one execution to the next. A run checks a program
first, and then executes it on the empty store. -/
namespace NandLang

/-- How a run ended. A fault leaves no store behind. -/
inductive RunResult
  | completed (steps : Nat) (store : Store)
  | rejected (diagnostic : Diagnostic)
  | faulted (steps : Nat) (fault : Fault)
  | exhausted (steps : Nat) (store : Store)
  deriving DecidableEq, Repr

namespace RunResult

def outcome : RunResult → String
  | .completed .. => "completed"
  | .rejected _ => "rejected"
  | .faulted .. => "faulted"
  | .exhausted .. => "budget_exhausted"

def ok : RunResult → Bool
  | .completed .. => true
  | _ => false

def steps : RunResult → Nat
  | .completed n _ | .faulted n _ | .exhausted n _ => n
  | .rejected _ => 0

def store? : RunResult → Option Store
  | .completed _ s | .exhausted _ s => some s
  | _ => none

def fault? : RunResult → Option Fault
  | .faulted _ f => some f
  | _ => none

def value? (r : RunResult) (x : Name) : Option Bool :=
  r.store?.bind fun s => s.values.lookup x

def document (r : RunResult) : Document :=
  .record <|
    [("outcome", .text r.outcome), ("steps", .int r.steps)] ++
    match r with
    | .completed _ s | .exhausted _ s =>
      [("state", s.document), ("values", .record (s.sortedValues.map fun (x, v) => (x, .bool v)))]
    | .faulted _ f => [("fault", f.document)]
    | .rejected d => [("diagnostics", .list [d.document])]

end RunResult

structure Interpreter where
  machine : Machine := {}
  steps : Nat := 0
  deriving DecidableEq, Repr

namespace Interpreter

/-- A result, the interpreter behind it, and what was logged, oldest first. -/
structure Answer (α : Type) where
  result : Except Stop α
  interpreter : Interpreter
  events : List Event

def ofSettings (s : Settings) : Interpreter :=
  { machine :=
    { limit := s.limit
      allocator := (Allocator.ofName? s.allocator).getD .bump
      audit := s.checkInvariants } }

def warnings (s : Settings) : List Event := s.warnings.map .setting

def exec (i : Interpreter) (fuel : Nat) (n : Node) (s : Store) : Answer Store :=
  let (result, progress) := i.machine.exec fuel n s { steps := i.steps }
  ⟨result, { i with steps := progress.steps }, progress.events.reverse⟩

/-- A program that is refused leaves the step count as it was. -/
def run (i : Interpreter) (fuel : Nat) (program : Node) : Answer RunResult :=
  match program.checkStmt [] with
  | .error (.misplaced m) => ⟨.error (.misplaced m), i, []⟩
  | .error (.violation d) => ⟨.ok (.rejected d), i, [.refused d, .notExecuted]⟩
  | .ok _ =>
    let done := { i with steps := 0 }.exec fuel program {}
    let steps := done.interpreter.steps
    let answer (result : Except Stop RunResult) (last : List Event) : Answer RunResult :=
      ⟨result, done.interpreter, done.events ++ last⟩
    match done.result with
    | .ok s => answer (.ok (.completed steps s)) []
    | .error (.fault f) => answer (.ok (.faulted steps f)) [.faulted steps f]
    | .error (.exhausted s) =>
      let limit := i.machine.limit.getD 0
      answer (.ok (.exhausted limit s)) [.spent limit]
    | .error stop => answer (.error stop) []

end Interpreter
end NandLang
