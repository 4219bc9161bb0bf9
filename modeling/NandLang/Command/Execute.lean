import NandLang.Command.Invocation
import NandLang.Command.Source
import NandLang.Grammar
import NandLang.Machine.Interpreter
import NandLang.Node.Printer
import NandLang.Scope.Checker
import NandLang.Text.Utf8

/-! What each subcommand does with the source that it is given. -/
namespace NandLang.Command

inductive Abort
  | home (error : HomeError)
  | tooLong (path : String)
  | undecodable (error : Text.DecodeError)
  | voidSteps
  | voidAllocator
  | voidIndent
  | layout (error : Node.LayoutError)
  | stopped (stop : Stop)
  deriving DecidableEq, Repr

def Abort.message : Abort → String
  | .home e => e.message
  | .tooLong path => "[Errno 36] File name too long: " ++ Text.quoted path
  | .undecodable e => e.message
  | .voidSteps => "'<' not supported between instances of 'list' and 'int'"
  | .voidAllocator => "unhashable type: 'list'"
  | .voidIndent => "can't multiply sequence by non-int of type 'list'"
  | .layout e => e.message
  | .stopped s => s.message

/-- The clock of a log line is fixed, so that what is printed depends on the input alone. -/
def clock : String := "00:00:00"

def levelColumn (l : LogLevel) : String :=
  let cs := l.label.toList.take 5
  String.ofList (cs ++ List.replicate (5 - cs.length) ' ')

def logLine (e : Event) : String :=
  s!"{clock} [{levelColumn e.level}] {e.source}: {e.message}\n"

def Options.threshold (o : Options) : LogLevel :=
  match o.verbosity with
  | 0 => .warning
  | 1 => .info
  | _ => .debug

def Options.log (o : Options) (events : List Event) : String :=
  String.join ((events.filter fun e => o.threshold.rank ≤ e.level.rank).map logLine)

def decodeText (bytes : List UInt8) : Except Text.DecodeError String :=
  (Text.decodeUtf8 bytes).map fun chars => String.ofList (Text.unifyNewlines chars)

/-- The settings of a run. Of two void options the step budget is found out first. -/
def Options.settings (o : Options) : Except Abort Settings :=
  match o.maxSteps, o.allocator with
  | .void, _ => .error .voidSteps
  | .value _, .void => .error .voidAllocator
  | .value maxSteps, .value allocator => .ok ⟨maxSteps, o.checkInvariants, allocator⟩

namespace Invocation

def target (i : Invocation) (homes : Homes) : Except Abort Target :=
  if i.file = "-" then .ok .stdin
  else ((resolvePath homes i.file).map .file).mapError .home

def sourceName (i : Invocation) : Input → String
  | .stdin _ => "<stdin>"
  | .file .. => i.file

inductive Early
  | responded (response : Response)
  | aborted (abort : Abort)

def unusable (i : Invocation) (e : Event) : Early :=
  .responded { exit := .unusable, err := i.options.log [e] }

def text (i : Invocation) : Input → Except Early String
  | .stdin bytes => (decodeText bytes).mapError (.aborted ∘ .undecodable)
  | .file path found =>
    let unreadable (reason : String) := i.unusable (.fileUnreadable path reason)
    match found with
    | .missing => .error (i.unusable (.fileMissing path))
    | .tooLong => .error (.aborted (.tooLong path))
    | .directory => .error (unreadable ("[Errno 21] Is a directory: " ++ Text.quoted path))
    | .denied => .error (unreadable ("[Errno 13] Permission denied: " ++ Text.quoted path))
    | .content bytes => (decodeText bytes).mapError fun e => unreadable e.message

def load (i : Invocation) (input : Input) : Except Early Node := do
  let text ← i.text input
  match Node.parse text (i.sourceName input) with
  | .ok program => .ok program
  | .error e =>
    .error (.responded { exit := .unusable, err := "error: " ++ e.failure.message ++ "\n" })

end Invocation

def diagnosticLines (d : Diagnostic) : Except Misplaced (List String) := do
  let shown ← d.node.flat
  .ok [d.line, "    in: " ++ shown]

def documentLines (d : Document) : String := d.render 0 ++ "\n"

def verdictText (o : Options) (scope : Option Scope) (diagnostics : List Diagnostic) :
    Except Misplaced String :=
  let names := scope.map sortNames
  if o.json then
    .ok <| documentLines <| .record [
      ("accepted", .bool scope.isSome),
      ("scope", .ofOption (fun names => .list (names.map .text)) names),
      ("diagnostics", .list (diagnostics.map Diagnostic.document))]
  else match names with
    | none => do
      let reasons ← diagnostics.mapM diagnosticLines
      .ok (lines ("rejected" :: reasons.flatten))
    | some [] => .ok (lines ["accepted; in scope: (none)"])
    | some names => .ok (lines ["accepted; in scope: " ++ String.intercalate ", " names])

def respondCheck (o : Options) (program : Node) : Except Abort Response := do
  let answer := Checker.statement {} program []
  let scope ← answer.result.mapError (.stopped ∘ .misplaced)
  let out ← (verdictText o scope answer.checker.diagnostics).mapError (.stopped ∘ .misplaced)
  .ok {
    exit := if scope.isSome then .success else .rejected
    err := o.log answer.events
    out := out }

def exitOf : RunResult → Exit
  | .completed .. => .success
  | .rejected _ => .rejected
  | .faulted .. => .faulted
  | .exhausted .. => .exhausted

def resultLines : RunResult → Except Misplaced (List String)
  | .rejected d => do .ok ("rejected" :: (← diagnosticLines d))
  | .faulted _ f => .ok ["fault: " ++ f.failure.message]
  | .exhausted steps s => .ok [s!"step budget exhausted after {steps} steps", s.listing]
  | .completed _ s => .ok [s.listing]

def resultText (o : Options) (result : RunResult) : Except Misplaced String :=
  if o.json then .ok (documentLines result.document) else (resultLines result).map lines

def respondRun (fuel : Nat) (o : Options) (program : Node) : Except Abort Response := do
  let settings ← o.settings
  let answer := (Interpreter.ofSettings settings).run fuel program
  let result ← answer.result.mapError .stopped
  let out ← (resultText o result).mapError (.stopped ∘ .misplaced)
  .ok {
    exit := exitOf result
    err := o.log (Interpreter.warnings settings ++ answer.events)
    out := out }

/-- The indent is not looked at if everything stands on one line. -/
def respondDump (o : Options) (program : Node) : Except Abort Response := do
  let form ←
    if o.flat then program.flat.mapError (.stopped ∘ .misplaced)
    else match o.indent with
      | .void => .error .voidIndent
      | .value indent => (program.layout indent).mapError .layout
  .ok { exit := .success, out := lines [form] }

/-- What the program answers to an invocation. No loop runs for more than `fuel` rounds at a
time. -/
def Invocation.respond (i : Invocation) (fuel : Nat) (input : Input) : Except Abort Response :=
  match i.load input with
  | .error (.responded response) => .ok response
  | .error (.aborted abort) => .error abort
  | .ok program =>
    match i.subcommand with
    | .check => respondCheck i.options program
    | .run => respondRun fuel i.options program
    | .dumpAst => respondDump i.options program

end NandLang.Command
