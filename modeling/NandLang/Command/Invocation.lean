import NandLang.Command.Arguments
import NandLang.Settings

/-! The command line of the program: its subcommands, their options, and what help says of them. -/
namespace NandLang.Command

def programName : String := "formallang"

def version : String := "0.1.0"

inductive Exit
  | success
  | rejected
  | unusable
  | faulted
  | exhausted
  deriving DecidableEq, Repr

def Exit.code : Exit → Nat
  | .success => 0
  | .rejected => 1
  | .unusable => 2
  | .faulted => 3
  | .exhausted => 4

structure Response where
  exit : Exit
  out : String := ""
  err : String := ""
  deriving DecidableEq, Repr

inductive Subcommand
  | check
  | run
  | dumpAst
  deriving DecidableEq, Repr

structure Options where
  verbosity : Nat := 0
  json : Bool := false
  maxSteps : Given (Option Int) := .value none
  checkInvariants : Bool := false
  allocator : Given String := .value Allocator.bump.name
  flat : Bool := false
  indent : Given Int := .value 2
  deriving DecidableEq, Repr

structure Invocation where
  subcommand : Subcommand
  file : String
  options : Options
  deriving DecidableEq, Repr

def lines (ls : List String) : String := String.join (ls.map (· ++ "\n"))

def mainUsage : String :=
  lines ["usage: formallang [-h] [--version] [-v] COMMAND ..."]

def mainHelp : String :=
  mainUsage ++ lines [
    "",
    "Scope checker and reference interpreter for FormalLang.",
    "",
    "positional arguments:",
    "  COMMAND",
    "    check        check a program without running it",
    "    run          check and run a program",
    "    dump-ast     print the parsed program",
    "",
    "options:",
    "  -h, --help     show this help message and exit",
    "  --version      show program's version number and exit",
    "  -v, --verbose  increase log verbosity (-v info, -vv debug)"]

namespace Subcommand

def all : List Subcommand := [.check, .run, .dumpAst]

def name : Subcommand → String
  | .check => "check"
  | .run => "run"
  | .dumpAst => "dump-ast"

def ofName? (s : String) : Option Subcommand := all.find? (·.name == s)

def usage : Subcommand → String
  | .check => lines ["usage: formallang check [-h] [--json] file"]
  | .run => lines [
    "usage: formallang run [-h] [--max-steps N] [--check-invariants]",
    "                      [--allocator \x7bbump,max-scan\x7d] [--json]",
    "                      file"]
  | .dumpAst => lines ["usage: formallang dump-ast [-h] [--flat] [--indent INDENT] file"]

def help (c : Subcommand) : String :=
  c.usage ++ match c with
  | .check => lines [
    "",
    "positional arguments:",
    "  file        program file, or '-' for stdin",
    "",
    "options:",
    "  -h, --help  show this help message and exit",
    "  --json      emit JSON"]
  | .run => lines [
    "",
    "positional arguments:",
    "  file                  program file, or '-' for stdin",
    "",
    "options:",
    "  -h, --help            show this help message and exit",
    "  --max-steps N         stop after N statement executions (default: unbounded)",
    "  --check-invariants    re-validate location invariants after every statement",
    "  --allocator \x7bbump,max-scan\x7d",
    "                        location allocation strategy (default: bump)",
    "  --json                emit JSON"]
  | .dumpAst => lines [
    "",
    "positional arguments:",
    "  file             program file, or '-' for stdin",
    "",
    "options:",
    "  -h, --help       show this help message and exit",
    "  --flat           print on one line",
    "  --indent INDENT  indent width"]

end Subcommand

def intOf (word : String) : Except String Int :=
  match Number.int? word.toList with
  | some n => .ok n
  | none => .error ("invalid int value: " ++ Text.quoted word)

def invalidChoice (value : String) (choices : List String) : String :=
  s!"invalid choice: {Text.quoted value} (choose from " ++
    String.intercalate ", " (choices.map Text.quoted) ++ ")"

def allocatorOf (word : String) : Except String String :=
  if (Allocator.ofName? word).isSome then .ok word
  else .error (invalidChoice word (Allocator.all.map Allocator.name))

def stored (convert : String → Except String α) (store : Given α → Options → Options) :
    Effect Options :=
  .read fun given o => (given.mapM convert).map (store · o)

def helpOption (text : String) : Opt Options := ⟨["-h", "--help"], .display text⟩

def jsonOption : Opt Options := ⟨["--json"], .set fun o => { o with json := true }⟩

def mainTable : OptionTable Options where
  wanted := .remaining
  options := [
    helpOption mainHelp,
    ⟨["--version"], .display (programName ++ " " ++ version ++ "\n")⟩,
    ⟨["-v", "--verbose"], .set fun o => { o with verbosity := o.verbosity + 1 }⟩]

def Subcommand.table (c : Subcommand) : OptionTable Options where
  wanted := .one
  options := helpOption c.help :: match c with
  | .check => [jsonOption]
  | .run => [
    ⟨["--max-steps"], stored (fun w => (intOf w).map some) fun n o => { o with maxSteps := n }⟩,
    ⟨["--check-invariants"], .set fun o => { o with checkInvariants := true }⟩,
    ⟨["--allocator"], stored allocatorOf fun name o => { o with allocator := name }⟩,
    jsonOption]
  | .dumpAst => [
    ⟨["--flat"], .set fun o => { o with flat := true }⟩,
    ⟨["--indent"], stored intOf fun n o => { o with indent := n }⟩]

def respondHalt (usage : String) (command : String) : Halt → Response
  | .shown text => { exit := .success, out := text }
  | .misused message =>
    { exit := .unusable, err := usage ++ command ++ ": error: " ++ message ++ "\n" }

def misuse (message : String) : Response := respondHalt mainUsage programName (.misused message)

def missing (name : String) : Halt :=
  .misused ("the following arguments are required: " ++ name)

namespace Invocation

def ofWords (c : Subcommand) (options : Options) (words : List String) :
    Except Response (Invocation × List String) :=
  let respond := respondHalt c.usage (programName ++ " " ++ c.name)
  match c.table.parse options words with
  | .error h => .error (respond h)
  | .ok parsed =>
    match parsed.wanted with
    | [] => .error (respond (missing "file"))
    | file :: _ => .ok (⟨c, file, parsed.values⟩, parsed.extras)

/-- Words left over are complained of last, those before the subcommand first. -/
def ofArguments (arguments : List String) : Except Response Invocation :=
  match mainTable.parse {} arguments with
  | .error h => .error (respondHalt mainUsage programName h)
  | .ok parsed =>
    match parsed.wanted with
    | [] => .error (respondHalt mainUsage programName (missing "COMMAND"))
    | name :: words =>
      match Subcommand.ofName? name with
      | none =>
        .error (misuse ("argument COMMAND: " ++ invalidChoice name (Subcommand.all.map (·.name))))
      | some c => do
        let (invocation, extras) ← ofWords c parsed.values words
        match parsed.extras ++ extras with
        | [] => .ok invocation
        | unknown => .error (misuse ("unrecognized arguments: " ++ String.intercalate " " unknown))

end Invocation
end NandLang.Command
