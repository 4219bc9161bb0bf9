import NandLang.Document
import NandLang.ErrorCode
import NandLang.Node
import NandLang.Table

/-! The store of a running program: which location each name is bound to, which names were freed,
what each cell holds, and the counter that new locations come from. Stores are values; a block is
left by going back to the environment that it was entered with. -/
namespace NandLang

abbrev Location := Int

structure Store where
  environment : Table Name Location := {}
  freed : List Name := []
  memory : Table Location Bool := {}
  next : Location := 0
  deriving DecidableEq, Repr

def sortNames (names : List Name) : List Name :=
  names.eraseDups.mergeSort fun a b => a ≤ b

/-- What a sound store never shows: a live name without a cell, or a cell that the counter has yet
to reach. -/
inductive Violation
  | dangling (name : Name) (location : Location)
  | stale (location next : Location)
  deriving DecidableEq, Repr

def Violation.text : Violation → String
  | .dangling x l => s!"I1: '{x}' is bound to location {l} which is not in memory"
  | .stale l next => s!"I2: location {l} is not below next_location {next}"

def Violation.failure (violations : List Violation) : Failure :=
  ⟨String.intercalate "; " (violations.map text), .invariantViolation, none⟩

namespace Store

def boundNames (s : Store) : List Name := sortNames s.environment.keys

def lookup (s : Store) (x : Name) : Option Location := s.environment.get? x

def isFreed (s : Store) (x : Name) : Bool := s.freed.contains x

def read (s : Store) (l : Location) : Option Bool := s.memory.get? l

def values (s : Store) : List (Name × Bool) :=
  s.environment.entries.filterMap fun (x, l) => (s.read l).map (x, ·)

/-- A name that was freed in a block that has been left may come again; it is then live. -/
def declare (s : Store) (x : Name) (l : Location) (v : Bool) (next : Location) : Store :=
  { environment := s.environment.put x l
    freed := s.freed.filter (· ≠ x)
    memory := s.memory.put l v
    next := next }

def write (s : Store) (l : Location) (v : Bool) : Store :=
  { s with memory := s.memory.put l v }

/-- The name stays bound; only its cell goes. -/
def release (s : Store) (x : Name) (l : Location) : Store :=
  { s with freed := if s.isFreed x then s.freed else s.freed ++ [x], memory := s.memory.erase l }

/-- What a block declared is out of scope behind it; all else that it did remains. -/
def withEnvironment (s : Store) (environment : Table Name Location) : Store :=
  { s with environment := environment }

def violations (s : Store) : List Violation :=
  (s.environment.entries.filterMap fun (x, l) =>
    if s.isFreed x || (s.read l).isSome then none else some (.dangling x l)) ++
  (s.memory.keys.filterMap fun l => if s.next ≤ l then some (.stale l s.next) else none)

def sortedBindings (s : Store) : List (Name × Location) :=
  s.environment.entries.mergeSort fun a b => a.1 ≤ b.1

def sortedCells (s : Store) : List (Location × Bool) :=
  s.memory.entries.mergeSort fun a b => a.1 ≤ b.1

def sortedValues (s : Store) : List (Name × Bool) :=
  s.values.mergeSort fun a b => a.1 ≤ b.1

def document (s : Store) : Document :=
  .record [
    ("environment", .record (s.sortedBindings.map fun (x, l) => (x, .int l))),
    ("freed", .list ((sortNames s.freed).map .text)),
    ("memory", .record (s.sortedCells.map fun (l, v) => (toString l, .bool v))),
    ("next_location", .int s.next)]

def shownValue (s : Store) (x : Name) (l : Location) : String :=
  if s.isFreed x then "<freed>"
  else match s.read l with
    | none => "<invalid>"
    | some v => if v then "true" else "false"

def listing (s : Store) : String :=
  String.intercalate "\n" <|
    (s.sortedBindings.map fun (x, l) => s!"{x} @{l} = {s.shownValue x l}") ++
      [s!"next location: {s.next}"]

end Store
end NandLang
