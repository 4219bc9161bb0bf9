import NandLang.Store

/-! Where a declaration puts its cell. `bump` trusts the counter; `maxScan` looks for the greatest
location that is still bound or stored. -/
namespace NandLang

inductive Allocator
  | bump
  | maxScan
  deriving DecidableEq, Repr

def freshLocation : List Location → Location
  | [] => 0
  | l :: rest => rest.foldl max l + 1

namespace Allocator

def all : List Allocator := [.bump, .maxScan]

def name : Allocator → String
  | .bump => "bump"
  | .maxScan => "max-scan"

def ofName? (s : String) : Option Allocator := all.find? (·.name == s)

def choices : String :=
  "[" ++ String.intercalate ", " (all.map fun a => Text.quoted a.name) ++ "]"

def unknown (s : String) : String :=
  s!"unknown allocator {Text.quoted s}; choose from {choices}"

def allocate (a : Allocator) (s : Store) : Location × Location :=
  let l := match a with
    | .bump => s.next
    | .maxScan => freshLocation (s.memory.keys ++ s.environment.entries.map (·.2))
  (l, l + 1)

end Allocator
end NandLang
