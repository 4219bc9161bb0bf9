/-! Tables that keep the order in which their keys came in. Writing to a key that is there leaves it
in its place; a key that was erased and comes again goes to the end. -/
namespace NandLang

structure Table (κ : Type) (α : Type) where
  entries : List (κ × α) := []
  deriving DecidableEq, Repr

namespace Table

variable {κ α : Type} [DecidableEq κ]

def keys (t : Table κ α) : List κ := t.entries.map (·.1)

def get? (t : Table κ α) (k : κ) : Option α := t.entries.lookup k

def contains (t : Table κ α) (k : κ) : Bool := (t.get? k).isSome

def put (t : Table κ α) (k : κ) (a : α) : Table κ α :=
  if t.contains k then ⟨t.entries.map fun e => if e.1 = k then (k, a) else e⟩
  else ⟨t.entries ++ [(k, a)]⟩

def erase (t : Table κ α) (k : κ) : Table κ α :=
  ⟨t.entries.filter fun e => e.1 ≠ k⟩

def ofList (entries : List (κ × α)) : Table κ α :=
  entries.foldl (fun t e => t.put e.1 e.2) {}

end Table
end NandLang
