import NandLang.Node

/-! Traversal in pre-order with a stack of the nodes still to visit. A traversal ends at the first
value that is no node. -/
namespace NandLang.Node

structure Visit where
  nodes : List Node
  stuck : Option Foreign
  deriving DecidableEq, Repr

def weight : Node → Nat
  | .lit .. | .var .. | .free .. | .foreign _ => 1
  | .decl _ e _ | .assign _ e _ => e.weight + 1
  | .nand a b _ | .ifThen a b _ | .whileDo a b _ | .seq a b _ => a.weight + b.weight + 1

def stackWeight (stack : List Node) : Nat := stack.foldr (fun n total => n.weight + total) 0

theorem stackWeight_parts (n : Node) (rest : List Node) :
    stackWeight (n.parts ++ rest) < stackWeight (n :: rest) := by
  cases n <;> simp [stackWeight, weight, parts] <;> omega

/-- Visits the node on top of the stack, then puts its parts on the stack in its place. -/
def walkStack : List Node → Visit
  | [] => ⟨[], none⟩
  | .foreign v :: _ => ⟨[.foreign v], some v⟩
  | n :: rest =>
    let later := walkStack (n.parts ++ rest)
    ⟨n :: later.nodes, later.stuck⟩
termination_by stack => stackWeight stack
decreasing_by exact stackWeight_parts _ _

def walk (n : Node) : Visit := walkStack [n]

def foreign? : Node → Option Foreign
  | .lit .. | .var .. | .free .. => none
  | .decl _ e _ | .assign _ e _ => e.foreign?
  | .nand a b _ | .ifThen a b _ | .whileDo a b _ | .seq a b _ => a.foreign? <|> b.foreign?
  | .foreign v => some v

def Visit.complete (v : Visit) : Except Misplaced (List Node) :=
  match v.stuck with
  | none => .ok v.nodes
  | some f => .error ⟨.node, .foreign f⟩

/-- The name that a node itself uses, which has to be declared before. -/
def use? : Node → Option Name
  | .var x _ | .assign x _ _ | .free x _ => some x
  | _ => none

def declares? : Node → Option Name
  | .decl x _ _ => some x
  | _ => none

def identifiers (n : Node) : Except Misplaced (List Name) :=
  n.walk.complete.map (·.filterMap use?)

def declarations (n : Node) : Except Misplaced (List Name) :=
  n.walk.complete.map (·.filterMap declares?)

def size (n : Node) : Except Misplaced Nat :=
  n.walk.complete.map List.length

end NandLang.Node
