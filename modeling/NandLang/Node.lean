import NandLang.Loc

/-! Program trees of the NAND language: expressions over booleans and the statements that declare,
assign, free and sequence variables. A tree may be ill-formed: any node, or a value that is no node
at all, can sit in any position, and the checker and the machine say what they make of it. -/
namespace NandLang

abbrev Name := String

/-- A value that is no node. -/
inductive Foreign
  | text (value : String)
  | int (value : Int)
  | bool (value : Bool)
  | null
  deriving DecidableEq, Repr

namespace Foreign

def describe : Foreign → String
  | .text s => Text.quoted s
  | .int n => toString n
  | .bool b => if b then "True" else "False"
  | .null => "None"

/-- Truth values count as the numbers one and zero. -/
def numeric : Foreign → Foreign
  | .bool b => .int (if b then 1 else 0)
  | v => v

def same (a b : Foreign) : Bool := a.numeric == b.numeric

end Foreign

inductive Node
  | lit (value : Bool) (loc : Option Loc)
  | var (name : Name) (loc : Option Loc)
  | nand (left right : Node) (loc : Option Loc)
  | decl (name : Name) (value : Node) (loc : Option Loc)
  | assign (target : Name) (value : Node) (loc : Option Loc)
  | ifThen (cond body : Node) (loc : Option Loc)
  | whileDo (cond body : Node) (loc : Option Loc)
  | seq (first second : Node) (loc : Option Loc)
  | free (name : Name) (loc : Option Loc)
  | foreign (value : Foreign)
  deriving DecidableEq, Repr

namespace Node

inductive Role
  | node
  | expression
  | statement
  deriving DecidableEq, Repr

def loc : Node → Option Loc
  | .lit _ l | .var _ l | .free _ l => l
  | .nand _ _ l | .decl _ _ l | .assign _ _ l | .ifThen _ _ l | .whileDo _ _ l | .seq _ _ l => l
  | .foreign _ => none

def isExpr : Node → Bool
  | .lit .. | .var .. | .nand .. => true
  | _ => false

def isStmt : Node → Bool
  | .decl .. | .assign .. | .ifThen .. | .whileDo .. | .seq .. | .free .. => true
  | _ => false

def kind : Node → String
  | .lit true _ => "TrueLit"
  | .lit false _ => "FalseLit"
  | .var .. => "Ident"
  | .nand .. => "Nand"
  | .decl .. => "Decl"
  | .assign .. => "Assign"
  | .ifThen .. => "If"
  | .whileDo .. => "While"
  | .seq .. => "Seq"
  | .free .. => "Free"
  | .foreign _ => ""

def describe : Node → String
  | .lit b _ => if b then "TrueLit()" else "FalseLit()"
  | .var x _ => s!"Ident(name={Text.quoted x})"
  | .nand l r _ => s!"Nand(left={l.describe}, right={r.describe})"
  | .decl x e _ => s!"Decl(name={Text.quoted x}, value={e.describe})"
  | .assign x e _ => s!"Assign(target={Text.quoted x}, value={e.describe})"
  | .ifThen c b _ => s!"If(cond={c.describe}, body={b.describe})"
  | .whileDo c b _ => s!"While(cond={c.describe}, body={b.describe})"
  | .seq a b _ => s!"Seq(first={a.describe}, second={b.describe})"
  | .free x _ => s!"Free(name={Text.quoted x})"
  | .foreign v => v.describe

def text : Node → String
  | .var x _ => x
  | .foreign (.text s) => s
  | n => n.describe

/-- Equality of trees; locations do not count. -/
def same : Node → Node → Bool
  | .lit a _, .lit b _ => a == b
  | .var x _, .var y _ => x == y
  | .nand a b _, .nand c d _ => a.same c && b.same d
  | .decl x a _, .decl y b _ => x == y && a.same b
  | .assign x a _, .assign y b _ => x == y && a.same b
  | .ifThen a b _, .ifThen c d _ => a.same c && b.same d
  | .whileDo a b _, .whileDo c d _ => a.same c && b.same d
  | .seq a b _, .seq c d _ => a.same c && b.same d
  | .free x _, .free y _ => x == y
  | .foreign v, .foreign w => v.same w
  | _, _ => false

/-- Statements in a row, nested to the right; every node made here carries the location. -/
def sequence (loc : Option Loc) : Node → List Node → Node
  | first, [] => first
  | first, next :: rest => .seq first (sequence loc next rest) loc

end Node

structure Misplaced where
  role : Node.Role
  found : Node
  deriving DecidableEq, Repr

def Misplaced.message (m : Misplaced) : String :=
  let wanted := match m.role with
    | .node => "a FormalLang node"
    | .expression => "an expression"
    | .statement => "a statement"
  s!"not {wanted}: {m.found.describe}"

namespace Node

def parts : Node → List Node
  | .lit .. | .var .. | .free .. | .foreign _ => []
  | .nand l r _ => [l, r]
  | .decl _ e _ | .assign _ e _ => [e]
  | .ifThen c b _ | .whileDo c b _ => [c, b]
  | .seq a b _ => [a, b]

def children : Node → Except Misplaced (List Node)
  | .foreign v => .error ⟨.node, .foreign v⟩
  | n => .ok n.parts

end Node
end NandLang
