import NandLang.Node.Walk
import NandLang.Scope

/-! Two properties that a well-scoped tree has, each stated apart from the checker: it is closed,
and it declares no name that is in scope already. -/
namespace NandLang.Node

def usesIn (n : Node) (scope : Scope) : Except Misplaced Bool :=
  n.identifiers.map fun names => names.all fun x => x ∈ scope

/-- Whether a part of a statement is closed: an expression by the names it uses, anything else by
its own rule. -/
def partClosed (scope : Scope) (n : Node) (after : Except Misplaced (Option Scope)) :
    Except Misplaced Bool :=
  if n.isExpr then n.usesIn scope else after.map Option.isSome

/-- The scope behind a statement, none if a name is used out of scope. Declaring a name again is
allowed. -/
def closedScope (scope : Scope) : Node → Except Misplaced (Option Scope)
  | .seq a b _ => do
    match ← a.closedScope scope with
    | none => .ok none
    | some inner => b.closedScope inner
  | .decl x e _ => do
    let closed ← partClosed scope e (e.closedScope scope)
    .ok (if closed then some (scope.insert x) else none)
  | .assign x e _ =>
    if x ∈ scope then do
      let closed ← partClosed scope e (e.closedScope scope)
      .ok (if closed then some scope else none)
    else .ok none
  | .ifThen c b _ | .whileDo c b _ => do
    let closed ← partClosed scope c (c.closedScope scope)
    if closed then
      let inner ← b.closedScope scope
      .ok (inner.map fun _ => scope)
    else .ok none
  | .free x _ => .ok (if x ∈ scope then some scope else none)
  | n => .error ⟨.statement, n⟩

def isClosed (n : Node) (scope : Scope) : Except Misplaced Bool :=
  partClosed scope n (n.closedScope scope)

/-- The scope behind a statement, none if a name is declared again. What names are used for does
not matter. -/
def uniqueScope (scope : Scope) : Node → Except Misplaced (Option Scope)
  | .seq a b _ => do
    match ← a.uniqueScope scope with
    | none => .ok none
    | some inner => b.uniqueScope inner
  | .decl x _ _ => .ok (if x ∈ scope then none else some (x :: scope))
  | .ifThen _ b _ | .whileDo _ b _ => do
    let inner ← b.uniqueScope scope
    .ok (inner.map fun _ => scope)
  | .assign .. | .free .. => .ok (some scope)
  | n => .error ⟨.statement, n⟩

def isUnique (n : Node) (scope : Scope) : Except Misplaced Bool :=
  (n.uniqueScope scope).map Option.isSome

end NandLang.Node
