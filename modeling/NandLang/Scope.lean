import NandLang.Diagnostic
import NandLang.Store

/-! Scope checking. A tree is checked against the names in scope before it and yields those in scope
behind it; the first rule that is broken ends the check. -/
namespace NandLang

abbrev Scope := List Name

inductive Refusal
  | violation (diagnostic : Diagnostic)
  | misplaced (misplaced : Misplaced)
  deriving DecidableEq, Repr

namespace Node

def checkExpr (scope : Scope) : Node → Except Refusal Unit
  | .lit .. => .ok ()
  | .nand l r _ => do
    l.checkExpr scope
    r.checkExpr scope
  | .var x loc =>
    if x ∈ scope then .ok () else .error (.violation ⟨.undeclared, x, .var x loc, loc⟩)
  | n => .error (.misplaced ⟨.expression, n⟩)

/-- What a block declares is not in scope behind it. Freeing a name leaves it in scope, since
whether a conditional `free` ran cannot be known here. -/
def checkStmt (scope : Scope) : Node → Except Refusal Scope
  | .seq a b _ => do
    let inner ← a.checkStmt scope
    b.checkStmt inner
  | .decl x e loc =>
    if x ∈ scope then .error (.violation ⟨.redeclared, x, .decl x e loc, loc⟩)
    else do
      e.checkExpr scope
      .ok (x :: scope)
  | .assign x e loc =>
    if x ∈ scope then do
      e.checkExpr scope
      .ok scope
    else .error (.violation ⟨.undeclared, x, .assign x e loc, loc⟩)
  | .ifThen c b _ | .whileDo c b _ => do
    c.checkExpr scope
    let _ ← b.checkStmt scope
    .ok scope
  | .free x loc =>
    if x ∈ scope then .ok scope else .error (.violation ⟨.undeclared, x, .free x loc, loc⟩)
  | n => .error (.misplaced ⟨.statement, n⟩)

end Node
end NandLang
