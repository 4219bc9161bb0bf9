import NandLang.Event
import NandLang.Scope

/-! A checker that remembers why it refused the last tree. -/
namespace NandLang

structure Checker where
  diagnostics : List Diagnostic := []
  deriving DecidableEq, Repr

namespace Checker

structure Answer (α : Type) where
  result : Except Misplaced α
  checker : Checker
  events : List Event := []

/-- Each check starts without diagnostics, so a checker that meets a misplaced node has none. -/
def expression (_ : Checker) (n : Node) (scope : Scope) : Answer Bool :=
  match n.checkExpr scope with
  | .ok () => ⟨.ok true, ⟨[]⟩, []⟩
  | .error (.violation d) => ⟨.ok false, ⟨[d]⟩, []⟩
  | .error (.misplaced m) => ⟨.error m, ⟨[]⟩, []⟩

def statement (_ : Checker) (n : Node) (scope : Scope) : Answer (Option Scope) :=
  match n.checkStmt scope with
  | .ok after => ⟨.ok (some after), ⟨[]⟩, []⟩
  | .error (.violation d) => ⟨.ok none, ⟨[d]⟩, [.refused d]⟩
  | .error (.misplaced m) => ⟨.error m, ⟨[]⟩, []⟩

end Checker
end NandLang
