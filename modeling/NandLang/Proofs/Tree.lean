import NandLang.Proofs.Walk

/-! Well-formed trees: expressions and statements each stand where they belong, and no value is
foreign. -/
namespace NandLang.Node

inductive Expression : Node → Prop
  | lit (value : Bool) (loc : Option Loc) : Expression (.lit value loc)
  | var (x : Name) (loc : Option Loc) : Expression (.var x loc)
  | nand {l r : Node} (left : Expression l) (right : Expression r) (loc : Option Loc) :
      Expression (.nand l r loc)

inductive Statement : Node → Prop
  | decl (x : Name) {e : Node} (value : Expression e) (loc : Option Loc) :
      Statement (.decl x e loc)
  | assign (x : Name) {e : Node} (value : Expression e) (loc : Option Loc) :
      Statement (.assign x e loc)
  | ifThen {c b : Node} (cond : Expression c) (body : Statement b) (loc : Option Loc) :
      Statement (.ifThen c b loc)
  | whileDo {c b : Node} (cond : Expression c) (body : Statement b) (loc : Option Loc) :
      Statement (.whileDo c b loc)
  | seq {a b : Node} (first : Statement a) (second : Statement b) (loc : Option Loc) :
      Statement (.seq a b loc)
  | free (x : Name) (loc : Option Loc) : Statement (.free x loc)

def names : Node → List Name
  | .lit .. | .foreign _ => []
  | .var x _ | .free x _ => [x]
  | .decl x e _ | .assign x e _ => x :: e.names
  | .nand a b _ | .ifThen a b _ | .whileDo a b _ | .seq a b _ => a.names ++ b.names

variable {n : Node}

theorem Expression.isExpr (h : n.Expression) : n.isExpr = true := by
  cases h <;> rfl

theorem Statement.isExpr_eq_false (h : n.Statement) : n.isExpr = false := by
  cases h <;> rfl

theorem Expression.foreign?_eq_none (h : n.Expression) : n.foreign? = none := by
  induction h with
  | lit | var => rfl
  | nand _ _ _ ihl ihr =>
    rw [foreign?, ihl, ihr]
    rfl

theorem Statement.foreign?_eq_none (h : n.Statement) : n.foreign? = none := by
  induction h with
  | decl _ value | assign _ value => exact value.foreign?_eq_none
  | ifThen cond _ _ ih | whileDo cond _ _ ih =>
    rw [foreign?, cond.foreign?_eq_none, ih]
    rfl
  | seq _ _ _ iha ihb =>
    rw [foreign?, iha, ihb]
    rfl
  | free => rfl

theorem Expression.native (h : n.Expression) (v : Foreign) : .foreign v ∉ n.preorder := by
  induction h with
  | lit | var => simp [preorder]
  | nand _ _ _ ihl ihr => simp [preorder, ihl, ihr]

theorem Statement.native (h : n.Statement) (v : Foreign) : .foreign v ∉ n.preorder := by
  induction h with
  | decl _ value | assign _ value => simp [preorder, value.native]
  | ifThen cond _ _ ih | whileDo cond _ _ ih => simp [preorder, cond.native, ih]
  | seq _ _ _ iha ihb => simp [preorder, iha, ihb]
  | free => simp [preorder]

theorem Expression.identifiers (h : n.Expression) :
    n.identifiers = .ok (n.preorder.filterMap use?) :=
  identifiers_of_native h.native

end NandLang.Node
