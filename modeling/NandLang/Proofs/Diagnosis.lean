import NandLang.Proofs.Environment

/-! What a checker blames. Every node of a tree stands in a lexical scope; a checker that refuses a
tree tells of the first node, in the order of a walk, that breaks the rule for names in its scope,
and of that node alone. What it was asked before makes no difference. -/
namespace NandLang
namespace Node

/-- All nodes of a tree, each before its parts and with the names in scope where it stands, the
latest first. What the first statement of a sequence declares outside of its blocks is in scope in
the second one; no other declaration reaches out of the node that makes it. -/
def scopedNodes (scope : Scope) : Node → List (Scope × Node)
  | .lit b loc => [(scope, .lit b loc)]
  | .var x loc => [(scope, .var x loc)]
  | .free x loc => [(scope, .free x loc)]
  | .foreign v => [(scope, .foreign v)]
  | .decl x e loc => (scope, .decl x e loc) :: e.scopedNodes scope
  | .assign x e loc => (scope, .assign x e loc) :: e.scopedNodes scope
  | .nand l r loc => (scope, .nand l r loc) :: (l.scopedNodes scope ++ r.scopedNodes scope)
  | .ifThen c b loc => (scope, .ifThen c b loc) :: (c.scopedNodes scope ++ b.scopedNodes scope)
  | .whileDo c b loc => (scope, .whileDo c b loc) :: (c.scopedNodes scope ++ b.scopedNodes scope)
  | .seq a b loc =>
    (scope, .seq a b loc) ::
      (a.scopedNodes scope ++ b.scopedNodes (a.openNames.reverse ++ scope))

/-- The rule for names, as a node itself can break it. -/
inductive Breaks (scope : Scope) (n : Node) : ErrorCode → Name → Prop
  | redeclared {x : Name} (declares : n.declares? = some x) (taken : x ∈ scope) :
      Breaks scope n .redeclared x
  | undeclared {x : Name} (uses : n.use? = some x) (missing : x ∉ scope) :
      Breaks scope n .undeclared x

def breach? (scope : Scope) (n : Node) : Option Diagnostic :=
  match n.declares?, n.use? with
  | some x, _ => if x ∈ scope then some ⟨.redeclared, x, n, n.loc⟩ else none
  | none, some x => if x ∈ scope then none else some ⟨.undeclared, x, n, n.loc⟩
  | none, none => none

def firstBreach? (scope : Scope) (n : Node) : Option Diagnostic :=
  (n.scopedNodes scope).findSome? fun e => e.2.breach? e.1

variable {n e : Node} {scope : Scope} {d : Diagnostic}

theorem map_snd_scopedNodes (scope : Scope) (n : Node) :
    (n.scopedNodes scope).map Prod.snd = n.preorder := by
  induction n generalizing scope <;> simp [scopedNodes, preorder, *]

theorem breach?_of_declares {x : Name} (h : n.declares? = some x) :
    n.breach? scope = if x ∈ scope then some ⟨.redeclared, x, n, n.loc⟩ else none := by
  rw [breach?, h]

theorem breach?_of_uses {x : Name} (h : n.use? = some x) :
    n.breach? scope = if x ∈ scope then none else some ⟨.undeclared, x, n, n.loc⟩ := by
  cases n <;> cases h <;> rfl

theorem breach?_of_breaks {code : ErrorCode} {x : Name} (h : n.Breaks scope code x) :
    n.breach? scope = some ⟨code, x, n, n.loc⟩ := by
  cases h with
  | redeclared declares taken => rw [breach?_of_declares declares, if_pos taken]
  | undeclared uses missing => rw [breach?_of_uses uses, if_neg missing]

theorem breaks_of_breach? (h : n.breach? scope = some d) :
    n.Breaks scope d.code d.name ∧ d.node = n ∧ d.loc = n.loc := by
  unfold breach? at h
  split at h
  · split at h <;> cases h
    exact ⟨.redeclared ‹_› ‹_›, rfl, rfl⟩
  · split at h <;> cases h
    exact ⟨.undeclared ‹_› ‹_›, rfl, rfl⟩
  · cases h

theorem firstBreach?_eq {later : List (Scope × Node)}
    (h : n.scopedNodes scope = (scope, n) :: later) :
    n.firstBreach? scope = (n.breach? scope).or (later.findSome? fun e => e.2.breach? e.1) := by
  rw [firstBreach?, h, List.findSome?_cons]
  cases n.breach? scope <;> rfl

theorem firstBreach?_of_parts {a b : Node} {inner : Scope}
    (h : n.scopedNodes scope = (scope, n) :: (a.scopedNodes scope ++ b.scopedNodes inner))
    (unnamed : n.breach? scope = none) :
    n.firstBreach? scope = (a.firstBreach? scope).or (b.firstBreach? inner) := by
  rw [firstBreach?_eq h, unnamed, Option.none_or, List.findSome?_append]
  rfl

def verdict {α : Type} : Option Diagnostic → α → Except Refusal α
  | none, a => .ok a
  | some d, _ => .error (.violation d)

theorem verdict_bind {α β : Type} {d d' : Option Diagnostic} {a : α} {b : β}
    {f : α → Except Refusal β} (h : f a = verdict d' b) :
    verdict d a >>= f = verdict (d.or d') b := by
  cases d with
  | none => exact h
  | some d => rfl

theorem verdict_map {α β : Type} (d : Option Diagnostic) (a : α) (b : β) :
    (verdict d a >>= fun _ => .ok b) = verdict d b := by
  cases d <;> rfl

theorem Expression.checkExpr_eq (h : e.Expression) (scope : Scope) :
    e.checkExpr scope = verdict (e.firstBreach? scope) () := by
  induction h with
  | lit => rfl
  | var x loc =>
    rw [checkExpr, firstBreach?_eq rfl, breach?_of_uses rfl]
    split <;> rfl
  | nand _ _ loc ihl ihr =>
    rw [firstBreach?_of_parts rfl rfl, checkExpr, ihl]
    exact verdict_bind ihr

theorem Statement.checkStmt_eq (h : n.Statement) (scope : Scope) :
    n.checkStmt scope = verdict (n.firstBreach? scope) (n.openNames.reverse ++ scope) := by
  induction h generalizing scope with
  | decl x value loc =>
    rw [firstBreach?_eq rfl, breach?_of_declares rfl, openNames_decl, value.openNames_eq_nil,
      checkStmt, value.checkExpr_eq, verdict_map]
    split <;> rfl
  | assign x value loc =>
    rw [firstBreach?_eq rfl, breach?_of_uses rfl, openNames_assign, value.openNames_eq_nil,
      checkStmt, value.checkExpr_eq, verdict_map]
    split <;> rfl
  | ifThen cond _ loc ih | whileDo cond _ loc ih =>
    rw [firstBreach?_of_parts rfl rfl, checkStmt, cond.checkExpr_eq, ih, verdict_map]
    exact verdict_bind rfl
  | seq _ _ loc iha ihb =>
    rw [firstBreach?_of_parts rfl rfl, openNames_seq, List.reverse_append, List.append_assoc,
      checkStmt, iha]
    exact verdict_bind (ihb _)
  | free x loc =>
    rw [checkStmt, firstBreach?_eq rfl, breach?_of_uses rfl]
    split <;> rfl

end Node

/-- The diagnostic tells of the first node that breaks the rule for names, of the name in question
and of the place of that node. -/
def Diagnostic.BlamesFirst (d : Diagnostic) (scope : Scope) (n : Node) : Prop :=
  ∃ before here after, n.scopedNodes scope = before ++ (here, d.node) :: after ∧
    (∀ e ∈ before, ∀ code x, ¬e.2.Breaks e.1 code x) ∧ d.node.Breaks here d.code d.name ∧
    d.loc = d.node.loc

namespace Node

variable {n : Node} {scope : Scope} {d : Diagnostic}

theorem not_breaks_of_breach? (h : n.breach? scope = none) (code : ErrorCode) (x : Name) :
    ¬n.Breaks scope code x := by
  intro breaks
  rw [breach?_of_breaks breaks] at h
  cases h

theorem unbroken_of_firstBreach? (h : n.firstBreach? scope = none) :
    ∀ e ∈ n.scopedNodes scope, ∀ code x, ¬e.2.Breaks e.1 code x :=
  fun e he => not_breaks_of_breach? (List.findSome?_eq_none_iff.mp h e he)

theorem blamesFirst_of_firstBreach? (h : n.firstBreach? scope = some d) :
    d.BlamesFirst scope n := by
  obtain ⟨before, ⟨here, blamed⟩, after, hsplit, hblamed, hbefore⟩ :=
    List.findSome?_eq_some_iff.mp h
  obtain ⟨breaks, rfl, hloc⟩ := breaks_of_breach? hblamed
  have hunbroken : ∀ e ∈ before, ∀ code x, ¬e.2.Breaks e.1 code x :=
    fun e he => not_breaks_of_breach? (hbefore e he)
  exact ⟨before, here, after, hsplit, hunbroken, breaks, hloc⟩

end Node

namespace Checker

inductive Call
  | expression (n : Node) (scope : Scope)
  | statement (n : Node) (scope : Scope)
  deriving DecidableEq, Repr

namespace Call

def node : Call → Node
  | .expression n _ | .statement n _ => n

def scope : Call → Scope
  | .expression _ scope | .statement _ scope => scope

def WellFormed : Call → Prop
  | .expression n _ => n.Expression
  | .statement n _ => n.Statement

theorem WellFormed.native {k : Call} (h : k.WellFormed) (v : Foreign) :
    .foreign v ∉ k.node.preorder := by
  cases k with
  | expression => exact Node.Expression.native h v
  | statement => exact Node.Statement.native h v

end Call

def call (c : Checker) : Call → Except Misplaced Bool × Checker
  | .expression n scope =>
    let answer := c.expression n scope
    (answer.result, answer.checker)
  | .statement n scope =>
    let answer := c.statement n scope
    (answer.result.map Option.isSome, answer.checker)

def calls (c : Checker) : List Call → List (Except Misplaced Bool × Checker)
  | [] => []
  | k :: rest => c.call k :: (c.call k).2.calls rest

theorem call_eq (c : Checker) {k : Call} (h : k.WellFormed) :
    c.call k =
      (.ok (k.node.firstBreach? k.scope).isNone, ⟨(k.node.firstBreach? k.scope).toList⟩) := by
  cases k with
  | expression n scope =>
    simp only [call, expression, Node.Expression.checkExpr_eq h, Call.node, Call.scope]
    cases n.firstBreach? scope <;> rfl
  | statement n scope =>
    simp only [call, statement, Node.Statement.checkStmt_eq h, Call.node, Call.scope]
    cases n.firstBreach? scope <;> rfl

theorem calls_eq_map (c : Checker) (calls : List Call) : c.calls calls = calls.map (call {}) := by
  induction calls generalizing c with
  | nil => rfl
  | cons k rest ih =>
    rw [Checker.calls, ih, List.map_cons]
    cases k <;> rfl

end Checker

/-- However a checker was used before, it answers a call on a well-formed tree as a new one does: it
accepts if every node keeps to the rule for names in its scope, and then has nothing to tell; and it
refuses otherwise, and then tells of the first node that does not, in the order of a walk, and of
nothing else. -/
theorem diagnostics_blame_first_breach (c : Checker) (calls : List Checker.Call)
    (wellFormed : ∀ k ∈ calls, k.WellFormed) :
    c.calls calls = calls.map (Checker.call {}) ∧
    ∀ k ∈ calls, (k.node.scopedNodes k.scope).map Prod.snd = k.node.walk.nodes ∧
      ((∃ after, Checker.call {} k = (.ok true, after) ∧ after.diagnostics = [] ∧
        ∀ e ∈ k.node.scopedNodes k.scope, ∀ code x, ¬e.2.Breaks e.1 code x) ∨
      ∃ after d, Checker.call {} k = (.ok false, after) ∧ after.diagnostics = [d] ∧
        d.BlamesFirst k.scope k.node) := by
  refine ⟨c.calls_eq_map calls, fun k hk => ⟨?_, ?_⟩⟩
  · rw [Node.map_snd_scopedNodes, Node.walk_of_native (wellFormed k hk).native]
  · rw [Checker.call_eq {} (wellFormed k hk)]
    cases h : k.node.firstBreach? k.scope with
    | none => exact .inl ⟨_, rfl, rfl, Node.unbroken_of_firstBreach? h⟩
    | some d => exact .inr ⟨_, d, rfl, rfl, Node.blamesFirst_of_firstBreach? h⟩

def Node.usedBehindBlock : Node :=
  .seq (.ifThen (.lit true none) (.decl "a" (.lit false none) none) none)
    (.decl "b" (.nand (.var "a" none) (.var "b" none) none) none) none

/-- Where the name of the block is new, its use behind the block is to blame; where it is not, the
block is. In between, the checker has nothing to tell. -/
theorem usedBehindBlock_blamed :
    let calls : List Checker.Call := [.statement Node.usedBehindBlock [],
      .expression (.var "b" none) ["b"], .statement Node.usedBehindBlock ["a"]]
    let used : Diagnostic := ⟨.undeclared, "a", .var "a" none, none⟩
    let declared : Diagnostic := ⟨.redeclared, "a", .decl "a" (.lit false none) none, none⟩
    (Checker.calls {} calls).map (·.2.diagnostics) = [[used], [], [declared]] ∧
    (∀ k ∈ calls, k.WellFormed) ∧ used.BlamesFirst [] Node.usedBehindBlock ∧
    declared.BlamesFirst ["a"] Node.usedBehindBlock := by
  intro calls used declared
  have tree : Node.usedBehindBlock.Statement :=
    .seq (.ifThen (.lit _ _) (.decl _ (.lit _ _) _) _)
      (.decl _ (.nand (.var _ _) (.var _ _) _) _) _
  have wellFormed : ∀ k ∈ calls, k.WellFormed := by
    simpa [calls, Checker.Call.WellFormed, tree] using Node.Expression.var "b" none
  obtain ⟨-, told⟩ := diagnostics_blame_first_breach {} calls wellFormed
  refine ⟨rfl, wellFormed, ?_, ?_⟩
  · obtain ⟨-, ⟨_, accepted, -⟩ | ⟨_, _, refused, diagnostics, blames⟩⟩ :=
      told (.statement Node.usedBehindBlock []) (by simp [calls])
    · cases accepted
    · cases refused
      cases diagnostics
      exact blames
  · obtain ⟨-, ⟨_, accepted, -⟩ | ⟨_, _, refused, diagnostics, blames⟩⟩ :=
      told (.statement Node.usedBehindBlock ["a"]) (by simp [calls])
    · cases accepted
    · cases refused
      cases diagnostics
      exact blames

end NandLang
