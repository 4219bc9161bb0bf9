import NandLang.Proofs.Tree
import NandLang.Scope.Checker
import NandLang.Scope.Closed

/-! The checker against the two properties stated apart from it. On well-formed trees it accepts
what is closed and declares nothing twice, and then all three agree on the scope behind a
statement. -/
namespace NandLang
namespace Node

variable {e n : Node} {scope : Scope}

theorem Expression.check_cases (h : e.Expression) (scope : Scope) :
    (e.checkExpr scope = .ok () ∧ ∀ x ∈ e.preorder.filterMap use?, x ∈ scope) ∨
      ∃ d, e.checkExpr scope = .error (.violation d) ∧
        ∃ x ∈ e.preorder.filterMap use?, x ∉ scope := by
  induction h with
  | lit => exact .inl ⟨rfl, by simp [preorder, use?]⟩
  | var x loc =>
    by_cases hx : x ∈ scope
    · exact .inl ⟨if_pos hx, by simpa [preorder, use?] using hx⟩
    · exact .inr ⟨_, if_neg hx, x, by simp [preorder, use?], hx⟩
  | @nand l r _ _ loc ihl ihr =>
    have huses : (Node.nand l r loc).preorder.filterMap use? =
        l.preorder.filterMap use? ++ r.preorder.filterMap use? := by
      rw [preorder, List.filterMap_cons_none rfl, List.filterMap_append]
    rw [huses]
    obtain ⟨hl, hin⟩ | ⟨d, hl, x, hx, hout⟩ := ihl
    · obtain ⟨hr, hin'⟩ | ⟨d, hr, x, hx, hout⟩ := ihr
      · refine .inl ⟨?_, ?_⟩
        · rw [checkExpr, hl]
          exact hr
        · intro x hx
          exact (List.mem_append.mp hx).elim (hin x) (hin' x)
      · refine .inr ⟨d, ?_, x, List.mem_append_right _ hx, hout⟩
        rw [checkExpr, hl]
        exact hr
    · refine .inr ⟨d, ?_, x, List.mem_append_left _ hx, hout⟩
      rw [checkExpr, hl]
      rfl

theorem Expression.closed_cases (h : e.Expression) (scope : Scope) :
    (e.checkExpr scope = .ok () ∧ ∀ after, partClosed scope e after = .ok true) ∨
      ∃ d, e.checkExpr scope = .error (.violation d) ∧
        ∀ after, partClosed scope e after = .ok false := by
  have hclosed : ∀ after, partClosed scope e after =
      .ok ((e.preorder.filterMap use?).all fun x => x ∈ scope) := by
    intro after
    rw [partClosed, if_pos h.isExpr, usesIn, h.identifiers]
    rfl
  simp only [hclosed]
  obtain ⟨hcheck, hin⟩ | ⟨d, hcheck, x, hx, hout⟩ := h.check_cases scope
  · refine .inl ⟨hcheck, fun _ => congrArg _ ?_⟩
    simpa only [List.all_eq_true, decide_eq_true_eq] using hin
  · refine .inr ⟨d, hcheck, fun _ => congrArg _ ?_⟩
    rw [List.all_eq_false]
    exact ⟨x, hx, by simpa using hout⟩

theorem Expression.partClosed_ok (h : e.Expression) (scope : Scope)
    (after : Except Misplaced (Option Scope)) :
    ∃ closed, partClosed scope e after = .ok closed := by
  obtain ⟨-, hclosed⟩ | ⟨-, -, hclosed⟩ := h.closed_cases scope
  · exact ⟨true, hclosed after⟩
  · exact ⟨false, hclosed after⟩

/-! Neither property finds a misplaced node in a well-formed statement. -/

theorem Statement.closedScope_ok (h : n.Statement) (scope : Scope) :
    ∃ after, n.closedScope scope = .ok after := by
  induction h generalizing scope with
  | decl x value loc =>
    obtain ⟨closed, hclosed⟩ := value.partClosed_ok scope _
    rw [closedScope, hclosed]
    exact ⟨_, rfl⟩
  | assign x value loc =>
    obtain ⟨closed, hclosed⟩ := value.partClosed_ok scope _
    rw [closedScope, hclosed]
    split <;> exact ⟨_, rfl⟩
  | ifThen cond _ loc ih | whileDo cond _ loc ih =>
    obtain ⟨closed, hclosed⟩ := cond.partClosed_ok scope _
    obtain ⟨inner, hinner⟩ := ih scope
    rw [closedScope, hclosed, hinner]
    cases closed <;> exact ⟨_, rfl⟩
  | seq _ _ loc iha ihb =>
    obtain ⟨inner, hinner⟩ := iha scope
    rw [closedScope, hinner]
    cases inner with
    | none => exact ⟨_, rfl⟩
    | some inner => exact ihb inner
  | free x loc => exact ⟨_, rfl⟩

theorem Statement.uniqueScope_ok (h : n.Statement) (scope : Scope) :
    ∃ after, n.uniqueScope scope = .ok after := by
  induction h generalizing scope with
  | decl | assign | free => exact ⟨_, rfl⟩
  | ifThen cond _ loc ih | whileDo cond _ loc ih =>
    obtain ⟨inner, hinner⟩ := ih scope
    rw [uniqueScope, hinner]
    exact ⟨_, rfl⟩
  | seq _ _ loc iha ihb =>
    obtain ⟨inner, hinner⟩ := iha scope
    rw [uniqueScope, hinner]
    cases inner with
    | none => exact ⟨_, rfl⟩
    | some inner => exact ihb inner

/-- Either the three agree on the scope behind a statement, or the checker refuses it for breaking a
rule and one of the two properties fails. -/
theorem Statement.check_cases (h : n.Statement) (scope : Scope) :
    (∃ after, n.checkStmt scope = .ok after ∧ n.closedScope scope = .ok (some after) ∧
      n.uniqueScope scope = .ok (some after)) ∨
    ∃ d, n.checkStmt scope = .error (.violation d) ∧
      (n.closedScope scope = .ok none ∨ n.uniqueScope scope = .ok none) := by
  induction h generalizing scope with
  | decl x value loc =>
    by_cases hx : x ∈ scope
    · refine .inr ⟨_, if_pos hx, .inr ?_⟩
      rw [uniqueScope, if_pos hx]
    · rw [checkStmt, closedScope, uniqueScope, if_neg hx, if_neg hx]
      obtain ⟨hcheck, hclosed⟩ | ⟨d, hcheck, hclosed⟩ := value.closed_cases scope
      · rw [hcheck, hclosed]
        refine .inl ⟨x :: scope, rfl, ?_, rfl⟩
        rw [← List.insert_of_not_mem hx]
        rfl
      · rw [hcheck, hclosed]
        exact .inr ⟨d, rfl, .inl rfl⟩
  | assign x value loc =>
    by_cases hx : x ∈ scope
    · rw [checkStmt, closedScope, if_pos hx, if_pos hx]
      obtain ⟨hcheck, hclosed⟩ | ⟨d, hcheck, hclosed⟩ := value.closed_cases scope
      · rw [hcheck, hclosed]
        exact .inl ⟨scope, rfl, rfl, rfl⟩
      · rw [hcheck, hclosed]
        exact .inr ⟨d, rfl, .inl rfl⟩
    · refine .inr ⟨_, if_neg hx, .inl ?_⟩
      rw [closedScope, if_neg hx]
  | ifThen cond _ loc ih | whileDo cond _ loc ih =>
    rw [checkStmt, closedScope, uniqueScope]
    obtain ⟨hcheck, hclosed⟩ | ⟨d, hcheck, hclosed⟩ := cond.closed_cases scope
    · rw [hcheck, hclosed]
      obtain ⟨inner, hbody, hinner, hinner'⟩ | ⟨d, hbody, hinner⟩ := ih scope
      · rw [hbody, hinner, hinner']
        exact .inl ⟨scope, rfl, rfl, rfl⟩
      · rw [hbody]
        refine .inr ⟨d, rfl, hinner.imp ?_ ?_⟩
        · intro hinner
          rw [hinner]
          rfl
        · intro hinner
          rw [hinner]
          rfl
    · rw [hcheck, hclosed]
      exact .inr ⟨d, rfl, .inl rfl⟩
  | @seq a b _ second loc iha ihb =>
    rw [checkStmt, closedScope, uniqueScope]
    obtain ⟨inner, hfirst, hinner, hinner'⟩ | ⟨d, hfirst, hinner⟩ := iha scope
    · rw [hfirst, hinner, hinner']
      exact ihb inner
    · rw [hfirst]
      refine .inr ⟨d, rfl, hinner.imp ?_ ?_⟩
      · intro hinner
        rw [hinner]
        rfl
      · intro hinner
        rw [hinner]
        rfl
  | free x loc =>
    by_cases hx : x ∈ scope
    · refine .inl ⟨scope, if_pos hx, ?_, rfl⟩
      rw [closedScope, if_pos hx]
    · refine .inr ⟨_, if_neg hx, .inl ?_⟩
      rw [closedScope, if_neg hx]

end Node

open Node in
/-- The checker accepts a well-formed statement exactly if it is closed and declares no name twice,
and the two properties then foretell the same scope as the checker. It accepts a well-formed
expression exactly if that is closed. -/
theorem accepted_iff_closed_and_unique (c : Checker) (scope : Scope) :
    (∀ n : Node, n.Statement → ∃ answer closed unique,
      (c.statement n scope).result = .ok answer ∧ n.isClosed scope = .ok closed ∧
      n.isUnique scope = .ok unique ∧ (answer.isSome = true ↔ closed = true ∧ unique = true) ∧
      ∀ after, answer = some after →
        n.closedScope scope = .ok (some after) ∧ n.uniqueScope scope = .ok (some after)) ∧
    ∀ e : Node, e.Expression → ∃ accepted,
      (c.expression e scope).result = .ok accepted ∧ e.isClosed scope = .ok accepted := by
  refine ⟨fun n h => ?_, fun e h => ?_⟩
  · obtain ⟨closed, hclosed⟩ := h.closedScope_ok scope
    obtain ⟨unique, hunique⟩ := h.uniqueScope_ok scope
    rw [Checker.statement, isClosed, partClosed, h.isExpr_eq_false, isUnique, hclosed, hunique]
    obtain ⟨after, hcheck, hafter, hafter'⟩ | ⟨d, hcheck, hnone⟩ := h.check_cases scope
    · cases hclosed.symm.trans hafter
      cases hunique.symm.trans hafter'
      rw [hcheck]
      refine ⟨some after, true, true, rfl, rfl, rfl, by simp, ?_⟩
      rintro _ ⟨⟩
      exact ⟨rfl, rfl⟩
    · rw [hcheck]
      refine ⟨none, closed.isSome, unique.isSome, rfl, rfl, rfl, ?_, nofun⟩
      have hfails : closed = none ∨ unique = none := by
        simpa only [hclosed, hunique, Except.ok.injEq] using hnone
      rcases hfails with rfl | rfl <;> simp
  · rw [Checker.expression, isClosed]
    obtain ⟨hcheck, hclosed⟩ | ⟨d, hcheck, hclosed⟩ := h.closed_cases scope
    · rw [hcheck]
      exact ⟨true, rfl, hclosed _⟩
    · rw [hcheck]
      exact ⟨false, rfl, hclosed _⟩

def Node.declaredInBlock : Node :=
  .seq (.ifThen (.lit true none) (.decl "a" (.lit false none) none) none)
    (.decl "a" (.nand (.lit true none) (.lit true none) none) none) none

/-- What the block declares is gone behind it, for the checker and for both properties. -/
theorem declaredInBlock_closed_and_unique :
    Node.declaredInBlock.Statement ∧
    (Checker.statement {} Node.declaredInBlock []).result = .ok (some ["a"]) ∧
    Node.declaredInBlock.closedScope [] = .ok (some ["a"]) ∧
    Node.declaredInBlock.uniqueScope [] = .ok (some ["a"]) ∧
    (Checker.expression {} (.var "a" none) []).result = (Node.var "a" none).isClosed [] := by
  have tree : Node.declaredInBlock.Statement :=
    .seq (.ifThen (.lit _ _) (.decl _ (.lit _ _) _) _)
      (.decl _ (.nand (.lit _ _) (.lit _ _) _) _) _
  have accepted : (Checker.statement {} Node.declaredInBlock []).result = .ok (some ["a"]) := rfl
  obtain ⟨statements, expressions⟩ := accepted_iff_closed_and_unique {} []
  obtain ⟨answer, _, _, hanswer, -, -, -, hscope⟩ := statements _ tree
  obtain ⟨_, hchecked, hclosed⟩ := expressions _ (.var "a" none)
  obtain ⟨closed, unique⟩ := hscope ["a"] (Except.ok.inj (hanswer.symm.trans accepted))
  exact ⟨tree, accepted, closed, unique, hchecked.trans hclosed.symm⟩

end NandLang
