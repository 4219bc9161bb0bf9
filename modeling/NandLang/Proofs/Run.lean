import NandLang.Machine.Interpreter
import NandLang.Proofs.Execution
import NandLang.Scope.Checker

/-! A run, taken apart: the check of the program, and what is reported of its execution. -/
namespace NandLang

def Machine.report (m : Machine) : Except Stop Store × Progress → Except Stop RunResult
  | (.ok s, p) => .ok (.completed p.steps s)
  | (.error (.fault f), p) => .ok (.faulted p.steps f)
  | (.error (.exhausted s), _) => .ok (.exhausted (m.limit.getD 0) s)
  | (.error e, _) => .error e

theorem Checker.accepts_iff {c : Checker} {n : Node} {scope after : Scope} :
    (c.statement n scope).result = .ok (some after) ↔ n.checkStmt scope = .ok after := by
  unfold Checker.statement
  rcases n.checkStmt scope with (d | m) | after' <;> simp

namespace Interpreter

variable {i j : Interpreter} {fuel fuel' : Nat} {program : Node}

theorem exec_of_result {n : Node} {s : Store} {r : Except Stop Store}
    (h : (i.exec fuel n s).result = r) :
    i.machine.exec fuel n s { steps := i.steps } =
      (r, (i.machine.exec fuel n s { steps := i.steps }).2) :=
  Prod.ext h rfl

theorem run_of_misplaced {m : Misplaced} (h : program.checkStmt [] = .error (.misplaced m)) :
    (i.run fuel program).result = .error (.misplaced m) := by
  unfold run
  rw [h]

theorem run_of_violation {d : Diagnostic} (h : program.checkStmt [] = .error (.violation d)) :
    (i.run fuel program).result = .ok (.rejected d) := by
  unfold run
  rw [h]

theorem run_of_accepted {scope : Scope} (h : program.checkStmt [] = .ok scope) :
    (i.run fuel program).result =
      i.machine.report (i.machine.exec fuel program {} {}) := by
  unfold run exec
  rw [h]
  rcases i.machine.exec fuel program {} {} with ⟨(f | m | vs | s | _) | s, p⟩ <;> rfl

theorem run_relates {P : Except Stop RunResult → Except Stop RunResult → Prop}
    (misplaced : ∀ m, P (.error (.misplaced m)) (.error (.misplaced m)))
    (rejected : ∀ d, P (.ok (.rejected d)) (.ok (.rejected d)))
    (executed : ∀ scope, program.checkStmt [] = .ok scope →
      P (i.machine.report (i.machine.exec fuel program {} {}))
        (j.machine.report (j.machine.exec fuel' program {} {}))) :
    P (i.run fuel program).result (j.run fuel' program).result := by
  rcases hcheck : program.checkStmt [] with (d | m) | scope
  · rw [run_of_violation hcheck, run_of_violation hcheck]
    exact rejected d
  · rw [run_of_misplaced hcheck, run_of_misplaced hcheck]
    exact misplaced m
  · rw [run_of_accepted hcheck, run_of_accepted hcheck]
    exact executed scope hcheck

theorem exec_of_reported {r : RunResult} {t : Store} (h : (i.run fuel program).result = .ok r)
    (reported : r.store? = some t) :
    (∃ q, i.machine.exec fuel program {} {} = (.ok t, q)) ∨
      ∃ q, i.machine.exec fuel program {} {} = (.error (.exhausted t), q) := by
  rcases hcheck : program.checkStmt [] with (d | m) | scope
  · rw [run_of_violation hcheck] at h
    cases h
    cases reported
  · rw [run_of_misplaced hcheck] at h
    cases h
  · rw [run_of_accepted hcheck] at h
    rcases hexec : i.machine.exec fuel program {} {} with ⟨(f | m | vs | s | _) | s, p⟩ <;>
      rw [hexec] at h <;> cases h <;> cases reported
    · exact .inr ⟨p, rfl⟩
    · exact .inl ⟨p, rfl⟩

end Interpreter

/-- Declares a name and frees it in a loop that reads it to go on, so that the loop runs one round,
with a name of its own, and then faults. -/
def Node.freedInLoop : Node :=
  .seq (.decl "a" (.lit true none) none)
    (.whileDo (.var "a" none) (.seq (.decl "b" (.var "a" none) none) (.free "a" none) none) none)
    none

end NandLang
