import NandLang.Proofs.Granularity
import NandLang.Proofs.Unrolling

/-! Executions on a budget end. Every round of a loop counts a step of its own, so no loop runs for
more rounds than the budget has steps left, however deep loops are nested and whether or not they
would end by themselves. -/
namespace NandLang

/-- A stop on a budget of `k` steps, with so many counted by then. The budget runs out at the first
step past it; any other stop comes before that. -/
def Stop.OnBudget (k : Nat) : Stop → Nat → Prop
  | .exhausted _, steps => steps = k + 1
  | .unfinished, _ => False
  | _, steps => steps ≤ k

theorem Stop.Fits.onBudget {e : Stop} {s : Store} (fits : e.Fits s) {k steps : Nat}
    (h : steps ≤ k) : e.OnBudget k steps := by
  cases e with
  | fault | misplaced => exact h
  | unsound | exhausted | unfinished => cases fits

namespace Machine
open Exec

variable {m : Machine} {k fuel : Nat} {n c : Node} {s : Store} {p : Progress}
  (budget : m.limit = some k)
include budget

theorem ends_tick_of_budget {post : Unit → Progress → Prop} (start : p.steps ≤ k)
    (ok : p.steps < k → post () p.next) :
    (m.tick s).Ends p post fun e q => e.OnBudget k q.steps := by
  apply ends_tick
  · exact fun within => ok (within k budget)
  · intro j limit spent
    have hj : j = k := Option.some.inj (limit.symm.trans budget)
    change p.steps + 1 = k + 1
    omega

/-- A loop cannot come to the end of its rounds while they outnumber the steps left. -/
theorem ends_rounds_of_budget {body : Nat}
    (ih : ∀ (s : Store) (p : Progress), p.steps ≤ k → k ≤ p.steps + body →
      (m.exec body n s).Ends p (fun _ q => p.steps < q.steps ∧ q.steps ≤ k)
        fun e q => e.OnBudget k q.steps)
    (number : Nat) (start : p.steps ≤ k) (enough : k ≤ p.steps + body)
    (left : k < p.steps + fuel) :
    (m.rounds (fun s => c.eval s) (m.exec body n) fuel number s).Ends p
      (fun _ q => p.steps ≤ q.steps ∧ q.steps ≤ k) fun e q => e.OnBudget k q.steps := by
  induction fuel generalizing number s p with
  | zero => omega
  | succ fuel rounds_ih =>
    rw [rounds, ends_bind]
    apply ends_ofExcept
    · intro v _
      cases v with
      | false => exact ⟨Nat.le_refl _, start⟩
      | true =>
        simp only [if_true, ends_bind, ends_log, ends_block]
        apply (ih s (p.note _) start enough).imp
        · rintro t q ⟨forward, within⟩
          have hforward : p.steps < q.steps := forward
          apply ends_tick_of_budget budget within
          intro room
          have hnext : q.next.steps = q.steps + 1 := rfl
          apply (rounds_ih (p := q.next) _ (by omega) (by omega) (by omega)).imp
          · rintro u r ⟨onward, within⟩
            exact ⟨by omega, within⟩
          · exact fun _ _ h => h
        · exact fun _ _ h => h
    · exact fun e he => (Node.fits_of_eval he).onBudget start

theorem exec_ends_of_budget (start : p.steps ≤ k) (enough : k ≤ p.steps + fuel) :
    (m.exec fuel n s).Ends p (fun _ q => p.steps < q.steps ∧ q.steps ≤ k)
      fun e q => e.OnBudget k q.steps := by
  have hnext : ∀ p : Progress, p.next.steps = p.steps + 1 := fun _ => rfl
  induction n using Node.basic_induction generalizing s p with
  | seq a b loc iha ihb =>
    rw [exec, ends_bind]
    apply ends_tick_of_budget budget start
    intro room
    have hp := hnext p
    rw [ends_bind]
    apply (iha (p := p.next) (by omega) (by omega)).imp
    · rintro t q ⟨forward, within⟩
      apply (ihb within (by omega)).imp
      · rintro u r ⟨onward, within⟩
        exact ⟨by omega, within⟩
      · exact fun _ _ h => h
    · exact fun _ _ h => h
  | ifThen c b loc ih =>
    rw [exec, ends_bind]
    apply ends_tick_of_budget budget start
    intro room
    have hp := hnext p
    rw [ends_bind]
    apply ends_ofExcept
    · intro v _
      cases v with
      | false => exact ends_inspect ⟨Nat.lt_succ_self _, room⟩ fun _ => room
      | true =>
        simp only [if_true, ends_bind, ends_block]
        apply (ih (p := p.next) (by omega) (by omega)).imp
        · rintro t q ⟨forward, within⟩
          exact ends_inspect ⟨by omega, within⟩ fun _ => within
        · exact fun _ _ h => h
    · exact fun e he => (Node.fits_of_eval he).onBudget room
  | whileDo c b loc ih =>
    rw [exec, ends_bind]
    apply ends_tick_of_budget budget start
    intro room
    have hp := hnext p
    rw [ends_bind]
    have hleft : k < p.next.steps + fuel := by omega
    apply (ends_rounds_of_budget budget (p := p.next) (fun _ _ => ih) 0 room (by omega) hleft).imp
    · rintro t q ⟨forward, within⟩
      exact ends_inspect ⟨by omega, within⟩ fun _ => within
    · exact fun _ _ h => h
  | basic n basic =>
    rw [m.exec_basic fuel basic, ends_bind]
    apply ends_tick_of_budget budget start
    intro room
    rw [ends_bind]
    apply ends_ofExcept
    · rintro ⟨events, t⟩ _
      rw [ends_bind, ends_record]
      exact ends_inspect ⟨Nat.lt_succ_self _, room⟩ fun _ => room
    · exact fun e he => (fits_of_perform he).onBudget room

theorem exec_finished_of_budget {r : Except Stop Store} {q : Progress}
    (enough : k ≤ p.steps + fuel) (run : m.exec fuel n s p = (r, q)) :
    r ≠ .error .unfinished ∧ q.steps ≤ max p.steps k + 1 ∧
      (q.steps = max p.steps k + 1 ↔ ∃ t, r = .error (.exhausted t)) := by
  by_cases start : p.steps ≤ k
  · rw [Nat.max_eq_right start]
    have hends := exec_ends_of_budget budget start enough (n := n) (s := s)
    rcases r with (f | e | vs | t | _) | t
    case ok =>
      have hwithin := (hends.ok run).2
      exact ⟨nofun, by omega, by simp; omega⟩
    case error.exhausted =>
      have hspent : q.steps = k + 1 := hends.error run
      exact ⟨nofun, by omega, by simpa using hspent⟩
    case error.unfinished => exact (hends.error run).elim
    all_goals
      have hwithin : q.steps ≤ k := hends.error run
      exact ⟨nofun, by omega, by simp; omega⟩
  · cases run.symm.trans (exec_of_spent budget (Nat.le_of_not_le start))
    have hmax : max p.steps k = p.steps := by omega
    rw [hmax]
    exact ⟨nofun, Nat.le_refl _, by simp [Progress.next]⟩

end Machine

/-- On a budget every execution ends, of whatever statement, from whatever store and number of steps
it starts: with a store, or for a fault, a misplaced node, a violation or the budget. Rounds for the
steps left are enough for that. It counts one step past the budget, or past its start, at most, and
counts that step exactly if the budget runs out. -/
theorem bounded_execution_ends (i : Interpreter) {k : Nat} (budget : i.machine.limit = some k)
    (n : Node) (s : Store) :
    ∃ r steps, i.Settles n s r steps ∧
      (∀ fuel, k ≤ i.steps + fuel → (i.exec fuel n s).result = r ∧
        (i.exec fuel n s).interpreter.steps = steps) ∧
      steps ≤ max i.steps k + 1 ∧
      (steps = max i.steps k + 1 ↔ ∃ t, r = .error (.exhausted t)) := by
  have hleft : k ≤ i.steps + (k - i.steps) := by omega
  rcases hrun : i.machine.exec (k - i.steps) n s { steps := i.steps } with ⟨r, q⟩
  obtain ⟨finished, hcount⟩ := Machine.exec_finished_of_budget budget hleft hrun
  refine ⟨r, q.steps, Interpreter.settles_of_exec hrun rfl finished, ?_, hcount⟩
  intro fuel enough
  have hle : k - i.steps ≤ fuel := by omega
  have hmore : i.machine.exec fuel n s { steps := i.steps } = (r, q) := by
    rw [Machine.exec_of_more_rounds hle (by rwa [hrun]), hrun]
  unfold Interpreter.exec
  rw [hmore]
  exact ⟨rfl, rfl⟩

def Node.endless : Node :=
  .whileDo (.lit true none) (.whileDo (.var "a" none) (.assign "a" (.lit true none) none) none) none

theorem endless_ends_on_budget :
    let i : Interpreter := { machine := { limit := some 6 }, steps := 2 }
    let s : Store := ⟨⟨[("a", 0)]⟩, [], ⟨[(0, true)]⟩, 1⟩
    i.machine.limit = some 6 ∧ i.Settles Node.endless s (.error (.exhausted s)) 7 := by
  intro i s
  obtain ⟨r, steps, settles, ends, -, -⟩ := bounded_execution_ends i (k := 6) rfl Node.endless s
  obtain ⟨hr, hsteps⟩ := ends 4 (by decide)
  have hresult : (i.exec 4 Node.endless s).result = .error (.exhausted s) := by decide
  have hcount : (i.exec 4 Node.endless s).interpreter.steps = 7 := by decide
  rw [← hr, ← hsteps, hresult, hcount] at settles
  exact ⟨rfl, settles⟩

end NandLang
