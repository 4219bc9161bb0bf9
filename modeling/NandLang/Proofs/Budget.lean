import NandLang.Proofs.Reachable
import NandLang.Proofs.Run

/-! Executions cut short. With fewer rounds or with a step budget, an execution is the beginning of
the one without: it is the same to the end, or it stops where the other went on. -/
namespace NandLang
namespace Exec

variable {α β : Type} {P : Nat → Prop} {D : Stop → Prop} {bound : Nat} {x y : Exec α}

/-- From a number of steps within `P`, the first computation is the second one and stays within `P`,
or it stops for a reason with `D`, and the second one counts `bound` steps or more. -/
structure Cut (P : Nat → Prop) (D : Stop → Prop) (bound : Nat) (x y : Exec α) : Prop where
  forward : ∀ p, p.steps ≤ (y p).2.steps
  cut : ∀ p, P p.steps → (x p = y p ∧ P (y p).2.steps) ∨
    ∃ e, (x p).1 = .error e ∧ D e ∧ bound ≤ (y p).2.steps

theorem cut_of_still (still : ∀ p, (x p).2.steps = p.steps) : Cut P D bound x x where
  forward := fun p => Nat.le_of_eq (still p).symm
  cut := by
    intro p hp
    rw [still p]
    exact .inl ⟨rfl, hp⟩

theorem cut_ofExcept (r : Except Stop α) : Cut P D bound (ofExcept r) (ofExcept r) :=
  cut_of_still fun _ => rfl

theorem steps_le_bind {f : α → Exec β} (forward : ∀ a q, q.steps ≤ (f a q).2.steps)
    (x : Exec α) (p : Progress) : (x p).2.steps ≤ ((x >>= f) p).2.steps := by
  rcases hx : x p with ⟨e | a, q⟩
  · exact Nat.le_of_eq (by rw [bind_of_error hx])
  · rw [bind_of_ok hx]
    exact forward a q

theorem Cut.bind {f g : α → Exec β} (h : Cut P D bound x y)
    (hfg : ∀ a, Cut P D bound (f a) (g a)) : Cut P D bound (x >>= f) (y >>= g) where
  forward := fun p => Nat.le_trans (h.forward p) (steps_le_bind (fun a => (hfg a).forward) y p)
  cut := by
    intro p hp
    have hsteps := steps_le_bind (fun a => (hfg a).forward) y p
    obtain ⟨heq, hy⟩ | ⟨e, he, hD, hbound⟩ := h.cut p hp
    · rcases hyp : y p with ⟨e | a, q⟩
      · rw [hyp] at heq hy
        rw [bind_of_error heq, bind_of_error hyp]
        exact .inl ⟨rfl, hy⟩
      · rw [hyp] at heq hy
        rw [bind_of_ok heq, bind_of_ok hyp]
        exact (hfg a).cut q hy
    · have hx : x p = (.error e, (x p).2) := Prod.ext he rfl
      exact .inr ⟨e, by rw [bind_of_error hx], hD, Nat.le_trans hbound hsteps⟩

end Exec

namespace Machine
open Exec

variable {m : Machine} {limit limit' : Option Nat} {fuel fuel' : Nat} {P : Nat → Prop}
  {D : Stop → Prop} {bound : Nat} {s : Store}

theorem perform_limit (m : Machine) (limit : Option Nat) (s : Store) (n : Node) :
    perform { m with limit := limit } s n = m.perform s n := by
  cases n <;> rfl

theorem steps_inspect (m : Machine) (s : Store) (p : Progress) :
    (m.inspect s p).2.steps = p.steps := by
  unfold inspect
  split <;> rfl

theorem cut_inspect (m : Machine) (limit limit' : Option Nat) (s : Store) :
    Cut P D bound (inspect { m with limit := limit } s) (inspect { m with limit := limit' } s) := by
  change Cut P D bound (m.inspect s) (m.inspect s)
  exact cut_of_still (m.steps_inspect s)

theorem cut_block {body body' : Store → Exec Store} (h : Cut P D bound (body s) (body' s)) :
    Cut P D bound (block body s) (block body' s) :=
  h.bind fun _ => cut_of_still fun _ => rfl

section
variable (hle : fuel ≤ fuel') (unfinished : fuel < fuel' → D .unfinished ∧ bound = 0)
  (tick : ∀ s, Cut P D bound (tick { m with limit := limit } s) (tick { m with limit := limit' } s))
include hle unfinished tick

theorem cut_rounds {cond : Store → Except Stop Bool} {body body' : Store → Exec Store}
    (h : ∀ s, Cut P D bound (body s) (body' s)) (number : Nat) (s : Store) :
    Cut P D bound (rounds { m with limit := limit } cond body fuel number s)
      (rounds { m with limit := limit' } cond body' fuel' number s) := by
  induction fuel' generalizing fuel number s with
  | zero =>
    obtain rfl := Nat.le_zero.mp hle
    exact cut_of_still fun _ => rfl
  | succ more ih =>
    -- A round of each, behind which the first loop has no more rounds left than the second.
    have hround : ∀ less ≤ more, (less < more → D .unfinished ∧ bound = 0) →
        Cut P D bound (rounds { m with limit := limit } cond body (less + 1) number s)
          (rounds { m with limit := limit' } cond body' (more + 1) number s) := by
      intro less hless hunfinished
      rw [rounds, rounds]
      apply (cut_ofExcept _).bind
      intro v
      cases v with
      | false => exact cut_of_still fun _ => rfl
      | true =>
        apply Cut.bind (cut_of_still fun _ => rfl)
        intro _
        apply (cut_block (h s)).bind
        intro t
        apply (tick t).bind
        intro _
        exact ih hless hunfinished (number + 1) t
    cases fuel with
    | zero =>
      -- The second loop counts forward even where the first one does not begin.
      have hforward := (hround more (Nat.le_refl _) (fun h => absurd h (Nat.lt_irrefl _))).forward
      obtain ⟨hD, rfl⟩ := unfinished (Nat.succ_pos _)
      exact ⟨hforward, fun p _ => .inr ⟨.unfinished, rfl, hD, Nat.zero_le _⟩⟩
    | succ less =>
      exact hround less (Nat.le_of_succ_le_succ hle) fun hlt => unfinished (Nat.succ_lt_succ hlt)

/-- One induction for both ways to cut an execution short. -/
theorem exec_cut (n : Node) (s : Store) :
    Cut P D bound (exec { m with limit := limit } fuel n s)
      (exec { m with limit := limit' } fuel' n s) := by
  induction n using Node.basic_induction generalizing s with
  | seq a b loc iha ihb =>
    rw [exec, exec]
    apply (tick s).bind
    intro _
    exact (iha s).bind ihb
  | ifThen c b loc ih =>
    rw [exec, exec]
    apply (tick s).bind
    intro _
    apply (cut_ofExcept _).bind
    intro v
    cases v with
    | false => exact cut_inspect m _ _ s
    | true => exact (cut_block (ih s)).bind fun t => cut_inspect m _ _ t
  | whileDo c b loc ih =>
    rw [exec, exec]
    apply (tick s).bind
    intro _
    exact (cut_rounds hle unfinished tick ih 0 s).bind fun t => cut_inspect m _ _ t
  | basic n h =>
    rw [exec_basic _ fuel h, exec_basic _ fuel' h, perform_limit, perform_limit]
    apply (tick s).bind
    intro _
    apply (cut_ofExcept _).bind
    intro done
    apply Cut.bind (cut_of_still fun _ => rfl)
    intro _
    exact cut_inspect m _ _ done.2

end

theorem exec_of_more_rounds (hle : fuel ≤ fuel') {n : Node} {p : Progress}
    (finished : (m.exec fuel n s p).1 ≠ .error .unfinished) :
    m.exec fuel' n s p = m.exec fuel n s p := by
  have htick : ∀ s, Cut (fun _ => True) (· = .unfinished) 0 (m.tick s) (m.tick s) := by
    intro s
    refine ⟨?_, fun p _ => .inl ⟨rfl, trivial⟩⟩
    intro p
    obtain ⟨h, -⟩ | ⟨h, -⟩ := m.tick_cases s p <;> rw [h] <;> exact Nat.le_succ _
  have hcut : Cut (fun _ => True) (· = .unfinished) 0 (m.exec fuel n s) (m.exec fuel' n s) := by
    apply exec_cut hle _ htick
    exact fun _ => ⟨rfl, rfl⟩
  obtain ⟨heq, -⟩ | ⟨e, he, rfl, -⟩ := hcut.cut p trivial
  · exact heq.symm
  · exact absurd he finished

theorem exec_of_budget (m : Machine) (k fuel : Nat) (n : Node) (s : Store) {p : Progress}
    (hp : p.steps ≤ k) :
    (exec { m with limit := some k } fuel n s p = exec { m with limit := none } fuel n s p ∧
        (exec { m with limit := none } fuel n s p).2.steps ≤ k) ∨
      ∃ t, (exec { m with limit := some k } fuel n s p).1 = .error (.exhausted t) ∧
        k < (exec { m with limit := none } fuel n s p).2.steps := by
  have htick : ∀ s, Cut (· ≤ k) (fun e => ∃ t, e = .exhausted t) (k + 1)
      (tick { m with limit := some k } s) (tick { m with limit := none } s) := by
    intro s
    refine ⟨fun p => Nat.le_succ _, ?_⟩
    intro p hp
    obtain ⟨h, hlimit⟩ | ⟨h, j, hlimit, hj⟩ := tick_cases { m with limit := some k } s p
    · exact .inl ⟨h, hlimit k rfl⟩
    · cases hlimit
      exact .inr ⟨.exhausted s, by rw [h], ⟨s, rfl⟩, Nat.succ_le_succ hj⟩
  obtain h | ⟨e, he, ⟨t, rfl⟩, hk⟩ :=
    (exec_cut (Nat.le_refl fuel) (fun h => absurd h (Nat.lt_irrefl _)) htick n s).cut p hp
  · exact .inl h
  · exact .inr ⟨t, he, hk⟩

theorem exec_ne_exhausted (unlimited : m.limit = none) {n : Node} {p q : Progress} {t : Store} :
    m.exec fuel n s p ≠ (.error (.exhausted t), q) := by
  intro h
  cases (m.exec_path fuel n s p).error h with
  | refused path fits => exact fits
  | exhausted path limit spent =>
    rw [unlimited] at limit
    cases limit

theorem report_of_ne_exhausted (m : Machine) (limit limit' : Option Nat)
    {ending : Except Stop Store × Progress} (h : ∀ t q, ending ≠ (.error (.exhausted t), q)) :
    report { m with limit := limit } ending = report { m with limit := limit' } ending := by
  rcases ending with ⟨(f | e | vs | t | _) | t, q⟩
  case error.exhausted => exact absurd rfl (h t q)
  all_goals rfl

theorem report_unlimited (unlimited : m.limit = none) {program : Node} {r : RunResult}
    (h : m.report (m.exec fuel program {} {}) = .ok r) :
    r.steps = (m.exec fuel program {} {}).2.steps ∧ ∀ j t, r ≠ .exhausted j t := by
  rcases hexec : m.exec fuel program {} {} with ⟨(f | e | vs | t | _) | t, q⟩ <;>
    rw [hexec] at h <;> cases h
  · exact ⟨rfl, nofun⟩
  · exact absurd hexec (exec_ne_exhausted unlimited)
  · exact ⟨rfl, nofun⟩

end Machine

namespace Interpreter

theorem run_of_refused {program : Node} {refusal : Refusal}
    (h : program.checkStmt [] = .error refusal) :
    ∃ result, (∀ (i : Interpreter) (fuel : Nat), (i.run fuel program).result = result) ∧
      ∀ r, result = .ok r → r.steps = 0 ∧ ∀ j t, r ≠ .exhausted j t := by
  cases refusal with
  | violation d =>
    refine ⟨.ok (.rejected d), fun _ _ => run_of_violation h, ?_⟩
    rintro _ ⟨⟩
    exact ⟨rfl, nofun⟩
  | misplaced e =>
    refine ⟨.error (.misplaced e), fun _ _ => run_of_misplaced h, ?_⟩
    rintro _ ⟨⟩

theorem run_of_more_rounds {i : Interpreter} {fuel fuel' : Nat} (hle : fuel ≤ fuel')
    {program : Node} {r : RunResult} (h : (i.run fuel program).result = .ok r) :
    (i.run fuel' program).result = .ok r := by
  revert h
  apply run_relates (P := fun x y => x = .ok r → y = .ok r)
  · exact fun _ => id
  · exact fun _ => id
  · intro scope _ h
    rw [Machine.exec_of_more_rounds hle]
    · exact h
    · intro hunfinished
      rcases hexec : i.machine.exec fuel program {} {} with ⟨e, q⟩
      rw [hexec] at h hunfinished
      cases hunfinished
      cases h

end Interpreter

namespace Settings

def withBudget (c : Settings) (budget : Option Nat) : Settings :=
  { c with maxSteps := budget.map Int.ofNat }

theorem limit_withBudget (c : Settings) (budget : Option Nat) :
    (c.withBudget budget).limit = budget := by
  cases budget with
  | none => rfl
  | some k =>
    have hk : ¬(k : Int) < 0 := by omega
    simp [withBudget, limit, hk]

theorem machine_withBudget (c : Settings) (budget : Option Nat) :
    (Interpreter.ofSettings (c.withBudget budget)).machine =
      { (Interpreter.ofSettings c).machine with limit := budget } := by
  unfold Interpreter.ofSettings
  rw [limit_withBudget]
  rfl

/-- A run comes to this result, if its loops are allowed rounds enough. -/
def Returns (c : Settings) (program : Node) (r : RunResult) : Prop :=
  ∃ enough, ∀ fuel ≥ enough, ((Interpreter.ofSettings c).run fuel program).result = .ok r

variable {c : Settings} {fuel : Nat} {program : Node} {r : RunResult}

theorem returns_of_run (h : ((Interpreter.ofSettings c).run fuel program).result = .ok r) :
    c.Returns program r :=
  ⟨fuel, fun _ hle => Interpreter.run_of_more_rounds hle h⟩

theorem run_withBudget (c : Settings) (fuel : Nat) (program : Node) :
    ∃ n,
      (∀ r, ((Interpreter.ofSettings (c.withBudget none)).run fuel program).result = .ok r →
        r.steps = n ∧ ∀ j t, r ≠ .exhausted j t) ∧
      ∀ k,
        (n ≤ k → ((Interpreter.ofSettings (c.withBudget (some k))).run fuel program).result =
          ((Interpreter.ofSettings (c.withBudget none)).run fuel program).result) ∧
        (k < n → ∃ t, ((Interpreter.ofSettings (c.withBudget (some k))).run fuel program).result =
          .ok (.exhausted k t)) := by
  cases hcheck : program.checkStmt [] with
  | error refusal =>
    obtain ⟨result, hresult, hrefused⟩ := Interpreter.run_of_refused hcheck
    simp only [hresult]
    exact ⟨0, hrefused, fun k => ⟨fun _ => trivial, fun h => absurd h (Nat.not_lt_zero k)⟩⟩
  | ok scope =>
    simp only [Interpreter.run_of_accepted hcheck, machine_withBudget]
    generalize (Interpreter.ofSettings c).machine = m
    refine ⟨_, fun r h => Machine.report_unlimited rfl h, fun k => ?_⟩
    obtain ⟨heq, hsteps⟩ | ⟨t, hexhausted, hsteps⟩ :=
      m.exec_of_budget k fuel program {} (p := {}) (Nat.zero_le k)
    · refine ⟨fun _ => ?_, fun h => absurd h (Nat.not_lt.mpr hsteps)⟩
      rw [heq]
      exact m.report_of_ne_exhausted _ _ fun t q => Machine.exec_ne_exhausted rfl
    · refine ⟨fun h => absurd h (Nat.not_le.mpr hsteps), fun _ => ⟨t, ?_⟩⟩
      rcases hexec : Machine.exec { m with limit := some k } fuel program {} {} with ⟨e, q⟩
      rw [hexec] at hexhausted
      cases hexhausted
      rfl

end Settings

/-- A run that ends within its budget ends alike without one and with every budget of as many steps,
and no smaller one suffices; where a budget runs out, it is used up, and so is every smaller one. -/
theorem budget_adequate (c : Settings) (program : Node) (k : Nat) :
    (∀ r, (c.withBudget (some k)).Returns program r → (∀ j t, r ≠ .exhausted j t) →
      r.steps ≤ k ∧ (c.withBudget none).Returns program r ∧
      (∀ k' ≥ r.steps, (c.withBudget (some k')).Returns program r) ∧
      ∀ k' < r.steps, ∃ t, (c.withBudget (some k')).Returns program (.exhausted k' t)) ∧
    (∀ j s, (c.withBudget (some k)).Returns program (.exhausted j s) →
      j = k ∧ ∀ k' < k, ∃ t, (c.withBudget (some k')).Returns program (.exhausted k' t)) ∧
    ∀ r, (c.withBudget none).Returns program r →
      ∀ k' ≥ r.steps, (c.withBudget (some k')).Returns program r := by
  refine ⟨?_, ?_, ?_⟩
  · rintro r ⟨fuel, hrun⟩ hended
    obtain ⟨n, hfree, hbudget⟩ := c.run_withBudget fuel program
    have hk : n ≤ k := by
      by_contra hlt
      obtain ⟨t, ht⟩ := (hbudget k).2 (Nat.lt_of_not_le hlt)
      rw [hrun fuel (Nat.le_refl _)] at ht
      exact hended k t (Except.ok.inj ht)
    have hr := ((hbudget k).1 hk).symm.trans (hrun fuel (Nat.le_refl _))
    obtain ⟨hsteps, -⟩ := hfree r hr
    rw [hsteps]
    refine ⟨hk, Settings.returns_of_run hr, ?_, ?_⟩
    · intro k' hk'
      exact Settings.returns_of_run (((hbudget k').1 hk').trans hr)
    · intro k' hk'
      obtain ⟨t, ht⟩ := (hbudget k').2 hk'
      exact ⟨t, Settings.returns_of_run ht⟩
  · rintro j s ⟨fuel, hrun⟩
    obtain ⟨n, hfree, hbudget⟩ := c.run_withBudget fuel program
    have hk : k < n := by
      by_contra hle
      have hr := ((hbudget k).1 (Nat.le_of_not_lt hle)).symm.trans (hrun fuel (Nat.le_refl _))
      exact (hfree _ hr).2 j s rfl
    obtain ⟨t, ht⟩ := (hbudget k).2 hk
    rw [hrun fuel (Nat.le_refl _)] at ht
    cases ht
    refine ⟨rfl, ?_⟩
    intro k' hk'
    obtain ⟨t, ht⟩ := (hbudget k').2 (Nat.lt_trans hk' hk)
    exact ⟨t, Settings.returns_of_run ht⟩
  · rintro r ⟨fuel, hrun⟩ k' hk'
    obtain ⟨n, hfree, hbudget⟩ := c.run_withBudget fuel program
    have hr := hrun fuel (Nat.le_refl _)
    obtain ⟨hsteps, -⟩ := hfree r hr
    rw [hsteps] at hk'
    exact Settings.returns_of_run (((hbudget k').1 hk').trans hr)

theorem freedInLoop_takes_seven_steps :
    ∃ f t, (Settings.withBudget {} (some 9)).Returns Node.freedInLoop (.faulted 7 f) ∧
      (Settings.withBudget {} none).Returns Node.freedInLoop (.faulted 7 f) ∧
      (Settings.withBudget {} (some 6)).Returns Node.freedInLoop (.exhausted 6 t) := by
  obtain ⟨f, hrun⟩ : ∃ f, ((Interpreter.ofSettings (Settings.withBudget {} (some 9))).run 2
      Node.freedInLoop).result = .ok (.faulted 7 f) :=
    ⟨⟨.alreadyFreed, "a", some 0, none⟩, by decide⟩
  have returns := Settings.returns_of_run hrun
  obtain ⟨-, unbounded, -, short⟩ := (budget_adequate {} Node.freedInLoop 9).1 _ returns nofun
  obtain ⟨t, exhausted⟩ := short 6 (show 6 < 7 by decide)
  exact ⟨f, t, returns, unbounded, exhausted⟩

end NandLang
