import NandLang.Proofs.Lockstep
import NandLang.Proofs.Run

/-! The stores that come up while a program is executed. All of them are sound, so a machine that
looks them over finds nothing. -/
namespace NandLang
namespace Machine

variable {m : Machine} {fuel : Nat} {n : Node} {s t : Store} {p q : Progress}

/-- The tests of a loop's condition, with the number of rounds before each. -/
inductive Turns (m : Machine) (fuel : Nat) (c b : Node) (s : Store) (p : Progress) :
    Nat → Store → Progress → Prop
  | first : Turns m fuel c b s p 0 s p
  | next {number : Nat} {t u : Store} {q r r' : Progress}
      (turns : Turns m fuel c b s p number t q) (cond : c.eval t = .ok true)
      (body : m.exec fuel b t (q.note [.iteration (number + 1)]) = (.ok u, r))
      (tick : m.tick (u.withEnvironment t.environment) r = (.ok (), r')) :
      Turns m fuel c b s p (number + 1) (u.withEnvironment t.environment) r'

/-- While a statement is executed a store comes up: it is handed to a step, or it is yielded by a
statement or by a block. -/
inductive Visits (m : Machine) (fuel : Nat) : Node → Store → Progress → Store → Progress → Prop
  | enter {n : Node} {s : Store} {p : Progress} : Visits m fuel n s p s p
  | exit {n : Node} {s t : Store} {p q : Progress} (run : m.exec fuel n s p = (.ok t, q)) :
      Visits m fuel n s p t q
  | first {a b : Node} {loc : Option Loc} {s t : Store} {p p' q : Progress}
      (tick : m.tick s p = (.ok (), p')) (visit : Visits m fuel a s p' t q) :
      Visits m fuel (.seq a b loc) s p t q
  | second {a b : Node} {loc : Option Loc} {s t u : Store} {p p' q r : Progress}
      (tick : m.tick s p = (.ok (), p')) (run : m.exec fuel a s p' = (.ok u, r))
      (visit : Visits m fuel b u r t q) : Visits m fuel (.seq a b loc) s p t q
  | branch {c b : Node} {loc : Option Loc} {s t : Store} {p p' q : Progress}
      (tick : m.tick s p = (.ok (), p')) (cond : c.eval s = .ok true)
      (visit : Visits m fuel b s p' t q) : Visits m fuel (.ifThen c b loc) s p t q
  | branchBlock {c b : Node} {loc : Option Loc} {s t : Store} {p p' q : Progress}
      (tick : m.tick s p = (.ok (), p')) (cond : c.eval s = .ok true)
      (run : m.exec fuel b s p' = (.ok t, q)) :
      Visits m fuel (.ifThen c b loc) s p (t.withEnvironment s.environment) q
  | round {c b : Node} {loc : Option Loc} {number : Nat} {s t u : Store} {p p' q r : Progress}
      (tick : m.tick s p = (.ok (), p')) (turns : Turns m fuel c b s p' number u r)
      (cond : c.eval u = .ok true)
      (visit : Visits m fuel b u (r.note [.iteration (number + 1)]) t q) :
      Visits m fuel (.whileDo c b loc) s p t q
  | roundBlock {c b : Node} {loc : Option Loc} {number : Nat} {s t u : Store}
      {p p' q r : Progress} (tick : m.tick s p = (.ok (), p'))
      (turns : Turns m fuel c b s p' number u r) (cond : c.eval u = .ok true)
      (run : m.exec fuel b u (r.note [.iteration (number + 1)]) = (.ok t, q)) :
      Visits m fuel (.whileDo c b loc) s p (t.withEnvironment u.environment) q

theorem eq_next_of_tick (h : m.tick s p = (.ok (), q)) : q = p.next := by
  obtain ⟨htick, -⟩ | ⟨htick, -⟩ := m.tick_cases s p <;> rw [htick] at h <;> cases h
  rfl

theorem Turns.path {c b : Node} {number : Nat} (turns : m.Turns fuel c b s p number t q) :
    Path m b.preorder s p t q := by
  induction turns with
  | first => exact .refl _ _
  | next _ _ body tick ih =>
    rw [eq_next_of_tick tick]
    exact ((ih.turn _).leave (path_of_exec body)).step

theorem Visits.path (visit : m.Visits fuel n s p t q) : Path m n.preorder s p t q := by
  induction visit with
  | enter => exact .refl _ _
  | exit run => exact path_of_exec run
  | first tick _ ih =>
    rw [eq_next_of_tick tick] at ih
    exact (Path.refl _ _).step.trans (ih.mono (Node.preorder_subset_seq_left _ _ _))
  | second tick run _ ih =>
    rw [eq_next_of_tick tick] at run
    refine ((Path.refl _ _).step.trans ?_).trans (ih.mono (Node.preorder_subset_seq_right _ _ _))
    exact (path_of_exec run).mono (Node.preorder_subset_seq_left _ _ _)
  | branch tick _ _ ih =>
    rw [eq_next_of_tick tick] at ih
    exact (Path.refl _ _).step.trans (ih.mono (Node.preorder_subset_ifThen _ _ _))
  | branchBlock tick _ run =>
    rw [eq_next_of_tick tick] at run
    exact (Path.refl _ _).step.leave
      ((path_of_exec run).mono (Node.preorder_subset_ifThen _ _ _))
  | round tick turns _ _ ih =>
    rw [eq_next_of_tick tick] at turns
    refine (((Path.refl _ _).step.trans ?_).turn _).trans
      (ih.mono (Node.preorder_subset_whileDo _ _ _))
    exact turns.path.mono (Node.preorder_subset_whileDo _ _ _)
  | roundBlock tick turns _ run =>
    rw [eq_next_of_tick tick] at turns
    refine (((Path.refl _ _).step.trans ?_).turn _).leave
      ((path_of_exec run).mono (Node.preorder_subset_whileDo _ _ _))
    exact turns.path.mono (Node.preorder_subset_whileDo _ _ _)

theorem simulation_of_audit (among : List Node) (m : Machine) (audit audit' : Bool) :
    Simulation among { m with audit := audit } { m with audit := audit' }
      (fun s t => s = t ∧ s.Sound) Eq where
  limit := rfl
  eval := by
    rintro s _ ⟨rfl, -⟩ n -
    exact .refl (fun _ => rfl) (fun _ => rfl) _
  perform := by
    rintro s _ ⟨rfl, sound⟩ n -
    change Matched _ _ (m.perform s n) (m.perform s n)
    cases h : m.perform s n with
    | ok done => exact .ok ⟨rfl, (acts_of_perform h).sound sound⟩
    | error e => exact .error rfl
  inspect := by
    rintro s _ ⟨rfl, sound⟩
    rw [inspect_of_sound sound, inspect_of_sound sound]
    exact Exec.lockstep_pure ⟨rfl, sound⟩
  leave := by
    rintro s _ s' _ ⟨rfl, -⟩ ⟨rfl, sound⟩ grows -
    exact ⟨rfl, sound.leave grows⟩
  exhausted := by
    rintro s _ ⟨rfl, -⟩
    rfl
  unfinished := rfl

theorem report_audit (m : Machine) (audit audit' : Bool) (fuel : Nat) (program : Node) :
    Machine.report { m with audit := audit }
        (Machine.exec { m with audit := audit } fuel program {} {}) =
      Machine.report { m with audit := audit' }
        (Machine.exec { m with audit := audit' } fuel program {} {}) := by
  obtain ⟨hmatched, hsteps⟩ :=
    (simulation_of_audit program.preorder m audit audit').exec fuel (List.Subset.refl _)
      ⟨rfl, .initial⟩ {} {} rfl
  rcases hx : Machine.exec { m with audit := audit } fuel program {} {} with ⟨rx, p⟩
  rcases hy : Machine.exec { m with audit := audit' } fuel program {} {} with ⟨ry, q⟩
  rw [hx, hy] at hmatched hsteps
  cases hmatched with
  | ok related =>
    rw [related.1]
    simp only [report]
    rw [show p.steps = q.steps from hsteps]
  | @error e _ related =>
    subst related
    cases e <;> simp only [report]
    rw [show p.steps = q.steps from hsteps]

end Machine

/-- Whatever program is executed from the empty store, every store that comes up, or that the run
reports at its end or where its budget ends, is sound: its live names are those that have values,
and it shows no violation. A run that looks for violations yields what a run without looking does. -/
theorem reachable_stores_sound (c : Settings) (fuel : Nat) (program : Node) :
    (∀ t : Store,
      ((∃ p q, (Interpreter.ofSettings c).machine.Visits fuel program {} p t q) ∨
        ∃ r, ((Interpreter.ofSettings c).run fuel program).result = .ok r ∧
          r.store? = some t) →
      t.Sound ∧ (t.values.map Prod.fst = t.environment.keys.filter fun x => !t.isFreed x) ∧
        t.violations = []) ∧
    ((Interpreter.ofSettings { c with checkInvariants := true }).run fuel program).result =
      ((Interpreter.ofSettings { c with checkInvariants := false }).run fuel program).result := by
  constructor
  · intro t h
    have sound : t.Sound := by
      obtain ⟨p, q, visit⟩ | ⟨r, hrun, reported⟩ := h
      · exact visit.path.sound .initial
      · obtain ⟨q, hexec⟩ | ⟨q, hexec⟩ := Interpreter.exec_of_reported hrun reported
        · exact (Machine.path_of_exec hexec).sound .initial
        · exact ((Machine.exec_path _ _ _ _ _).error hexec).regular .initial
    exact ⟨sound, sound.names_values, sound.violations_eq_nil⟩
  · apply Interpreter.run_relates (P := Eq) (fun _ => rfl) (fun _ => rfl)
    intro scope _
    exact Machine.report_audit (Interpreter.ofSettings c).machine true false fuel program

/-- Six steps into the loop, the budget runs out on a store that keeps the cell of a name out of
scope, and a name in scope without one. -/
theorem freedInLoop_store_sound :
    ∃ r t, ((Interpreter.ofSettings { maxSteps := some 6 }).run 2 Node.freedInLoop).result = .ok r ∧
      r.store? = some t ∧ t.environment.entries = [("a", 0)] ∧ t.memory.entries = [(1, true)] ∧
      t.Sound ∧ t.violations = [] := by
  obtain ⟨r, t, hrun, reported, hnames, hcells⟩ : ∃ r t,
      ((Interpreter.ofSettings { maxSteps := some 6 }).run 2 Node.freedInLoop).result = .ok r ∧
      r.store? = some t ∧ t.environment.entries = [("a", 0)] ∧ t.memory.entries = [(1, true)] :=
    ⟨_, _, rfl, rfl, rfl, rfl⟩
  obtain ⟨sound, -, hviolations⟩ :=
    (reachable_stores_sound { maxSteps := some 6 } 2 Node.freedInLoop).1 t
      (.inr ⟨r, hrun, reported⟩)
  exact ⟨r, t, hrun, reported, hnames, hcells, sound, hviolations⟩

end NandLang
