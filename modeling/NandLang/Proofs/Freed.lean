import NandLang.Proofs.Entries
import NandLang.Proofs.Independence

/-! Freed variables. A mark that a name was freed is cleared by declaring the name, and a name in
scope cannot be declared; so it stays freed for as long as it is in scope, through all blocks and
rounds inside of that scope, and an execution that comes to use it goes no further. -/
namespace NandLang
namespace Store

variable {s t : Store} {x : Name} {l : Location}

structure FreedAt (s : Store) (x : Name) (l : Location) : Prop where
  bound : s.lookup x = some l
  freed : s.isFreed x = true

theorem FreedAt.leave (h : s.FreedAt x l) (h' : t.FreedAt x l) :
    (t.withEnvironment s.environment).FreedAt x l :=
  ⟨h.bound, h'.freed⟩

theorem FreedAt.resolve_eq (h : s.FreedAt x l) (loc : Option Loc) :
    Node.resolve s x loc = .error (.fault ⟨.alreadyFreed, x, some l, loc⟩) := by
  simp [Node.resolve, h.bound, h.freed]

theorem FreedAt.eval_eq (h : s.FreedAt x l) (loc : Option Loc) :
    (Node.var x loc).eval s = .error (.fault ⟨.alreadyFreed, x, some l, loc⟩) := by
  rw [Node.eval, h.resolve_eq]
  rfl

end Store

namespace Machine
open Exec Store

variable {m : Machine} {fuel : Nat} {n k e : Node} {s t : Store} {p q : Progress} {x : Name}
  {l : Location} {loc : Option Loc} {stop : Stop}

theorem Acts.freedAt {events : List Event} (acts : m.Acts s n events t) (h : s.FreedAt x l) :
    t.FreedAt x l := by
  refine ⟨acts.growsOn.lookup h.bound, ?_⟩
  cases acts with
  | @decl y _ _ _ value new =>
    -- Only a name out of scope can be declared, and so lose its mark.
    have hne : x ≠ y := by
      rintro rfl
      cases new.symm.trans h.bound
    rw [isFreed_declare_of_ne s hne]
    exact h.freed
  | assign => exact h.freed
  | @free y _ k bound live =>
    by_cases hxy : x = y
    · rw [hxy, isFreed_release_self]
    · rw [isFreed_release_of_ne s hxy]
      exact h.freed

theorem Path.freedAt {among : List Node} (path : Path m among s p t q) (h : s.FreedAt x l) :
    t.FreedAt x l := by
  induction path with
  | refl => exact h
  | step _ ih => exact ih h
  | turn _ _ ih => exact ih h
  | act _ _ acts ih => exact acts.freedAt (ih h)
  | leave _ _ ih inner_ih => exact (ih h).leave (inner_ih (ih h))

theorem Evaluates.freedAt (evaluates : m.Evaluates fuel n s p e t q) (h : s.FreedAt x l) :
    t.FreedAt x l := by
  cases evaluates with
  | operand enters => exact enters.visits.path.freedAt h
  | turn enters _ turns => exact turns.path.freedAt (enters.visits.path.freedAt h)

theorem perform_of_freedAt (m : Machine) (h : t.FreedAt x l) (changes : k.changes? = some x) :
    ∃ stop, m.perform t k = .error stop ∧
      (stop = .fault ⟨.alreadyFreed, x, some l, k.loc⟩ ∨
        ∃ e loc, k = .assign x e loc ∧ e.eval t = .error stop) := by
  cases k with
  | assign y e loc =>
    cases changes
    cases he : e.eval t with
    | error stop => exact ⟨stop, bind_eq_error_iff.mpr (.inl he), .inr ⟨e, loc, rfl, he⟩⟩
    | ok v =>
      refine ⟨_, bind_eq_error_iff.mpr (.inr ⟨v, he, ?_⟩), .inl rfl⟩
      exact bind_eq_error_iff.mpr (.inl (h.resolve_eq loc))
  | free y loc =>
    cases changes
    exact ⟨_, bind_eq_error_iff.mpr (.inl (h.resolve_eq loc)), .inl rfl⟩
  | _ => cases changes

end Machine

/-- A name that is freed and in scope is so on every store that comes up in an execution, and on the
one that it yields, at the same location. Nothing in the execution succeeds to read, assign or free
it: what comes to try this stops and the execution with it, and it does so for the reason that the
name was freed before, unless the budget has no step left for it or the value that it assigns stops
first. -/
theorem freed_variable_stays_freed (i : Interpreter) (fuel : Nat) {n : Node} {s : Store} {x : Name}
    {l : Location} (freed : s.FreedAt x l) :
    let m := i.machine
    let p : Progress := { steps := i.steps }
    (∀ t, (i.exec fuel n s).result = .ok t → t.FreedAt x l) ∧
    (∀ t q, m.Visits fuel n s p t q → t.FreedAt x l) ∧
    (∀ loc t q, m.Evaluates fuel n s p (.var x loc) t q →
      ∃ stop, stop = .fault ⟨.alreadyFreed, x, some l, loc⟩ ∧
        (Node.var x loc).eval t = .error stop ∧ m.exec fuel n s p = (.error stop, q)) ∧
    ∀ k t q, k.changes? = some x → m.Enters fuel n s p k t q →
      ∃ stop r, m.exec fuel k t q = (.error stop, r) ∧ m.exec fuel n s p = (.error stop, r) ∧
        (stop = .fault ⟨.alreadyFreed, x, some l, k.loc⟩ ∨
          (∃ e loc, k = .assign x e loc ∧ e.eval t = .error stop) ∨
          (∃ budget, m.limit = some budget ∧ budget ≤ q.steps) ∧ stop = .exhausted t) := by
  intro m p
  refine ⟨?_, fun t q visit => visit.path.freedAt freed, ?_, ?_⟩
  · intro t run
    exact (Machine.path_of_exec (Interpreter.exec_of_result run)).freedAt freed
  · intro loc t q evaluates
    have hstop := (evaluates.freedAt freed).eval_eq loc
    exact ⟨_, rfl, hstop, evaluates.error hstop⟩
  · intro k t q changes enters
    have hfreed := enters.visits.path.freedAt freed
    obtain ⟨stop, hperform, hstop⟩ := m.perform_of_freedAt hfreed changes
    have basic : k.basic = true := by cases k <;> cases changes <;> rfl
    obtain hexec | ⟨spent, hexec⟩ := Machine.exec_of_perform_error fuel basic hperform q
    · exact ⟨stop, _, hexec, enters.error hexec, hstop.imp_right .inl⟩
    · exact ⟨_, _, hexec, enters.error hexec, .inr (.inr ⟨spent, rfl⟩)⟩

def Node.besideFreed : Node × Node :=
  (.ifThen (.var "b" none) (.seq (.decl "c" (.lit true none) none) (.free "c" none) none) none,
  .assign "a" (.nand (.var "b" none) (.var "a" none) none) none)

/-- Where that name was freed the block leaves it so, and the statement stops at reading it, behind
an operand that it could read. -/
theorem besideFreed_stays_freed :
    let s : Store := ⟨⟨[("a", 0), ("b", 1)]⟩, ["a"], ⟨[(1, true)]⟩, 2⟩
    let (block, statement) := Node.besideFreed
    s.FreedAt "a" 0 ∧
    (∃ t, (Interpreter.exec {} 0 block s).result = .ok t ∧ t.FreedAt "a" 0) ∧
    (Interpreter.exec {} 0 (.seq block statement none) s).result =
      .error (.fault ⟨.alreadyFreed, "a", some 0, none⟩) := by
  intro s
  have freed : s.FreedAt "a" 0 := ⟨rfl, rfl⟩
  let t : Store := ⟨⟨[("a", 0), ("b", 1)]⟩, ["a", "c"], ⟨[(1, true)]⟩, 3⟩
  have left : (Interpreter.exec {} 0 Node.besideFreed.1 s).result = .ok t := by decide
  have run : Machine.exec {} 0 Node.besideFreed.1 s { steps := 1 } =
      (.ok t, ⟨5, [.released "c" 2, .declared "c" 2 true]⟩) := by decide
  have reads : Machine.Evaluates {} 0 (.seq Node.besideFreed.1 Node.besideFreed.2 none) s {}
      (.var "a" none) t ⟨6, [.released "c" 2, .declared "c" 2 true]⟩ :=
    .operand (.second rfl run (.self _ _ _)) rfl rfl (.right rfl (.self _))
  obtain ⟨returns, -⟩ := freed_variable_stays_freed {} 0 freed
  obtain ⟨-, -, stops, -⟩ := freed_variable_stays_freed {} 0 freed
  obtain ⟨_, rfl, -, hexec⟩ := stops none t _ reads
  exact ⟨freed, ⟨t, left, returns t left⟩, congrArg Prod.fst hexec⟩

end NandLang
