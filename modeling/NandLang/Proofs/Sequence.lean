import NandLang.Proofs.Run

/-! Sequences. Without a budget nothing depends on the steps counted so far, so it does not matter
where the steps of a sequence are counted: a row of statements does what its statements do one after
another, and however a row is grouped it does the same. -/
namespace NandLang

inductive Node.Regrouped : Node → Node → Prop
  | assoc (a b c : Node) (l₁ l₂ l₃ l₄ : Option Loc) :
      Regrouped (.seq (.seq a b l₁) c l₂) (.seq a (.seq b c l₃) l₄)
  | refl (n : Node) : Regrouped n n
  | symm {a b : Node} (h : Regrouped a b) : Regrouped b a
  | trans {a b c : Node} (h : Regrouped a b) (h' : Regrouped b c) : Regrouped a c
  | seq {a a' b b' : Node} (first : Regrouped a a') (second : Regrouped b b')
      (loc loc' : Option Loc) : Regrouped (.seq a b loc) (.seq a' b' loc')
  | ifThen (c : Node) {b b' : Node} (body : Regrouped b b') (loc : Option Loc) :
      Regrouped (.ifThen c b loc) (.ifThen c b' loc)
  | whileDo (c : Node) {b b' : Node} (body : Regrouped b b') (loc : Option Loc) :
      Regrouped (.whileDo c b loc) (.whileDo c b' loc)

namespace Exec

variable {α β : Type} {x y z : Exec α}

/-- Whatever the progress so far, a computation has this result, takes `steps` and logs `events`. -/
def Yields (x : Exec α) (result : Except Stop α) (steps : Nat) (events : List Event) : Prop :=
  ∀ p, x p = (result, ⟨p.steps + steps, events ++ p.events⟩)

theorem Yields.unique {r r' : Except Stop α} {k k' : Nat} {es es' : List Event}
    (h : x.Yields r k es) (h' : x.Yields r' k' es') : r = r' ∧ k = k' ∧ es = es' := by
  simpa using (h {}).symm.trans (h' {})

theorem Yields.bind_ok {a : α} {f : α → Exec β} {r : Except Stop β} {k j : Nat}
    {es fs : List Event} (h : x.Yields (.ok a) k es) (hf : (f a).Yields r j fs) :
    (x >>= f).Yields r (k + j) (fs ++ es) := by
  intro p
  rw [bind_of_ok (h p), hf]
  simp [Nat.add_assoc]

theorem Yields.bind_error {e : Stop} {k : Nat} {es : List Event} (h : x.Yields (.error e) k es)
    (f : α → Exec β) : (x >>= f).Yields (.error e) k es :=
  fun p => bind_of_error (h p) f

/-- Two computations have the same result and log, and take equally many steps to a value. -/
def Alike (x y : Exec α) : Prop :=
  ∃ r k j es, x.Yields r k es ∧ y.Yields r j es ∧ ∀ a, r = .ok a → k = j

theorem Yields.alike {r : Except Stop α} {k : Nat} {es : List Event} (h : x.Yields r k es) :
    Alike x x :=
  ⟨r, k, k, es, h, h, fun _ _ => rfl⟩

theorem Alike.symm (h : Alike x y) : Alike y x := by
  obtain ⟨r, k, j, es, hx, hy, hsteps⟩ := h
  exact ⟨r, j, k, es, hy, hx, fun a ha => (hsteps a ha).symm⟩

theorem Alike.trans (h : Alike x y) (h' : Alike y z) : Alike x z := by
  obtain ⟨r, k, j, es, hx, hy, hsteps⟩ := h
  obtain ⟨r', j', i, es', hy', hz, hsteps'⟩ := h'
  obtain ⟨rfl, rfl, rfl⟩ := hy.unique hy'
  exact ⟨r, k, i, es, hx, hz, fun a ha => (hsteps a ha).trans (hsteps' a ha)⟩

theorem Alike.bind {f g : α → Exec β} (h : Alike x y) (hfg : ∀ a, Alike (f a) (g a)) :
    Alike (x >>= f) (y >>= g) := by
  obtain ⟨r, k, j, es, hx, hy, hsteps⟩ := h
  cases r with
  | error e => exact ⟨.error e, k, j, es, hx.bind_error f, hy.bind_error g, nofun⟩
  | ok a =>
    obtain rfl := hsteps a rfl
    obtain ⟨r, i, i', fs, hf, hg, hsteps⟩ := hfg a
    refine ⟨r, k + i, k + i', fs ++ es, hx.bind_ok hf, hy.bind_ok hg, ?_⟩
    intro b hb
    rw [hsteps b hb]

theorem yields_ofExcept (r : Except Stop α) : (ofExcept r).Yields r 0 [] := fun _ => rfl

theorem yields_pure (a : α) : (pure a : Exec α).Yields (.ok a) 0 [] := fun _ => rfl

theorem yields_stop (e : Stop) : (stop e : Exec α).Yields (.error e) 0 [] := fun _ => rfl

theorem yields_log (e : Event) : (log e).Yields (.ok ()) 0 [e] := fun _ => rfl

theorem yields_record (events : List Event) : (record events).Yields (.ok ()) 0 events :=
  fun _ => rfl

end Exec

namespace Machine
open Exec

variable {m : Machine} {fuel : Nat} {a a' b b' c : Node} {s : Store}

theorem alike_inspect (m : Machine) (s : Store) : Alike (m.inspect s) (m.inspect s) := by
  unfold inspect
  split
  · exact (yields_stop _).alike
  · exact (yields_pure s).alike

theorem alike_block {body body' : Store → Exec Store} (h : Alike (body s) (body' s)) :
    Alike (block body s) (block body' s) :=
  h.bind fun _ => (yields_pure _).alike

section
variable (unlimited : m.limit = none)
include unlimited

theorem yields_tick (s : Store) : (m.tick s).Yields (.ok ()) 1 [] := by
  intro p
  unfold tick
  rw [unlimited]
  rfl

theorem alike_rounds {body body' : Store → Exec Store} (h : ∀ s, Alike (body s) (body' s))
    (cond : Store → Except Stop Bool) (fuel number : Nat) (s : Store) :
    Alike (m.rounds cond body fuel number s) (m.rounds cond body' fuel number s) := by
  induction fuel generalizing number s with
  | zero => exact (yields_stop _).alike
  | succ fuel ih =>
    rw [rounds, rounds]
    apply (yields_ofExcept _).alike.bind
    intro v
    cases v with
    | false => exact (yields_pure s).alike
    | true =>
      apply (yields_log _).alike.bind
      intro _
      apply (alike_block (h s)).bind
      intro t
      apply (yields_tick unlimited t).alike.bind
      intro _
      exact ih (number + 1) t

theorem alike_seq (ha : ∀ s, Alike (m.exec fuel a s) (m.exec fuel a' s))
    (hb : ∀ s, Alike (m.exec fuel b s) (m.exec fuel b' s)) (loc loc' : Option Loc) (s : Store) :
    Alike (m.exec fuel (.seq a b loc) s) (m.exec fuel (.seq a' b' loc') s) := by
  rw [exec, exec]
  apply (yields_tick unlimited s).alike.bind
  intro _
  exact (ha s).bind hb

theorem alike_ifThen (hb : ∀ s, Alike (m.exec fuel b s) (m.exec fuel b' s)) (c : Node)
    (loc : Option Loc) (s : Store) :
    Alike (m.exec fuel (.ifThen c b loc) s) (m.exec fuel (.ifThen c b' loc) s) := by
  rw [exec, exec]
  apply (yields_tick unlimited s).alike.bind
  intro _
  apply (yields_ofExcept _).alike.bind
  intro v
  cases v with
  | false => exact m.alike_inspect s
  | true => exact (alike_block (hb s)).bind fun t => m.alike_inspect t

theorem alike_whileDo (hb : ∀ s, Alike (m.exec fuel b s) (m.exec fuel b' s)) (c : Node)
    (loc : Option Loc) (s : Store) :
    Alike (m.exec fuel (.whileDo c b loc) s) (m.exec fuel (.whileDo c b' loc) s) := by
  rw [exec, exec]
  apply (yields_tick unlimited s).alike.bind
  intro _
  exact (alike_rounds unlimited hb _ fuel 0 s).bind fun t => m.alike_inspect t

theorem alike_exec (fuel : Nat) (n : Node) (s : Store) :
    Alike (m.exec fuel n s) (m.exec fuel n s) := by
  induction n using Node.basic_induction generalizing s with
  | seq a b loc iha ihb => exact alike_seq unlimited iha ihb loc loc s
  | ifThen c b loc ih => exact alike_ifThen unlimited ih c loc s
  | whileDo c b loc ih => exact alike_whileDo unlimited ih c loc s
  | basic n basic =>
    rw [m.exec_basic fuel basic]
    apply (yields_tick unlimited s).alike.bind
    intro _
    apply (yields_ofExcept _).alike.bind
    intro done
    apply (yields_record _).alike.bind
    intro _
    exact m.alike_inspect done.2

theorem exists_yields_exec (fuel : Nat) (n : Node) (s : Store) :
    ∃ r k es, (m.exec fuel n s).Yields r k es := by
  obtain ⟨r, k, -, es, h, -, -⟩ := alike_exec unlimited fuel n s
  exact ⟨r, k, es, h⟩

variable {r : Except Stop Store} {t : Store} {k j : Nat} {es fs : List Event}

theorem yields_seq (ha : (m.exec fuel a s).Yields (.ok t) k es)
    (hb : (m.exec fuel b t).Yields r j fs) (loc : Option Loc) :
    (m.exec fuel (.seq a b loc) s).Yields r (k + j + 1) (fs ++ es) := by
  intro p
  rw [exec, bind_of_ok (yields_tick unlimited s p), bind_of_ok (ha _), hb]
  simp only [List.nil_append, List.append_assoc, Prod.mk.injEq, Progress.mk.injEq, true_and,
    and_true]
  omega

theorem yields_seq_error {e : Stop} (ha : (m.exec fuel a s).Yields (.error e) k es) (b : Node)
    (loc : Option Loc) : (m.exec fuel (.seq a b loc) s).Yields (.error e) (k + 1) es := by
  intro p
  rw [exec, bind_of_ok (yields_tick unlimited s p), bind_of_error (ha _)]
  simp only [List.nil_append, Prod.mk.injEq, Progress.mk.injEq, true_and, and_true]
  omega

/-- The inner sequence is counted before the first statement on the one side and behind it on the
other, so the counts differ only where the first statement stops. -/
theorem alike_assoc (a b c : Node) (l₁ l₂ l₃ l₄ : Option Loc) (s : Store) :
    Alike (m.exec fuel (.seq (.seq a b l₁) c l₂) s) (m.exec fuel (.seq a (.seq b c l₃) l₄) s) := by
  obtain ⟨r, k, es, ha⟩ := exists_yields_exec unlimited fuel a s
  cases r with
  | error e =>
    exact ⟨.error e, k + 1 + 1, k + 1, es,
      yields_seq_error unlimited (yields_seq_error unlimited ha b l₁) c l₂,
      yields_seq_error unlimited ha _ l₄, nofun⟩
  | ok t =>
    obtain ⟨r, j, fs, hb⟩ := exists_yields_exec unlimited fuel b t
    have hab := yields_seq unlimited ha hb l₁
    cases r with
    | error e =>
      exact ⟨.error e, _, _, _, yields_seq_error unlimited hab c l₂,
        yields_seq unlimited ha (yields_seq_error unlimited hb c l₃) l₄, nofun⟩
    | ok u =>
      obtain ⟨r, i, gs, hc⟩ := exists_yields_exec unlimited fuel c u
      have habc := yields_seq unlimited ha (yields_seq unlimited hb hc l₃) l₄
      rw [List.append_assoc] at habc
      refine ⟨r, _, _, _, yields_seq unlimited hab hc l₂, habc, fun _ _ => ?_⟩
      omega

theorem alike_regrouped (fuel : Nat) (h : a.Regrouped b) (s : Store) :
    Alike (m.exec fuel a s) (m.exec fuel b s) := by
  induction h generalizing s with
  | assoc a b c l₁ l₂ l₃ l₄ => exact alike_assoc unlimited a b c l₁ l₂ l₃ l₄ s
  | refl n => exact alike_exec unlimited fuel n s
  | symm _ ih => exact (ih s).symm
  | trans _ _ ih ih' => exact (ih s).trans (ih' s)
  | seq _ _ loc loc' iha ihb => exact alike_seq unlimited iha ihb loc loc' s
  | ifThen c _ loc ih => exact alike_ifThen unlimited ih c loc s
  | whileDo c _ loc ih => exact alike_whileDo unlimited ih c loc s

end
end Machine

namespace Interpreter

/-- Two answers have the same result and log, and `extra` more steps led to the first store. -/
structure Answer.Agrees (extra : Nat) (a b : Answer Store) : Prop where
  result : a.result = b.result
  events : a.events = b.events
  steps : ∀ t, a.result = .ok t → a.interpreter.steps = b.interpreter.steps + extra

def execEach (i : Interpreter) (fuel : Nat) : List Node → Store → Answer Store
  | [], s => ⟨.ok s, i, []⟩
  | n :: rest, s =>
    let answer := i.exec fuel n s
    match answer.result with
    | .error _ => answer
    | .ok t =>
      let later := answer.interpreter.execEach fuel rest t
      { later with events := answer.events ++ later.events }

variable {i : Interpreter} {fuel : Nat} {n : Node} {s t : Store} {k : Nat} {es : List Event}

theorem exec_of_yields {r : Except Stop Store} (h : (i.machine.exec fuel n s).Yields r k es) :
    i.exec fuel n s = ⟨r, { i with steps := i.steps + k }, es.reverse⟩ := by
  rw [exec, h]
  simp

theorem execEach_of_yields_error {e : Stop}
    (h : (i.machine.exec fuel n s).Yields (.error e) k es) (rest : List Node) :
    i.execEach fuel (n :: rest) s = i.exec fuel n s := by
  rw [execEach, exec_of_yields h]

theorem execEach_of_yields_ok (h : (i.machine.exec fuel n s).Yields (.ok t) k es)
    (rest : List Node) :
    i.execEach fuel (n :: rest) s =
      let later := { i with steps := i.steps + k }.execEach fuel rest t
      { later with events := es.reverse ++ later.events } := by
  rw [execEach, exec_of_yields h]

theorem exec_sequence (unlimited : i.machine.limit = none) (loc : Option Loc) (first : Node)
    (rest : List Node) (s : Store) :
    (i.exec fuel (Node.sequence loc first rest) s).Agrees rest.length
      (i.execEach fuel (first :: rest) s) := by
  induction rest generalizing i first s with
  | nil =>
    obtain ⟨r, k, es, hfirst⟩ := Machine.exists_yields_exec unlimited fuel first s
    rw [Node.sequence]
    cases r with
    | error e =>
      rw [execEach_of_yields_error hfirst]
      exact ⟨rfl, rfl, fun _ _ => rfl⟩
    | ok t =>
      rw [execEach_of_yields_ok hfirst, exec_of_yields hfirst]
      exact ⟨rfl, (List.append_nil _).symm, fun _ _ => rfl⟩
  | cons next rest ih =>
    obtain ⟨r, k, es, hfirst⟩ := Machine.exists_yields_exec unlimited fuel first s
    rw [Node.sequence]
    cases r with
    | error e =>
      rw [execEach_of_yields_error hfirst, exec_of_yields hfirst,
        exec_of_yields (Machine.yields_seq_error unlimited hfirst _ loc)]
      exact ⟨rfl, rfl, nofun⟩
    | ok t =>
      obtain ⟨r, j, fs, hrest⟩ :=
        Machine.exists_yields_exec unlimited fuel (Node.sequence loc next rest) t
      -- What follows the first statement, from the steps that it led to.
      have hlater := ih (i := { i with steps := i.steps + k }) unlimited next t
      rw [exec_of_yields (i := { i with steps := i.steps + k }) hrest] at hlater
      rw [execEach_of_yields_ok hfirst,
        exec_of_yields (Machine.yields_seq unlimited hfirst hrest loc)]
      refine ⟨hlater.result, ?_, ?_⟩
      · rw [List.reverse_append]
        exact congrArg (es.reverse ++ ·) hlater.events
      · intro u hu
        have hsteps : i.steps + k + j = _ + rest.length := hlater.steps u hu
        simp only [List.length_cons]
        omega

theorem exec_regrouped (unlimited : i.machine.limit = none) {a b : Node} (h : a.Regrouped b)
    (s : Store) : (i.exec fuel a s).Agrees 0 (i.exec fuel b s) := by
  obtain ⟨r, k, j, es, ha, hb, hsteps⟩ := Machine.alike_regrouped unlimited fuel h s
  rw [exec_of_yields ha, exec_of_yields hb]
  refine ⟨rfl, rfl, ?_⟩
  intro t ht
  exact congrArg (i.steps + ·) (hsteps t ht)

end Interpreter

theorem Node.checkStmt_regrouped {a b : Node} (h : a.Regrouped b) (scope : Scope) :
    a.checkStmt scope = b.checkStmt scope := by
  induction h generalizing scope with
  | assoc a b c =>
    simp only [checkStmt]
    cases a.checkStmt scope <;> rfl
  | refl => rfl
  | symm _ ih => exact (ih scope).symm
  | trans _ _ ih ih' => exact (ih scope).trans (ih' scope)
  | seq _ _ _ _ iha ihb => simp only [checkStmt, iha, ihb]
  | ifThen _ _ _ ih | whileDo _ _ _ ih => simp only [checkStmt, ih]

namespace Checker

def statements (c : Checker) : Node → List Node → Scope → Answer (Option Scope)
  | first, [], scope => c.statement first scope
  | first, next :: rest, scope =>
    let answer := c.statement first scope
    match answer.result with
    | .ok (some after) =>
      let later := answer.checker.statements next rest after
      { later with events := answer.events ++ later.events }
    | _ => answer

theorem statement_sequence (c : Checker) (loc : Option Loc) (first : Node) (rest : List Node)
    (scope : Scope) :
    c.statement (Node.sequence loc first rest) scope = c.statements first rest scope := by
  induction rest generalizing c first scope with
  | nil => rfl
  | cons next rest ih =>
    rw [Node.sequence, statements, statement, statement, Node.checkStmt]
    rcases hfirst : first.checkStmt scope with (d | m) | after
    · rfl
    · rfl
    · exact ih ⟨[]⟩ next after

end Checker

/-- Checking a row of statements is checking them one after another, each in the scope behind the
one before. Without a budget, and with the same rounds allowed, executing the row is executing them
one after another, with a step more for each statement behind the first. Trees that differ only in
how their sequences are grouped are checked alike, and executed alike up to the steps to a fault. -/
theorem sequence_law :
    (∀ (c : Checker) (loc : Option Loc) (first : Node) (rest : List Node) (scope : Scope),
      c.statement (Node.sequence loc first rest) scope = c.statements first rest scope) ∧
    (∀ i : Interpreter, i.machine.limit = none →
      ∀ (fuel : Nat) (loc : Option Loc) (first : Node) (rest : List Node) (s : Store),
        (i.exec fuel (Node.sequence loc first rest) s).Agrees rest.length
          (i.execEach fuel (first :: rest) s)) ∧
    ∀ a b : Node, a.Regrouped b →
      (∀ (c : Checker) (scope : Scope), c.statement a scope = c.statement b scope) ∧
      ∀ i : Interpreter, i.machine.limit = none → ∀ (fuel : Nat) (s : Store),
        (i.exec fuel a s).Agrees 0 (i.exec fuel b s) := by
  refine ⟨Checker.statement_sequence, ?_, ?_⟩
  · intro i unlimited fuel loc first rest s
    exact Interpreter.exec_sequence unlimited loc first rest s
  · intro a b regrouped
    refine ⟨?_, fun i unlimited fuel s => Interpreter.exec_regrouped unlimited regrouped s⟩
    intro c scope
    rw [Checker.statement, Checker.statement, Node.checkStmt_regrouped regrouped]

def Node.oneRound (group : Node → Node → Node → Node) : Node :=
  .whileDo (.var "a" none)
    (group (.decl "b" (.var "a" none) none) (.assign "a" (.lit false none) none) (.free "b" none))
    none

theorem oneRound_grouped :
    let left := Node.oneRound fun a b c => .seq (.seq a b none) c none
    let right := Node.oneRound fun a b c => .seq a (.seq b c none) none
    let a := Node.decl "a" (.lit true none) none
    ∃ t, (Interpreter.exec {} 2 (Node.sequence none a [left]) {}).result = .ok t ∧
      (Interpreter.exec {} 2 (Node.sequence none a [right]) {}).result = .ok t ∧
      (Interpreter.exec {} 2 (Node.sequence none a [right]) {}).interpreter.steps =
        (Interpreter.execEach {} 2 [a, left] {}).interpreter.steps + 1 := by
  intro left right a
  obtain ⟨t, ht⟩ : ∃ t, (Interpreter.exec {} 2 (Node.sequence none a [left]) {}).result = .ok t :=
    ⟨_, rfl⟩
  obtain ⟨-, row, regroup⟩ := sequence_law
  have regrouped : (Node.sequence none a [left]).Regrouped (Node.sequence none a [right]) :=
    .seq (.refl a) (.whileDo _ (.assoc _ _ _ _ _ _ _) _) _ _
  have each := row {} rfl 2 none a [left] {}
  have agrees := (regroup _ _ regrouped).2 {} rfl 2 {}
  exact ⟨t, ht, agrees.result.symm.trans ht, (agrees.steps t ht).symm.trans (each.steps t ht)⟩

end NandLang
