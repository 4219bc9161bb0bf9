import NandLang.Machine
import NandLang.Proofs.Store

/-! Rules for executions. `Exec.Ends` says how a computation ends, and has one law for each way that
computations are built, so that what holds of an execution is read off statement by statement. All
statements but sequences, conditionals and loops act on the store once, by `Machine.perform`. -/
namespace NandLang

theorem bind_eq_ok_iff {ε α β : Type} {x : Except ε α} {f : α → Except ε β} {b : β} :
    x >>= f = .ok b ↔ ∃ a, x = .ok a ∧ f a = .ok b := by
  cases x <;> simp [bind, Except.bind]

theorem bind_eq_error_iff {ε α β : Type} {x : Except ε α} {f : α → Except ε β} {e : ε} :
    x >>= f = .error e ↔ x = .error e ∨ ∃ a, x = .ok a ∧ f a = .error e := by
  cases x <;> simp [bind, Except.bind]

namespace Progress

def next (p : Progress) : Progress := { p with steps := p.steps + 1 }

def note (p : Progress) (events : List Event) : Progress := { p with events := events ++ p.events }

end Progress

namespace Exec

variable {α β : Type} {x : Exec α} {p : Progress}

theorem bind_apply (x : Exec α) (f : α → Exec β) (p : Progress) :
    (x >>= f) p = match x p with
      | (.ok a, q) => f a q
      | (.error e, q) => (.error e, q) := rfl

theorem bind_of_ok {a : α} {q : Progress} (h : x p = (.ok a, q)) (f : α → Exec β) :
    (x >>= f) p = f a q := by
  rw [bind_apply, h]

theorem bind_of_error {e : Stop} {q : Progress} (h : x p = (.error e, q)) (f : α → Exec β) :
    (x >>= f) p = (.error e, q) := by
  rw [bind_apply, h]

def record (events : List Event) : Exec Unit := fun p => (.ok (), p.note events)

/-- From the progress given, a computation yields a value with `post`, or stops for a reason with
`halt`. Both may depend on the progress made by then. -/
def Ends (x : Exec α) (p : Progress) (post : α → Progress → Prop)
    (halt : Stop → Progress → Prop) : Prop :=
  match x p with
  | (.ok a, q) => post a q
  | (.error e, q) => halt e q

variable {post post' : α → Progress → Prop} {halt halt' : Stop → Progress → Prop}

theorem Ends.ok (h : x.Ends p post halt) {a : α} {q : Progress} (hx : x p = (.ok a, q)) :
    post a q := by
  unfold Ends at h
  rwa [hx] at h

theorem Ends.error (h : x.Ends p post halt) {e : Stop} {q : Progress}
    (hx : x p = (.error e, q)) : halt e q := by
  unfold Ends at h
  rwa [hx] at h

theorem Ends.imp (h : x.Ends p post halt) (hpost : ∀ a q, post a q → post' a q)
    (hhalt : ∀ e q, halt e q → halt' e q) : x.Ends p post' halt' := by
  unfold Ends at h ⊢
  split at h
  · exact hpost _ _ h
  · exact hhalt _ _ h

@[simp] theorem ends_log (e : Event) {post : Unit → Progress → Prop} :
    (log e).Ends p post halt ↔ post () (p.note [e]) := Iff.rfl

@[simp] theorem ends_record (events : List Event) {post : Unit → Progress → Prop} :
    (record events).Ends p post halt ↔ post () (p.note events) := Iff.rfl

theorem ends_ofExcept {r : Except Stop α} (ok : ∀ a, r = .ok a → post a p)
    (error : ∀ e, r = .error e → halt e p) : (ofExcept r).Ends p post halt := by
  cases r with
  | ok a => exact ok a rfl
  | error e => exact error e rfl

@[simp] theorem ends_bind (f : α → Exec β) {post : β → Progress → Prop} :
    (x >>= f).Ends p post halt ↔ x.Ends p (fun a q => (f a).Ends q post halt) halt := by
  unfold Ends
  rw [bind_apply]
  rcases x p with ⟨_ | _, _⟩ <;> rfl

end Exec

namespace Machine

variable {m : Machine} {s : Store} {p : Progress}

theorem tick_cases (m : Machine) (s : Store) (p : Progress) :
    (m.tick s p = (.ok (), p.next) ∧ ∀ k, m.limit = some k → p.steps < k) ∨
      (m.tick s p = (.error (.exhausted s), p.next) ∧ ∃ k, m.limit = some k ∧ k ≤ p.steps) := by
  unfold tick
  cases hlimit : m.limit with
  | none => exact .inl ⟨rfl, by simp⟩
  | some k =>
    by_cases hk : k < p.steps + 1
    · refine .inr ⟨?_, k, rfl, Nat.le_of_lt_succ hk⟩
      exact if_pos hk
    · refine .inl ⟨if_neg hk, ?_⟩
      rintro j ⟨⟩
      exact Nat.lt_of_succ_le (Nat.le_of_not_lt hk)

theorem ends_tick {post : Unit → Progress → Prop} {halt : Stop → Progress → Prop}
    (ok : (∀ k, m.limit = some k → p.steps < k) → post () p.next)
    (spent : ∀ k, m.limit = some k → k ≤ p.steps → halt (.exhausted s) p.next) :
    (m.tick s).Ends p post halt := by
  unfold Exec.Ends
  obtain ⟨h, hlimit⟩ | ⟨h, k, hlimit, hk⟩ := m.tick_cases s p <;> rw [h]
  · exact ok hlimit
  · exact spent k hlimit hk

theorem ends_inspect {post : Store → Progress → Prop} {halt : Stop → Progress → Prop}
    (ok : post s p) (bad : s.violations ≠ [] → halt (.unsound s.violations) p) :
    (m.inspect s).Ends p post halt := by
  unfold inspect
  split
  · rename_i h
    exact bad (by simpa using (Bool.and_eq_true_iff.mp h).2)
  · exact ok

theorem inspect_of_sound (sound : s.Sound) : m.inspect s = pure s := by
  unfold inspect
  rw [sound.violations_eq_nil, List.isEmpty_nil, Bool.not_true, Bool.and_false]
  rfl

@[simp] theorem ends_block {body : Store → Exec Store} {post : Store → Progress → Prop}
    {halt : Stop → Progress → Prop} :
    (block body s).Ends p post halt ↔
      (body s).Ends p (fun t q => post (t.withEnvironment s.environment) q) halt := by
  unfold block
  rw [Exec.ends_bind]
  rfl

/-- The loop rule: `I` holds whenever the condition is tested, if it holds at first and every round
brings it back. It may depend on the number of rounds done. -/
theorem ends_rounds {cond : Store → Except Stop Bool} {body : Store → Exec Store}
    {I : Nat → Store → Progress → Prop} {post : Store → Progress → Prop}
    {halt : Stop → Progress → Prop}
    (round : ∀ {number s p}, I number s p → cond s = .ok true →
      (body s).Ends (p.note [.iteration (number + 1)])
        (fun t q =>
          ((∀ k, m.limit = some k → q.steps < k) →
            I (number + 1) (t.withEnvironment s.environment) q.next) ∧
          ∀ k, m.limit = some k → k ≤ q.steps →
            halt (.exhausted (t.withEnvironment s.environment)) q.next) halt)
    (done : ∀ {number s p}, I number s p → cond s = .ok false → post s p)
    (broken : ∀ {number s p e}, I number s p → cond s = .error e → halt e p)
    (unfinished : ∀ {number s p}, I number s p → halt .unfinished p)
    (fuel : Nat) {number : Nat} (start : I number s p) :
    (m.rounds cond body fuel number s).Ends p post halt := by
  induction fuel generalizing number s p with
  | zero => exact unfinished start
  | succ fuel ih =>
    rw [rounds, Exec.ends_bind]
    apply Exec.ends_ofExcept
    · intro b hcond
      cases b with
      | true =>
        simp only [if_true, Exec.ends_bind, Exec.ends_log, ends_block]
        apply (round start hcond).imp
        · rintro t q ⟨hnext, hover⟩
          exact ends_tick (fun hlimit => ih (hnext hlimit)) hover
        · exact fun _ _ h => h
      | false => exact done start hcond
    · intro e hcond
      exact broken start hcond

end Machine

/-! Basic statements. -/

def Node.basic : Node → Bool
  | .seq .. | .ifThen .. | .whileDo .. => false
  | _ => true

/-- Induction along the statements that an execution descends into. -/
@[elab_as_elim]
theorem Node.basic_induction {motive : Node → Prop}
    (seq : ∀ a b loc, motive a → motive b → motive (.seq a b loc))
    (ifThen : ∀ c b loc, motive b → motive (.ifThen c b loc))
    (whileDo : ∀ c b loc, motive b → motive (.whileDo c b loc))
    (basic : ∀ n, n.basic = true → motive n) (n : Node) : motive n := by
  induction n with
  | seq a b loc iha ihb => exact seq a b loc iha ihb
  | ifThen c b loc _ ihb => exact ifThen c b loc ihb
  | whileDo c b loc _ ihb => exact whileDo c b loc ihb
  | _ => exact basic _ rfl

namespace Machine

def perform (m : Machine) (s : Store) : Node → Except Stop (List Event × Store)
  | .decl x e loc => do
    let v ← e.eval s
    match s.lookup x with
    | some l => .error (.fault ⟨.redeclared, x, some l, loc⟩)
    | none =>
      let (l, next) := m.allocator.allocate s
      .ok ([.declared x l v], s.declare x l v next)
  | .assign x e loc => do
    let v ← e.eval s
    let l ← Node.resolve s x loc
    match s.read l with
    | none => .error (.fault ⟨.invalidLocation, x, some l, loc⟩)
    | some _ => .ok ([], s.write l v)
  | .free x loc => do
    let l ← Node.resolve s x loc
    .ok ([.released x l], s.release x l)
  | n => .error (.misplaced ⟨.statement, n⟩)

theorem exec_basic (m : Machine) (fuel : Nat) {n : Node} (h : n.basic = true) (s : Store) :
    m.exec fuel n s = (do
      m.tick s
      let done ← Exec.ofExcept (m.perform s n)
      Exec.record done.1
      m.inspect done.2) := by
  funext p
  obtain ⟨htick, -⟩ | ⟨htick, -⟩ := m.tick_cases s p
  · rw [Exec.bind_of_ok htick]
    cases n with
    | seq | ifThen | whileDo => cases h
    | decl x e loc =>
      rw [exec, Exec.bind_of_ok htick, perform]
      cases e.eval s with
      | error stop => rfl
      | ok v => cases s.lookup x <;> rfl
    | assign x e loc =>
      rw [exec, Exec.bind_of_ok htick, perform]
      cases e.eval s with
      | error stop => rfl
      | ok v =>
        cases Node.resolve s x loc with
        | error stop => rfl
        | ok l =>
          dsimp only [bind, Exec.bind, Except.bind, Exec.ofExcept]
          cases s.read l <;> rfl
    | free x loc =>
      rw [exec, Exec.bind_of_ok htick, perform]
      cases Node.resolve s x loc <;> rfl
    | _ =>
      rw [exec, Exec.bind_of_ok htick]
      · rfl
      all_goals simp
  · rw [Exec.bind_of_error htick]
    cases n with
    | seq | ifThen | whileDo => cases h
    | _ =>
      rw [exec, Exec.bind_of_error htick]
      all_goals simp

end Machine

theorem Node.resolve_eq_ok_iff {s : Store} {x : Name} {loc : Option Loc} {l : Location} :
    Node.resolve s x loc = .ok l ↔ s.lookup x = some l ∧ s.isFreed x = false := by
  unfold Node.resolve
  cases s.lookup x with
  | none => simp
  | some k => cases s.isFreed x <;> simp

namespace Machine

inductive Acts (m : Machine) (s : Store) : Node → List Event → Store → Prop
  | decl {x : Name} {e : Node} {loc : Option Loc} {v : Bool} (value : e.eval s = .ok v)
      (new : s.lookup x = none) :
      Acts m s (.decl x e loc) [.declared x (m.allocator.allocate s).1 v]
        (s.declare x (m.allocator.allocate s).1 v (m.allocator.allocate s).2)
  | assign {x : Name} {e : Node} {loc : Option Loc} {v : Bool} {l : Location}
      (value : e.eval s = .ok v) (bound : s.lookup x = some l) (live : s.isFreed x = false)
      (stored : l ∈ s.memory.keys) : Acts m s (.assign x e loc) [] (s.write l v)
  | free {x : Name} {loc : Option Loc} {l : Location} (bound : s.lookup x = some l)
      (live : s.isFreed x = false) : Acts m s (.free x loc) [.released x l] (s.release x l)

theorem acts_of_perform {m : Machine} {s t : Store} {n : Node} {events : List Event}
    (h : m.perform s n = .ok (events, t)) : m.Acts s n events t := by
  cases n with
  | decl x e loc =>
    obtain ⟨v, hv, h⟩ := bind_eq_ok_iff.mp h
    cases hx : s.lookup x with
    | some l => rw [hx] at h; cases h
    | none =>
      rw [hx] at h
      cases h
      exact .decl hv hx
  | assign x e loc =>
    obtain ⟨v, hv, h⟩ := bind_eq_ok_iff.mp h
    obtain ⟨l, hl, h⟩ := bind_eq_ok_iff.mp h
    obtain ⟨bound, live⟩ := Node.resolve_eq_ok_iff.mp hl
    cases hr : s.read l with
    | none => rw [hr] at h; cases h
    | some old =>
      rw [hr] at h
      cases h
      exact .assign hv bound live (Table.mem_keys_of_get? hr)
  | free x loc =>
    obtain ⟨l, hl, h⟩ := bind_eq_ok_iff.mp h
    obtain ⟨bound, live⟩ := Node.resolve_eq_ok_iff.mp hl
    cases h
    exact .free bound live
  | _ => cases h

/-- Induction along an execution that yields a store, from the actions of its basic statements. A
round of a loop is its body and then the rest of the loop. -/
theorem exec_induction {m : Machine} {motive : Node → Store → Store → Prop}
    (seq : ∀ {a b loc s t u}, motive a s t → motive b t u → motive (.seq a b loc) s u)
    (skip : ∀ {c b loc s}, c.eval s = .ok false → motive (.ifThen c b loc) s s)
    (branch : ∀ {c b loc s t}, c.eval s = .ok true → motive b s t →
      motive (.ifThen c b loc) s (t.withEnvironment s.environment))
    (done : ∀ {c b loc s}, c.eval s = .ok false → motive (.whileDo c b loc) s s)
    (round : ∀ {c b loc s t u}, c.eval s = .ok true → motive b s t →
      motive (.whileDo c b loc) (t.withEnvironment s.environment) u →
      motive (.whileDo c b loc) s u)
    (basic : ∀ {n s t events}, m.Acts s n events t → motive n s t)
    (fuel : Nat) (n : Node) (s : Store) (p : Progress) :
    (m.exec fuel n s).Ends p (fun t _ => motive n s t) fun _ _ => True := by
  induction n using Node.basic_induction generalizing s p with
  | seq a b loc iha ihb =>
    rw [exec, Exec.ends_bind]
    apply ends_tick
    · intro _
      rw [Exec.ends_bind]
      apply (iha s p.next).imp
      · intro t q ht
        exact (ihb t q).imp (fun u _ hu => seq ht hu) fun _ _ => id
      · exact fun _ _ => id
    · exact fun _ _ _ => trivial
  | ifThen c b loc ih =>
    rw [exec, Exec.ends_bind]
    apply ends_tick
    · intro _
      rw [Exec.ends_bind]
      apply Exec.ends_ofExcept
      · intro v hv
        cases v with
        | false => exact ends_inspect (skip hv) fun _ => trivial
        | true =>
          simp only [if_true, Exec.ends_bind, ends_block]
          apply (ih s p.next).imp
          · exact fun t q ht => ends_inspect (branch hv ht) fun _ => trivial
          · exact fun _ _ => id
      · exact fun _ _ => trivial
    · exact fun _ _ _ => trivial
  | whileDo c b loc ih =>
    rw [exec, Exec.ends_bind]
    apply ends_tick
    · intro _
      rw [Exec.ends_bind]
      -- What the loop yields from a test of its condition on, it yields from its start.
      apply ends_rounds
        (I := fun _ t _ => ∀ u, motive (.whileDo c b loc) t u → motive (.whileDo c b loc) s u)
      · intro number t q ht hcond
        apply (ih t _).imp
        · intro u r hu
          exact ⟨fun _ w hw => ht w (round hcond hu hw), fun _ _ _ => trivial⟩
        · exact fun _ _ => id
      · intro number t q ht hcond
        exact ends_inspect (ht t (done hcond)) fun _ => trivial
      · exact fun _ _ => trivial
      · exact fun _ => trivial
      · exact fun _ => id
    · exact fun _ _ _ => trivial
  | basic n h =>
    rw [m.exec_basic fuel h, Exec.ends_bind]
    apply ends_tick
    · intro _
      rw [Exec.ends_bind]
      apply Exec.ends_ofExcept
      · rintro ⟨events, t⟩ ht
        rw [Exec.ends_bind, Exec.ends_record]
        exact ends_inspect (basic (acts_of_perform ht)) fun _ => trivial
      · exact fun _ _ => trivial
    · exact fun _ _ _ => trivial

end Machine
end NandLang
