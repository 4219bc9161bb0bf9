import NandLang.Proofs.Reachable

/-! Two machines in lockstep. They execute the same statement on stores that are related, and each
step of the one answers a step of the other; where the relation is kept by actions and by leaving
blocks, the executions end alike after equally many steps. -/
namespace NandLang

inductive Matched {α β : Type} (R : α → β → Prop) (S : Stop → Stop → Prop) :
    Except Stop α → Except Stop β → Prop
  | ok {a : α} {b : β} (related : R a b) : Matched R S (.ok a) (.ok b)
  | error {e f : Stop} (related : S e f) : Matched R S (.error e) (.error f)

theorem Matched.refl {α : Type} {R : α → α → Prop} {S : Stop → Stop → Prop} (hR : ∀ a, R a a)
    (hS : ∀ e, S e e) (x : Except Stop α) : Matched R S x x := by
  cases x with
  | ok a => exact .ok (hR a)
  | error e => exact .error (hS e)

theorem Matched.bind {α β γ δ : Type} {R : α → β → Prop} {S : Stop → Stop → Prop}
    {T : γ → δ → Prop} {a : Except Stop α} {b : Except Stop β} {f : α → Except Stop γ}
    {g : β → Except Stop δ} (h : Matched R S a b)
    (hfg : ∀ x y, R x y → Matched T S (f x) (g y)) : Matched T S (a >>= f) (b >>= g) := by
  cases h with
  | ok related => exact hfg _ _ related
  | error related => exact .error related

theorem Matched.and {α β : Type} {R : α → β → Prop} {S : Stop → Stop → Prop} {P : α → Prop}
    {Q : β → Prop} {a : Except Stop α} {b : Except Stop β} (h : Matched R S a b)
    (ha : ∀ x, a = .ok x → P x) (hb : ∀ y, b = .ok y → Q y) :
    Matched (fun x y => R x y ∧ P x ∧ Q y) S a b := by
  cases h with
  | ok related => exact .ok ⟨related, ha _ rfl, hb _ rfl⟩
  | error related => exact .error related

namespace Exec

variable {α β γ δ : Type} {R : α → β → Prop} {S : Stop → Stop → Prop} {x : Exec α} {y : Exec β}

/-- From equally many steps, two computations take equally many and end alike. -/
def Lockstep (R : α → β → Prop) (S : Stop → Stop → Prop) (x : Exec α) (y : Exec β) : Prop :=
  ∀ p q, p.steps = q.steps → Matched R S (x p).1 (y q).1 ∧ (x p).2.steps = (y q).2.steps

theorem lockstep_pure {a : α} {b : β} (h : R a b) : Lockstep R S (pure a) (pure b) :=
  fun _ _ hsteps => ⟨.ok h, hsteps⟩

theorem lockstep_stop {e f : Stop} (h : S e f) : Lockstep R S (stop e) (stop f) :=
  fun _ _ hsteps => ⟨.error h, hsteps⟩

theorem lockstep_ofExcept {a : Except Stop α} {b : Except Stop β} (h : Matched R S a b) :
    Lockstep R S (ofExcept a) (ofExcept b) :=
  fun _ _ hsteps => ⟨h, hsteps⟩

theorem lockstep_record (events events' : List Event) :
    Lockstep (fun _ _ => True) S (record events) (record events') :=
  fun _ _ hsteps => ⟨.ok trivial, hsteps⟩

theorem lockstep_log (e f : Event) : Lockstep (fun _ _ => True) S (log e) (log f) :=
  fun _ _ hsteps => ⟨.ok trivial, hsteps⟩

theorem Lockstep.bind {T : γ → δ → Prop} {f : α → Exec γ} {g : β → Exec δ}
    (h : Lockstep R S x y) (hfg : ∀ a b, R a b → Lockstep T S (f a) (g b)) :
    Lockstep T S (x >>= f) (y >>= g) := by
  intro p q hsteps
  obtain ⟨hmatched, hnext⟩ := h p q hsteps
  rcases hx : x p with ⟨rx, p'⟩
  rcases hy : y q with ⟨ry, q'⟩
  rw [hx, hy] at hmatched hnext
  cases hmatched with
  | ok related =>
    rw [bind_of_ok hx, bind_of_ok hy]
    exact hfg _ _ related p' q' hnext
  | error related =>
    rw [bind_of_error hx, bind_of_error hy]
    exact ⟨.error related, hnext⟩

theorem Lockstep.and {P : α → Prop} {Q : β → Prop} (h : Lockstep R S x y)
    (hx : ∀ {p a p'}, x p = (.ok a, p') → P a) (hy : ∀ {q b q'}, y q = (.ok b, q') → Q b) :
    Lockstep (fun a b => R a b ∧ P a ∧ Q b) S x y := by
  intro p q hsteps
  obtain ⟨hmatched, hnext⟩ := h p q hsteps
  refine ⟨hmatched.and ?_ ?_, hnext⟩
  · exact fun a ha => hx (Prod.ext ha rfl)
  · exact fun b hb => hy (Prod.ext hb rfl)

end Exec

namespace Machine
open Exec

variable {m m' : Machine} {R : Store → Store → Prop} {S : Stop → Stop → Prop} {s t : Store}

theorem lockstep_tick (limit : m.limit = m'.limit) (h : S (.exhausted s) (.exhausted t)) :
    Lockstep (fun _ _ => True) S (m.tick s) (m'.tick t) := by
  intro p q hsteps
  have hnext : p.next.steps = q.next.steps := congrArg (· + 1) hsteps
  obtain ⟨hp, hk⟩ | ⟨hp, k, hk, hover⟩ := m.tick_cases s p <;>
    obtain ⟨hq, hk'⟩ | ⟨hq, k', hk', hover'⟩ := m'.tick_cases t q <;>
      rw [hp, hq]
  · exact ⟨.ok trivial, hnext⟩
  · have := hk k' (limit.trans hk')
    omega
  · have := hk' k (limit.symm.trans hk)
    omega
  · exact ⟨.error h, hnext⟩

/-- What a relation between stores has to keep for two machines to run in lockstep, as long as they
execute nothing but the nodes given. -/
structure Simulation (among : List Node) (m m' : Machine) (R : Store → Store → Prop)
    (S : Stop → Stop → Prop) : Prop where
  limit : m.limit = m'.limit
  eval : ∀ {s t}, R s t → ∀ n ∈ among, Matched Eq S (n.eval s) (n.eval t)
  perform : ∀ {s t}, R s t → ∀ n ∈ among,
    Matched (fun d e => R d.2 e.2) S (m.perform s n) (m'.perform t n)
  inspect : ∀ {s t}, R s t → Lockstep R S (m.inspect s) (m'.inspect t)
  /-- The scopes that a block is left for are related as they were on entry. -/
  leave : ∀ {s t s' t'}, R s t → R s' t' → s'.GrowsOn s → t'.GrowsOn t →
    R (s'.withEnvironment s.environment) (t'.withEnvironment t.environment)
  exhausted : ∀ {s t}, R s t → S (.exhausted s) (.exhausted t)
  unfinished : S .unfinished .unfinished

namespace Simulation

variable {among : List Node} (sim : Simulation among m m' R S)
include sim

theorem block {fuel : Nat} {n : Node} (h : R s t)
    (body : Lockstep R S (m.exec fuel n s) (m'.exec fuel n t)) :
    Lockstep R S (Machine.block (m.exec fuel n) s) (Machine.block (m'.exec fuel n) t) := by
  -- The simulation knows nothing of scopes; that they grow is known of each side by itself.
  have hgrows := body.and (P := (·.GrowsOn s)) (Q := (·.GrowsOn t))
    (fun hrun => (path_of_exec hrun).growsOn) (fun hrun => (path_of_exec hrun).growsOn)
  apply hgrows.bind
  rintro s' t' ⟨hinner, hs, ht⟩
  exact lockstep_pure (sim.leave h hinner hs ht)

theorem rounds {body : Nat} {c b : Node} (member : c ∈ among)
    (ih : ∀ {s t}, R s t → Lockstep R S (m.exec body b s) (m'.exec body b t)) (fuel number : Nat)
    (h : R s t) :
    Lockstep R S (m.rounds (fun s => c.eval s) (m.exec body b) fuel number s)
      (m'.rounds (fun t => c.eval t) (m'.exec body b) fuel number t) := by
  induction fuel generalizing number s t with
  | zero => exact lockstep_stop sim.unfinished
  | succ fuel rounds_ih =>
    rw [Machine.rounds, Machine.rounds]
    apply (lockstep_ofExcept (sim.eval h c member)).bind
    rintro v _ rfl
    cases v with
    | false => exact lockstep_pure h
    | true =>
      apply (lockstep_log _ _).bind
      intro _ _ _
      apply (sim.block h (ih h)).bind
      intro s' t' h'
      apply (lockstep_tick sim.limit (sim.exhausted h')).bind
      intro _ _ _
      exact rounds_ih _ h'

theorem exec (fuel : Nat) {n : Node} (sub : n.preorder ⊆ among) (h : R s t) :
    Lockstep R S (m.exec fuel n s) (m'.exec fuel n t) := by
  have htick {s t : Store} (h : R s t) := lockstep_tick sim.limit (sim.exhausted h)
  induction n using Node.basic_induction generalizing s t with
  | seq a b loc iha ihb =>
    have hleft := List.Subset.trans (Node.preorder_subset_seq_left a b loc) sub
    have hright := List.Subset.trans (Node.preorder_subset_seq_right a b loc) sub
    rw [Machine.exec, Machine.exec]
    apply (htick h).bind
    intro _ _ _
    apply (iha hleft h).bind
    intro s' t' h'
    exact ihb hright h'
  | ifThen c b loc ih =>
    have hcond := sub (Node.cond_mem_preorder_ifThen c b loc)
    have hbody := List.Subset.trans (Node.preorder_subset_ifThen c b loc) sub
    rw [Machine.exec, Machine.exec]
    apply (htick h).bind
    intro _ _ _
    apply (lockstep_ofExcept (sim.eval h c hcond)).bind
    rintro v _ rfl
    cases v with
    | false => exact sim.inspect h
    | true =>
      apply (sim.block h (ih hbody h)).bind
      intro s' t' h'
      exact sim.inspect h'
  | whileDo c b loc ih =>
    have hcond := sub (Node.cond_mem_preorder_whileDo c b loc)
    have hbody := List.Subset.trans (Node.preorder_subset_whileDo c b loc) sub
    rw [Machine.exec, Machine.exec]
    apply (htick h).bind
    intro _ _ _
    apply (sim.rounds hcond (ih hbody) fuel 0 h).bind
    intro s' t' h'
    exact sim.inspect h'
  | basic n hn =>
    rw [m.exec_basic fuel hn, m'.exec_basic fuel hn]
    apply (htick h).bind
    intro _ _ _
    apply (lockstep_ofExcept (sim.perform h n (sub (Node.mem_preorder_self n)))).bind
    intro d e hde
    apply (lockstep_record _ _).bind
    intro _ _ _
    exact sim.inspect hde

end Simulation
end Machine
end NandLang
