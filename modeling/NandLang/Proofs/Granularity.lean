import NandLang.Proofs.Budget

/-! What one step does. Nothing acts on a store without counting a step first, so an execution that
is stopped one step later has come further by the action of one basic statement at most; the blocks
that it has left on the way take bindings away, and nothing else. -/
namespace NandLang
namespace Machine

variable {m : Machine} {among : List Node} {a b s t : Store}

/-- From the first store to the second by one action at most, and by leaving blocks. -/
def Nearby (m : Machine) (among : List Node) (a b : Store) : Prop :=
  ∃ t, (t = a ∨ ∃ n ∈ among, ∃ events, m.Acts a n events t) ∧
    b = t.withEnvironment b.environment ∧ t.GrowsOn b

theorem Nearby.refl (m : Machine) (among : List Node) (a : Store) : m.Nearby among a a :=
  ⟨a, .inl rfl, rfl, .refl a⟩

theorem Acts.nearby {n : Node} {events : List Event} (acts : m.Acts a n events b)
    (member : n ∈ among) : m.Nearby among a b :=
  ⟨b, .inr ⟨n, member, events, acts⟩, rfl, .refl b⟩

theorem Nearby.leave (h : m.Nearby among a b) (grows : b.GrowsOn s) :
    m.Nearby among a (b.withEnvironment s.environment) := by
  obtain ⟨t, acted, hb, grown⟩ := h
  refine ⟨t, acted, ?_, List.IsPrefix.trans grows grown⟩
  rw [hb]
  rfl

end Machine

namespace Exec

variable {α β : Type} {k : Nat} {near : Store → Store → Prop} {N : Store → α → Prop}
  {M : Store → β → Prop} {x y : Exec α} {s : Store} {p : Progress}

/-- A computation whose budget is used up, at `k + 1` steps, comes to a value in the relation `N`
with a given store without counting another step, or runs out on a store near that one, or stops
otherwise. -/
def Coasts (k : Nat) (near : Store → Store → Prop) (N : Store → α → Prop) (s : Store) (x : Exec α)
    (p : Progress) : Prop :=
  x.Ends p (fun a q => q.steps = k + 1 ∧ N s a) fun e _ => ∀ t, e = .exhausted t → near s t

/-- Within a budget of `k` steps the two computations are the same, or the first one runs out of it,
and the second one coasts from there. -/
def OneMore (k : Nat) (near : Store → Store → Prop) (N : Store → α → Prop) (x y : Exec α) : Prop :=
  ∀ p, p.steps ≤ k → (x p = y p ∧ (y p).2.steps ≤ k) ∨
    ∃ s, (x p).1 = .error (.exhausted s) ∧ y.Coasts k near N s p

theorem Coasts.bind {f : α → Exec β} (h : x.Coasts k near N s p)
    (last : ∀ a q, N s a → q.steps = k + 1 → (f a).Coasts k near M s q) :
    (x >>= f).Coasts k near M s p := by
  rw [Coasts, ends_bind]
  exact Ends.imp h (fun a q ⟨hq, ha⟩ => last a q ha hq) fun _ _ => id

theorem oneMore_of_still (still : ∀ p, (x p).2.steps = p.steps) : OneMore k near N x x := by
  intro p hp
  rw [still p]
  exact .inl ⟨rfl, hp⟩

theorem OneMore.bind {f g : α → Exec β} (h : OneMore k near N x y)
    (hfg : ∀ a, OneMore k near M (f a) (g a))
    (last : ∀ s a q, N s a → q.steps = k + 1 → (g a).Coasts k near M s q) :
    OneMore k near M (x >>= f) (y >>= g) := by
  intro p hp
  obtain ⟨heq, hy⟩ | ⟨s, hx, coasts⟩ := h p hp
  · rcases hyp : y p with ⟨e | a, q⟩
    · rw [hyp] at heq hy
      rw [bind_of_error heq, bind_of_error hyp]
      exact .inl ⟨rfl, hy⟩
    · rw [hyp] at heq hy
      rw [bind_of_ok heq, bind_of_ok hyp]
      obtain same | ⟨s, hf, coasts⟩ := hfg a q hy
      · exact .inl same
      · refine .inr ⟨s, hf, ?_⟩
        unfold Coasts Ends at coasts ⊢
        rwa [bind_of_ok hyp]
  · have hx : x p = (.error (.exhausted s), (x p).2) := Prod.ext hx rfl
    exact .inr ⟨s, by rw [bind_of_error hx], coasts.bind (last s)⟩

theorem oneMore_bind_still {f g : α → Exec β} (still : ∀ p, (x p).2.steps = p.steps)
    (hfg : ∀ a, OneMore k near M (f a) (g a)) : OneMore k near M (x >>= f) (x >>= g) :=
  (oneMore_of_still (N := fun _ _ => False) still).bind hfg fun _ _ _ => False.elim

theorem OneMore.and {P : α → Prop} (h : OneMore k near N x y)
    (yields : ∀ {p a q}, y p = (.ok a, q) → P a) :
    OneMore k near (fun s a => N s a ∧ P a) x y := by
  intro p hp
  obtain same | ⟨s, hx, coasts⟩ := h p hp
  · exact .inl same
  · refine .inr ⟨s, hx, ?_⟩
    unfold Coasts Ends at coasts ⊢
    rcases hy : y p with ⟨e | a, q⟩
    · rwa [hy] at coasts
    · rw [hy] at coasts
      exact ⟨coasts.1, coasts.2, yields hy⟩

end Exec

namespace Machine
open Exec

variable {m : Machine} {among : List Node} {k fuel : Nat} {a b s t : Store} {n : Node}
  {p : Progress}

theorem exec_eq_tick_bind (m : Machine) (fuel : Nat) (n : Node) (s : Store) :
    ∃ rest : Exec Store, m.exec fuel n s = m.tick s >>= fun _ => rest := by
  cases h : n.basic with
  | true => exact ⟨_, m.exec_basic fuel h s⟩
  | false =>
    cases n with
    | seq | ifThen | whileDo => exact ⟨_, by rw [exec]⟩
    | _ => cases h

theorem tick_of_spent (limit : m.limit = some k) (spent : k ≤ p.steps) :
    m.tick s p = (.error (.exhausted s), p.next) := by
  obtain ⟨-, within⟩ | ⟨htick, -⟩ := m.tick_cases s p
  · exact absurd (within k limit) (Nat.not_lt.mpr spent)
  · exact htick

theorem exec_of_spent (limit : m.limit = some k) (spent : k ≤ p.steps) :
    m.exec fuel n s p = (.error (.exhausted s), p.next) := by
  obtain ⟨rest, hexec⟩ := m.exec_eq_tick_bind fuel n s
  rw [hexec, bind_of_error (tick_of_spent limit spent)]

section
variable (m k)

theorem inspect_oneMore {near N : Store → Store → Prop} (limit limit' : Option Nat) (s : Store) :
    OneMore k near N (inspect { m with limit := limit } s)
      (inspect { m with limit := limit' } s) := by
  change OneMore k near N (m.inspect s) (m.inspect s)
  exact oneMore_of_still (m.steps_inspect s)

theorem tick_oneMore {near : Store → Store → Prop} (s : Store) :
    OneMore k near (fun a _ => a = s) (tick { m with limit := some k } s)
      (tick { m with limit := some (k + 1) } s) := by
  intro p hp
  have hlonger : tick { m with limit := some (k + 1) } s p = (.ok (), p.next) := by
    obtain ⟨htick, -⟩ | ⟨-, j, ⟨⟩, hj⟩ := tick_cases { m with limit := some (k + 1) } s p
    · exact htick
    · omega
  obtain ⟨hshort, within⟩ | ⟨hshort, j, ⟨⟩, hj⟩ := tick_cases { m with limit := some k } s p
  · rw [hshort, hlonger]
    exact .inl ⟨rfl, within k rfl⟩
  · refine .inr ⟨s, by rw [hshort], ?_⟩
    unfold Coasts Ends
    rw [hlonger]
    exact ⟨Nat.le_antisymm (Nat.succ_le_succ hp) (Nat.succ_le_succ hj), rfl⟩

end

theorem ends_exec_of_spent {post : Store → Progress → Prop} {halt : Stop → Progress → Prop}
    (limit : m.limit = some k) (spent : k ≤ p.steps) (halted : halt (.exhausted s) p.next) :
    (m.exec fuel n s).Ends p post halt := by
  unfold Ends
  rw [exec_of_spent limit spent]
  exact halted

theorem Nearby.halt (h : m.Nearby among a s) : ∀ t, Stop.exhausted s = .exhausted t →
    m.Nearby among a t := by
  rintro t ⟨⟩
  exact h

theorem coasts_eval {α : Type} {near : Store → Store → Prop} {N : Store → α → Prop} {c : Node}
    {f : Bool → Exec α} (h : ∀ v, (f v).Coasts k near N a p) :
    (ofExcept (c.eval s) >>= f).Coasts k near N a p := by
  rw [Coasts, ends_bind]
  apply ends_ofExcept
  · exact fun v _ => h v
  · rintro e he t rfl
    exact (Node.fits_of_eval he).elim

section
variable (h : m.Nearby among a s) (spent : p.steps = k + 1)
include h spent

theorem coasts_inspect {limit : Option Nat} :
    (inspect { m with limit := limit } s).Coasts k (m.Nearby among) (m.Nearby among) a p :=
  ends_inspect ⟨spent, h⟩ fun _ _ => nofun

theorem coasts_exec :
    (exec { m with limit := some (k + 1) } fuel n s).Coasts k (m.Nearby among) (m.Nearby among) a
      p :=
  ends_exec_of_spent rfl (Nat.le_of_eq spent.symm) h.halt

/-- The condition is tested once more at most, since the body would count a step. -/
theorem coasts_rounds {body number : Nat} {c : Node} :
    (rounds { m with limit := some (k + 1) } (fun s => c.eval s)
      (exec { m with limit := some (k + 1) } body n) fuel number s).Coasts k (m.Nearby among)
      (m.Nearby among) a p := by
  cases fuel with
  | zero => exact fun _ => nofun
  | succ fuel =>
    rw [rounds]
    apply coasts_eval
    intro v
    cases v with
    | false => exact ⟨spent, h⟩
    | true =>
      simp only [if_true, Coasts, ends_bind, ends_log, ends_block]
      exact ends_exec_of_spent rfl (Nat.le_of_eq spent.symm) h.halt

end

theorem block_oneMore
    (h : OneMore k (m.Nearby among) (m.Nearby among) (exec { m with limit := some k } fuel n s)
      (exec { m with limit := some (k + 1) } fuel n s)) :
    OneMore k (m.Nearby among) (m.Nearby among) (block (exec { m with limit := some k } fuel n) s)
      (block (exec { m with limit := some (k + 1) } fuel n) s) := by
  have hgrows := h.and (P := (·.GrowsOn s)) fun hrun => (path_of_exec hrun).growsOn
  apply hgrows.bind
  · exact fun _ => oneMore_of_still fun _ => rfl
  · rintro a t q ⟨near, grows⟩ spent
    exact ⟨spent, near.leave grows⟩

theorem rounds_oneMore {body : Nat} {c : Node}
    (h : ∀ s, OneMore k (m.Nearby among) (m.Nearby among)
      (exec { m with limit := some k } body n s) (exec { m with limit := some (k + 1) } body n s))
    (fuel number : Nat) (s : Store) :
    OneMore k (m.Nearby among) (m.Nearby among)
      (rounds { m with limit := some k } (fun s => c.eval s)
        (exec { m with limit := some k } body n) fuel number s)
      (rounds { m with limit := some (k + 1) } (fun s => c.eval s)
        (exec { m with limit := some (k + 1) } body n) fuel number s) := by
  induction fuel generalizing number s with
  | zero => exact oneMore_of_still fun _ => rfl
  | succ fuel ih =>
    rw [rounds, rounds]
    apply oneMore_bind_still fun _ => rfl
    intro v
    cases v with
    | false => exact oneMore_of_still fun _ => rfl
    | true =>
      apply oneMore_bind_still fun _ => rfl
      intro _
      apply (block_oneMore (h s)).bind
      · intro t
        apply (tick_oneMore m k t).bind
        · exact fun _ => ih _ t
        · rintro a _ q rfl spent
          exact coasts_rounds (.refl m among a) spent
      · intro a t q near spent
        rw [Coasts, ends_bind]
        exact ends_tick (fun within => absurd (within _ rfl) (by omega)) fun _ _ _ => near.halt

theorem exec_oneMore (m : Machine) (k fuel : Nat) (sub : n.preorder ⊆ among) (s : Store) :
    OneMore k (m.Nearby among) (m.Nearby among) (exec { m with limit := some k } fuel n s)
      (exec { m with limit := some (k + 1) } fuel n s) := by
  induction n using Node.basic_induction generalizing s with
  | seq a b loc iha ihb =>
    have hleft := List.Subset.trans (Node.preorder_subset_seq_left a b loc) sub
    have hright := List.Subset.trans (Node.preorder_subset_seq_right a b loc) sub
    rw [exec, exec]
    apply (tick_oneMore m k s).bind
    · intro _
      apply (iha hleft s).bind (ihb hright)
      exact fun _ _ _ near spent => coasts_exec near spent
    · rintro t _ q rfl spent
      apply (coasts_exec (.refl m among t) spent).bind
      exact fun _ _ near spent => coasts_exec near spent
  | ifThen c b loc ih =>
    have hbody := List.Subset.trans (Node.preorder_subset_ifThen c b loc) sub
    rw [exec, exec]
    apply (tick_oneMore m k s).bind
    · intro _
      apply oneMore_bind_still fun _ => rfl
      intro v
      cases v with
      | false => exact inspect_oneMore m k _ _ s
      | true =>
        apply (block_oneMore (ih hbody s)).bind (inspect_oneMore m k _ _)
        exact fun _ _ _ near spent => coasts_inspect near spent
    · rintro t _ q rfl spent
      apply coasts_eval
      intro v
      cases v with
      | false => exact coasts_inspect (.refl m among t) spent
      | true =>
        simp only [if_true, Coasts, ends_bind, ends_block]
        exact ends_exec_of_spent rfl (Nat.le_of_eq spent.symm) (Nearby.refl m among t).halt
  | whileDo c b loc ih =>
    have hbody := List.Subset.trans (Node.preorder_subset_whileDo c b loc) sub
    rw [exec, exec]
    apply (tick_oneMore m k s).bind
    · intro _
      apply (rounds_oneMore (ih hbody) fuel 0 s).bind (inspect_oneMore m k _ _)
      exact fun _ _ _ near spent => coasts_inspect near spent
    · rintro t _ q rfl spent
      apply (coasts_rounds (.refl m among t) spent).bind
      exact fun _ _ near spent => coasts_inspect near spent
  | basic n h =>
    have member := sub (Node.mem_preorder_self n)
    rw [exec_basic _ fuel h, exec_basic _ fuel h, m.perform_limit (some k),
      m.perform_limit (some (k + 1))]
    apply (tick_oneMore m k s).bind
    · intro _
      apply oneMore_bind_still fun _ => rfl
      rintro ⟨events, u⟩
      apply oneMore_bind_still fun _ => rfl
      exact fun _ => inspect_oneMore m k _ _ u
    · rintro t _ q rfl spent
      rw [Coasts, ends_bind]
      apply ends_ofExcept
      · rintro ⟨events, u⟩ hperform
        rw [ends_bind, ends_record]
        have near := (acts_of_perform hperform).nearby member
        exact coasts_inspect (p := q.note events) near spent
      · rintro e he u rfl
        exact (fits_of_perform he).elim

theorem Acts.environment_append {events : List Event} (acts : m.Acts s n events t) :
    ∃ added, t.environment.entries = s.environment.entries ++ added ∧ added.length ≤ 1 := by
  cases acts with
  | @decl x _ _ v value new =>
    rw [Store.lookup_eq_none_iff] at new
    refine ⟨[(x, (m.allocator.allocate s).1)], ?_, Nat.le_refl 1⟩
    rw [Store.declare, Table.put_of_notMem new]
  | assign => exact ⟨[], (List.append_nil _).symm, Nat.zero_le 1⟩
  | free => exact ⟨[], (List.append_nil _).symm, Nat.zero_le 1⟩

end Machine

variable {program : Node} {r : RunResult} {a b : Store} {k j : Nat}

theorem Settings.nearby_of_returns (c : Settings)
    (short : (c.withBudget (some k)).Returns program (.exhausted j a))
    (longer : (c.withBudget (some (k + 1))).Returns program r) (reported : r.store? = some b) :
    (Interpreter.ofSettings c).machine.Nearby program.preorder a b := by
  obtain ⟨fuel, hshort⟩ := short
  obtain ⟨fuel', hlonger⟩ := longer
  have hshort := Interpreter.exec_of_reported (hshort _ (Nat.le_max_left fuel fuel')) rfl
  have hlonger := Interpreter.exec_of_reported (hlonger _ (Nat.le_max_right fuel fuel')) reported
  rw [machine_withBudget] at hshort hlonger
  generalize (Interpreter.ofSettings c).machine = m at hshort hlonger ⊢
  obtain ⟨heq, -⟩ | ⟨s, hs, coasts⟩ := m.exec_oneMore k (max fuel fuel')
    (List.Subset.refl program.preorder) {} {} (Nat.zero_le k)
  · -- The same execution comes to one store only.
    rw [heq] at hshort
    have hab : a = b := by
      obtain ⟨q, ha⟩ | ⟨q, ha⟩ := hshort <;> obtain ⟨q', hb⟩ | ⟨q', hb⟩ := hlonger <;>
        cases ha.symm.trans hb <;> rfl
    rw [hab]
    exact .refl m _ b
  · have hsa : s = a := by
      obtain ⟨q, ha⟩ | ⟨q, ha⟩ := hshort <;> rw [ha] at hs <;> cases hs
      rfl
    rw [← hsa]
    obtain ⟨q, hb⟩ | ⟨q, hb⟩ := hlonger
    · exact (Exec.Ends.ok coasts hb).2
    · exact Exec.Ends.error coasts hb b rfl

/-- A step acts on the store once at most. From the store that a budget ran out on to the one that
is reported with one step more there is one action of a basic statement of the program, or none,
which binds one name at most; behind it, blocks may have taken bindings away, latest first. -/
theorem one_action_a_step (c : Settings)
    (short : (c.withBudget (some k)).Returns program (.exhausted j a))
    (longer : (c.withBudget (some (k + 1))).Returns program r) (reported : r.store? = some b) :
    ∃ t added,
      (t = a ∨ ∃ n ∈ program.preorder, ∃ events,
        (Interpreter.ofSettings c).machine.Acts a n events t) ∧
      t.environment.entries = a.environment.entries ++ added ∧ added.length ≤ 1 ∧
      b.memory = t.memory ∧ b.freed = t.freed ∧ b.next = t.next ∧
      b.environment.entries <+: a.environment.entries ++ added := by
  obtain ⟨t, acted, hb, grown⟩ := c.nearby_of_returns short longer reported
  obtain ⟨added, happend, hlength⟩ : ∃ added,
      t.environment.entries = a.environment.entries ++ added ∧ added.length ≤ 1 := by
    obtain rfl | ⟨n, -, events, acts⟩ := acted
    · exact ⟨[], (List.append_nil _).symm, Nat.zero_le 1⟩
    · exact acts.environment_append
  refine ⟨t, added, acted, happend, hlength, ?_, ?_, ?_, ?_⟩
  · rw [hb]
    rfl
  · rw [hb]
    rfl
  · rw [hb]
    rfl
  · rw [← happend]
    exact grown

theorem freedInLoop_sixth_step :
    ∃ a b, (Settings.withBudget {} (some 5)).Returns Node.freedInLoop (.exhausted 5 a) ∧
      (Settings.withBudget {} (some 6)).Returns Node.freedInLoop (.exhausted 6 b) ∧
      a.environment.keys = ["a", "b"] ∧ b.environment.keys = ["a"] ∧
      ∃ t added,
        (t = a ∨ ∃ n ∈ Node.freedInLoop.preorder, ∃ events,
          (Interpreter.ofSettings {}).machine.Acts a n events t) ∧
        t.environment.entries = a.environment.entries ++ added ∧ added.length ≤ 1 ∧
        b.memory = t.memory ∧ b.freed = t.freed ∧ b.next = t.next ∧
        b.environment.entries <+: a.environment.entries ++ added := by
  obtain ⟨a, hshort, ha⟩ : ∃ a, ((Interpreter.ofSettings (Settings.withBudget {} (some 5))).run 2
      Node.freedInLoop).result = .ok (.exhausted 5 a) ∧ a.environment.keys = ["a", "b"] :=
    ⟨⟨⟨[("a", 0), ("b", 1)]⟩, [], ⟨[(0, true), (1, true)]⟩, 2⟩, by decide, rfl⟩
  obtain ⟨b, hlonger, hb⟩ : ∃ b, ((Interpreter.ofSettings (Settings.withBudget {} (some 6))).run 2
      Node.freedInLoop).result = .ok (.exhausted 6 b) ∧ b.environment.keys = ["a"] :=
    ⟨⟨⟨[("a", 0)]⟩, ["a"], ⟨[(1, true)]⟩, 2⟩, by decide, rfl⟩
  have short := Settings.returns_of_run hshort
  have longer := Settings.returns_of_run hlonger
  exact ⟨a, b, short, longer, ha, hb, one_action_a_step {} short longer rfl⟩

end NandLang
