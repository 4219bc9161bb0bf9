import NandLang.Proofs.Budget
import NandLang.Proofs.Lockstep

/-! Loops, unrolled. The step that a loop counts behind each round stands for the step that the same
loop would count if it were entered there anew; so a loop whose condition holds is its first round
and then the loop again, at whatever step a budget runs out. -/
namespace NandLang
namespace Exec

variable {α β γ : Type} {x y : Exec α}

theorem bind_assoc (x : Exec α) (f : α → Exec β) (g : β → Exec γ) :
    x >>= f >>= g = x >>= fun a => f a >>= g := by
  funext p
  rw [bind_apply, bind_apply, bind_apply]
  rcases x p with ⟨_ | _, _⟩ <;> rfl

theorem ofExcept_ok_bind (a : α) (f : α → Exec β) : ofExcept (.ok a) >>= f = f a := rfl

theorem bind_pure (x : Exec α) : x >>= pure = x := by
  funext p
  rw [bind_apply]
  rcases x p with ⟨_ | _, _⟩ <;> rfl

theorem ends_of_all {p : Progress} {post : α → Progress → Prop} {halt : Stop → Progress → Prop}
    (ok : ∀ a q, post a q) (error : ∀ e q, halt e q) : x.Ends p post halt := by
  unfold Ends
  split
  · exact ok _ _
  · exact error _ _

/-- The first computation is short of rounds, or the second one ends as it does, after equally many
steps. What they log makes no difference. -/
def Within (x y : Exec α) : Prop :=
  ∀ p q, p.steps = q.steps → (x p).1 ≠ .error .unfinished →
    (y q).1 = (x p).1 ∧ (y q).2.steps = (x p).2.steps

theorem Lockstep.within {R : α → α → Prop} (h : Lockstep R Eq x y) (hR : ∀ a b, R a b → a = b) :
    Within x y := by
  intro p q hsteps _
  obtain ⟨hmatched, hnext⟩ := h p q hsteps
  refine ⟨?_, hnext.symm⟩
  generalize (x p).1 = rx, (y q).1 = ry at hmatched
  cases hmatched with
  | ok related => rw [hR _ _ related]
  | error related => rw [related]

theorem within_stop : Within (stop .unfinished : Exec α) y :=
  fun _ _ _ h => absurd rfl h

theorem Within.bind {f g : α → Exec β} (h : Within x y) (hfg : ∀ a, Within (f a) (g a)) :
    Within (x >>= f) (y >>= g) := by
  intro p q hsteps finished
  rcases hx : x p with ⟨e | a, p'⟩
  · rw [bind_of_error hx] at finished ⊢
    obtain ⟨hresult, hnext⟩ := h p q hsteps (by simpa [hx] using finished)
    rw [hx] at hresult hnext
    have hy : y q = (.error e, (y q).2) := Prod.ext hresult rfl
    rw [bind_of_error hy]
    exact ⟨rfl, hnext⟩
  · rw [bind_of_ok hx] at finished ⊢
    obtain ⟨hresult, hnext⟩ := h p q hsteps (by rw [hx]; nofun)
    rw [hx] at hresult hnext
    have hy : y q = (.ok a, (y q).2) := Prod.ext hresult rfl
    rw [bind_of_ok hy]
    exact hfg a p' _ hnext.symm finished

theorem Within.log_left (h : Within x y) (e : Event) : Within (log e >>= fun _ => x) y :=
  fun p q hsteps finished => h (p.note [e]) q hsteps finished

theorem Within.log_right (h : Within x y) (e : Event) : Within x (log e >>= fun _ => y) :=
  fun p q hsteps finished => h p (q.note [e]) hsteps finished

end Exec

namespace Machine
open Exec

variable {m : Machine} {c b : Node} {loc : Option Loc} {s : Store} {fuel fuel' : Nat}

theorem simulation_refl (among : List Node) (m : Machine) : Simulation among m m Eq Eq where
  limit := rfl
  eval := by
    rintro s _ rfl n -
    exact .refl (fun _ => rfl) (fun _ => rfl) _
  perform := by
    rintro s _ rfl n -
    apply Matched.refl
    · exact fun _ => rfl
    · exact fun _ => rfl
  inspect := by
    rintro s _ rfl
    unfold inspect
    split
    · exact lockstep_stop rfl
    · exact lockstep_pure rfl
  leave := by
    rintro s _ s' _ rfl rfl - -
    rfl
  exhausted := by
    rintro s _ rfl
    rfl
  unfinished := rfl

theorem within_tick (m : Machine) (s : Store) : Within (m.tick s) (m.tick s) :=
  (lockstep_tick rfl rfl).within fun _ _ _ => rfl

theorem exec_within (hle : fuel ≤ fuel') (n : Node) (s : Store) :
    Within (m.exec fuel n s) (m.exec fuel' n s) := by
  intro p q hsteps finished
  have hlockstep := (simulation_refl n.preorder m).exec fuel' (List.Subset.refl _) (Eq.refl s)
  have heq := exec_of_more_rounds hle finished
  rw [← heq] at finished ⊢
  exact hlockstep.within (fun _ _ => id) p q hsteps finished

theorem within_inspect (m : Machine) (s : Store) : Within (m.inspect s) (m.inspect s) :=
  ((simulation_refl [] m).inspect rfl).within fun _ _ => id

theorem within_block {body body' : Store → Exec Store} (h : Within (body s) (body' s)) :
    Within (block body s) (block body' s) :=
  h.bind fun _ => (lockstep_pure rfl).within fun _ _ => id

theorem rounds_within {body body' : Store → Exec Store} (h : ∀ s, Within (body s) (body' s))
    (hle : fuel ≤ fuel') (cond : Store → Except Stop Bool) (number number' : Nat) (s : Store) :
    Within (m.rounds cond body fuel number s) (m.rounds cond body' fuel' number' s) := by
  induction fuel generalizing fuel' number number' s with
  | zero => exact within_stop
  | succ fuel ih =>
    obtain ⟨fuel', rfl⟩ := Nat.exists_eq_succ_of_ne_zero (Nat.ne_zero_of_lt hle)
    rw [rounds, rounds]
    apply ((lockstep_ofExcept (.refl (fun _ => rfl) (fun _ => rfl) _)).within fun _ _ => id).bind
    intro v
    cases v with
    | false => exact (lockstep_pure rfl).within fun _ _ => id
    | true =>
      apply ((lockstep_log _ _).within fun _ _ _ => rfl).bind
      intro _
      apply (within_block (h s)).bind
      intro t
      apply (m.within_tick t).bind
      intro _
      exact ih (Nat.le_of_succ_le_succ hle) _ _ t

theorem inspect_of_unaudited (unaudited : m.audit = false) : m.inspect = pure := by
  funext s
  simp [inspect, unaudited]

theorem exec_whileDo_of_false (fails : c.eval s = .ok false) (unaudited : m.audit = false) :
    m.exec (fuel + 1) (.whileDo c b loc) s = (do
      m.tick s
      pure s) := by
  rw [exec, rounds, fails, inspect_of_unaudited unaudited]
  rfl

theorem ends_whileDo (m : Machine) (fuel : Nat) (c b : Node) (loc : Option Loc) (s : Store)
    (p : Progress) :
    (m.exec fuel (.whileDo c b loc) s).Ends p
      (fun t _ => c.eval t = .ok false ∧ t.environment = s.environment) fun _ _ => True := by
  rw [exec, ends_bind]
  apply ends_tick
  · intro _
    rw [ends_bind]
    apply ends_rounds (I := fun _ t _ => t.environment = s.environment)
    · intro number t q ht _
      exact ends_of_all (fun u r => ⟨fun _ => ht, fun _ _ _ => trivial⟩) fun _ _ => trivial
    · exact fun ht fails => ends_inspect ⟨fails, ht⟩ fun _ => trivial
    · exact fun _ _ => trivial
    · exact fun _ => trivial
    · rfl
  · exact fun _ _ _ => trivial

section
variable (holds : c.eval s = .ok true)
include holds

theorem exec_whileDo_of_true :
    m.exec (fuel + 1) (.whileDo c b loc) s = (do
      m.tick s
      Exec.log (.iteration 1)
      let after ← block (m.exec (fuel + 1) b) s
      m.tick after
      let last ← m.rounds (fun s => c.eval s) (m.exec (fuel + 1) b) fuel 1 after
      m.inspect last) := by
  rw [exec, rounds, holds]
  simp only [bind_assoc, ofExcept_ok_bind, if_true]

theorem exec_ifThen_of_true (unaudited : m.audit = false) :
    m.exec fuel (.ifThen c b loc) s = (do
      m.tick s
      block (m.exec fuel b) s) := by
  rw [exec, holds, inspect_of_unaudited unaudited]
  simp only [ofExcept_ok_bind, if_true, bind_pure]

variable (unaudited : m.audit = false)
include unaudited

theorem within_rolled (loc loc' : Option Loc) :
    Within (m.exec fuel (.ifThen c b loc') s >>= m.exec fuel (.whileDo c b loc))
      (m.exec (fuel + 1) (.whileDo c b loc) s) := by
  rw [exec_whileDo_of_true holds, exec_ifThen_of_true holds unaudited, bind_assoc]
  apply (m.within_tick s).bind
  intro _
  apply Within.log_right
  apply (within_block (exec_within (Nat.le_succ fuel) b s)).bind
  intro t
  rw [exec]
  apply (m.within_tick t).bind
  intro _
  exact (rounds_within (exec_within (Nat.le_succ fuel) b) (Nat.le_refl fuel) _ 0 1 t).bind
    m.within_inspect

theorem within_unrolled (loc loc' : Option Loc) :
    Within (m.exec fuel (.whileDo c b loc) s)
      (m.exec fuel (.ifThen c b loc') s >>= m.exec fuel (.whileDo c b loc)) := by
  rw [exec_ifThen_of_true holds unaudited, bind_assoc]
  cases fuel with
  | zero =>
    rw [exec]
    exact (m.within_tick s).bind fun _ => within_stop
  | succ fuel =>
    rw [exec_whileDo_of_true holds]
    apply (m.within_tick s).bind
    intro _
    apply Within.log_left
    apply (within_block (exec_within (Nat.le_refl _) b s)).bind
    intro t
    rw [exec]
    apply (m.within_tick t).bind
    intro _
    exact (rounds_within (exec_within (Nat.le_refl _) b) (Nat.le_succ fuel) _ 1 0 t).bind
      m.within_inspect

end

end Machine

namespace Interpreter

variable {i : Interpreter} {n : Node} {s : Store} {r : Except Stop Store} {k : Nat}

/-- Given rounds enough, an execution ends in this way, with so many steps counted by then. One that
never ends does not settle. -/
def Settles (i : Interpreter) (n : Node) (s : Store) (r : Except Stop Store) (steps : Nat) : Prop :=
  r ≠ .error .unfinished ∧
    ∃ fuel, (i.exec fuel n s).result = r ∧ (i.exec fuel n s).interpreter.steps = steps

theorem settles_of_exec {fuel : Nat} {p q : Progress} (h : i.machine.exec fuel n s p = (r, q))
    (hp : p.steps = i.steps) (finished : r ≠ .error .unfinished) : i.Settles n s r q.steps := by
  have hwithin := Machine.exec_within (m := i.machine) (Nat.le_refl fuel) n s p { steps := i.steps }
  rw [h] at hwithin
  exact ⟨finished, fuel, hwithin hp finished⟩

theorem Settles.exec (h : i.Settles n s r k) :
    ∃ enough, ∀ fuel ≥ enough, ∀ p, p.steps = i.steps →
      ∃ q, i.machine.exec fuel n s p = (r, q) ∧ q.steps = k := by
  obtain ⟨finished, enough, hresult, hsteps⟩ := h
  refine ⟨enough, fun fuel hle p hp => ?_⟩
  obtain ⟨hr, hk⟩ := Machine.exec_within (m := i.machine) hle n s { steps := i.steps } p hp.symm
    fun unfinished => finished (hresult.symm.trans unfinished)
  exact ⟨_, Prod.ext (hr.trans hresult) rfl, hk.trans hsteps⟩

section
variable {c b : Node} (holds : c.eval s = .ok true) (unaudited : i.machine.audit = false)
include holds unaudited

theorem settles_unrolled (loc loc' : Option Loc) (h : i.Settles (.whileDo c b loc) s r k) :
    (∃ t j, i.Settles (.ifThen c b loc') s (.ok t) j ∧
      { i with steps := j }.Settles (.whileDo c b loc) t r k) ∨
    ∃ e, r = .error e ∧ i.Settles (.ifThen c b loc') s (.error e) k := by
  obtain ⟨finished, fuel, hresult, hsteps⟩ := h
  obtain ⟨hr, hk⟩ := Machine.within_unrolled holds unaudited loc loc' { steps := i.steps }
    { steps := i.steps } rfl fun unfinished => finished (hresult.symm.trans unfinished)
  replace hr := hr.trans hresult
  replace hk := hk.trans hsteps
  rcases hround : i.machine.exec fuel (.ifThen c b loc') s { steps := i.steps } with ⟨e | t, q⟩
  · rw [Exec.bind_of_error hround] at hr hk
    subst hr hk
    exact .inr ⟨e, rfl, settles_of_exec hround rfl finished⟩
  · rw [Exec.bind_of_ok hround] at hr hk
    subst hk
    refine .inl ⟨t, q.steps, settles_of_exec hround rfl nofun, ?_⟩
    exact settles_of_exec (i := { i with steps := q.steps }) (Prod.ext hr rfl) rfl finished

theorem settles_of_unrolled {loc loc' : Option Loc} {fuel : Nat} {q : Progress}
    (h : (i.machine.exec fuel (.ifThen c b loc') s >>= i.machine.exec fuel (.whileDo c b loc))
      { steps := i.steps } = (r, q)) (finished : r ≠ .error .unfinished) :
    i.Settles (.whileDo c b loc) s r q.steps := by
  have hwithin : Exec.Within (i.machine.exec fuel (.ifThen c b loc') s >>= _) _ :=
    Machine.within_rolled holds unaudited loc loc'
  have hends := hwithin { steps := i.steps } { steps := i.steps } rfl
  rw [h] at hends
  exact ⟨finished, fuel + 1, hends finished⟩

theorem settles_rolled (loc loc' : Option Loc)
    (h : (∃ t j, i.Settles (.ifThen c b loc') s (.ok t) j ∧
        { i with steps := j }.Settles (.whileDo c b loc) t r k) ∨
      ∃ e, r = .error e ∧ i.Settles (.ifThen c b loc') s (.error e) k) :
    i.Settles (.whileDo c b loc) s r k := by
  obtain ⟨t, j, round, rest⟩ | ⟨e, rfl, round⟩ := h
  · obtain ⟨enough, runs⟩ := round.exec
    obtain ⟨enough', runs'⟩ := rest.exec
    -- Both executions with the same rounds, the second one from where the first one ends.
    obtain ⟨q, hround, hq⟩ := runs _ (Nat.le_max_left enough enough') { steps := i.steps } rfl
    obtain ⟨q', hrest, rfl⟩ := runs' _ (Nat.le_max_right enough enough') q hq
    exact settles_of_unrolled holds unaudited ((Exec.bind_of_ok hround _).trans hrest) rest.1
  · obtain ⟨enough, runs⟩ := round.exec
    obtain ⟨q, hround, rfl⟩ := runs enough (Nat.le_refl _) { steps := i.steps } rfl
    exact settles_of_unrolled holds unaudited (Exec.bind_of_error hround _) round.1

end

theorem settles_of_false {c b : Node} (fails : c.eval s = .ok false)
    (unaudited : i.machine.audit = false) (loc : Option Loc) :
    ((∀ k, i.machine.limit = some k → i.steps < k) →
      i.Settles (.whileDo c b loc) s (.ok s) (i.steps + 1)) ∧
    ∀ k, i.machine.limit = some k → k ≤ i.steps →
      i.Settles (.whileDo c b loc) s (.error (.exhausted s)) (i.steps + 1) := by
  have hexec : i.machine.exec 1 (.whileDo c b loc) s = _ :=
    Machine.exec_whileDo_of_false fails unaudited
  obtain ⟨htick, hlimit⟩ | ⟨htick, k, hlimit, hover⟩ :=
    i.machine.tick_cases s { steps := i.steps }
  · have hrun := (congrFun hexec _).trans (Exec.bind_of_ok htick _)
    refine ⟨fun _ => settles_of_exec hrun rfl nofun, fun k hk hover => ?_⟩
    exact absurd (hlimit k hk) (Nat.not_lt.mpr hover)
  · have hrun := (congrFun hexec _).trans (Exec.bind_of_error htick _)
    refine ⟨fun within => ?_, fun _ _ _ => settles_of_exec hrun rfl nofun⟩
    exact absurd (within k hlimit) (Nat.not_lt.mpr hover)

end Interpreter

/-- Where its condition holds, a loop does what a conditional with the same body does and then, from
the store and the steps that this led to, what the loop does: it comes to the same store, fault or
spent budget after the same steps, or neither ends. Where its condition fails, it takes one step, if
the budget has one left, and changes nothing. Whenever it is left, its condition fails, and the
scope is the one that it was entered in. -/
theorem loop_unrolled (i : Interpreter) (unaudited : i.machine.audit = false) (c b : Node)
    (loc loc' : Option Loc) (s : Store) :
    (c.eval s = .ok true → ∀ r k, i.Settles (.whileDo c b loc) s r k ↔
      (∃ t j, i.Settles (.ifThen c b loc') s (.ok t) j ∧
        { i with steps := j }.Settles (.whileDo c b loc) t r k) ∨
      ∃ e, r = .error e ∧ i.Settles (.ifThen c b loc') s (.error e) k) ∧
    (c.eval s = .ok false →
      ((∀ k, i.machine.limit = some k → i.steps < k) →
        i.Settles (.whileDo c b loc) s (.ok s) (i.steps + 1)) ∧
      ∀ k, i.machine.limit = some k → k ≤ i.steps →
        i.Settles (.whileDo c b loc) s (.error (.exhausted s)) (i.steps + 1)) ∧
    ∀ t k, i.Settles (.whileDo c b loc) s (.ok t) k →
      c.eval t = .ok false ∧ t.environment = s.environment := by
  refine ⟨?_, fun fails => Interpreter.settles_of_false fails unaudited loc, ?_⟩
  · intro holds r k
    constructor
    · exact Interpreter.settles_unrolled holds unaudited loc loc'
    · exact Interpreter.settles_rolled holds unaudited loc loc'
  · rintro t k ⟨-, fuel, hresult, -⟩
    exact (i.machine.ends_whileDo fuel c b loc s _).ok (Interpreter.exec_of_result hresult)

def Node.lastRound : Node × Node :=
  (.var "a" none, .seq (.decl "b" (.var "a" none) none) (.assign "a" (.lit false none) none) none)

/-- From the third step on, the round takes four steps, and the test that ends the loop one more. -/
theorem lastRound_unrolled :
    let i : Interpreter := { machine := { limit := some 8 }, steps := 3 }
    let s : Store := ⟨⟨[("a", 0)]⟩, [], ⟨[(0, true)]⟩, 1⟩
    let t : Store := ⟨⟨[("a", 0)]⟩, [], ⟨[(0, false), (1, true)]⟩, 2⟩
    let (c, b) := Node.lastRound
    c.eval s = .ok true ∧ i.Settles (.ifThen c b none) s (.ok t) 7 ∧
    { i with steps := 7 }.Settles (.whileDo c b none) t (.ok t) 8 ∧
    i.Settles (.whileDo c b none) s (.ok t) 8 ∧ c.eval t = .ok false := by
  intro i s t
  have holds : Node.lastRound.1.eval s = .ok true := rfl
  have round : i.Settles (.ifThen Node.lastRound.1 Node.lastRound.2 none) s (.ok t) 7 :=
    ⟨nofun, 0, by decide, by decide⟩
  have rest := ((loop_unrolled { i with steps := 7 } rfl Node.lastRound.1 Node.lastRound.2 none none
    t).2.1 rfl).1 (by rintro k ⟨⟩; decide)
  obtain ⟨unrolled, -, left⟩ :=
    loop_unrolled i rfl Node.lastRound.1 Node.lastRound.2 none none s
  have whole := (unrolled holds (.ok t) 8).mpr (.inl ⟨t, 7, round, rest⟩)
  exact ⟨holds, round, rest, whole, (left t 8 whole).1⟩

end NandLang
