import NandLang.Proofs.Execution
import NandLang.Proofs.Walk

/-! The stores that an execution comes past, and what holds of all of them. Every such store is
reached by steps, by actions of basic statements of the program, and by leaving blocks, so what
these keep holds throughout. -/
namespace NandLang

/-- The state of the store that a fault tells of. -/
def Fault.Fits (f : Fault) (s : Store) : Prop :=
  match f.kind with
  | .undeclared => s.lookup f.name = none
  | .invalidLocation =>
    ∃ l, s.lookup f.name = some l ∧ s.isFreed f.name = false ∧ l ∉ s.memory.keys
  | .redeclared => ∃ l, s.lookup f.name = some l
  | .alreadyFreed => ∃ l, s.lookup f.name = some l ∧ s.isFreed f.name = true

def Stop.Fits (s : Store) : Stop → Prop
  | .fault f => f.Fits s
  | .misplaced _ => True
  | _ => False

theorem Node.fits_of_resolve {s : Store} {x : Name} {loc : Option Loc} {e : Stop}
    (h : Node.resolve s x loc = .error e) : e.Fits s := by
  unfold Node.resolve at h
  cases hx : s.lookup x with
  | none =>
    rw [hx] at h
    cases h
    exact hx
  | some l =>
    rw [hx] at h
    cases hfreed : s.isFreed x with
    | false => simp [hfreed] at h
    | true =>
      simp only [hfreed, if_true] at h
      cases h
      exact ⟨l, hx, hfreed⟩

theorem Node.fits_of_eval {s : Store} {n : Node} {e : Stop} (h : n.eval s = .error e) :
    e.Fits s := by
  induction n generalizing e with
  | lit => cases h
  | var x loc =>
    obtain hl | ⟨l, hl, h⟩ := bind_eq_error_iff.mp h
    · exact Node.fits_of_resolve hl
    · obtain ⟨bound, live⟩ := Node.resolve_eq_ok_iff.mp hl
      cases hr : s.read l with
      | some v => rw [hr] at h; cases h
      | none =>
        rw [hr] at h
        cases h
        exact ⟨l, bound, live, (s.read_eq_none_iff l).mp hr⟩
  | nand l r loc ihl ihr =>
    obtain hl | ⟨left, hl, h⟩ := bind_eq_error_iff.mp h
    · exact ihl hl
    · obtain hr | ⟨right, hr, h⟩ := bind_eq_error_iff.mp h
      · exact ihr hr
      · cases h
  | _ => cases h; trivial

namespace Machine

variable {m : Machine} {s t u : Store} {p q r : Progress}

theorem fits_of_perform {n : Node} {e : Stop} (h : m.perform s n = .error e) : e.Fits s := by
  cases n with
  | decl x v loc =>
    obtain hv | ⟨b, hv, h⟩ := bind_eq_error_iff.mp h
    · exact Node.fits_of_eval hv
    · cases hx : s.lookup x with
      | none => rw [hx] at h; cases h
      | some l =>
        rw [hx] at h
        cases h
        exact ⟨l, hx⟩
  | assign x v loc =>
    obtain hv | ⟨b, hv, h⟩ := bind_eq_error_iff.mp h
    · exact Node.fits_of_eval hv
    · obtain hl | ⟨l, hl, h⟩ := bind_eq_error_iff.mp h
      · exact Node.fits_of_resolve hl
      · obtain ⟨bound, live⟩ := Node.resolve_eq_ok_iff.mp hl
        cases hr : s.read l with
        | some old => rw [hr] at h; cases h
        | none =>
          rw [hr] at h
          cases h
          exact ⟨l, bound, live, (s.read_eq_none_iff l).mp hr⟩
  | free x loc =>
    obtain hl | ⟨l, hl, h⟩ := bind_eq_error_iff.mp h
    · exact Node.fits_of_resolve hl
    · cases h
  | _ => cases h; trivial

theorem Acts.growsOn {n : Node} {events : List Event} (acts : m.Acts s n events t) :
    t.GrowsOn s := by
  cases acts with
  | decl value new => exact Store.growsOn_declare new _ _ _
  | assign => exact .refl s
  | free => exact .refl s

theorem Acts.sound {n : Node} {events : List Event} (acts : m.Acts s n events t)
    (start : s.Sound) : t.Sound := by
  cases acts with
  | decl value new => exact m.allocator.sound_declare start new _
  | assign value bound live stored => exact start.write stored _
  | free bound live => exact start.release bound

/-- From a store and the progress made by then to a later store and progress, by actions of the
nodes given only. A block is left by going back to the environment that it was entered with. -/
inductive Path (m : Machine) (among : List Node) : Store → Progress → Store → Progress → Prop
  | refl (s : Store) (p : Progress) : Path m among s p s p
  | step {s t : Store} {p q : Progress} (path : Path m among s p t q) : Path m among s p t q.next
  | turn {s t : Store} {p q : Progress} (path : Path m among s p t q) (number : Nat) :
      Path m among s p t (q.note [.iteration number])
  | act {s t u : Store} {p q : Progress} {n : Node} {events : List Event}
      (path : Path m among s p t q) (member : n ∈ among) (acts : m.Acts t n events u) :
      Path m among s p u (q.note events)
  | leave {s t u : Store} {p q r : Progress} (path : Path m among s p t q)
      (inner : Path m among t q u r) : Path m among s p (u.withEnvironment t.environment) r

namespace Path

variable {among : List Node}

theorem trans (path : Path m among s p t q) (next : Path m among t q u r) :
    Path m among s p u r := by
  induction next with
  | refl => exact path
  | step _ ih => exact (ih path).step
  | turn _ number ih => exact (ih path).turn number
  | act _ member acts ih => exact (ih path).act member acts
  | leave _ inner ih _ => exact (ih path).leave inner

theorem mono {more : List Node} (path : Path m among s p t q) (h : among ⊆ more) :
    Path m more s p t q := by
  induction path with
  | refl => exact .refl _ _
  | step _ ih => exact ih.step
  | turn _ number ih => exact ih.turn number
  | act _ member acts ih => exact ih.act (h member) acts
  | leave _ _ ih inner => exact ih.leave inner

theorem growsOn (path : Path m among s p t q) : t.GrowsOn s := by
  induction path with
  | refl => exact .refl _
  | step _ ih => exact ih
  | turn _ _ ih => exact ih
  | act _ _ acts ih => exact acts.growsOn.trans ih
  | leave _ _ ih _ => exact ih

theorem sound (path : Path m among s p t q) (start : s.Sound) : t.Sound := by
  induction path with
  | refl => exact start
  | step _ ih => exact ih start
  | turn _ _ ih => exact ih start
  | act _ _ acts ih => exact acts.sound (ih start)
  | leave _ inner ih inner_ih => exact (inner_ih (ih start)).leave inner.growsOn

theorem freed {x : Name} (path : Path m among s p t q) (h : t.isFreed x = true) :
    s.isFreed x = true ∨ ∃ loc, Node.free x loc ∈ among := by
  induction path with
  | refl => exact .inl h
  | step _ ih => exact ih h
  | turn _ _ ih => exact ih h
  | act _ member acts ih =>
    cases acts with
    | @decl y _ _ _ value new =>
      by_cases hxy : x = y
      · subst hxy
        rw [Store.isFreed_declare_self] at h
        cases h
      · rw [Store.isFreed_declare_of_ne _ hxy] at h
        exact ih h
    | assign => exact ih h
    | @free y loc l bound live =>
      by_cases hxy : x = y
      · subst hxy
        exact .inr ⟨loc, member⟩
      · rw [Store.isFreed_release_of_ne _ hxy] at h
        exact ih h
  | leave _ _ ih inner_ih => exact (inner_ih h).elim ih .inr

end Path

inductive Halts (m : Machine) (among : List Node) (s : Store) (p : Progress) : Stop → Prop
  | refused {t : Store} {q : Progress} {e : Stop} (path : Path m among s p t q)
      (fits : e.Fits t) : Halts m among s p e
  | unsound {t : Store} {q : Progress} (path : Path m among s p t q) (found : t.violations ≠ []) :
      Halts m among s p (.unsound t.violations)
  | exhausted {t : Store} {q : Progress} {k : Nat} (path : Path m among s p t q)
      (limit : m.limit = some k) (spent : k ≤ q.steps) : Halts m among s p (.exhausted t)
  | unfinished {c b : Node} {loc : Option Loc} (loop : Node.whileDo c b loc ∈ among) :
      Halts m among s p .unfinished

theorem Path.halts {among more : List Node} {e : Stop} (path : Path m more s p t q)
    (h : m.Halts among t q e) (sub : among ⊆ more) : m.Halts more s p e := by
  cases h with
  | refused next fits => exact .refused (path.trans (next.mono sub)) fits
  | unsound next found => exact .unsound (path.trans (next.mono sub)) found
  | exhausted next limit spent => exact .exhausted (path.trans (next.mono sub)) limit spent
  | unfinished loop => exact .unfinished (sub loop)

theorem Path.ends_inspect {among : List Node} (path : Path m among s p t q) :
    (m.inspect t).Ends q (fun u r => Path m among s p u r) fun e _ => m.Halts among s p e :=
  Machine.ends_inspect path fun found => .unsound path found

/-- An execution follows a path through its own nodes, to its end or to where it stops. -/
theorem exec_path (m : Machine) (fuel : Nat) (n : Node) (s : Store) (p : Progress) :
    (m.exec fuel n s).Ends p (fun t q => Path m n.preorder s p t q)
      fun e _ => m.Halts n.preorder s p e := by
  induction n using Node.basic_induction generalizing s p with
  | seq a b loc iha ihb =>
    have hstep : Path m (Node.seq a b loc).preorder s p s p.next := (Path.refl s p).step
    have hleft := Node.preorder_subset_seq_left a b loc
    have hright := Node.preorder_subset_seq_right a b loc
    rw [exec, Exec.ends_bind]
    apply ends_tick
    · intro _
      rw [Exec.ends_bind]
      apply (iha s p.next).imp
      · intro t q path
        have hfirst := hstep.trans (path.mono hleft)
        exact (ihb t q).imp (fun u r next => hfirst.trans (next.mono hright))
          fun e _ h => hfirst.halts h hright
      · exact fun e _ h => hstep.halts h hleft
    · exact fun k limit spent => .exhausted (.refl s p) limit spent
  | ifThen c b loc ih =>
    have hstep : Path m (Node.ifThen c b loc).preorder s p s p.next := (Path.refl s p).step
    have hbody := Node.preorder_subset_ifThen c b loc
    rw [exec, Exec.ends_bind]
    apply ends_tick
    · intro _
      rw [Exec.ends_bind]
      apply Exec.ends_ofExcept
      · intro v hv
        cases v with
        | false => exact hstep.ends_inspect
        | true =>
          simp only [if_true, Exec.ends_bind, ends_block]
          apply (ih s p.next).imp
          · exact fun t q path => (hstep.leave (path.mono hbody)).ends_inspect
          · exact fun e _ h => hstep.halts h hbody
      · exact fun e he => .refused hstep (Node.fits_of_eval he)
    · exact fun k limit spent => .exhausted (.refl s p) limit spent
  | whileDo c b loc ih =>
    have hstep : Path m (Node.whileDo c b loc).preorder s p s p.next := (Path.refl s p).step
    have hbody := Node.preorder_subset_whileDo c b loc
    rw [exec, Exec.ends_bind]
    apply ends_tick
    · intro _
      rw [Exec.ends_bind]
      -- Every test of the condition is on the way from where the loop was entered.
      apply ends_rounds (I := fun _ t q => Path m (Node.whileDo c b loc).preorder s p t q)
      · intro number t q path _
        have hturn := path.turn (number + 1)
        apply (ih t _).imp
        · intro u r inner
          have hleave := hturn.leave (inner.mono hbody)
          exact ⟨fun _ => hleave.step, fun k limit spent => .exhausted hleave limit spent⟩
        · exact fun e _ h => hturn.halts h hbody
      · exact fun path _ => path.ends_inspect
      · exact fun path he => .refused path (Node.fits_of_eval he)
      · exact fun _ => .unfinished (Node.mem_preorder_self _)
      · exact hstep
    · exact fun k limit spent => .exhausted (.refl s p) limit spent
  | basic n h =>
    have hstep : Path m n.preorder s p s p.next := (Path.refl s p).step
    rw [m.exec_basic fuel h, Exec.ends_bind]
    apply ends_tick
    · intro _
      rw [Exec.ends_bind]
      apply Exec.ends_ofExcept
      · rintro ⟨events, t⟩ ht
        rw [Exec.ends_bind, Exec.ends_record]
        exact (hstep.act (Node.mem_preorder_self n) (acts_of_perform ht)).ends_inspect
      · exact fun e he => .refused hstep (fits_of_perform he)
    · exact fun k limit spent => .exhausted (.refl s p) limit spent

theorem path_of_exec {fuel : Nat} {n : Node} (h : m.exec fuel n s p = (.ok t, q)) :
    Path m n.preorder s p t q :=
  (m.exec_path fuel n s p).ok h

end Machine

def Stop.Regular : Stop → Prop
  | .unsound _ => False
  | .fault f => f.kind ≠ .invalidLocation
  | .exhausted t => t.Sound
  | _ => True

namespace Machine

variable {m : Machine} {fuel : Nat} {n : Node} {s t : Store} {p q : Progress}

theorem Halts.regular {among : List Node} {e : Stop} (h : m.Halts among s p e)
    (start : s.Sound) : e.Regular := by
  cases h with
  | @refused t q _ path fits =>
    cases e with
    | fault f =>
      intro hkind
      obtain ⟨l, bound, live, missing⟩ : ∃ l, t.lookup f.name = some l ∧
          t.isFreed f.name = false ∧ l ∉ t.memory.keys := by
        simpa only [Stop.Fits, Fault.Fits, hkind] using fits
      exact missing ((path.sound start).stored_of_live bound live)
    | misplaced => trivial
    | unsound | exhausted | unfinished => cases fits
  | unsound path found => exact found (path.sound start).violations_eq_nil
  | exhausted path limit spent => exact path.sound start
  | unfinished loop => trivial

end Machine
end NandLang
