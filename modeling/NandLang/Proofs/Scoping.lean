import NandLang.Proofs.Reachable
import NandLang.Proofs.Run

/-! What the checker is good for. Where the names in scope are those that the store binds, a program
that was accepted meets no name that is missing or bound twice, and no node out of place. -/
namespace NandLang

def Store.InScope (s : Store) (scope : Scope) : Prop := ∀ x, x ∈ scope ↔ x ∈ s.environment.keys

/-- A stop that is no matter of scope. -/
def Stop.Scoped : Stop → Prop
  | .misplaced _ => False
  | .fault f => f.kind ≠ .undeclared ∧ f.kind ≠ .redeclared
  | _ => True

namespace Node

variable {s t : Store} {n : Node} {scope after : Scope} {x : Name} {loc : Option Loc} {e : Stop}

theorem scoped_of_resolve (bound : x ∈ s.environment.keys) (h : resolve s x loc = .error e) :
    e.Scoped := by
  obtain ⟨l, hl⟩ := Table.exists_get?_of_mem bound
  unfold resolve Store.lookup at h
  rw [hl] at h
  cases hfreed : s.isFreed x with
  | false => simp [hfreed] at h
  | true =>
    simp only [hfreed, if_true] at h
    cases h
    exact ⟨nofun, nofun⟩

theorem scoped_of_eval (checked : n.checkExpr scope = .ok ()) (inScope : s.InScope scope)
    (h : n.eval s = .error e) : e.Scoped := by
  induction n generalizing e with
  | lit => cases h
  | var x loc =>
    rw [checkExpr] at checked
    split at checked
    · rename_i hx
      obtain hl | ⟨l, -, h⟩ := bind_eq_error_iff.mp h
      · exact scoped_of_resolve ((inScope x).mp hx) hl
      · cases hr : s.read l with
        | some v => rw [hr] at h; cases h
        | none =>
          rw [hr] at h
          cases h
          exact ⟨nofun, nofun⟩
    · cases checked
  | nand l r loc ihl ihr =>
    obtain ⟨_, hcl, hcr⟩ := bind_eq_ok_iff.mp checked
    obtain hl | ⟨left, -, h⟩ := bind_eq_error_iff.mp h
    · exact ihl hcl hl
    · obtain hr | ⟨right, -, h⟩ := bind_eq_error_iff.mp h
      · exact ihr hcr hr
      · cases h
  | _ => cases checked

end Node

namespace Store

variable {s t : Store} {scope : Scope} {x : Name}

theorem InScope.declare (inScope : s.InScope scope) (x : Name) (l : Location) (v : Bool)
    (next : Location) : (s.declare x l v next).InScope (x :: scope) := by
  intro y
  change _ ↔ y ∈ (s.environment.put x l).keys
  rw [Table.mem_keys_put, List.mem_cons, inScope y]

end Store

namespace Machine

variable {m : Machine} {s t : Store} {n : Node} {scope after : Scope} {p : Progress}

theorem inScope_of_perform {events : List Event} (checked : n.checkStmt scope = .ok after)
    (inScope : s.InScope scope) (h : m.perform s n = .ok (events, t)) : t.InScope after := by
  cases acts_of_perform h with
  | @decl x e loc v value new =>
    rw [Node.checkStmt] at checked
    split at checked
    · cases checked
    · obtain ⟨_, -, hafter⟩ := bind_eq_ok_iff.mp checked
      cases hafter
      exact inScope.declare _ _ _ _
  | assign value bound live stored =>
    rw [Node.checkStmt] at checked
    split at checked
    · obtain ⟨_, -, hafter⟩ := bind_eq_ok_iff.mp checked
      cases hafter
      exact inScope
    · cases checked
  | free bound live =>
    rw [Node.checkStmt] at checked
    split at checked
    · cases checked
      exact inScope
    · cases checked

theorem scoped_of_perform {e : Stop} (basic : n.basic = true)
    (checked : n.checkStmt scope = .ok after) (inScope : s.InScope scope)
    (h : m.perform s n = .error e) : e.Scoped := by
  cases n with
  | seq | ifThen | whileDo => cases basic
  | decl x v loc =>
    rw [Node.checkStmt] at checked
    split at checked
    · cases checked
    · rename_i hx
      obtain ⟨_, hvalue, -⟩ := bind_eq_ok_iff.mp checked
      obtain hv | ⟨b, -, h⟩ := bind_eq_error_iff.mp h
      · exact Node.scoped_of_eval hvalue inScope hv
      · have new : s.lookup x = none := by
          rw [Store.lookup_eq_none_iff, ← inScope x]
          exact hx
        rw [new] at h
        cases h
  | assign x v loc =>
    rw [Node.checkStmt] at checked
    split at checked
    · rename_i hx
      obtain ⟨_, hvalue, -⟩ := bind_eq_ok_iff.mp checked
      obtain hv | ⟨b, -, h⟩ := bind_eq_error_iff.mp h
      · exact Node.scoped_of_eval hvalue inScope hv
      · obtain hl | ⟨l, -, h⟩ := bind_eq_error_iff.mp h
        · exact Node.scoped_of_resolve ((inScope x).mp hx) hl
        · cases hr : s.read l with
          | some old => rw [hr] at h; cases h
          | none =>
            rw [hr] at h
            cases h
            exact ⟨nofun, nofun⟩
    · cases checked
  | free x loc =>
    rw [Node.checkStmt] at checked
    split at checked
    · rename_i hx
      obtain hl | ⟨l, -, h⟩ := bind_eq_error_iff.mp h
      · exact Node.scoped_of_resolve ((inScope x).mp hx) hl
      · cases h
    · cases checked
  | _ => cases checked

theorem ends_inspect_scoped (inScope : s.InScope scope) :
    (m.inspect s).Ends p (fun t _ => t.InScope scope) fun e _ => e.Scoped :=
  ends_inspect inScope fun _ => trivial

theorem exec_scoped (m : Machine) (fuel : Nat) (checked : n.checkStmt scope = .ok after)
    (inScope : s.InScope scope) (p : Progress) :
    (m.exec fuel n s).Ends p (fun t _ => t.InScope after) fun e _ => e.Scoped := by
  induction n using Node.basic_induction generalizing scope after s p with
  | seq a b loc iha ihb =>
    obtain ⟨inner, ha, hb⟩ := bind_eq_ok_iff.mp checked
    rw [exec, Exec.ends_bind]
    apply ends_tick
    · intro _
      rw [Exec.ends_bind]
      exact (iha ha inScope _).imp (fun t q ht => ihb hb ht q) fun _ _ h => h
    · exact fun _ _ _ => trivial
  | ifThen c b loc ih =>
    obtain ⟨_, hc, checked⟩ := bind_eq_ok_iff.mp checked
    obtain ⟨inner, hb, hafter⟩ := bind_eq_ok_iff.mp checked
    cases hafter
    rw [exec, Exec.ends_bind]
    apply ends_tick
    · intro _
      rw [Exec.ends_bind]
      apply Exec.ends_ofExcept
      · intro v _
        cases v with
        | false => exact ends_inspect_scoped inScope
        | true =>
          simp only [if_true, Exec.ends_bind, ends_block]
          apply (ih hb inScope _).imp
          · exact fun t q _ => ends_inspect_scoped (s := t.withEnvironment _) inScope
          · exact fun _ _ h => h
      · exact fun e he => Node.scoped_of_eval hc inScope he
    · exact fun _ _ _ => trivial
  | whileDo c b loc ih =>
    obtain ⟨_, hc, checked⟩ := bind_eq_ok_iff.mp checked
    obtain ⟨inner, hb, hafter⟩ := bind_eq_ok_iff.mp checked
    cases hafter
    rw [exec, Exec.ends_bind]
    apply ends_tick
    · intro _
      rw [Exec.ends_bind]
      -- A round goes back to the scope that it began in, whatever its body declares.
      apply ends_rounds (I := fun _ t _ => t.InScope scope)
      · intro number t q ht _
        exact (ih hb ht _).imp (fun u r _ => ⟨fun _ => ht, fun _ _ _ => trivial⟩) fun _ _ h => h
      · exact fun ht _ => ends_inspect_scoped ht
      · exact fun ht he => Node.scoped_of_eval hc ht he
      · exact fun _ => trivial
      · exact inScope
    · exact fun _ _ _ => trivial
  | basic n basic =>
    rw [m.exec_basic fuel basic, Exec.ends_bind]
    apply ends_tick
    · intro _
      rw [Exec.ends_bind]
      apply Exec.ends_ofExcept
      · rintro ⟨events, t⟩ ht
        rw [Exec.ends_bind, Exec.ends_record]
        exact ends_inspect_scoped (inScope_of_perform checked inScope ht)
      · exact fun e he => scoped_of_perform basic checked inScope he
    · exact fun _ _ _ => trivial

theorem Halts.of_scoped {among : List Node} {e : Stop} (halts : m.Halts among {} p e)
    (h : e.Scoped) :
    (∃ f loc, e = .fault f ∧ f.kind = .alreadyFreed ∧ Node.free f.name loc ∈ among) ∨
      (∃ k t, m.limit = some k ∧ e = .exhausted t) ∨
      ∃ c b loc, Node.whileDo c b loc ∈ among ∧ e = .unfinished := by
  have regular := halts.regular .initial
  cases halts with
  | refused path fits =>
    cases e with
    | fault f =>
      rcases hkind : f.kind with _ | _ | _ | _
      · exact absurd hkind h.1
      · exact absurd hkind regular
      · exact absurd hkind h.2
      · obtain ⟨l, -, freed⟩ : ∃ l, _ = some l ∧ _ := by
          simpa only [Stop.Fits, Fault.Fits, hkind] using fits
        -- Nothing is freed at the start.
        obtain hfreed | ⟨loc, member⟩ := path.freed freed
        · cases hfreed
        · exact .inl ⟨f, loc, rfl, hkind, member⟩
    | misplaced => exact h.elim
    | unsound | exhausted | unfinished => cases fits
  | unsound => exact regular.elim
  | exhausted path limit spent => exact .inr (.inl ⟨_, _, limit, rfl⟩)
  | unfinished loop => exact .inr (.inr ⟨_, _, _, loop, rfl⟩)

end Machine

/-- A program that the checker accepts, executed from the empty store by any interpreter, raises no
fault but that a name was freed before, and only if it frees that name itself. Nor does it meet a
misplaced node or show a violation; it can only go on past a budget or past the rounds allowed. -/
theorem accepted_faults_only_on_freed (i : Interpreter) (fuel : Nat) {checker : Checker}
    {program : Node} {scope : Scope}
    (accepted : (checker.statement program []).result = .ok (some scope)) :
    (∀ e, (i.exec fuel program {}).result = .error e →
      (∃ f loc, e = .fault f ∧ f.kind = .alreadyFreed ∧
        Node.free f.name loc ∈ program.preorder) ∨
      (∃ k t, i.machine.limit = some k ∧ e = .exhausted t) ∨
      ∃ c b loc, Node.whileDo c b loc ∈ program.preorder ∧ e = .unfinished) ∧
    ((∀ x loc, Node.free x loc ∉ program.preorder) →
      ∀ f, (i.exec fuel program {}).result ≠ .error (.fault f)) ∧
    ∀ t, (i.exec fuel program {}).result = .ok t → ∀ x, x ∈ scope ↔ (t.lookup x).isSome := by
  have inScope : Store.InScope {} [] := fun x => Iff.rfl
  have hscoped :=
    i.machine.exec_scoped fuel (Checker.accepts_iff.mp accepted) inScope { steps := i.steps }
  have hstop : ∀ e, (i.exec fuel program {}).result = .error e → _ := fun e he =>
    ((i.machine.exec_path fuel program {} { steps := i.steps }).error (Prod.ext he rfl)).of_scoped
      (hscoped.error (Prod.ext he rfl))
  refine ⟨hstop, ?_, ?_⟩
  · intro unfreed f hf
    obtain ⟨g, loc, -, -, member⟩ | ⟨_, _, -, he⟩ | ⟨_, _, _, -, he⟩ := hstop _ hf
    · exact unfreed _ _ member
    · cases he
    · cases he
  · intro t ht x
    rw [hscoped.ok (Prod.ext ht rfl) x, ← Table.contains_iff]
    rfl

/-- The checker accepts a loop that frees what its own condition reads, and the second round faults
on that name. -/
theorem freedInLoop_faults_on_freed :
    (Checker.statement {} Node.freedInLoop []).result = .ok (some ["a"]) ∧
    ∃ f loc, (Interpreter.exec {} 2 Node.freedInLoop {}).result = .error (.fault f) ∧
      f.kind = .alreadyFreed ∧ Node.free f.name loc ∈ Node.freedInLoop.preorder := by
  have accepted : (Checker.statement {} Node.freedInLoop []).result = .ok (some ["a"]) := rfl
  refine ⟨accepted, ?_⟩
  obtain ⟨f, hf⟩ : ∃ f, (Interpreter.exec {} 2 Node.freedInLoop {}).result = .error (.fault f) :=
    ⟨_, rfl⟩
  obtain ⟨g, loc, hg, kind, member⟩ | ⟨_, _, limit, -⟩ | ⟨_, _, _, -, he⟩ :=
    (accepted_faults_only_on_freed {} 2 accepted).1 _ hf
  · cases hg
    exact ⟨f, loc, hf, kind, member⟩
  · cases limit
  · cases he

end NandLang
