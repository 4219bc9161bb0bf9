import NandLang.Proofs.Scoping
import NandLang.Proofs.Tree

/-! What a statement does to the environment. The names that it declares outside of its blocks are
added at the end, in the order of the text; a block adds none, whatever it declares and however often
it is run. -/
namespace NandLang
namespace Node

/-- The nodes of a tree that stand in no block of it, each before its parts. -/
def surface : Node → List Node
  | .lit b loc => [.lit b loc]
  | .var x loc => [.var x loc]
  | .free x loc => [.free x loc]
  | .foreign v => [.foreign v]
  | .decl x e loc => .decl x e loc :: e.surface
  | .assign x e loc => .assign x e loc :: e.surface
  | .nand l r loc => .nand l r loc :: (l.surface ++ r.surface)
  | .seq a b loc => .seq a b loc :: (a.surface ++ b.surface)
  | .ifThen c b loc => [.ifThen c b loc]
  | .whileDo c b loc => [.whileDo c b loc]

def openNames (n : Node) : List Name := n.surface.filterMap declares?

variable {n : Node} {s : Store}

@[simp] theorem openNames_decl (x : Name) (e : Node) (loc : Option Loc) :
    (Node.decl x e loc).openNames = x :: e.openNames := rfl

@[simp] theorem openNames_assign (x : Name) (e : Node) (loc : Option Loc) :
    (Node.assign x e loc).openNames = e.openNames := rfl

@[simp] theorem openNames_free (x : Name) (loc : Option Loc) :
    (Node.free x loc).openNames = [] := rfl

@[simp] theorem openNames_ifThen (c b : Node) (loc : Option Loc) :
    (Node.ifThen c b loc).openNames = [] := rfl

@[simp] theorem openNames_whileDo (c b : Node) (loc : Option Loc) :
    (Node.whileDo c b loc).openNames = [] := rfl

@[simp] theorem openNames_nand (l r : Node) (loc : Option Loc) :
    (Node.nand l r loc).openNames = l.openNames ++ r.openNames :=
  List.filterMap_append

@[simp] theorem openNames_seq (a b : Node) (loc : Option Loc) :
    (Node.seq a b loc).openNames = a.openNames ++ b.openNames :=
  List.filterMap_append

theorem expression_of_eval {v : Bool} (h : n.eval s = .ok v) : n.Expression := by
  induction n generalizing v with
  | lit b loc => exact .lit b loc
  | var x loc => exact .var x loc
  | nand l r loc ihl ihr =>
    obtain ⟨left, hl, h⟩ := bind_eq_ok_iff.mp h
    obtain ⟨right, hr, -⟩ := bind_eq_ok_iff.mp h
    exact .nand (ihl hl) (ihr hr) loc
  | _ => cases h

theorem Expression.openNames_eq_nil (h : n.Expression) : n.openNames = [] := by
  induction h with
  | lit | var => rfl
  | nand _ _ _ ihl ihr => simp [ihl, ihr]

end Node

namespace Machine

variable {m : Machine} {s t : Store} {n : Node}

theorem Acts.keys {events : List Event} (acts : m.Acts s n events t) :
    t.environment.keys = s.environment.keys ++ n.openNames := by
  cases acts with
  | decl value new =>
    rw [Store.lookup_eq_none_iff] at new
    simp [Store.declare, Table.keys_put_of_notMem new,
      (Node.expression_of_eval value).openNames_eq_nil]
  | assign value => simp [Store.write, (Node.expression_of_eval value).openNames_eq_nil]
  | free => simp [Store.release]

theorem exec_keys (m : Machine) (fuel : Nat) (n : Node) (s : Store) (p : Progress) :
    (m.exec fuel n s).Ends p
      (fun t _ => t.environment.keys = s.environment.keys ++ n.openNames) fun _ _ => True := by
  apply exec_induction
  case seq =>
    intro a b loc s t u ht hu
    rw [hu, ht, Node.openNames_seq, List.append_assoc]
  case skip | branch | done => simp [Store.withEnvironment]
  case round =>
    -- The rest of the loop starts from the environment that the round started from.
    intro c b loc s t u _ _ hrest
    exact hrest
  case basic => exact fun acts => acts.keys

end Machine

/-- Behind a statement all bindings from before stand in their places, followed by those of the names
that it declares outside of its blocks, in the order of the text; behind a block there are no others.
Where the checker accepts the statement in the scope of the store, the names bound behind it are
those of the scope that the checker yields. -/
theorem environment_extended (i : Interpreter) (fuel : Nat) {n : Node} {s t : Store}
    (run : (i.exec fuel n s).result = .ok t) :
    (∃ added, t.environment.entries = s.environment.entries ++ added ∧
      added.map Prod.fst = n.openNames) ∧
    (∀ c b loc, n = .ifThen c b loc ∨ n = .whileDo c b loc → t.environment = s.environment) ∧
    ∀ (checker : Checker) (scope after : Scope), (∀ x, x ∈ scope ↔ x ∈ s.environment.keys) →
      (checker.statement n scope).result = .ok (some after) →
      ∀ x, x ∈ after ↔ x ∈ t.environment.keys := by
  have hexec := Interpreter.exec_of_result run
  obtain ⟨added, hadded⟩ := (Machine.path_of_exec hexec).growsOn
  have hkeys := (i.machine.exec_keys fuel n s _).ok hexec
  have hnames : added.map Prod.fst = n.openNames := by
    simpa [Table.keys, ← hadded] using hkeys
  refine ⟨⟨added, hadded.symm, hnames⟩, ?_, ?_⟩
  · rintro c b loc (rfl | rfl) <;>
    · obtain rfl := List.map_eq_nil_iff.mp hnames
      exact congrArg Table.mk (hadded.symm.trans (List.append_nil _))
  · intro checker scope after inScope accepted
    exact (i.machine.exec_scoped fuel (Checker.accepts_iff.mp accepted) inScope _).ok hexec

def Node.blocksBetween : Node :=
  .seq (.decl "a" (.lit true none) none)
    (.seq
      (.whileDo (.var "a" none)
        (.seq (.decl "b" (.var "a" none) none) (.assign "a" (.lit false none) none) none) none)
      (.seq (.decl "c" (.lit true none) none)
        (.ifThen (.var "c" none) (.decl "d" (.lit true none) none) none) none) none) none

/-- Behind a name that was bound before, if to no cell, only the two names outside of the blocks are
bound, as the checker foretells. -/
theorem blocksBetween_extends :
    let s : Store := { environment := ⟨[("z", 7)]⟩ }
    (Checker.statement {} Node.blocksBetween ["z"]).result = .ok (some ["c", "a", "z"]) ∧
    ∃ t, (Interpreter.exec {} 2 Node.blocksBetween s).result = .ok t ∧
      (∃ added, t.environment.entries = [("z", 7)] ++ added ∧
        added.map Prod.fst = ["a", "c"]) ∧
      ∀ x, x ∈ ["c", "a", "z"] ↔ x ∈ t.environment.keys := by
  intro s
  have accepted : (Checker.statement {} Node.blocksBetween ["z"]).result =
      .ok (some ["c", "a", "z"]) := rfl
  have run : (Interpreter.exec {} 2 Node.blocksBetween s).result =
      .ok ⟨⟨[("z", 7), ("a", 0), ("c", 2)]⟩, [],
        ⟨[(0, false), (1, true), (2, true), (3, true)]⟩, 4⟩ := by decide
  obtain ⟨extended, -, foretold⟩ := environment_extended {} 2 run
  exact ⟨accepted, _, run, extended, foretold {} ["z"] _ (fun _ => Iff.rfl) accepted⟩

end NandLang
