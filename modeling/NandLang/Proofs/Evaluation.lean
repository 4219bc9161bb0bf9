import NandLang.Proofs.Execution
import NandLang.Proofs.Tree

/-! Values of expressions. Whether an expression has a value depends on its names alone, and not on
the values met on the way: both operands are evaluated in any case, so the first name without a
value, in the order of the nodes, is the one that is complained of. No store is too broken for
this. -/
namespace NandLang
namespace Store

/-- The name is bound and was not freed, and its location is in memory. -/
def Live (s : Store) (x : Name) : Prop :=
  ∃ l, s.lookup x = some l ∧ s.isFreed x = false ∧ l ∈ s.memory.keys

def valuation (s : Store) (x : Name) : Bool := ((s.lookup x).bind s.read).getD false

def faultKind (s : Store) (x : Name) : FaultKind :=
  if s.lookup x = none then .undeclared
  else if s.isFreed x then .alreadyFreed
  else .invalidLocation

end Store

namespace Node

/-- The value of a tree of NANDs, given the values of the names. -/
def truth (values : Name → Bool) : Node → Bool
  | .lit b _ => b
  | .var x _ => values x
  | .nand l r _ => !(l.truth values && r.truth values)
  | _ => false

variable {s : Store} {x : Name} {e : Node}

theorem eval_of_live (live : s.Live x) (loc : Option Loc) :
    (Node.var x loc).eval s = .ok (s.valuation x) := by
  obtain ⟨l, bound, unfreed, stored⟩ := live
  obtain ⟨v, hv⟩ := Table.exists_get?_of_mem stored
  have hread : s.read l = some v := hv
  rw [eval, resolve_eq_ok_iff.mpr ⟨bound, unfreed⟩, Store.valuation, bound, Option.bind_some, hread]
  exact bind_eq_ok_iff.mpr ⟨l, rfl, by rw [hread]; rfl⟩

theorem eval_of_not_live (dead : ¬s.Live x) (loc : Option Loc) :
    (Node.var x loc).eval s = .error (.fault ⟨s.faultKind x, x, s.lookup x, loc⟩) := by
  rw [eval, resolve, Store.faultKind]
  cases bound : s.lookup x with
  | none => rfl
  | some l =>
    cases freed : s.isFreed x with
    | true => rfl
    | false =>
      have hread : s.read l = none :=
        (s.read_eq_none_iff l).mpr fun stored => dead ⟨l, bound, freed, stored⟩
      exact bind_eq_error_iff.mpr (.inr ⟨l, rfl, by rw [hread]; rfl⟩)

theorem Expression.eval_or_fault (tree : e.Expression) (s : Store) :
    ((∀ x ∈ e.preorder.filterMap use?, s.Live x) ∧ e.eval s = .ok (e.truth s.valuation)) ∨
      ∃ nodes x loc rest, e.preorder = nodes ++ .var x loc :: rest ∧
        (∀ y ∈ nodes.filterMap use?, s.Live y) ∧ ¬s.Live x ∧
        e.eval s = .error (.fault ⟨s.faultKind x, x, s.lookup x, loc⟩) := by
  induction tree with
  | lit b loc => exact .inl ⟨by simp [preorder, use?], rfl⟩
  | var x loc =>
    by_cases live : s.Live x
    · refine .inl ⟨?_, eval_of_live live loc⟩
      intro y hy
      cases List.mem_singleton.mp hy
      exact live
    · exact .inr ⟨[], x, loc, [], rfl, by simp, live, eval_of_not_live live loc⟩
  | @nand l r _ _ loc ihl ihr =>
    rw [preorder, eval]
    -- A fault of the left operand comes first; only where it has a value is the right one asked.
    obtain ⟨livel, hl⟩ | ⟨nodes, x, xloc, rest, split, live, dead, hl⟩ := ihl
    · obtain ⟨liver, hr⟩ | ⟨nodes, x, xloc, rest, split, live, dead, hr⟩ := ihr
      · refine .inl ⟨?_, by rw [hl, hr]; rfl⟩
        rw [List.filterMap_cons_none rfl, List.filterMap_append]
        exact List.forall_mem_append.mpr ⟨livel, liver⟩
      · refine .inr ⟨.nand l r loc :: (l.preorder ++ nodes), x, xloc, rest, ?_, ?_, dead,
          by rw [hl, hr]; rfl⟩
        · simp [split]
        · rw [List.filterMap_cons_none rfl, List.filterMap_append]
          exact List.forall_mem_append.mpr ⟨livel, live⟩
    · refine .inr ⟨.nand l r loc :: nodes, x, xloc, rest ++ r.preorder, ?_, ?_, dead,
        by rw [hl]; rfl⟩
      · simp [split]
      · rwa [List.filterMap_cons_none rfl]

end Node

/-- An expression has a value just if all of its names are live, and then the value of the tree with
each name at what memory has for it. Else it faults on the first of its names that is not live, and
the fault says what is amiss with the name. So the value of one operand never hides a fault in the
other. -/
theorem eval_value_or_first_fault {e : Node} (tree : e.Expression) (s : Store) :
    ∃ names, e.identifiers = .ok names ∧
      ((∃ v, e.eval s = .ok v) ↔ ∀ x ∈ names, s.Live x) ∧
      ((∀ x ∈ names, s.Live x) → e.eval s = .ok (e.truth s.valuation)) ∧
      ((¬∀ x ∈ names, s.Live x) → ∃ nodes x loc rest,
        e.walk.nodes = nodes ++ .var x loc :: rest ∧
        names = nodes.filterMap Node.use? ++ x :: rest.filterMap Node.use? ∧
        (∀ y ∈ nodes.filterMap Node.use?, s.Live y) ∧ ¬s.Live x ∧
        e.eval s = .error (.fault ⟨s.faultKind x, x, s.lookup x, loc⟩)) ∧
      ∀ l r loc v stop, e = .nand l r loc → l.eval s = .ok v → r.eval s = .error stop →
        e.eval s = .error stop := by
  have unhidden {l r loc v stop} (he : e = .nand l r loc) (hl : l.eval s = .ok v)
      (hr : r.eval s = .error stop) : e.eval s = .error stop := by
    rw [he, Node.eval, hl, hr]
    rfl
  refine ⟨_, tree.identifiers, ?_⟩
  obtain ⟨live, hv⟩ | ⟨nodes, x, loc, rest, split, live, dead, hf⟩ := tree.eval_or_fault s
  · exact ⟨⟨fun _ => live, fun _ => ⟨_, hv⟩⟩, fun _ => hv, fun h => absurd live h,
      fun _ _ _ _ _ => unhidden⟩
  · have hnames : e.preorder.filterMap Node.use? =
        nodes.filterMap Node.use? ++ x :: rest.filterMap Node.use? := by
      rw [split, List.filterMap_append]
      rfl
    have notAll : ¬∀ y ∈ e.preorder.filterMap Node.use?, s.Live y := by
      intro h
      refine dead (h x ?_)
      rw [hnames]
      exact List.mem_append_right _ List.mem_cons_self
    refine ⟨iff_of_false ?_ notAll, fun h => absurd h notAll, fun _ => ?_,
      fun _ _ _ _ _ => unhidden⟩
    · rintro ⟨v, hv⟩
      cases hv.symm.trans hf
    · refine ⟨nodes, x, loc, rest, ?_, hnames, live, dead, hf⟩
      rw [Node.walk_of_native tree.native, split]

def Store.torn : Store where
  environment := ⟨[("a", 0), ("b", 1), ("c", 7)]⟩
  freed := ["b"]
  memory := ⟨[(0, false)]⟩

/-- Behind a false operand the first name without a value is complained of, not the second. -/
theorem torn_behind_false :
    let right := Node.nand (.var "c" none) (.var "b" none) none
    let e := Node.nand (.var "a" none) right none
    let fault := Stop.fault ⟨.invalidLocation, "c", some 7, none⟩
    e.Expression ∧ (Node.var "a" none).eval .torn = .ok false ∧ right.eval .torn = .error fault ∧
    e.eval .torn = .error fault ∧
    ∃ names, e.identifiers = .ok names ∧
      ((∃ v, e.eval .torn = .ok v) ↔ ∀ x ∈ names, Store.torn.Live x) := by
  intro right e fault
  have tree : e.Expression := .nand (.var _ _) (.nand (.var _ _) (.var _ _) _) _
  obtain ⟨names, hnames, hvalue, -, -, hright⟩ := eval_value_or_first_fault tree .torn
  exact ⟨tree, rfl, rfl, hright _ _ _ _ _ rfl rfl rfl, names, hnames, hvalue⟩

end NandLang
