import Mathlib.Algebra.GroupWithZero.Nat
import Mathlib.Data.List.Basic
import NandLang.Node.Walk

/-! The nodes of a tree in pre-order, by recursion. A walk with a stack visits them in this order,
up to the first foreign value; so what is collected along a walk is collected part by part. -/
namespace NandLang.Node

def preorder : Node → List Node
  | .lit b loc => [.lit b loc]
  | .var x loc => [.var x loc]
  | .free x loc => [.free x loc]
  | .foreign v => [.foreign v]
  | .decl x e loc => .decl x e loc :: e.preorder
  | .assign x e loc => .assign x e loc :: e.preorder
  | .nand l r loc => .nand l r loc :: (l.preorder ++ r.preorder)
  | .ifThen c b loc => .ifThen c b loc :: (c.preorder ++ b.preorder)
  | .whileDo c b loc => .whileDo c b loc :: (c.preorder ++ b.preorder)
  | .seq a b loc => .seq a b loc :: (a.preorder ++ b.preorder)

theorem mem_preorder_self (n : Node) : n ∈ n.preorder := by
  cases n <;> simp [preorder]

theorem preorder_subset_seq_left (a b : Node) (loc : Option Loc) :
    a.preorder ⊆ (Node.seq a b loc).preorder :=
  fun _ h => List.mem_cons_of_mem _ (List.mem_append_left _ h)

theorem preorder_subset_seq_right (a b : Node) (loc : Option Loc) :
    b.preorder ⊆ (Node.seq a b loc).preorder :=
  fun _ h => List.mem_cons_of_mem _ (List.mem_append_right _ h)

theorem preorder_subset_ifThen (c b : Node) (loc : Option Loc) :
    b.preorder ⊆ (Node.ifThen c b loc).preorder :=
  fun _ h => List.mem_cons_of_mem _ (List.mem_append_right _ h)

theorem preorder_subset_whileDo (c b : Node) (loc : Option Loc) :
    b.preorder ⊆ (Node.whileDo c b loc).preorder :=
  fun _ h => List.mem_cons_of_mem _ (List.mem_append_right _ h)

theorem cond_mem_preorder_ifThen (c b : Node) (loc : Option Loc) :
    c ∈ (Node.ifThen c b loc).preorder :=
  List.mem_cons_of_mem _ (List.mem_append_left _ (mem_preorder_self c))

theorem cond_mem_preorder_whileDo (c b : Node) (loc : Option Loc) :
    c ∈ (Node.whileDo c b loc).preorder :=
  List.mem_cons_of_mem _ (List.mem_append_left _ (mem_preorder_self c))

/-- The nodes up to the first foreign value, which ends the visit. -/
def Visit.ofNodes : List Node → Visit
  | [] => ⟨[], none⟩
  | .foreign v :: _ => ⟨[.foreign v], some v⟩
  | n :: rest => ⟨n :: (ofNodes rest).nodes, (ofNodes rest).stuck⟩

theorem preorder_eq_cons_parts (n : Node) : n.preorder = n :: n.parts.flatMap preorder := by
  cases n <;> simp [preorder, parts]

/-- The stack holds the trees whose nodes are still to come. -/
theorem walkStack_eq (stack : List Node) :
    walkStack stack = .ofNodes (stack.flatMap preorder) := by
  induction stack using walkStack.induct with
  | case1 => simp [walkStack, Visit.ofNodes]
  | case2 v rest => simp [walkStack, Visit.ofNodes, preorder]
  | case3 n rest hn ih =>
    rw [List.flatMap_append] at ih
    rw [List.flatMap_cons, preorder_eq_cons_parts, List.cons_append, walkStack, ih, Visit.ofNodes]
    all_goals exact hn

theorem walk_eq (n : Node) : n.walk = .ofNodes n.preorder := by
  rw [walk, walkStack_eq, List.flatMap_singleton]

theorem Visit.ofNodes_append {before : List Node} (native : ∀ v, .foreign v ∉ before)
    (after : List Node) :
    ofNodes (before ++ after) = ⟨before ++ (ofNodes after).nodes, (ofNodes after).stuck⟩ := by
  induction before with
  | nil => rfl
  | cons n rest ih =>
    rw [List.cons_append, ofNodes, ih]
    · rfl
    · exact fun v h => native v (List.mem_cons_of_mem _ h)
    · rintro v rfl
      exact native v List.mem_cons_self

theorem walk_of_native {n : Node} (native : ∀ v, .foreign v ∉ n.preorder) :
    n.walk = ⟨n.preorder, none⟩ := by
  have h := Visit.ofNodes_append native []
  rw [List.append_nil] at h
  rw [walk_eq, h, Visit.ofNodes, List.append_nil]

theorem walk_complete {n : Node} (native : ∀ v, .foreign v ∉ n.preorder) :
    n.walk.complete = .ok n.preorder := by
  rw [walk_of_native native]
  rfl

theorem identifiers_of_native {n : Node} (native : ∀ v, .foreign v ∉ n.preorder) :
    n.identifiers = .ok (n.preorder.filterMap use?) := by
  rw [identifiers, walk_complete native]
  rfl

theorem declarations_of_native {n : Node} (native : ∀ v, .foreign v ∉ n.preorder) :
    n.declarations = .ok (n.preorder.filterMap declares?) := by
  rw [declarations, walk_complete native]
  rfl

/-! Trees with foreign values in them. -/

theorem foreign_or_native (n : Node) : (∃ v, n = .foreign v) ∨ ∀ v, n ≠ .foreign v :=
  or_iff_not_imp_left.mpr fun h v hv => h ⟨v, hv⟩

theorem children_of_native {n : Node} (native : ∀ v, n ≠ .foreign v) :
    n.children = .ok n.parts := by
  rw [children]
  exact native

theorem native_or_split (nodes : List Node) :
    (∀ v, .foreign v ∉ nodes) ∨
      ∃ before v after, nodes = before ++ .foreign v :: after ∧ ∀ w, .foreign w ∉ before := by
  induction nodes with
  | nil => exact .inl fun v => List.not_mem_nil
  | cons n rest ih =>
    obtain ⟨v, rfl⟩ | hn := n.foreign_or_native
    · exact .inr ⟨[], v, rest, rfl, fun w => List.not_mem_nil⟩
    · have cons : ∀ {row : List Node}, (∀ v, .foreign v ∉ row) → ∀ v, .foreign v ∉ n :: row :=
        fun hrow v h => (List.mem_cons.mp h).elim (fun hv => hn v hv.symm) (hrow v)
      obtain native | ⟨before, v, after, rfl, native⟩ := ih
      · exact .inl (cons native)
      · exact .inr ⟨n :: before, v, after, rfl, cons native⟩

theorem walk_of_foreign {n : Node} {before after : List Node} {v : Foreign}
    (split : n.preorder = before ++ .foreign v :: after) (native : ∀ w, .foreign w ∉ before) :
    n.walk = ⟨before ++ [.foreign v], some v⟩ := by
  rw [walk_eq, split, Visit.ofNodes_append native, Visit.ofNodes]

/-! What is collected from a tree is collected from its parts. -/

theorem Visit.complete_cons {n : Node} (native : ∀ v, n ≠ .foreign v) (rest : List Node) :
    (ofNodes (n :: rest)).complete = (ofNodes rest).complete.map (n :: ·) := by
  rw [ofNodes, complete, complete]
  · cases (ofNodes rest).stuck <;> rfl
  · exact native

theorem Visit.complete_append (xs ys : List Node) :
    (ofNodes (xs ++ ys)).complete =
      (do .ok ((← (ofNodes xs).complete) ++ (← (ofNodes ys).complete))) := by
  induction xs with
  | nil =>
    change (ofNodes ys).complete = (ofNodes ys).complete.bind Except.ok
    cases (ofNodes ys).complete <;> rfl
  | cons n rest ih =>
    obtain ⟨v, rfl⟩ | native := n.foreign_or_native
    · rfl
    · rw [List.cons_append, complete_cons native, complete_cons native, ih]
      cases (ofNodes rest).complete <;> cases (ofNodes ys).complete <;> rfl

theorem complete_parts (parts : List Node) :
    (Visit.ofNodes (parts.flatMap preorder)).complete =
      (parts.mapM fun part : Node => part.walk.complete).map List.flatten := by
  induction parts with
  | nil => rfl
  | cons part rest ih =>
    rw [List.flatMap_cons, Visit.complete_append, ih, List.mapM_cons, walk_eq]
    cases (Visit.ofNodes part.preorder).complete with
    | error m => rfl
    | ok nodes => cases rest.mapM fun part : Node => part.walk.complete <;> rfl

theorem walk_complete_eq (n : Node) :
    n.walk.complete = (do
      let rows ← (← n.children).mapM fun part : Node => part.walk.complete
      .ok (n :: rows.flatten)) := by
  rw [walk_eq, preorder_eq_cons_parts]
  obtain ⟨v, rfl⟩ | native := n.foreign_or_native
  · rfl
  · rw [Visit.complete_cons native, complete_parts, children_of_native native]
    dsimp only [bind, Except.bind]
    cases n.parts.mapM fun part : Node => part.walk.complete <;> rfl

theorem mapM_map_right {α β γ ε : Type} (g : γ → Except ε α) (f : α → β) (xs : List γ) :
    (xs.mapM fun x => (g x).map f) = (xs.mapM g).map (List.map f) := by
  induction xs with
  | nil => rfl
  | cons x rest ih =>
    rw [List.mapM_cons, List.mapM_cons, ih]
    cases g x with
    | error e => rfl
    | ok a => cases rest.mapM g <;> rfl

theorem collect_eq {α : Type} (f : List Node → α) (own : Node → List α → α)
    (hom : ∀ n (rows : List (List Node)), f (n :: rows.flatten) = own n (rows.map f)) (n : Node) :
    n.walk.complete.map f = (do
      let yields ← (← n.children).mapM fun part : Node => part.walk.complete.map f
      .ok (own n yields)) := by
  rw [walk_complete_eq]
  cases n.children with
  | error m => rfl
  | ok parts =>
    dsimp only [bind, Except.bind]
    rw [mapM_map_right]
    cases parts.mapM fun part : Node => part.walk.complete with
    | error m => rfl
    | ok rows => exact congrArg Except.ok (hom n rows)

theorem filterMap_cons_flatten {α : Type} (g : Node → Option α) (n : Node)
    (rows : List (List Node)) :
    (n :: rows.flatten).filterMap g = (g n).toList ++ (rows.map (List.filterMap g)).flatten := by
  cases h : g n <;> simp [h, List.filterMap_flatten]

theorem identifiers_eq (n : Node) :
    n.identifiers = (do
      let rows ← (← n.children).mapM identifiers
      .ok (n.use?.toList ++ rows.flatten)) :=
  collect_eq _ (fun n rows => n.use?.toList ++ rows.flatten) (filterMap_cons_flatten use?) n

theorem declarations_eq (n : Node) :
    n.declarations = (do
      let rows ← (← n.children).mapM declarations
      .ok (n.declares?.toList ++ rows.flatten)) :=
  collect_eq _ (fun n rows => n.declares?.toList ++ rows.flatten)
    (filterMap_cons_flatten declares?) n

theorem size_eq (n : Node) :
    n.size = (do
      let sizes ← (← n.children).mapM size
      .ok (1 + sizes.sum)) := by
  apply collect_eq List.length fun _ sizes => 1 + sizes.sum
  intro n rows
  rw [List.length_cons, List.length_flatten, Nat.add_comm]

/-! Whole walks. -/

theorem walk_eq_cons {n : Node} (native : ∀ v, .foreign v ∉ n.preorder) :
    n.walk = ⟨n :: n.parts.flatMap fun part => part.walk.nodes, none⟩ := by
  have hparts : ∀ part ∈ n.parts, part.preorder = part.walk.nodes := by
    intro part hpart
    rw [walk_of_native]
    intro v hv
    refine native v ?_
    rw [preorder_eq_cons_parts]
    exact List.mem_cons_of_mem _ (List.mem_flatMap_of_mem hpart hv)
  rw [walk_of_native native, preorder_eq_cons_parts, List.flatMap_congr hparts]

theorem exists_split_of_foreign {n : Node} (h : ∃ v, .foreign v ∈ n.preorder) :
    ∃ before v after, n.preorder = before ++ .foreign v :: after ∧
      (∀ w, .foreign w ∉ before) ∧ n.walk = ⟨before ++ [.foreign v], some v⟩ := by
  obtain ⟨v, hv⟩ := h
  obtain native | ⟨before, w, after, split, native⟩ := native_or_split n.preorder
  · exact absurd hv (native v)
  · exact ⟨before, w, after, split, native, walk_of_foreign split native⟩

theorem collect_error_iff {α : Type} (f : List Node → α) (n : Node) :
    (∃ m, n.walk.complete.map f = .error m) ↔ ∃ v, .foreign v ∈ n.preorder := by
  constructor
  · rintro ⟨m, hm⟩
    by_contra! native
    rw [walk_complete native] at hm
    cases hm
  · intro h
    obtain ⟨before, v, after, -, -, hwalk⟩ := exists_split_of_foreign h
    rw [hwalk]
    exact ⟨_, rfl⟩

/-- The walk with a stack is the pre-order by recursion. It visits a node and then what the walks of
its children visit, in turn; what is collected from the nodes of a tree is the node's own part and
then that of each child. In a tree with foreign values it ends behind the first one, and nothing is
collected. -/
theorem walk_is_preorder (n : Node) :
    ((∀ v, .foreign v ∉ n.preorder) → ∃ parts, n.children = .ok parts ∧
      n.walk = ⟨n :: parts.flatMap fun part => part.walk.nodes, none⟩) ∧
    ((∃ v, .foreign v ∈ n.preorder) → ∃ before v after,
      n.preorder = before ++ .foreign v :: after ∧ (∀ w, .foreign w ∉ before) ∧
      n.walk = ⟨before ++ [.foreign v], some v⟩ ∧
      n.walk.complete = .error ⟨.node, .foreign v⟩) ∧
    n.size = (do
      let sizes ← (← n.children).mapM size
      .ok (1 + sizes.sum)) ∧
    n.identifiers = (do
      let rows ← (← n.children).mapM identifiers
      .ok (n.use?.toList ++ rows.flatten)) ∧
    n.declarations = (do
      let rows ← (← n.children).mapM declarations
      .ok (n.declares?.toList ++ rows.flatten)) ∧
    ((∃ m, n.size = .error m) ↔ ∃ v, .foreign v ∈ n.preorder) ∧
    ((∃ m, n.identifiers = .error m) ↔ ∃ v, .foreign v ∈ n.preorder) ∧
    ((∃ m, n.declarations = .error m) ↔ ∃ v, .foreign v ∈ n.preorder) := by
  refine ⟨fun native => ?_, fun foreign => ?_, n.size_eq, n.identifiers_eq, n.declarations_eq,
    collect_error_iff _ n, collect_error_iff _ n, collect_error_iff _ n⟩
  · refine ⟨n.parts, children_of_native ?_, walk_eq_cons native⟩
    rintro v rfl
    exact native v (mem_preorder_self _)
  · obtain ⟨before, v, after, split, native, hwalk⟩ := exists_split_of_foreign foreign
    refine ⟨before, v, after, split, native, hwalk, ?_⟩
    rw [hwalk]
    rfl

/-- An assignment is walked to its end, and a sequence up to the value behind the assignment. -/
theorem strayBehindAssignment_ends_walk :
    let assignment := Node.assign "a" (.nand (.var "b" none) (.lit true none) none) none
    let stray := Node.seq assignment (.seq (.foreign .null) (.free "c" none) none) none
    ((∀ v, .foreign v ∉ assignment.preorder) ∧ ∃ parts, assignment.children = .ok parts ∧
      assignment.walk = ⟨assignment :: parts.flatMap fun part => part.walk.nodes, none⟩) ∧
    (∃ v, .foreign v ∈ stray.preorder) ∧ ∃ before v after,
      stray.preorder = before ++ .foreign v :: after ∧ (∀ w, .foreign w ∉ before) ∧
      stray.walk = ⟨before ++ [.foreign v], some v⟩ ∧
      stray.walk.complete = .error ⟨.node, .foreign v⟩ := by
  intro assignment stray
  have native : ∀ v, .foreign v ∉ assignment.preorder := by simp [assignment, preorder]
  have foreign : ∃ v, .foreign v ∈ stray.preorder := ⟨.null, by simp [stray, preorder]⟩
  exact ⟨⟨native, (walk_is_preorder assignment).1 native⟩,
    foreign, (walk_is_preorder stray).2.1 foreign⟩

end NandLang.Node
