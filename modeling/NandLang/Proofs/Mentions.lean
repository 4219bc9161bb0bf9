import NandLang.Proofs.Diagnosis

/-! Which names of a scope matter to a checker. With more names in scope more uses are right and
more declarations are wrong, so what is accepted neither grows nor shrinks along with the scope. It
depends on the names that the tree mentions, and on no others. -/
namespace NandLang

def Scope.Agree (names : List Name) (scope scope' : Scope) : Prop :=
  ∀ x ∈ names, (x ∈ scope ↔ x ∈ scope')

namespace Scope.Agree

instance (names : List Name) (scope scope' : Scope) : Decidable (Agree names scope scope') :=
  inferInstanceAs (Decidable (∀ x ∈ names, (x ∈ scope ↔ x ∈ scope')))

variable {names part : List Name} {scope scope' : Scope}

theorem mono (h : Agree names scope scope') (sub : part ⊆ names) : Agree part scope scope' :=
  fun x hx => h x (sub hx)

theorem append (h : Agree names scope scope') (added : List Name) :
    Agree names (added ++ scope) (added ++ scope') := by
  intro x hx
  rw [List.mem_append, List.mem_append, h x hx]

end Scope.Agree

namespace Node
open Scope

variable {n : Node} {scope scope' : Scope}

theorem breach?_congr (h : Agree n.names scope scope') : n.breach? scope = n.breach? scope' := by
  cases n with
  | decl x | assign x | var x | free x =>
    have hx := h x (by simp [names])
    simp only [breach?, declares?, use?, hx]
  | _ => rfl

theorem firstBreach?_congr (h : Agree n.names scope scope') :
    n.firstBreach? scope = n.firstBreach? scope' := by
  induction n generalizing scope scope' with
  | lit | foreign => rfl
  | var | free => rw [firstBreach?_eq rfl, firstBreach?_eq rfl, breach?_congr h]
  | decl x e loc ih | assign x e loc ih =>
    rw [firstBreach?_eq rfl, firstBreach?_eq rfl, breach?_congr h]
    exact congrArg _ (ih (h.mono (List.subset_cons_self ..)))
  | nand a b loc iha ihb | ifThen a b loc iha ihb | whileDo a b loc iha ihb =>
    rw [firstBreach?_of_parts rfl rfl, iha (h.mono (List.subset_append_left ..)),
      ihb (h.mono (List.subset_append_right ..))]
    exact (firstBreach?_of_parts rfl rfl).symm
  | seq a b loc iha ihb =>
    -- What the first part declares comes into scope of the second one on both sides.
    have hsecond := (h.mono (List.subset_append_right ..)).append a.openNames.reverse
    rw [firstBreach?_of_parts rfl rfl, iha (h.mono (List.subset_append_left ..)), ihb hsecond]
    exact (firstBreach?_of_parts rfl rfl).symm

theorem mem_names_iff {x : Name} :
    x ∈ n.names ↔ x ∈ n.preorder.filterMap use? ∨ x ∈ n.preorder.filterMap declares? := by
  induction n with
  | lit | foreign | var | free => simp [names, preorder, use?, declares?]
  | decl y e loc ih =>
    simp only [names, preorder, List.filterMap_cons, use?, declares?, List.mem_cons, ih]
    exact or_left_comm
  | assign y e loc ih =>
    simp only [names, preorder, List.filterMap_cons, use?, declares?, List.mem_cons, ih]
    exact or_assoc.symm
  | nand a b loc iha ihb | ifThen a b loc iha ihb | whileDo a b loc iha ihb | seq a b loc iha ihb =>
    simp only [names, preorder, List.filterMap_cons, List.filterMap_append, use?, declares?,
      List.mem_append, iha, ihb]
    exact or_or_or_comm

end Node

/-- A checker answers alike in two scopes that have the same ones of the names used and declared in
a statement: it refuses the statement in both and tells the same of it, or accepts it in both and
adds the same names to each, those declared outside of the blocks. -/
theorem verdict_depends_on_mentioned_names (c : Checker) {n : Node} (tree : n.Statement) :
    ∃ used declared, n.identifiers = .ok used ∧ n.declarations = .ok declared ∧
      ∀ scope scope', Scope.Agree (used ++ declared) scope scope' →
        let answer := c.statement n scope
        let answer' := c.statement n scope'
        answer.checker.diagnostics = answer'.checker.diagnostics ∧ answer.events = answer'.events ∧
        ((answer.result = .ok none ∧ answer'.result = .ok none) ∨
          ∃ after after', answer.result = .ok (some after) ∧ answer'.result = .ok (some after') ∧
            (∀ x, x ∈ after ↔ x ∈ scope ∨ x ∈ n.openNames) ∧
            ∀ x, x ∈ after' ↔ x ∈ scope' ∨ x ∈ n.openNames) := by
  refine ⟨_, _, Node.identifiers_of_native tree.native, Node.declarations_of_native tree.native, ?_⟩
  intro scope scope' same
  have agree : Scope.Agree n.names scope scope' :=
    same.mono fun x hx => List.mem_append.mpr (Node.mem_names_iff.mp hx)
  have hafter : ∀ (scope : Scope) (x : Name),
      x ∈ n.openNames.reverse ++ scope ↔ x ∈ scope ∨ x ∈ n.openNames := by
    intro scope x
    rw [List.mem_append, List.mem_reverse, or_comm]
  simp only [Checker.statement, tree.checkStmt_eq, Node.firstBreach?_congr agree]
  cases n.firstBreach? scope' with
  | some d => exact ⟨rfl, rfl, .inl ⟨rfl, rfl⟩⟩
  | none => exact ⟨rfl, rfl, .inr ⟨_, _, rfl, rfl, hafter scope, hafter scope'⟩⟩

def Node.freedInBranch : Node :=
  .seq (.decl "a" (.var "c" none) none)
    (.ifThen (.var "a" none) (.seq (.decl "b" (.lit true none) none) (.free "c" none) none) none)
    none

theorem freedInBranch_verdicts :
    let checked := Checker.statement {} Node.freedInBranch
    Node.freedInBranch.Statement ∧ Scope.Agree ["c", "a", "c", "a", "b"] ["c"] ["d", "c"] ∧
    (checked ["c"]).result = .ok (some ["a", "c"]) ∧
    (∃ after, (checked ["d", "c"]).result = .ok (some after) ∧
      ∀ x, x ∈ after ↔ x ∈ ["d", "c"] ∨ x ∈ ["a"]) ∧
    Scope.Agree ["c", "a", "c", "a", "b"] ["b", "c"] ["c", "d", "b"] ∧
    (checked ["b", "c"]).checker.diagnostics =
      [⟨.redeclared, "b", .decl "b" (.lit true none) none, none⟩] ∧
    (checked ["c", "d", "b"]).checker.diagnostics = (checked ["b", "c"]).checker.diagnostics := by
  intro checked
  have tree : Node.freedInBranch.Statement :=
    .seq (.decl _ (.var _ _) _)
      (.ifThen (.var _ _) (.seq (.decl _ (.lit _ _) _) (.free _ _) _) _) _
  obtain ⟨used, declared, hused, hdeclared, alike⟩ := verdict_depends_on_mentioned_names {} tree
  cases (Node.identifiers_of_native tree.native).symm.trans hused
  cases (Node.declarations_of_native tree.native).symm.trans hdeclared
  have accepted : Scope.Agree ["c", "a", "c", "a", "b"] ["c"] ["d", "c"] := by decide
  have refused : Scope.Agree ["c", "a", "c", "a", "b"] ["b", "c"] ["c", "d", "b"] := by decide
  obtain ⟨-, -, ⟨hnone, -⟩ | ⟨_, after, -, hresult, -, hafter⟩⟩ := alike _ _ accepted
  · cases hnone
  · exact ⟨tree, accepted, rfl, ⟨after, hresult, hafter⟩, refused, rfl, (alike _ _ refused).1.symm⟩

end NandLang
