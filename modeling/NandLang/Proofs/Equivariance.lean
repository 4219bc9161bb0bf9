import Mathlib.Data.List.Basic
import Mathlib.Logic.Equiv.Basic
import NandLang.Proofs.Run

/-! Names are opaque. Checking and running only ever compare names with each other, so renaming all
names of a program, each to a name of its own, renames what the checker and a run answer, and changes
nothing else. The renaming acts on every type that mentions a name, and each operation commutes with
it. -/
namespace NandLang

def mapEnding {ε ε' α β : Type} (f : ε → ε') (g : α → β) : Except ε α → Except ε' β
  | .ok a => .ok (g a)
  | .error e => .error (f e)

theorem bind_eq_mapEnding {ε ε' α α' β β' : Type} {f : ε → ε'} {g : α → α'} {h : β → β'}
    {x : Except ε α} {x' : Except ε' α'} {k : α → Except ε β} {k' : α' → Except ε' β'}
    (hx : x' = mapEnding f g x) (hk : ∀ a, k' (g a) = mapEnding f h (k a)) :
    x' >>= k' = mapEnding f h (x >>= k) := by
  subst hx
  cases x with
  | error e => rfl
  | ok a => exact hk a

/-! What a renaming does to each type. -/

section Rename
variable (r : Name → Name)

def Node.rename : Node → Node
  | .lit b loc => .lit b loc
  | .var x loc => .var (r x) loc
  | .nand a b loc => .nand a.rename b.rename loc
  | .decl x e loc => .decl (r x) e.rename loc
  | .assign x e loc => .assign (r x) e.rename loc
  | .ifThen c b loc => .ifThen c.rename b.rename loc
  | .whileDo c b loc => .whileDo c.rename b.rename loc
  | .seq a b loc => .seq a.rename b.rename loc
  | .free x loc => .free (r x) loc
  | .foreign v => .foreign v

def Misplaced.rename (m : Misplaced) : Misplaced := { m with found := m.found.rename r }

def Diagnostic.rename (d : Diagnostic) : Diagnostic :=
  { d with name := r d.name, node := d.node.rename r }

def Refusal.rename : Refusal → Refusal
  | .violation d => .violation (d.rename r)
  | .misplaced m => .misplaced (m.rename r)

def Store.rename (s : Store) : Store :=
  { s with environment := s.environment.mapKeys r, freed := s.freed.map r }

def Violation.rename : Violation → Violation
  | .dangling x l => .dangling (r x) l
  | .stale l next => .stale l next

def Fault.rename (f : Fault) : Fault := { f with name := r f.name }

def Stop.rename : Stop → Stop
  | .fault f => .fault (f.rename r)
  | .misplaced m => .misplaced (m.rename r)
  | .unsound violations => .unsound (violations.map (Violation.rename r))
  | .exhausted s => .exhausted (s.rename r)
  | .unfinished => .unfinished

def Event.rename : Event → Event
  | .refused d => .refused (d.rename r)
  | .declared x l v => .declared (r x) l v
  | .released x l => .released (r x) l
  | .faulted steps f => .faulted steps (f.rename r)
  | e => e

def Progress.rename (p : Progress) : Progress := { p with events := p.events.map (Event.rename r) }

def RunResult.rename : RunResult → RunResult
  | .completed steps s => .completed steps (s.rename r)
  | .rejected d => .rejected (d.rename r)
  | .faulted steps f => .faulted steps (f.rename r)
  | .exhausted steps s => .exhausted steps (s.rename r)

def Checker.Answer.rename (a : Answer (Option Scope)) : Answer (Option Scope) where
  result := mapEnding (Misplaced.rename r) (Option.map (List.map r)) a.result
  checker := ⟨a.checker.diagnostics.map (Diagnostic.rename r)⟩
  events := a.events.map (Event.rename r)

def Interpreter.Answer.rename (a : Answer RunResult) : Answer RunResult where
  result := mapEnding (Stop.rename r) (RunResult.rename r) a.result
  interpreter := a.interpreter
  events := a.events.map (Event.rename r)

theorem Store.read_rename (s : Store) (l : Location) : (s.rename r).read l = s.read l := rfl

theorem Node.basic_rename (n : Node) : (n.rename r).basic = n.basic := by
  cases n <;> rfl

theorem Allocator.allocate_rename (a : Allocator) (s : Store) :
    a.allocate (s.rename r) = a.allocate s := by
  have hlocations : (s.rename r).environment.entries.map (·.2) =
      s.environment.entries.map (·.2) := by
    simp [Store.rename, Table.mapKeys]
  unfold allocate
  rw [hlocations]
  rfl

end Rename

section Injective
variable {r : Name → Name} (injective : Function.Injective r)
include injective

/-! The checker. -/

namespace Node

theorem checkExpr_rename (n : Node) (scope : Scope) :
    (n.rename r).checkExpr (scope.map r) =
      mapEnding (Refusal.rename r) id (n.checkExpr scope) := by
  induction n with
  | lit => rfl
  | var x loc =>
    simp only [rename, checkExpr, List.mem_map_of_injective injective]
    split <;> rfl
  | nand a b loc iha ihb => exact bind_eq_mapEnding iha fun _ => ihb
  | _ => rfl

theorem checkStmt_rename (n : Node) (scope : Scope) :
    (n.rename r).checkStmt (scope.map r) =
      mapEnding (Refusal.rename r) (List.map r) (n.checkStmt scope) := by
  have hexpr (e : Node) (scope : Scope) := checkExpr_rename injective e scope
  induction n generalizing scope with
  | seq a b loc iha ihb => exact bind_eq_mapEnding (iha scope) ihb
  | decl x e loc =>
    simp only [rename, checkStmt, List.mem_map_of_injective injective]
    split
    · rfl
    · exact bind_eq_mapEnding (hexpr e scope) fun _ => rfl
  | assign x e loc =>
    simp only [rename, checkStmt, List.mem_map_of_injective injective]
    split
    · exact bind_eq_mapEnding (hexpr e scope) fun _ => rfl
    · rfl
  | ifThen c b loc _ ih | whileDo c b loc _ ih =>
    apply bind_eq_mapEnding (hexpr c scope)
    intro _
    exact bind_eq_mapEnding (ih scope) fun _ => rfl
  | free x loc =>
    simp only [rename, checkStmt, List.mem_map_of_injective injective]
    split <;> rfl
  | _ => rfl

end Node

theorem Checker.statement_rename (c : Checker) (n : Node) (scope : Scope) :
    c.statement (n.rename r) (scope.map r) = (c.statement n scope).rename r := by
  unfold Checker.statement
  rw [Node.checkStmt_rename injective]
  rcases n.checkStmt scope with (d | m) | after <;> rfl

/-! Stores. -/

namespace Store

variable (s : Store) (x : Name)

theorem lookup_rename : (s.rename r).lookup (r x) = s.lookup x :=
  Table.get?_mapKeys fun _ _ h => injective h

theorem isFreed_rename : (s.rename r).isFreed (r x) = s.isFreed x := by
  simp [isFreed, rename, List.mem_map_of_injective injective]

theorem rename_declare (l : Location) (v : Bool) (next : Location) :
    (s.declare x l v next).rename r = (s.rename r).declare (r x) l v next := by
  have hfreed : (s.freed.filter (· ≠ x)).map r = (s.freed.map r).filter (· ≠ r x) := by
    simp [List.filter_map, Function.comp_def, injective.eq_iff]
  simp only [declare, rename, hfreed, Table.mapKeys_put fun _ _ h => injective h]

theorem rename_release (l : Location) :
    (s.release x l).rename r = (s.rename r).release (r x) l := by
  unfold release
  rw [isFreed_rename injective]
  split <;> simp [rename]

theorem violations_rename :
    (s.rename r).violations = s.violations.map (Violation.rename r) := by
  unfold violations
  rw [List.map_append, List.map_filterMap, List.map_filterMap]
  congr 1
  · change (s.environment.entries.map _).filterMap _ = _
    rw [List.filterMap_map]
    apply List.filterMap_congr
    rintro ⟨x, l⟩ -
    simp only [Function.comp_apply, isFreed_rename injective, read_rename]
    split <;> rfl
  · apply List.filterMap_congr
    intro l _
    change (if s.next ≤ l then _ else _) = _
    split <;> rfl

end Store

/-! Expressions and basic statements. -/

namespace Node

theorem resolve_rename (s : Store) (x : Name) (loc : Option Loc) :
    resolve (s.rename r) (r x) loc = mapEnding (Stop.rename r) id (resolve s x loc) := by
  unfold resolve
  rw [s.lookup_rename injective, s.isFreed_rename injective]
  cases s.lookup x with
  | none => rfl
  | some l => cases s.isFreed x <;> rfl

theorem eval_rename (s : Store) (n : Node) :
    (n.rename r).eval (s.rename r) = mapEnding (Stop.rename r) id (n.eval s) := by
  induction n with
  | lit => rfl
  | var x loc =>
    apply bind_eq_mapEnding (resolve_rename injective s x loc)
    intro l
    dsimp only [id_eq]
    rw [s.read_rename]
    cases s.read l <;> rfl
  | nand a b loc iha ihb =>
    apply bind_eq_mapEnding iha
    intro left
    exact bind_eq_mapEnding ihb fun _ => rfl
  | _ => rfl

end Node

theorem Machine.perform_rename (m : Machine) (s : Store) (n : Node) :
    m.perform (s.rename r) (n.rename r) =
      mapEnding (Stop.rename r) (fun d => (d.1.map (Event.rename r), d.2.rename r))
        (m.perform s n) := by
  cases n with
  | decl x e loc =>
    apply bind_eq_mapEnding (Node.eval_rename injective s e)
    intro v
    rw [s.lookup_rename injective, m.allocator.allocate_rename]
    cases s.lookup x with
    | some l => rfl
    | none =>
      simp only [mapEnding, s.rename_declare injective]
      rfl
  | assign x e loc =>
    apply bind_eq_mapEnding (Node.eval_rename injective s e)
    intro v
    apply bind_eq_mapEnding (Node.resolve_rename injective s x loc)
    intro l
    dsimp only [id_eq]
    rw [s.read_rename]
    cases s.read l <;> rfl
  | free x loc =>
    apply bind_eq_mapEnding (Node.resolve_rename injective s x loc)
    intro l
    simp only [mapEnding, s.rename_release injective]
    rfl
  | _ => rfl

end Injective

/-! Executions. -/

namespace Exec

variable {r : Name → Name} {α α' β β' : Type} {f : α → α'} {g : β → β'}

/-- From renamed progress, the second computation does what the first one does, renamed. -/
def Mirrors (r : Name → Name) (f : α → α') (x : Exec α) (y : Exec α') : Prop :=
  ∀ p, y (p.rename r) = (mapEnding (Stop.rename r) f (x p).1, (x p).2.rename r)

theorem mirrors_ofExcept {a : Except Stop α} {b : Except Stop α'}
    (h : b = mapEnding (Stop.rename r) f a) : Mirrors r f (ofExcept a) (ofExcept b) := by
  intro p
  subst h
  rfl

theorem mirrors_record (events : List Event) :
    Mirrors r id (record events) (record (events.map (Event.rename r))) := by
  intro p
  simp [record, Progress.rename, Progress.note, mapEnding]

theorem Mirrors.bind {x : Exec α} {y : Exec α'} {k : α → Exec β} {k' : α' → Exec β'}
    (h : Mirrors r f x y) (hk : ∀ a, Mirrors r g (k a) (k' (f a))) :
    Mirrors r g (x >>= k) (y >>= k') := by
  intro p
  rw [bind_apply, bind_apply, h p]
  rcases x p with ⟨e | a, q⟩
  · rfl
  · exact hk a q

end Exec

namespace Machine
open Exec

variable {r : Name → Name} (m : Machine)

theorem mirrors_tick (s : Store) : Mirrors r id (m.tick s) (m.tick (s.rename r)) := by
  intro p
  unfold tick
  cases m.limit with
  | none => rfl
  | some k =>
    dsimp only [Progress.rename]
    split <;> rfl

theorem mirrors_block {body body' : Store → Exec Store} {s : Store}
    (h : Mirrors r (Store.rename r) (body s) (body' (s.rename r))) :
    Mirrors r (Store.rename r) (block body s) (block body' (s.rename r)) :=
  h.bind fun _ _ => rfl

theorem mirrors_rounds {cond cond' : Store → Except Stop Bool} {body body' : Store → Exec Store}
    (hcond : ∀ s : Store, cond' (s.rename r) = mapEnding (Stop.rename r) id (cond s))
    (hbody : ∀ s : Store, Mirrors r (Store.rename r) (body s) (body' (s.rename r)))
    (fuel number : Nat) (s : Store) :
    Mirrors r (Store.rename r) (m.rounds cond body fuel number s)
      (m.rounds cond' body' fuel number (s.rename r)) := by
  induction fuel generalizing number s with
  | zero => exact fun _ => rfl
  | succ fuel ih =>
    rw [rounds, rounds]
    apply (mirrors_ofExcept (hcond s)).bind
    intro v
    cases v with
    | false => exact fun _ => rfl
    | true =>
      apply (mirrors_record [.iteration (number + 1)]).bind
      intro _
      apply (mirrors_block (hbody s)).bind
      intro t
      apply (m.mirrors_tick t).bind
      intro _
      exact ih (number + 1) t

section
variable (injective : Function.Injective r)
include injective

theorem mirrors_inspect (s : Store) :
    Mirrors r (Store.rename r) (m.inspect s) (m.inspect (s.rename r)) := by
  unfold inspect
  rw [s.violations_rename injective, List.isEmpty_map]
  split <;> exact fun _ => rfl

theorem mirrors_exec (fuel : Nat) (n : Node) (s : Store) :
    Mirrors r (Store.rename r) (m.exec fuel n s) (m.exec fuel (n.rename r) (s.rename r)) := by
  induction n using Node.basic_induction generalizing s with
  | seq a b loc iha ihb =>
    rw [Node.rename, exec, exec]
    apply (m.mirrors_tick s).bind
    intro _
    exact (iha s).bind ihb
  | ifThen c b loc ih =>
    rw [Node.rename, exec, exec]
    apply (m.mirrors_tick s).bind
    intro _
    apply (mirrors_ofExcept (Node.eval_rename injective s c)).bind
    intro v
    cases v with
    | false => exact m.mirrors_inspect injective s
    | true => exact (mirrors_block (ih s)).bind (m.mirrors_inspect injective)
  | whileDo c b loc ih =>
    rw [Node.rename, exec, exec]
    apply (m.mirrors_tick s).bind
    intro _
    have hcond (t : Store) := Node.eval_rename injective t c
    exact (m.mirrors_rounds hcond ih fuel 0 s).bind (m.mirrors_inspect injective)
  | basic n basic =>
    rw [m.exec_basic fuel basic, m.exec_basic fuel ((Node.basic_rename r n).trans basic)]
    apply (m.mirrors_tick s).bind
    intro _
    apply (mirrors_ofExcept (m.perform_rename injective s n)).bind
    intro done
    apply (mirrors_record done.1).bind
    intro _
    exact m.mirrors_inspect injective done.2

end
end Machine

theorem Interpreter.run_rename {r : Name → Name} (injective : Function.Injective r)
    (i : Interpreter) (fuel : Nat) (program : Node) :
    i.run fuel (program.rename r) = (i.run fuel program).rename r := by
  have hexec := i.machine.mirrors_exec injective fuel program {} {}
  have hcheck := Node.checkStmt_rename injective program []
  change i.machine.exec fuel (program.rename r) {} {} = _ at hexec
  change (program.rename r).checkStmt [] = _ at hcheck
  unfold run exec
  rw [hcheck]
  rcases program.checkStmt [] with (d | m) | scope
  · rfl
  · rfl
  · dsimp only [mapEnding]
    rw [hexec]
    rcases i.machine.exec fuel program {} {} with ⟨(f | m | vs | s | _) | s, p⟩ <;>
      simp [mapEnding, Stop.rename, Answer.rename, RunResult.rename, Progress.rename, Event.rename]

/-- Renaming all names of a program and of a scope, no two to the same name, renames the scope and
the diagnostics that the checker answers with, and the stores and faults that a run ends in: outcome,
steps, cells and locations stay, and so does the order of the bindings. -/
theorem names_opaque {r : Name → Name} (injective : Function.Injective r) (program : Node) :
    (∀ (c : Checker) (scope : Scope),
      c.statement (program.rename r) (scope.map r) = (c.statement program scope).rename r) ∧
    ∀ (i : Interpreter) (fuel : Nat),
      i.run fuel (program.rename r) = (i.run fuel program).rename r :=
  ⟨fun c scope => c.statement_rename injective program scope,
    fun i fuel => i.run_rename injective fuel program⟩

theorem freedInLoop_swapped :
    let r : Name → Name := Equiv.swap "a" "b"
    Function.Injective r ∧
    (Checker.statement {} (Node.freedInLoop.rename r) []).result = .ok (some ["b"]) ∧
    (Interpreter.run {} 2 (Node.freedInLoop.rename r)).result =
      .ok (.faulted 7 ⟨.alreadyFreed, "b", some 0, none⟩) := by
  intro r
  have injective : Function.Injective r := (Equiv.swap "a" "b").injective
  have hr : r "a" = "b" := Equiv.swap_apply_left _ _
  have accepted : (Checker.statement {} Node.freedInLoop []).result = .ok (some ["a"]) := rfl
  have faulted : (Interpreter.run {} 2 Node.freedInLoop).result =
      .ok (.faulted 7 ⟨.alreadyFreed, "a", some 0, none⟩) := by decide
  obtain ⟨checked, run⟩ := names_opaque injective Node.freedInLoop
  refine ⟨injective, ?_, ?_⟩
  · change (Checker.statement {} _ (List.map r [])).result = _
    rw [checked, Checker.Answer.rename, accepted, ← hr]
    rfl
  · rw [run, Interpreter.Answer.rename, faulted, ← hr]
    rfl

end NandLang
