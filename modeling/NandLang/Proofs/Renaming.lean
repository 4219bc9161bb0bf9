import Mathlib.Data.Set.Function
import NandLang.Proofs.Lockstep
import NandLang.Proofs.Run

/-! The numbers of locations do not matter. Two machines that allocate differently stay in lockstep
on stores that differ by a renaming of their locations, and only the numbers show outside. -/
namespace NandLang
namespace Store

variable {f g : Location → Location} {s t s' t' : Store} {x : Name} {l k : Location}

/-- The second store is the first one with its locations renamed. Their counters may differ in any
way. -/
structure Renames (f : Location → Location) (s t : Store) : Prop where
  environment : t.environment = s.environment.mapValues f
  memory : t.memory = s.memory.mapKeys f
  freed : t.freed = s.freed
  injOn : Set.InjOn f {l | l ∈ s.locations}

namespace Renames

theorem initial : Renames id {} {} where
  environment := rfl
  memory := rfl
  freed := rfl
  injOn := Set.injOn_id _

theorem locations (h : Renames f s t) : t.locations = s.locations.map f := by
  unfold Store.locations
  rw [h.environment, h.memory, Table.keys_mapKeys]
  simp [Table.mapValues]

theorem lookup (h : Renames f s t) (x : Name) : t.lookup x = (s.lookup x).map f := by
  unfold Store.lookup
  rw [h.environment, Table.get?_mapValues]

theorem isFreed (h : Renames f s t) (x : Name) : t.isFreed x = s.isFreed x := by
  unfold Store.isFreed
  rw [h.freed]

theorem unique (h : Renames f s t) (hl : l ∈ s.locations) :
    ∀ j ∈ s.memory.keys, f j = f l → j = l :=
  fun _ hj heq => h.injOn (mem_locations_of_stored hj) hl heq

theorem read (h : Renames f s t) (hl : l ∈ s.locations) : t.read (f l) = s.read l := by
  unfold Store.read
  rw [h.memory, Table.get?_mapKeys (h.unique hl)]

theorem values (h : Renames f s t) : t.values = s.values := by
  unfold Store.values
  rw [h.environment, Table.mapValues, List.filterMap_map]
  apply List.filterMap_congr
  intro e he
  have hl : e.2 ∈ s.locations := List.mem_append_right _ (List.mem_map_of_mem he)
  simp [h.read hl]

theorem write (h : Renames f s t) (hl : l ∈ s.memory.keys) (v : Bool) :
    Renames f (s.write l v) (t.write (f l) v) where
  environment := h.environment
  memory := by
    change t.memory.put (f l) v = (s.memory.put l v).mapKeys f
    rw [h.memory, Table.mapKeys_put (h.unique (mem_locations_of_stored hl))]
  freed := h.freed
  injOn := by
    unfold Store.locations
    rw [keys_write hl]
    exact h.injOn

theorem release (h : Renames f s t) (bound : s.lookup x = some l) :
    Renames f (s.release x l) (t.release x (f l)) where
  environment := h.environment
  memory := by
    change t.memory.erase (f l) = (s.memory.erase l).mapKeys f
    rw [h.memory, Table.mapKeys_erase (h.unique (mem_locations_of_lookup bound))]
  freed := by
    unfold Store.release
    rw [h.isFreed, h.freed]
  injOn := h.injOn.mono fun _ => mem_locations_of_release

theorem ne_of_fresh (h : Renames f s t) (fresh : k ∉ t.locations) (hl : l ∈ s.locations) :
    f l ≠ k := by
  rintro rfl
  apply fresh
  rw [h.locations]
  exact List.mem_map_of_mem hl

theorem declare (h : Renames f s t) (new : s.lookup x = none) (freshLeft : l ∉ s.locations)
    (freshRight : k ∉ t.locations) (v : Bool) (next next' : Location) :
    Renames (Function.update f l k) (s.declare x l v next) (t.declare x k v next') where
  environment := by
    have hold : s.environment.mapValues (Function.update f l k) = s.environment.mapValues f := by
      apply Table.mapValues_congr
      intro m hm
      have hne : m ≠ l := by
        rintro rfl
        exact freshLeft (List.mem_append_right _ hm)
      exact Function.update_of_ne hne _ _
    change t.environment.put x k = (s.environment.put x l).mapValues (Function.update f l k)
    rw [Table.mapValues_put, hold, Function.update_self, h.environment]
  memory := by
    have hne : ∀ m ∈ s.memory.keys, m ≠ l := by
      rintro m hm rfl
      exact freshLeft (mem_locations_of_stored hm)
    have hold : s.memory.mapKeys (Function.update f l k) = s.memory.mapKeys f :=
      Table.mapKeys_congr fun m hm => Function.update_of_ne (hne m hm) _ _
    change t.memory.put k v = (s.memory.put l v).mapKeys (Function.update f l k)
    rw [Table.mapKeys_put, hold, Function.update_self, h.memory]
    intro m hm heq
    rw [Function.update_of_ne (hne m hm), Function.update_self] at heq
    exact absurd heq (h.ne_of_fresh freshRight (mem_locations_of_stored hm))
  freed := by
    unfold Store.declare
    rw [h.freed]
  injOn := by
    have hne : ∀ m ∈ s.locations, m ≠ l := by
      rintro m hm rfl
      exact freshLeft hm
    have hfresh := fun m (hm : m ∈ s.locations) => h.ne_of_fresh freshRight hm
    intro m hm m' hm' heq
    obtain hm | hm := mem_locations_declare new _ _ _ hm <;>
      obtain hm' | hm' := mem_locations_declare new _ _ _ hm'
    · rw [hm, hm']
    · rw [hm, Function.update_self, Function.update_of_ne (hne m' hm')] at heq
      exact absurd heq.symm (hfresh m' hm')
    · rw [hm', Function.update_self, Function.update_of_ne (hne m hm)] at heq
      exact absurd heq (hfresh m hm)
    · rw [Function.update_of_ne (hne m hm), Function.update_of_ne (hne m' hm')] at heq
      exact h.injOn hm hm' heq

/-- Behind a block the later renaming serves the earlier scopes too, since the later scopes begin
with them. -/
theorem leave (h : Renames f s t) (h' : Renames g s' t') (grows : s'.GrowsOn s)
    (grows' : t'.GrowsOn t) :
    Renames g (s'.withEnvironment s.environment) (t'.withEnvironment t.environment) where
  environment := by
    -- Both are beginnings of the later scope, and as long as each other.
    have hlength : t.environment.entries.length = s.environment.entries.length := by
      rw [h.environment, Table.mapValues, List.length_map]
    have hleft : (s.environment.mapValues g).entries <+: t'.environment.entries := by
      rw [h'.environment]
      exact List.IsPrefix.map _ grows
    have hentries : t.environment.entries = (s.environment.mapValues g).entries := by
      apply List.IsPrefix.eq_of_length
      · apply List.prefix_of_prefix_length_le grows' hleft
        simp [Table.mapValues, hlength]
      · simp [Table.mapValues, hlength]
    exact congrArg Table.mk hentries
  memory := h'.memory
  freed := h'.freed
  injOn := h'.injOn.mono fun _ => grows.mem_locations

end Renames

structure Alike (s t : Store) : Prop where
  names : t.environment.keys = s.environment.keys
  freed : t.freed = s.freed
  values : t.values = s.values
  cells : t.memory.entries.length = s.memory.entries.length
  bijection : ∃ f : Location → Location,
    Set.BijOn f {l | l ∈ s.locations} {l | l ∈ t.locations} ∧
    (∀ x, t.lookup x = (s.lookup x).map f) ∧ ∀ l ∈ s.locations, t.read (f l) = s.read l

theorem Renames.alike (h : Renames f s t) : s.Alike t where
  names := by rw [h.environment, Table.keys_mapValues]
  freed := h.freed
  values := h.values
  cells := by rw [h.memory, Table.mapKeys, List.length_map]
  bijection := by
    have himage : {l | l ∈ t.locations} = f '' {l | l ∈ s.locations} := by
      ext l
      simp [h.locations]
    refine ⟨f, ?_, h.lookup, fun l hl => h.read hl⟩
    rw [himage]
    exact h.injOn.bijOn_image

structure Related (s t : Store) : Prop where
  left : s.Sound
  right : t.Sound
  renames : ∃ f, Renames f s t

end Store

def Fault.Alike (f g : Fault) : Prop :=
  f.kind = g.kind ∧ f.name = g.name ∧ f.text = g.text ∧ f.loc = g.loc

inductive Stop.Alike : Stop → Stop → Prop
  | fault {f g : Fault} (same : f.Alike g) : Alike (.fault f) (.fault g)
  | misplaced (m : Misplaced) : Alike (.misplaced m) (.misplaced m)
  | exhausted {s t : Store} (related : s.Related t) : Alike (.exhausted s) (.exhausted t)
  | unfinished : Alike .unfinished .unfinished

inductive RunResult.Alike : RunResult → RunResult → Prop
  | completed (n : Nat) {s t : Store} (same : s.Alike t) : Alike (.completed n s) (.completed n t)
  | rejected (d : Diagnostic) : Alike (.rejected d) (.rejected d)
  | faulted (n : Nat) {f g : Fault} (same : f.Alike g) : Alike (.faulted n f) (.faulted n g)
  | exhausted (n : Nat) {s t : Store} (same : s.Alike t) : Alike (.exhausted n s) (.exhausted n t)

namespace Node

variable {f : Location → Location} {s t : Store}

theorem resolve_of_renames (h : s.Renames f t) (x : Name) (loc : Option Loc) :
    Matched (fun l k => k = f l ∧ s.lookup x = some l ∧ s.isFreed x = false) Stop.Alike
      (resolve s x loc) (resolve t x loc) := by
  unfold resolve
  rw [h.lookup, h.isFreed]
  cases hx : s.lookup x with
  | none => exact .error (.fault ⟨rfl, rfl, rfl, rfl⟩)
  | some l =>
    cases hfreed : s.isFreed x with
    | true => exact .error (.fault ⟨rfl, rfl, rfl, rfl⟩)
    | false => exact .ok ⟨rfl, rfl, rfl⟩

theorem eval_of_renames (sound : s.Sound) (h : s.Renames f t) (n : Node) :
    Matched Eq Stop.Alike (n.eval s) (n.eval t) := by
  induction n with
  | lit b loc => exact .ok rfl
  | var x loc =>
    apply (resolve_of_renames h x loc).bind
    rintro l _ ⟨rfl, bound, live⟩
    -- A live name has its cell on both sides, so the fault that shows a number cannot come.
    obtain ⟨v, hv⟩ := Table.exists_get?_of_mem (sound.stored_of_live bound live)
    rw [h.read (Store.mem_locations_of_lookup bound), Store.read, hv]
    exact .ok rfl
  | nand l r loc ihl ihr =>
    apply ihl.bind
    rintro left _ rfl
    apply ihr.bind
    rintro right _ rfl
    exact .ok rfl
  | _ => exact .error (.misplaced _)

end Node

namespace Machine

variable {m m' : Machine} {s t : Store}

theorem perform_of_related (h : s.Related t) (n : Node) :
    Matched (fun d e => d.2.Related e.2) Stop.Alike (m.perform s n) (m'.perform t n) := by
  obtain ⟨sound, sound', f, renames⟩ := h
  cases n with
  | decl x e loc =>
    apply (Node.eval_of_renames sound renames e).bind
    rintro v _ rfl
    have hlookup := renames.lookup x
    cases hx : s.lookup x with
    | some l =>
      rw [hx] at hlookup
      rw [hlookup]
      exact .error (.fault ⟨rfl, rfl, rfl, rfl⟩)
    | none =>
      rw [hx] at hlookup
      rw [hlookup]
      have fresh := fun hl => Int.lt_irrefl _ (m.allocator.lt_allocate sound hl)
      have fresh' := fun hl => Int.lt_irrefl _ (m'.allocator.lt_allocate sound' hl)
      exact .ok ⟨m.allocator.sound_declare sound hx v, m'.allocator.sound_declare sound' hlookup v,
        _, renames.declare hx fresh fresh' v _ _⟩
  | assign x e loc =>
    apply (Node.eval_of_renames sound renames e).bind
    rintro v _ rfl
    apply (Node.resolve_of_renames renames x loc).bind
    rintro l _ ⟨rfl, bound, live⟩
    have hbound : t.lookup x = some (f l) := by rw [renames.lookup, bound]; rfl
    have stored := sound.stored_of_live bound live
    have stored' := sound'.stored_of_live hbound ((renames.isFreed x).trans live)
    obtain ⟨old, hold⟩ := Table.exists_get?_of_mem stored
    rw [renames.read (Store.mem_locations_of_lookup bound), Store.read, hold]
    exact .ok ⟨sound.write stored v, sound'.write stored' v, f, renames.write stored v⟩
  | free x loc =>
    apply (Node.resolve_of_renames renames x loc).bind
    rintro l _ ⟨rfl, bound, live⟩
    have hbound : t.lookup x = some (f l) := by rw [renames.lookup, bound]; rfl
    exact .ok ⟨sound.release bound, sound'.release hbound, f, renames.release bound⟩
  | _ => exact .error (.misplaced _)

theorem simulation_of_allocators (among : List Node) (limit : m.limit = m'.limit) :
    Simulation among m m' Store.Related Stop.Alike where
  limit := limit
  eval := by
    rintro s t ⟨sound, -, f, renames⟩ n -
    exact Node.eval_of_renames sound renames n
  perform := fun h n _ => perform_of_related h n
  inspect := by
    intro s t h
    rw [inspect_of_sound h.left, inspect_of_sound h.right]
    exact Exec.lockstep_pure h
  leave := by
    rintro s t s' t' ⟨-, -, f, renames⟩ ⟨sound, sound', g, renames'⟩ grows grows'
    exact ⟨sound.leave grows, sound'.leave grows', g, renames.leave renames' grows grows'⟩
  exhausted := .exhausted
  unfinished := .unfinished

theorem report_of_allocators (limit : m.limit = m'.limit) (fuel : Nat) (program : Node) :
    Matched RunResult.Alike Eq (m.report (m.exec fuel program {} {}))
      (m'.report (m'.exec fuel program {} {})) := by
  have start : Store.Related {} {} := ⟨.initial, .initial, id, .initial⟩
  obtain ⟨hmatched, hsteps⟩ :=
    (simulation_of_allocators program.preorder limit).exec fuel (List.Subset.refl _) start {} {} rfl
  rcases hx : m.exec fuel program {} {} with ⟨rx, p⟩
  rcases hy : m'.exec fuel program {} {} with ⟨ry, q⟩
  rw [hx, hy] at hmatched hsteps
  change p.steps = q.steps at hsteps
  cases hmatched with
  | ok related =>
    obtain ⟨f, renames⟩ := related.renames
    simp only [report, hsteps]
    exact .ok (.completed _ renames.alike)
  | error related =>
    cases related with
    | fault same =>
      simp only [report, hsteps]
      exact .ok (.faulted _ same)
    | misplaced => exact .error rfl
    | exhausted related =>
      obtain ⟨f, renames⟩ := related.renames
      simp only [report, limit]
      exact .ok (.exhausted _ renames.alike)
    | unfinished => exact .error rfl

end Machine

/-- Which allocator a program is run with does not show, but for the numbers of locations. As many
rounds as end the one run end the other. -/
theorem allocator_unobservable (c : Settings) (fuel : Nat) (program : Node) :
    Matched RunResult.Alike Eq
      ((Interpreter.ofSettings { c with allocator := Allocator.bump.name }).run fuel program).result
      ((Interpreter.ofSettings { c with allocator := Allocator.maxScan.name }).run fuel
        program).result := by
  apply Interpreter.run_relates
  · exact fun m => .error rfl
  · exact fun d => .ok (.rejected d)
  · intro scope _
    apply Machine.report_of_allocators
    rfl

end NandLang
