import NandLang.Proofs.Entries

/-! The account of cells. The log tells of each location that a declaration is given and of each one
that is taken back when a name is freed, so it can be held against the memory: the cells are those
handed out and not taken back, also where their names are out of scope by now. -/
namespace NandLang

def Event.handedOut? : Event → Option Location
  | .declared _ l _ => some l
  | _ => none

def Event.takenBack? : Event → Option Location
  | .released _ l => some l
  | _ => none

namespace Progress

/-- The locations given to declarations, one for each that was executed, earliest first. -/
def handedOut (p : Progress) : List Location := (p.events.filterMap Event.handedOut?).reverse

/-- The locations of names when they were freed, one for each `free` that was executed, earliest
first. -/
def takenBack (p : Progress) : List Location := (p.events.filterMap Event.takenBack?).reverse

@[simp] theorem handedOut_declared (p : Progress) (x : Name) (l : Location) (v : Bool) :
    (p.note [.declared x l v]).handedOut = p.handedOut ++ [l] :=
  List.reverse_cons

@[simp] theorem takenBack_declared (p : Progress) (x : Name) (l : Location) (v : Bool) :
    (p.note [.declared x l v]).takenBack = p.takenBack := rfl

@[simp] theorem handedOut_released (p : Progress) (x : Name) (l : Location) :
    (p.note [.released x l]).handedOut = p.handedOut := rfl

@[simp] theorem takenBack_released (p : Progress) (x : Name) (l : Location) :
    (p.note [.released x l]).takenBack = p.takenBack ++ [l] :=
  List.reverse_cons

end Progress

namespace Store

/-- Each location was handed out as often as it was taken back, and once more if it has a cell. -/
def Accounted (s : Store) (p : Progress) : Prop := (s.memory.keys ++ p.takenBack).Perm p.handedOut

structure Numbered (s : Store) (p : Progress) : Prop where
  next : s.next = p.handedOut.length
  handedOut : p.handedOut = (List.range p.handedOut.length).map Nat.cast

variable {s : Store} {p : Progress}

theorem Accounted.length (h : s.Accounted p) :
    s.memory.entries.length + p.takenBack.length = p.handedOut.length := by
  have hlength := List.Perm.length_eq h
  simpa [Table.keys] using hlength

theorem Numbered.nodup (h : s.Numbered p) : p.handedOut.Nodup := by
  rw [h.handedOut]
  exact List.nodup_range.map fun _ _ => Int.ofNat_inj.mp

theorem Numbered.eq_of_getElem? (h : s.Numbered p) {j : Nat} {l : Location}
    (hj : p.handedOut[j]? = some l) : l = j := by
  rw [h.handedOut, List.getElem?_map, Option.map_eq_some_iff] at hj
  obtain ⟨k, hk, rfl⟩ := hj
  obtain ⟨_, hk⟩ := List.getElem?_eq_some_iff.mp hk
  rw [← hk, List.getElem_range]

end Store

theorem Allocator.allocate_notMem_locations (a : Allocator) {s : Store} (sound : s.Sound) :
    (a.allocate s).1 ∉ s.locations :=
  fun h => Int.lt_irrefl _ (a.lt_allocate sound h)

namespace Machine
open Store

variable {m : Machine} {fuel : Nat} {n : Node} {s t : Store} {p q : Progress} {events : List Event}

theorem Acts.accounted (acts : m.Acts s n events t) (sound : s.Sound) (h : s.Accounted p) :
    t.Accounted (p.note events) := by
  unfold Accounted at h ⊢
  rw [List.perm_iff_count] at h ⊢
  intro l
  have hcount := h l
  cases acts with
  | @decl x e loc v value new =>
    have fresh : (m.allocator.allocate s).1 ∉ s.memory.keys := fun stored =>
      m.allocator.allocate_notMem_locations sound (mem_locations_of_stored stored)
    simp [declare, Table.keys_put_of_notMem fresh, List.count_cons] at hcount ⊢
    omega
  | assign value bound live stored =>
    rw [keys_write stored]
    exact hcount
  | @free x loc k bound live =>
    have stored := sound.stored_of_live bound live
    have herased := (Table.perm_keys_erase sound.cells_nodup stored).count_eq l
    simp [release, List.count_cons] at hcount herased ⊢
    omega

theorem Path.accounted {among : List Node} (path : Path m among s p t q) (sound : s.Sound)
    (h : s.Accounted p) : t.Accounted q := by
  induction path with
  | refl => exact h
  | step _ ih => exact ih sound h
  | turn _ _ ih => exact ih sound h
  | act path _ acts ih => exact acts.accounted (path.sound sound) (ih sound h)
  | leave path _ ih inner_ih => exact inner_ih (path.sound sound) (ih sound h)

section
variable (bump : m.allocator = .bump)
include bump

theorem Acts.numbered (acts : m.Acts s n events t) (h : s.Numbered p) :
    t.Numbered (p.note events) := by
  cases acts with
  | @decl x e loc v value new =>
    have hnext : m.allocator.allocate s = (s.next, s.next + 1) := by
      rw [bump]
      rfl
    rw [hnext]
    constructor
    · simp [declare, h.next]
    · rw [Progress.handedOut_declared, List.length_append, List.length_singleton, List.range_succ,
        List.map_append, ← h.handedOut, h.next]
      rfl
  | assign => exact ⟨h.next, h.handedOut⟩
  | free => exact ⟨h.next, h.handedOut⟩

theorem Path.numbered {among : List Node} (path : Path m among s p t q) (h : s.Numbered p) :
    t.Numbered q := by
  induction path with
  | refl => exact h
  | step _ ih => exact ⟨(ih h).next, (ih h).handedOut⟩
  | turn _ _ ih => exact ⟨(ih h).next, (ih h).handedOut⟩
  | act _ _ acts ih => exact acts.numbered bump (ih h)
  | leave _ _ ih inner_ih => exact ⟨(inner_ih (ih h)).next, (inner_ih (ih h)).handedOut⟩

end

end Machine

/-- However a program is executed from the empty store, on every store that comes up there is one
cell for each declaration executed by then, less one for each `free`. A declaration receives a
location that no cell has and that no name is bound to. Where locations are taken from the counter,
the declarations receive them in the order of numbers from zero and the counter is the number of
declarations, so no location is handed out twice. -/
theorem cells_accounted (i : Interpreter) (fuel : Nat) (program : Node) :
    let m := i.machine
    let p : Progress := { steps := i.steps }
    (∀ t q, m.Visits fuel program {} p t q →
      t.memory.entries.length + q.takenBack.length = q.handedOut.length ∧
      (m.allocator = .bump → t.next = q.handedOut.length ∧ q.handedOut.Nodup ∧
        ∀ (j : Nat) l, q.handedOut[j]? = some l → l = j)) ∧
    (∀ x e loc t q u r, m.Enters fuel program {} p (.decl x e loc) t q →
      m.exec fuel (.decl x e loc) t q = (.ok u, r) →
      ∃ l, u.lookup x = some l ∧ l ∉ t.locations ∧ (m.allocator = .bump → l = q.handedOut.length) ∧
        r.handedOut = q.handedOut ++ [l] ∧ r.takenBack = q.takenBack) ∧
    ∀ x loc t q u r, m.Enters fuel program {} p (.free x loc) t q →
      m.exec fuel (.free x loc) t q = (.ok u, r) →
      ∃ l, t.lookup x = some l ∧ l ∈ t.memory.keys ∧ l ∉ u.memory.keys ∧
        r.handedOut = q.handedOut ∧ r.takenBack = q.takenBack ++ [l] := by
  intro m p
  have accounted : Store.Accounted {} p := .nil
  have numbered : Store.Numbered {} p := ⟨rfl, rfl⟩
  refine ⟨?_, ?_, ?_⟩
  · intro t q visit
    refine ⟨(visit.path.accounted .initial accounted).length, fun bump => ?_⟩
    have hnumbered := visit.path.numbered bump numbered
    exact ⟨hnumbered.next, hnumbered.nodup, fun _ _ => hnumbered.eq_of_getElem?⟩
  · intro x e loc t q u r enters run
    have path := enters.visits.path
    obtain ⟨events, acts, rfl⟩ := Machine.acts_of_exec rfl run
    cases acts with
    | decl value new =>
      refine ⟨_, Store.lookup_declare_self _ _ _ _ _,
        m.allocator.allocate_notMem_locations (path.sound .initial), ?_,
        Progress.handedOut_declared _ _ _ _, rfl⟩
      intro bump
      rw [bump]
      exact (path.numbered bump numbered).next
  · intro x loc t q u r enters run
    have sound := enters.visits.path.sound .initial
    obtain ⟨events, acts, rfl⟩ := Machine.acts_of_exec rfl run
    cases acts with
    | free bound live =>
      refine ⟨_, bound, sound.stored_of_live bound live, ?_, rfl,
        Progress.takenBack_released _ _ _⟩
      simp [Store.release]

/-- The declaration in the loop is the second one and receives the second location. When the loop
has left the block, that location has a cell without a name, and the first one a freed name without
a cell. -/
theorem freedInLoop_accounted :
    let s : Store := ⟨⟨[("a", 0)]⟩, [], ⟨[(0, true)]⟩, 1⟩
    let t : Store := ⟨⟨[("a", 0)]⟩, ["a"], ⟨[(1, true)]⟩, 2⟩
    let inner : Node := .decl "b" (.var "a" none) none
    ∃ p q u r,
      Machine.Enters {} 2 Node.freedInLoop {} {} inner s p ∧
      Machine.exec {} 2 inner s p = (.ok u, r) ∧
      (∃ l, u.lookup "b" = some l ∧ l ∉ s.locations ∧ l = p.handedOut.length) ∧
      Machine.Visits {} 2 Node.freedInLoop {} {} t q ∧ q.handedOut = [0, 1] ∧ q.takenBack = [0] ∧
      t.memory.entries.length + q.takenBack.length = q.handedOut.length ∧
      t.next = q.handedOut.length := by
  intro s t inner
  obtain ⟨points, declarations, -⟩ := cells_accounted {} 2 Node.freedInLoop
  let first : Event := .declared "a" 0 true
  let second : Event := .declared "b" 1 true
  let inside : Store := ⟨⟨[("a", 0), ("b", 1)]⟩, ["a"], ⟨[(1, true)]⟩, 2⟩
  have outer : Machine.exec {} 2 (.decl "a" (.lit true none) none) {} ⟨1, []⟩ =
      (.ok s, ⟨2, [first]⟩) := by decide
  have body : Machine.exec {} 2 (.seq inner (.free "a" none) none) s ⟨3, [.iteration 1, first]⟩ =
      (.ok inside, ⟨6, [.released "a" 0, second, .iteration 1, first]⟩) := by decide
  have run : Machine.exec {} 2 inner s ⟨4, [.iteration 1, first]⟩ =
      (.ok ⟨⟨[("a", 0), ("b", 1)]⟩, [], ⟨[(0, true), (1, true)]⟩, 2⟩,
        ⟨5, [second, .iteration 1, first]⟩) := by decide
  have enters : Machine.Enters {} 2 Node.freedInLoop {} {} inner s ⟨4, [.iteration 1, first]⟩ :=
    .second rfl outer (.round rfl .first (by decide) rfl (.first rfl (.self _ _ _)))
  have visit : Machine.Visits {} 2 Node.freedInLoop {} {} t
      ⟨6, [.released "a" 0, second, .iteration 1, first]⟩ :=
    .second rfl outer (.roundBlock (t := inside) (u := s) rfl .first rfl body)
  obtain ⟨l, bound, fresh, counted, -⟩ := declarations _ _ _ _ _ _ _ enters run
  obtain ⟨cells, numbered⟩ := points _ _ visit
  exact ⟨_, _, _, _, enters, run, ⟨l, bound, fresh, counted rfl⟩, visit, rfl, rfl, cells,
    (numbered rfl).1⟩

end NandLang
