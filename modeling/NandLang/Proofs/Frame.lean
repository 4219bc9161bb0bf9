import NandLang.Proofs.Visits

/-! What an execution leaves alone. A variable in scope keeps its location, and nothing else comes to
share it, however cells are handed out and reused; so only a node that assigns or frees the variable
by its name can change what it shows. -/
namespace NandLang
namespace Store

variable {s t u : Store} {x y : Name} {l : Location}

/-- A store that comes up when statements are executed one after another from the empty store, each
on a machine of its own. -/
inductive Reachable : Store → Prop
  | initial : Reachable {}
  | visit {m : Machine} {fuel : Nat} {n : Node} {s t : Store} {p q : Progress}
      (start : Reachable s) (visit : m.Visits fuel n s p t q) : Reachable t

theorem Reachable.sound (h : s.Reachable) : s.Sound := by
  induction h with
  | initial => exact .initial
  | visit _ visit ih => exact visit.path.sound ih

/-- The second store binds a variable to this location, and shows it as the first store does. -/
structure Keeps (x : Name) (l : Location) (s t : Store) : Prop where
  lookup : t.lookup x = some l
  isFreed : t.isFreed x = s.isFreed x
  read : t.read l = s.read l

theorem Keeps.refl (bound : s.lookup x = some l) : Keeps x l s s := ⟨bound, rfl, rfl⟩

theorem Keeps.trans (h : Keeps x l s t) (h' : Keeps x l t u) : Keeps x l s u :=
  ⟨h'.lookup, h'.isFreed.trans h.isFreed, h'.read.trans h.read⟩

theorem Keeps.leave (h : Keeps x l s t) (h' : Keeps x l t u) :
    Keeps x l s (u.withEnvironment t.environment) :=
  ⟨h.lookup, (h.trans h').isFreed, (h.trans h').read⟩

theorem Sound.ne_of_lookup (sound : s.Sound) (hne : x ≠ y) {m : Location}
    (hx : s.lookup x = some l) (hy : s.lookup y = some m) : l ≠ m := by
  rintro rfl
  exact hne (sound.unshared hx hy)

end Store

namespace Machine
open Store

variable {m : Machine} {s t : Store} {n : Node} {p q : Progress} {x : Name} {l : Location}

theorem Acts.keeps {events : List Event} (acts : m.Acts s n events t) (sound : s.Sound)
    (bound : s.lookup x = some l) (unassigned : ∀ e loc, n ≠ .assign x e loc)
    (unfreed : ∀ loc, n ≠ .free x loc) : Keeps x l s t := by
  cases acts with
  | @decl y e loc v value new =>
    have hne : x ≠ y := by
      rintro rfl
      rw [new] at bound
      cases bound
    have hlt := m.allocator.lt_allocate sound (mem_locations_of_lookup bound)
    exact ⟨(lookup_declare_of_ne s hne _ _ _).trans bound, isFreed_declare_of_ne s hne _ _ _,
      read_declare_of_ne s y (Int.ne_of_lt hlt) _ _⟩
  | @assign y e loc v k value bound' live stored =>
    have hne : x ≠ y := by
      rintro rfl
      exact unassigned e loc rfl
    exact ⟨bound, rfl, read_write_of_ne s (sound.ne_of_lookup hne bound bound') v⟩
  | @free y loc k bound' live =>
    have hne : x ≠ y := by
      rintro rfl
      exact unfreed loc rfl
    exact ⟨bound, isFreed_release_of_ne s hne k,
      read_release_of_ne s y (sound.ne_of_lookup hne bound bound')⟩

theorem Path.keeps {among : List Node} (path : Path m among s p t q) (sound : s.Sound)
    (bound : s.lookup x = some l) (unassigned : ∀ e loc, Node.assign x e loc ∉ among)
    (unfreed : ∀ loc, Node.free x loc ∉ among) : Keeps x l s t := by
  induction path with
  | refl => exact .refl bound
  | step _ ih => exact ih sound bound
  | turn _ _ ih => exact ih sound bound
  | act path member acts ih =>
    have before := ih sound bound
    apply before.trans (acts.keeps (path.sound sound) before.lookup _ _)
    · rintro e loc rfl
      exact unassigned e loc member
    · rintro loc rfl
      exact unfreed loc member
  | leave path _ ih inner_ih =>
    have before := ih sound bound
    exact before.leave (inner_ih (path.sound sound) before.lookup)

end Machine

/-- A variable that a statement neither assigns nor frees by name has the same location, is freed or
not, and has the same value behind the statement as before it, whatever else the statement declares,
frees and repeats. -/
theorem untouched_variable_kept (i : Interpreter) (fuel : Nat) {n : Node} {s t : Store} {x : Name}
    {l : Location} (reachable : s.Reachable) (bound : s.lookup x = some l)
    (unassigned : ∀ e loc, Node.assign x e loc ∉ n.preorder)
    (unfreed : ∀ loc, Node.free x loc ∉ n.preorder) (run : (i.exec fuel n s).result = .ok t) :
    t.lookup x = some l ∧ t.isFreed x = s.isFreed x ∧ t.read l = s.read l := by
  have path := Machine.path_of_exec (Interpreter.exec_of_result run)
  have kept := path.keeps reachable.sound bound unassigned unfreed
  exact ⟨kept.lookup, kept.isFreed, kept.read⟩

def Node.freedBeside : Node × Node :=
  (.seq (.decl "a" (.lit true none) none)
    (.seq (.decl "x" (.lit true none) none) (.free "x" none) none) none,
  .whileDo (.var "a" none)
    (.seq (.decl "b" (.var "a" none) none)
      (.seq (.assign "a" (.lit false none) none) (.free "b" none) none) none) none)

/-- The location of the freed name is the one past the last cell in use, and the loop does not come
to use it all the same. -/
theorem freedBeside_kept :
    let i : Interpreter := { machine := { allocator := .maxScan } }
    let s : Store := ⟨⟨[("a", 0), ("x", 1)]⟩, ["x"], ⟨[(0, true)]⟩, 2⟩
    (i.exec 2 Node.freedBeside.1 {}).result = .ok s ∧
    ∃ t, (i.exec 2 Node.freedBeside.2 s).result = .ok t ∧
      t.lookup "x" = some 1 ∧ t.isFreed "x" = true ∧ t.read 1 = none := by
  intro i s
  have start : (i.exec 2 Node.freedBeside.1 {}).result = .ok s := by decide
  have run : (i.exec 2 Node.freedBeside.2 s).result =
      .ok ⟨⟨[("a", 0), ("x", 1)]⟩, ["x", "b"], ⟨[(0, false)]⟩, 3⟩ := by decide
  have reachable : s.Reachable := .visit .initial (.exit (Interpreter.exec_of_result start))
  refine ⟨start, _, run, ?_⟩
  exact untouched_variable_kept i 2 reachable (l := 1) rfl
    (by simp [Node.freedBeside, Node.preorder]) (by simp [Node.freedBeside, Node.preorder]) run

end NandLang
