import Mathlib.Data.List.Perm.Basic
import NandLang.Proofs.Frame
import NandLang.Proofs.Sequence
import NandLang.Proofs.Tree

/-! Statements that do not meddle with each other. Without declarations a statement reads the places
of the names that it mentions and changes those of the names that it assigns or frees, so two
statements can be exchanged if neither one changes what the other mentions. -/
namespace NandLang
namespace Node

def changes? : Node → Option Name
  | .assign x _ _ | .free x _ => some x
  | _ => none

def changed (n : Node) : List Name := n.preorder.filterMap changes?

variable {n root : Node}

theorem names_subset_of_mem_preorder (h : n ∈ root.preorder) : n.names ⊆ root.names := by
  induction root with
  | lit | var | free | foreign =>
    obtain rfl := List.mem_singleton.mp h
    exact List.Subset.refl _
  | decl x e loc ih | assign x e loc ih =>
    obtain rfl | h := List.mem_cons.mp h
    · exact List.Subset.refl _
    · exact List.subset_cons_of_subset x (ih h)
  | nand a b loc iha ihb | ifThen a b loc iha ihb | whileDo a b loc iha ihb | seq a b loc iha ihb =>
    obtain rfl | h := List.mem_cons.mp h
    · exact List.Subset.refl _
    · obtain h | h := List.mem_append.mp h
      · exact List.subset_append_of_subset_left _ (iha h)
      · exact List.subset_append_of_subset_right _ (ihb h)

theorem mem_names_of_changes? {x : Name} (h : n.changes? = some x) : x ∈ n.names := by
  cases n with
  | assign y e loc =>
    cases h
    exact List.mem_cons_self
  | free y loc =>
    cases h
    exact List.mem_singleton_self x
  | _ => cases h

theorem changed_subset_names (n : Node) : n.changed ⊆ n.names := by
  intro x h
  obtain ⟨d, hd, hx⟩ := List.mem_filterMap.mp h
  exact names_subset_of_mem_preorder hd (mem_names_of_changes? hx)

end Node

namespace Store

/-- What there is to change about a store in a fixed scope: whether a name is freed, and what a cell
holds. -/
inductive Place
  | mark (x : Name)
  | cell (l : Location)
  deriving DecidableEq

def view (s : Store) : Place → Option Bool
  | .mark x => some (s.isFreed x)
  | .cell l => s.read l

/-- The places of some names are their marks, and the cells that they are bound to. -/
def Owns (s : Store) (names : List Name) : Place → Prop
  | .mark x => x ∈ names
  | .cell l => ∃ x ∈ names, s.lookup x = some l

variable {s t u : Store} {xs ys names : List Name} {x : Name} {l : Location} {place : Place}

theorem view_write (s : Store) (l : Location) (v : Bool) (place : Place) :
    (s.write l v).view place = if place = .cell l then some v else s.view place := by
  by_cases h : place = .cell l
  · rw [if_pos h, h]
    exact Table.get?_put_self _ _ _
  · rw [if_neg h]
    cases place with
    | mark x => rfl
    | cell k => exact read_write_of_ne s (fun hk => h (congrArg Place.cell hk)) v

theorem view_release (s : Store) (x : Name) (l : Location) (place : Place) :
    (s.release x l).view place =
      if place = .mark x then some true else if place = .cell l then none else s.view place := by
  cases place with
  | mark y =>
    by_cases hy : y = x
    · simp [hy, view]
    · simp [hy, view, isFreed_release_of_ne s hy]
  | cell k =>
    by_cases hk : k = l
    · have hread : (s.release x l).read l = none := by
        rw [read_eq_none_iff]
        simp [release]
      simp [hk, view, hread]
    · simp [hk, view, read_release_of_ne s x hk]

theorem Owns.mono (h : s.Owns xs place) (sub : xs ⊆ ys) : s.Owns ys place := by
  cases place with
  | mark x => exact sub h
  | cell l =>
    obtain ⟨x, hx, bound⟩ := h
    exact ⟨x, sub hx, bound⟩

theorem GrowsOn.owns (grows : t.GrowsOn s) (h : s.Owns names place) : t.Owns names place := by
  cases place with
  | mark x => exact h
  | cell l =>
    obtain ⟨x, hx, bound⟩ := h
    exact ⟨x, hx, grows.lookup bound⟩

theorem Sound.not_owns (sound : s.Sound) (disjoint : xs.Disjoint ys) (h : s.Owns xs place) :
    ¬s.Owns ys place := by
  intro h'
  cases place with
  | mark x => exact disjoint h h'
  | cell l =>
    obtain ⟨x, hx, bound⟩ := h
    obtain ⟨y, hy, bound'⟩ := h'
    rw [sound.unshared bound bound'] at hx
    exact disjoint hx hy

structure AgreeOn (names : List Name) (s t : Store) : Prop where
  environment : t.environment = s.environment
  view : ∀ place, s.Owns names place → t.view place = s.view place

/-- The second store comes from the first by changes in the places of some names only; no cell has
come in, or has moved. -/
structure ChangesOnly (names : List Name) (s t : Store) : Prop where
  environment : t.environment = s.environment
  next : t.next = s.next
  cells : t.memory.keys.Sublist s.memory.keys
  view : ∀ place, ¬s.Owns names place → t.view place = s.view place

theorem owns_of_environment (h : t.environment = s.environment) :
    t.Owns names place ↔ s.Owns names place := by
  cases place with
  | mark x => exact Iff.rfl
  | cell l =>
    unfold Owns lookup
    rw [h]

theorem AgreeOn.symm (h : AgreeOn names s t) : AgreeOn names t s where
  environment := h.environment.symm
  view := by
    intro place owned
    exact (h.view place ((owns_of_environment h.environment).mp owned)).symm

theorem ChangesOnly.refl (names : List Name) (s : Store) : ChangesOnly names s s :=
  ⟨rfl, rfl, .refl _, fun _ _ => rfl⟩

theorem ChangesOnly.trans (h : ChangesOnly names s t) (h' : ChangesOnly names t u) :
    ChangesOnly names s u where
  environment := h'.environment.trans h.environment
  next := h'.next.trans h.next
  cells := h'.cells.trans h.cells
  view := by
    intro place elsewhere
    have elsewhere' := mt (owns_of_environment h.environment).mp elsewhere
    exact (h'.view place elsewhere').trans (h.view place elsewhere)

theorem ChangesOnly.agreeOn (h : ChangesOnly xs s t) (sound : s.Sound)
    (disjoint : xs.Disjoint ys) : AgreeOn ys s t where
  environment := h.environment
  view := by
    intro place owned
    exact h.view place (sound.not_owns (List.disjoint_symm disjoint) owned)

theorem Sound.memory_eq (sound : s.Sound) (cells : t.memory.keys.Sublist s.memory.keys)
    (cells' : u.memory.keys.Sublist s.memory.keys) (read : ∀ l, t.read l = u.read l) :
    t.memory = u.memory := by
  have nodup := cells.nodup sound.cells_nodup
  have nodup' := cells'.nodup sound.cells_nodup
  have hmem : ∀ l, l ∈ t.memory.keys ↔ l ∈ u.memory.keys := by
    intro l
    rw [← not_iff_not, ← read_eq_none_iff, ← read_eq_none_iff, read]
  have hperm := (List.perm_ext_iff_of_nodup nodup nodup').mpr hmem
  have hkeys := (sound.cells_nodup.perm_iff_eq_of_sublist cells cells').mp hperm
  exact Table.ext_of_nodup nodup hkeys read

end Store

/-! What a statement reads. -/

namespace Node
open Store

variable {s t : Store} {n : Node} {names : List Name} (agree : AgreeOn names s t)
include agree

theorem resolve_of_agreeOn {x : Name} (member : x ∈ names) (loc : Option Loc) :
    resolve t x loc = resolve s x loc := by
  have hfreed : t.isFreed x = s.isFreed x := Option.some.inj (agree.view (.mark x) member)
  unfold resolve lookup
  rw [agree.environment, hfreed]

theorem eval_of_agreeOn (sub : n.names ⊆ names) : n.eval t = n.eval s := by
  induction n with
  | var x loc =>
    have member := sub List.mem_cons_self
    rw [eval, eval, resolve_of_agreeOn agree member loc]
    cases hl : resolve s x loc with
    | error e => rfl
    | ok l =>
      have bound := (resolve_eq_ok_iff.mp hl).1
      have hread : t.read l = s.read l := agree.view (.cell l) ⟨x, member, bound⟩
      dsimp only [bind, Except.bind]
      rw [hread]
  | nand l r loc ihl ihr =>
    have hl := ihl (List.Subset.trans (List.subset_append_left _ _) sub)
    have hr := ihr (List.Subset.trans (List.subset_append_right _ _) sub)
    rw [eval, eval, hl, hr]
  | _ => rfl

end Node

namespace Store

variable {s t : Store} {names : List Name}

theorem AgreeOn.write (agree : AgreeOn names s t) (l : Location) (v : Bool) :
    AgreeOn names (s.write l v) (t.write l v) where
  environment := agree.environment
  view := by
    intro place owned
    rw [view_write, view_write, agree.view place owned]

theorem AgreeOn.release (agree : AgreeOn names s t) (x : Name) (l : Location) :
    AgreeOn names (s.release x l) (t.release x l) where
  environment := agree.environment
  view := by
    intro place owned
    rw [view_release, view_release, agree.view place owned]

end Store

namespace Machine
open Exec Store

variable {m : Machine} {s t u : Store} {n : Node} {names : List Name}

theorem perform_of_agreeOn (agree : AgreeOn names s t) (undeclared : ∀ x e loc, n ≠ .decl x e loc)
    (sub : n.names ⊆ names) :
    Matched (fun d e => AgreeOn names d.2 e.2) (fun _ _ => True) (m.perform s n)
      (m.perform t n) := by
  cases n with
  | decl x e loc => exact absurd rfl (undeclared x e loc)
  | assign x e loc =>
    have member := sub List.mem_cons_self
    have he := Node.eval_of_agreeOn agree (List.Subset.trans (List.subset_cons_self _ _) sub)
    rw [perform, perform, he, Node.resolve_of_agreeOn agree member loc]
    cases e.eval s with
    | error stop => exact .error trivial
    | ok v =>
      cases hl : Node.resolve s x loc with
      | error stop => exact .error trivial
      | ok l =>
        have bound := (Node.resolve_eq_ok_iff.mp hl).1
        have hread : t.read l = s.read l := agree.view (.cell l) ⟨x, member, bound⟩
        dsimp only [bind, Except.bind]
        rw [hread]
        cases s.read l with
        | none => exact .error trivial
        | some old => exact .ok (agree.write l v)
  | free x loc =>
    rw [perform, perform, Node.resolve_of_agreeOn agree (sub List.mem_cons_self) loc]
    cases Node.resolve s x loc with
    | error stop => exact .error trivial
    | ok l => exact .ok (agree.release x l)
  | _ => exact .error trivial

theorem simulation_of_agreeOn (m : Machine) (undeclared : ∀ x e loc, .decl x e loc ∉ n.preorder) :
    Simulation n.preorder m m (fun s t => AgreeOn n.names s t ∧ s.Sound ∧ t.Sound)
      fun _ _ => True where
  limit := rfl
  eval := by
    rintro s t ⟨agree, -, -⟩ d hd
    rw [Node.eval_of_agreeOn agree (Node.names_subset_of_mem_preorder hd)]
    exact .refl (fun _ => rfl) (fun _ => trivial) _
  perform := by
    rintro s t ⟨agree, sound, sound'⟩ d hd
    apply (perform_of_agreeOn agree _ (Node.names_subset_of_mem_preorder hd)).and
    · exact fun done hdone => (acts_of_perform hdone).sound sound
    · exact fun done hdone => (acts_of_perform hdone).sound sound'
    · rintro x e loc rfl
      exact undeclared x e loc hd
  inspect := by
    rintro s t ⟨agree, sound, sound'⟩
    rw [inspect_of_sound sound, inspect_of_sound sound']
    exact lockstep_pure ⟨agree, sound, sound'⟩
  leave := by
    rintro s t s' t' ⟨agree, -, -⟩ ⟨agree', sound, sound'⟩ grows grows'
    exact ⟨⟨agree.environment, fun place owned => agree'.view place (grows.owns owned)⟩,
      sound.leave grows, sound'.leave grows'⟩
  exhausted := fun _ => trivial
  unfinished := trivial

end Machine

/-! What a statement changes. -/

namespace Store

variable {s t : Store} {names : List Name} {x : Name} {l : Location}

theorem changesOnly_write (member : x ∈ names) (bound : s.lookup x = some l)
    (stored : l ∈ s.memory.keys) (v : Bool) : ChangesOnly names s (s.write l v) where
  environment := rfl
  next := rfl
  cells := by rw [keys_write stored]
  view := by
    intro place elsewhere
    rw [view_write, if_neg]
    rintro rfl
    exact elsewhere ⟨x, member, bound⟩

theorem changesOnly_release (member : x ∈ names) (bound : s.lookup x = some l) :
    ChangesOnly names s (s.release x l) where
  environment := rfl
  next := rfl
  cells := List.filter_sublist.map Prod.fst
  view := by
    intro place elsewhere
    rw [view_release, if_neg, if_neg]
    · rintro rfl
      exact elsewhere ⟨x, member, bound⟩
    · rintro rfl
      exact elsewhere member

end Store

namespace Machine
open Exec Store

variable {m : Machine} {s t u : Store} {n : Node} {names : List Name} {p q : Progress}

theorem Acts.changesOnly {events : List Event} (acts : m.Acts s n events t)
    (undeclared : ∀ x e loc, n ≠ .decl x e loc) (changes : ∀ x, n.changes? = some x → x ∈ names) :
    ChangesOnly names s t := by
  cases acts with
  | decl => exact absurd rfl (undeclared _ _ _)
  | assign value bound live stored => exact changesOnly_write (changes _ rfl) bound stored _
  | free bound live => exact changesOnly_release (changes _ rfl) bound

theorem Path.changesOnly {among : List Node} (path : Path m among s p t q)
    (undeclared : ∀ x e loc, .decl x e loc ∉ among) :
    ChangesOnly (among.filterMap Node.changes?) s t := by
  induction path with
  | refl s => exact .refl _ s
  | step _ ih => exact ih
  | turn _ _ ih => exact ih
  | act _ member acts ih =>
    apply ih.trans (acts.changesOnly _ _)
    · rintro x e loc rfl
      exact undeclared x e loc member
    · exact fun x hx => List.mem_filterMap.mpr ⟨_, member, hx⟩
  | leave _ _ ih inner_ih =>
    have hwhole := ih.trans inner_ih
    exact ⟨ih.environment, hwhole.next, hwhole.cells, hwhole.view⟩

end Machine

/-! Exchanging two statements. -/

namespace Store

variable {s f g t₁ t₂ : Store} {xs ys names names' : List Name}

/-- Two changes made one after the other and the other way round. Each place is owned by the names
of one side at most, and shows what that side has made of it. -/
theorem view_of_exchange (sound : s.Sound) (first : ChangesOnly xs s t₁)
    (second : ChangesOnly ys t₁ f) (second' : ChangesOnly ys s t₂) (first' : ChangesOnly xs t₂ g)
    (agree : AgreeOn names t₁ g) (agree' : AgreeOn names' t₂ f) (sub : xs ⊆ names)
    (sub' : ys ⊆ names') (disjoint : ys.Disjoint xs) (place : Place) :
    g.view place = f.view place := by
  have owns₁ (zs : List Name) : t₁.Owns zs place ↔ s.Owns zs place :=
    owns_of_environment first.environment
  have owns₂ (zs : List Name) : t₂.Owns zs place ↔ s.Owns zs place :=
    owns_of_environment second'.environment
  by_cases hy : s.Owns ys place
  · have hx := mt (owns₂ xs).mp (sound.not_owns disjoint hy)
    calc g.view place = t₂.view place := first'.view place hx
      _ = f.view place := (agree'.view place (((owns₂ ys).mpr hy).mono sub')).symm
  · have hf : f.view place = t₁.view place := second.view place (mt (owns₁ ys).mp hy)
    by_cases hx : s.Owns xs place
    · exact (agree.view place (((owns₁ xs).mpr hx).mono sub)).trans hf.symm
    · calc g.view place = t₂.view place := first'.view place (mt (owns₂ xs).mp hx)
        _ = s.view place := second'.view place hy
        _ = t₁.view place := (first.view place hx).symm
        _ = f.view place := hf.symm

end Store

theorem Exec.Lockstep.yields {α β : Type} {R : α → β → Prop} {S : Stop → Stop → Prop} {x : Exec α}
    {y : Exec β} {a : α} {r : Except Stop β} {k j : Nat} {es fs : List Event}
    (h : Lockstep R S x y) (hx : x.Yields (.ok a) k es) (hy : y.Yields r j fs) :
    j = k ∧ ∃ b, r = .ok b ∧ R a b := by
  obtain ⟨hmatched, hsteps⟩ := h {} {} rfl
  rw [hx {}, hy {}] at hmatched hsteps
  refine ⟨by simpa using hsteps.symm, ?_⟩
  cases hmatched with
  | ok related => exact ⟨_, rfl, related⟩

namespace Machine
open Exec Store

variable {m : Machine} {fuel k : Nat} {a b n : Node} {s t u f : Store} {es : List Event}

section
variable (unlimited : m.limit = none)
include unlimited

theorem yields_of_seq {loc : Option Loc} (h : (m.exec fuel (.seq a b loc) s).Yields (.ok f) k es) :
    ∃ t i es' j fs, (m.exec fuel a s).Yields (.ok t) i es' ∧
      (m.exec fuel b t).Yields (.ok f) j fs ∧ k = i + j + 1 := by
  obtain ⟨r, i, es', ha⟩ := exists_yields_exec unlimited fuel a s
  cases r with
  | error e =>
    obtain ⟨herror, -, -⟩ := h.unique (yields_seq_error unlimited ha b loc)
    cases herror
  | ok t =>
    obtain ⟨r, j, fs, hb⟩ := exists_yields_exec unlimited fuel b t
    obtain ⟨rfl, hk, -⟩ := h.unique (yields_seq unlimited ha hb loc)
    exact ⟨t, i, es', j, fs, ha, hb, hk⟩

theorem yields_of_agreeOn (undeclared : ∀ x e loc, .decl x e loc ∉ n.preorder)
    (agree : AgreeOn n.names s t) (sound : s.Sound) (sound' : t.Sound)
    (h : (m.exec fuel n s).Yields (.ok u) k es) :
    ∃ w fs, (m.exec fuel n t).Yields (.ok w) k fs ∧ AgreeOn n.names u w := by
  have lockstep := (m.simulation_of_agreeOn undeclared).exec fuel (List.Subset.refl _)
    ⟨agree, sound, sound'⟩
  obtain ⟨r, j, fs, ht⟩ := exists_yields_exec unlimited fuel n t
  obtain ⟨rfl, w, rfl, agree', -, -⟩ := lockstep.yields h ht
  exact ⟨w, fs, ht, agree'⟩

end

theorem changesOnly_of_yields (h : (m.exec fuel n s).Yields (.ok t) k es) (sound : s.Sound)
    (undeclared : ∀ x e loc, .decl x e loc ∉ n.preorder) :
    ChangesOnly n.changed s t ∧ t.Sound := by
  have path := path_of_exec (h {})
  exact ⟨path.changesOnly undeclared, path.sound sound⟩

end Machine

/-- Two statements without declarations, neither of which assigns or frees a name that the other one
mentions, can be exchanged. If they come to an end in one order, then in the other order as well,
after equally many steps, and with the same bindings, the same names freed, the same cells and the
same counter. -/
theorem independent_statements_commute (i : Interpreter) (unlimited : i.machine.limit = none)
    (fuel : Nat) {a b : Node} {s f : Store} (loc loc' : Option Loc) (reachable : s.Reachable)
    (undeclared : ∀ x e l, Node.decl x e l ∉ a.preorder)
    (undeclared' : ∀ x e l, Node.decl x e l ∉ b.preorder)
    (unmentioned : ∀ x ∈ a.changed, x ∉ b.names) (unmentioned' : ∀ x ∈ b.changed, x ∉ a.names)
    (run : (i.exec fuel (.seq a b loc) s).result = .ok f) :
    ∃ g, (i.exec fuel (.seq b a loc') s).result = .ok g ∧
      g.environment = f.environment ∧ (∀ x, x ∈ g.freed ↔ x ∈ f.freed) ∧
      g.memory = f.memory ∧ g.next = f.next ∧
      (i.exec fuel (.seq b a loc') s).interpreter.steps =
        (i.exec fuel (.seq a b loc) s).interpreter.steps := by
  have sound := reachable.sound
  obtain ⟨r, k, es, hrun⟩ := Machine.exists_yields_exec unlimited fuel (.seq a b loc) s
  rw [Interpreter.exec_of_yields hrun] at run ⊢
  obtain rfl := run
  obtain ⟨t₁, j₁, es₁, j₂, es₂, hfirst, hthen, rfl⟩ := Machine.yields_of_seq unlimited hrun
  obtain ⟨first, sound₁⟩ := Machine.changesOnly_of_yields hfirst sound undeclared
  obtain ⟨second, -⟩ := Machine.changesOnly_of_yields hthen sound₁ undeclared'
  -- The second statement does from the start what it did behind the first, and the first then does
  -- what it did from the start.
  obtain ⟨t₂, es₃, hsecond, agree⟩ := Machine.yields_of_agreeOn unlimited undeclared'
    (first.agreeOn sound unmentioned).symm sound₁ sound hthen
  obtain ⟨second', sound₂⟩ := Machine.changesOnly_of_yields hsecond sound undeclared'
  obtain ⟨g, es₄, hlast, agree'⟩ := Machine.yields_of_agreeOn unlimited undeclared
    (second'.agreeOn sound unmentioned') sound sound₂ hfirst
  obtain ⟨first', -⟩ := Machine.changesOnly_of_yields hlast sound₂ undeclared
  have hexchanged := Machine.yields_seq unlimited hsecond hlast loc'
  have hview := Store.view_of_exchange sound first second second' first' agree' agree.symm
    a.changed_subset_names b.changed_subset_names
    (List.disjoint_of_subset_right a.changed_subset_names unmentioned')
  rw [Interpreter.exec_of_yields hexchanged]
  refine ⟨g, rfl, ?_, ?_, ?_, ?_, ?_⟩
  · rw [first'.environment, second'.environment, second.environment, first.environment]
  · intro x
    have hfreed : g.isFreed x = f.isFreed x := Option.some.inj (hview (.mark x))
    simpa [Store.isFreed] using congrArg (· = true) hfreed
  · exact sound.memory_eq (first'.cells.trans second'.cells) (second.cells.trans first.cells)
      fun l => hview (.cell l)
  · rw [first'.next, second'.next, second.next, first.next]
  · change i.steps + (j₂ + j₁ + 1) = i.steps + (j₁ + j₂ + 1)
    omega

def Node.apart : Node × Node :=
  (.seq (.whileDo (.var "a" none)
      (.assign "a" (.nand (.var "c" none) (.var "a" none) none) none) none) (.free "a" none) none,
  .ifThen (.var "c" none) (.seq (.assign "b" (.var "c" none) none) (.free "b" none) none) none)

theorem apart_exchanged :
    let i : Interpreter := {}
    let s : Store := ⟨⟨[("a", 0), ("b", 1), ("c", 2)]⟩, [], ⟨[(0, true), (1, false), (2, true)]⟩, 3⟩
    (i.exec 2 (.seq (.decl "a" (.lit true none) none) (.seq (.decl "b" (.lit false none) none)
      (.decl "c" (.lit true none) none) none) none) {}).result = .ok s ∧
    ∃ f g, (i.exec 2 (.seq Node.apart.1 Node.apart.2 none) s).result = .ok f ∧
      f.freed = ["a", "b"] ∧ f.memory.entries = [(2, true)] ∧
      (i.exec 2 (.seq Node.apart.2 Node.apart.1 none) s).result = .ok g ∧
      g.environment = f.environment ∧ (∀ x, x ∈ g.freed ↔ x ∈ f.freed) ∧
      g.memory = f.memory ∧ g.next = f.next ∧
      (i.exec 2 (.seq Node.apart.2 Node.apart.1 none) s).interpreter.steps =
        (i.exec 2 (.seq Node.apart.1 Node.apart.2 none) s).interpreter.steps := by
  intro i s
  have start : (i.exec 2 (.seq (.decl "a" (.lit true none) none) (.seq
      (.decl "b" (.lit false none) none) (.decl "c" (.lit true none) none) none) none) {}).result =
      .ok s := by decide
  have run : (i.exec 2 (.seq Node.apart.1 Node.apart.2 none) s).result =
      .ok ⟨⟨[("a", 0), ("b", 1), ("c", 2)]⟩, ["a", "b"], ⟨[(2, true)]⟩, 3⟩ := by decide
  have reachable : s.Reachable := .visit .initial (.exit (Interpreter.exec_of_result start))
  obtain ⟨g, exchanged⟩ :=
    independent_statements_commute i rfl 2 none none reachable
      (by simp [Node.apart, Node.preorder]) (by simp [Node.apart, Node.preorder])
      (by decide) (by decide) run
  exact ⟨start, _, g, run, rfl, rfl, exchanged⟩

end NandLang
