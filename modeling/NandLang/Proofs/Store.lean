import NandLang.Allocator
import NandLang.Proofs.Table

/-! Sound stores. The two rules that an audit looks for do not carry themselves: freeing one name
could take the cell of another, and a block is left with an old environment over a newer memory.
`Sound` is the rule that does carry itself, through every write and every change of scope. -/
namespace NandLang
namespace Store

variable {s t : Store} {x y : Name} {l : Location}

def locations (s : Store) : List Location :=
  s.memory.keys ++ s.environment.entries.map (·.2)

structure Sound (s : Store) : Prop where
  names_nodup : s.environment.keys.Nodup
  cells_nodup : s.memory.keys.Nodup
  /-- A name in scope is freed exactly if it has no cell. -/
  freed_iff : ∀ {x l}, s.lookup x = some l → (s.isFreed x = true ↔ l ∉ s.memory.keys)
  /-- The counter is past every location in use. -/
  below : ∀ {l}, l ∈ s.locations → l < s.next
  /-- No two names share a location. -/
  unshared : ∀ {x y l}, s.lookup x = some l → s.lookup y = some l → x = y

theorem Sound.initial : Sound {} where
  names_nodup := List.nodup_nil
  cells_nodup := List.nodup_nil
  freed_iff := by intro x l h; cases h
  below := by intro l h; cases h
  unshared := by intro x y l h; cases h

theorem mem_locations_of_stored (h : l ∈ s.memory.keys) : l ∈ s.locations :=
  List.mem_append_left _ h

theorem mem_locations_of_lookup (h : s.lookup x = some l) : l ∈ s.locations :=
  List.mem_append_right _ (List.mem_map_of_mem (f := Prod.snd) (Table.mem_of_get? h))

theorem read_eq_none_iff (s : Store) (l : Location) : s.read l = none ↔ l ∉ s.memory.keys :=
  Table.get?_eq_none_iff _ _

theorem lookup_eq_none_iff (s : Store) (x : Name) : s.lookup x = none ↔ x ∉ s.environment.keys :=
  Table.get?_eq_none_iff _ _

/-! Reading back what was written. -/

@[simp] theorem lookup_declare_self (s : Store) (x : Name) (l : Location) (v : Bool)
    (next : Location) : (s.declare x l v next).lookup x = some l :=
  Table.get?_put_self _ _ _

theorem lookup_declare_of_ne (s : Store) (hne : y ≠ x) (l : Location) (v : Bool)
    (next : Location) : (s.declare x l v next).lookup y = s.lookup y :=
  Table.get?_put_of_ne _ hne _

@[simp] theorem isFreed_declare_self (s : Store) (x : Name) (l : Location) (v : Bool)
    (next : Location) : (s.declare x l v next).isFreed x = false := by
  simp [isFreed, declare]

theorem isFreed_declare_of_ne (s : Store) (hne : y ≠ x) (l : Location) (v : Bool)
    (next : Location) : (s.declare x l v next).isFreed y = s.isFreed y := by
  simp [isFreed, declare, hne]

@[simp] theorem isFreed_release_self (s : Store) (x : Name) (l : Location) :
    (s.release x l).isFreed x = true := by
  by_cases h : x ∈ s.freed <;> simp [isFreed, release, h]

theorem isFreed_release_of_ne (s : Store) (hne : y ≠ x) (l : Location) :
    (s.release x l).isFreed y = s.isFreed y := by
  by_cases h : x ∈ s.freed <;> simp [isFreed, release, h, hne]

theorem read_declare_of_ne (s : Store) (x : Name) {l m : Location} (hne : m ≠ l) (v : Bool)
    (next : Location) : (s.declare x l v next).read m = s.read m :=
  Table.get?_put_of_ne _ hne _

theorem read_write_of_ne (s : Store) {l m : Location} (hne : m ≠ l) (v : Bool) :
    (s.write l v).read m = s.read m :=
  Table.get?_put_of_ne _ hne _

theorem read_release_of_ne (s : Store) (x : Name) {l m : Location} (hne : m ≠ l) :
    (s.release x l).read m = s.read m :=
  Table.get?_erase_of_ne _ hne

/-! Each write keeps a store sound. -/

theorem mem_locations_declare (new : s.lookup x = none) (l : Location) (v : Bool)
    (next : Location) {m : Location} (h : m ∈ (s.declare x l v next).locations) :
    m = l ∨ m ∈ s.locations := by
  obtain h | h := List.mem_append.mp h
  · obtain rfl | h := (Table.mem_keys_put _ _ _ _).mp h
    · exact .inl rfl
    · exact .inr (mem_locations_of_stored h)
  · rw [lookup_eq_none_iff] at new
    rw [declare, Table.put_of_notMem new, List.map_append, List.mem_append] at h
    obtain h | h := h
    · exact .inr (List.mem_append_right _ h)
    · exact .inl (List.mem_singleton.mp h)

theorem Sound.declare (sound : s.Sound) (new : s.lookup x = none)
    (fresh : ∀ {m}, m ∈ s.locations → m < l) (v : Bool) :
    (s.declare x l v (l + 1)).Sound where
  names_nodup := Table.nodup_keys_put sound.names_nodup _ _
  cells_nodup := Table.nodup_keys_put sound.cells_nodup _ _
  freed_iff := by
    intro y m hy
    change _ ↔ m ∉ (s.memory.put l v).keys
    rw [Table.mem_keys_put]
    by_cases hyx : y = x
    · subst hyx
      rw [lookup_declare_self] at hy
      simp [Option.some.inj hy]
    · rw [lookup_declare_of_ne s hyx] at hy
      have hne : m ≠ l := Int.ne_of_lt (fresh (mem_locations_of_lookup hy))
      rw [isFreed_declare_of_ne s hyx, sound.freed_iff hy]
      simp [hne]
  below := by
    intro m hm
    change m < l + 1
    obtain rfl | hm := mem_locations_declare new _ _ _ hm
    · exact Int.lt_succ m
    · exact Int.lt_trans (fresh hm) (Int.lt_succ l)
  unshared := by
    intro y z m hy hz
    by_cases hyx : y = x <;> by_cases hzx : z = x
    · rw [hyx, hzx]
    · subst hyx
      rw [lookup_declare_self] at hy
      rw [lookup_declare_of_ne s hzx, ← Option.some.inj hy] at hz
      exact absurd (fresh (mem_locations_of_lookup hz)) (Int.lt_irrefl l)
    · subst hzx
      rw [lookup_declare_self] at hz
      rw [lookup_declare_of_ne s hyx, ← Option.some.inj hz] at hy
      exact absurd (fresh (mem_locations_of_lookup hy)) (Int.lt_irrefl l)
    · rw [lookup_declare_of_ne s hyx] at hy
      rw [lookup_declare_of_ne s hzx] at hz
      exact sound.unshared hy hz

theorem keys_write (stored : l ∈ s.memory.keys) (v : Bool) :
    (s.write l v).memory.keys = s.memory.keys :=
  Table.keys_put_of_mem stored v

theorem Sound.write (sound : s.Sound) (stored : l ∈ s.memory.keys) (v : Bool) :
    (s.write l v).Sound where
  names_nodup := sound.names_nodup
  cells_nodup := Table.nodup_keys_put sound.cells_nodup _ _
  freed_iff := by
    intro x m h
    rw [keys_write stored]
    exact sound.freed_iff h
  below := by
    intro m h
    rw [locations, keys_write stored] at h
    exact sound.below h
  unshared := sound.unshared

theorem mem_locations_of_release {m : Location} (h : m ∈ (s.release x l).locations) :
    m ∈ s.locations := by
  obtain h | h := List.mem_append.mp h
  · exact mem_locations_of_stored ((Table.mem_keys_erase _ _ _).mp h).2
  · exact List.mem_append_right _ h

theorem Sound.release (sound : s.Sound) (bound : s.lookup x = some l) :
    (s.release x l).Sound where
  names_nodup := sound.names_nodup
  cells_nodup := Table.nodup_keys_erase sound.cells_nodup _
  freed_iff := by
    intro y m hy
    change _ ↔ m ∉ (s.memory.erase l).keys
    rw [Table.mem_keys_erase]
    by_cases hyx : y = x
    · subst hyx
      have hm : m = l := Option.some.inj (hy.symm.trans bound)
      simp [hm]
    · have hne : m ≠ l := by
        rintro rfl
        exact hyx (sound.unshared hy bound)
      rw [isFreed_release_of_ne s hyx, sound.freed_iff hy]
      simp [hne]
  below := by
    intro m h
    exact sound.below (mem_locations_of_release h)
  unshared := sound.unshared

/-! Scopes. A store grows on another if all bindings of the other stand in it, in their places. -/

def GrowsOn (t s : Store) : Prop := s.environment.entries <+: t.environment.entries

theorem GrowsOn.refl (s : Store) : s.GrowsOn s := List.prefix_refl _

theorem GrowsOn.trans {r : Store} (h : t.GrowsOn s) (g : s.GrowsOn r) : t.GrowsOn r :=
  List.IsPrefix.trans g h

theorem growsOn_declare (new : s.lookup x = none) (l : Location) (v : Bool) (next : Location) :
    (s.declare x l v next).GrowsOn s := by
  rw [lookup_eq_none_iff] at new
  unfold GrowsOn declare
  rw [Table.put_of_notMem new]
  exact List.prefix_append _ _

theorem GrowsOn.lookup (h : t.GrowsOn s) (bound : s.lookup x = some l) : t.lookup x = some l := by
  obtain ⟨rest, hrest⟩ := h
  unfold Store.lookup Table.get? at bound ⊢
  rw [← hrest, List.lookup_append, bound]
  rfl

theorem GrowsOn.mem_locations (h : t.GrowsOn s)
    (hl : l ∈ (t.withEnvironment s.environment).locations) : l ∈ t.locations := by
  obtain hl | hl := List.mem_append.mp hl
  · exact mem_locations_of_stored hl
  · exact List.mem_append_right _ ((h.map Prod.snd).subset hl)

theorem Sound.leave (sound : t.Sound) (h : t.GrowsOn s) :
    (t.withEnvironment s.environment).Sound where
  names_nodup := (h.map Prod.fst).sublist.nodup sound.names_nodup
  cells_nodup := sound.cells_nodup
  freed_iff := fun bound => sound.freed_iff (h.lookup bound)
  below := fun hl => sound.below (h.mem_locations hl)
  unshared := fun hx hy => sound.unshared (h.lookup hx) (h.lookup hy)

/-! What a sound store shows. -/

theorem Sound.stored_of_live (sound : s.Sound) (bound : s.lookup x = some l)
    (live : s.isFreed x = false) : l ∈ s.memory.keys := by
  by_contra h
  rw [(sound.freed_iff bound).mpr h] at live
  cases live

theorem Sound.violations_eq_nil (sound : s.Sound) : s.violations = [] := by
  unfold violations
  rw [List.append_eq_nil_iff, List.filterMap_eq_nil_iff, List.filterMap_eq_nil_iff]
  constructor
  · rintro ⟨x, l⟩ h
    have hiff := sound.freed_iff (Table.get?_of_mem sound.names_nodup h)
    rw [← read_eq_none_iff] at hiff
    cases hread : s.read l <;> simp_all
  · intro l h
    have hlt := sound.below (mem_locations_of_stored h)
    rw [if_neg (Int.not_le.mpr hlt)]

theorem Sound.names_values (sound : s.Sound) :
    s.values.map Prod.fst = s.environment.keys.filter fun x => !s.isFreed x := by
  have hall : ∀ e ∈ s.environment.entries, (s.isFreed e.1 = true ↔ s.read e.2 = none) := by
    intro e he
    rw [read_eq_none_iff]
    exact sound.freed_iff (Table.get?_of_mem sound.names_nodup he)
  unfold values Table.keys
  generalize s.environment.entries = entries at hall ⊢
  induction entries with
  | nil => rfl
  | cons e rest ih =>
    have hrest := ih fun d hd => hall d (List.mem_cons_of_mem _ hd)
    have he := hall e List.mem_cons_self
    cases hread : s.read e.2 with
    | none =>
      have hfreed := he.mpr hread
      simp [hread, hfreed, hrest]
    | some v =>
      have hfreed : s.isFreed e.1 = false := by simpa [hread] using he
      simp [hread, hfreed, hrest]

end Store

/-! Allocation. -/

theorem lt_freshLocation {locations : List Location} {l : Location} (h : l ∈ locations) :
    l < freshLocation locations := by
  cases locations with
  | nil => cases h
  | cons first rest =>
    have hmax : (first :: rest).max? = some (rest.foldl max first) := rfl
    exact Int.lt_add_one_of_le ((List.max?_le_iff hmax).mp (Int.le_refl _) l h)

namespace Allocator

variable {s : Store} {x : Name}

theorem lt_allocate (a : Allocator) (sound : s.Sound) {l : Location} (h : l ∈ s.locations) :
    l < (a.allocate s).1 := by
  cases a with
  | bump => exact sound.below h
  | maxScan => exact lt_freshLocation h

theorem sound_declare (a : Allocator) (sound : s.Sound) (new : s.lookup x = none) (v : Bool) :
    (s.declare x (a.allocate s).1 v (a.allocate s).2).Sound :=
  sound.declare new (a.lt_allocate sound) v

end Allocator
end NandLang
