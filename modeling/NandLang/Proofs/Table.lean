import Mathlib.Data.List.Nodup
import NandLang.Table

/-! Laws of tables. A table is known by what it answers and by the order of its keys; these say how
each write changes the two. -/
namespace NandLang.Table

variable {κ α β : Type} [DecidableEq κ]

theorem lookup_cons_ite (i : κ) (b : α) (rest : List (κ × α)) (j : κ) :
    ((i, b) :: rest).lookup j = if j = i then some b else rest.lookup j := by
  rw [List.lookup_cons]
  by_cases h : j = i
  · simp [h]
  · rw [beq_false_of_ne h, if_neg h]

theorem contains_iff (t : Table κ α) (k : κ) : t.contains k = true ↔ k ∈ t.keys := by
  unfold contains get? keys
  induction t.entries with
  | nil => simp
  | cons e rest ih =>
    obtain ⟨i, b⟩ := e
    rw [lookup_cons_ite]
    by_cases h : k = i <;> simp [h, ih]

theorem get?_eq_none_iff (t : Table κ α) (k : κ) : t.get? k = none ↔ k ∉ t.keys := by
  rw [← contains_iff, contains]
  cases t.get? k <;> simp

theorem exists_get?_of_mem {t : Table κ α} {k : κ} (h : k ∈ t.keys) : ∃ a, t.get? k = some a := by
  rw [← contains_iff, contains] at h
  exact Option.isSome_iff_exists.mp h

theorem mem_keys_of_get? {t : Table κ α} {k : κ} {a : α} (h : t.get? k = some a) : k ∈ t.keys := by
  rw [← contains_iff, contains, h]
  rfl

theorem mem_of_get? {t : Table κ α} {k : κ} {a : α} (h : t.get? k = some a) :
    (k, a) ∈ t.entries := by
  obtain ⟨before, after, hsplit, -⟩ := List.lookup_eq_some_iff.mp h
  rw [hsplit]
  simp

theorem get?_of_mem {t : Table κ α} (nodup : t.keys.Nodup) {k : κ} {a : α}
    (h : (k, a) ∈ t.entries) : t.get? k = some a := by
  obtain ⟨b, hb⟩ := exists_get?_of_mem (List.mem_map_of_mem (f := Prod.fst) h)
  have heq := List.inj_on_of_nodup_map nodup h (mem_of_get? hb) rfl
  rw [hb, (Prod.mk.inj heq).2]

theorem filterMap_keys {t : Table κ α} (nodup : t.keys.Nodup) :
    (t.keys.filterMap fun k => (t.get? k).map (k, ·)) = t.entries := by
  rw [keys, List.filterMap_map]
  calc t.entries.filterMap _ = t.entries.filterMap some := by
        apply List.filterMap_congr
        rintro ⟨k, a⟩ h
        simp [get?_of_mem nodup h]
    _ = t.entries := List.filterMap_some

theorem ext_of_nodup {t u : Table κ α} (nodup : t.keys.Nodup) (keys : t.keys = u.keys)
    (get? : ∀ k, t.get? k = u.get? k) : t = u := by
  have hentries : t.entries = u.entries := by
    rw [← filterMap_keys nodup, ← filterMap_keys (keys ▸ nodup), keys]
    simp only [get?]
  cases t
  cases u
  exact congrArg Table.mk hentries

/-! Writing. -/

theorem put_of_notMem {t : Table κ α} {k : κ} (h : k ∉ t.keys) (a : α) :
    t.put k a = ⟨t.entries ++ [(k, a)]⟩ := by
  rw [← contains_iff] at h
  unfold put
  rw [if_neg h]

theorem keys_put_of_notMem {t : Table κ α} {k : κ} (h : k ∉ t.keys) (a : α) :
    (t.put k a).keys = t.keys ++ [k] := by
  rw [put_of_notMem h]
  simp [keys]

theorem keys_put_of_mem {t : Table κ α} {k : κ} (h : k ∈ t.keys) (a : α) :
    (t.put k a).keys = t.keys := by
  rw [← contains_iff] at h
  unfold put
  rw [if_pos h]
  simp only [keys, List.map_map]
  apply List.map_congr_left
  intro e _
  by_cases he : e.1 = k <;> simp [he]

theorem mem_keys_put (t : Table κ α) (k : κ) (a : α) (j : κ) :
    j ∈ (t.put k a).keys ↔ j = k ∨ j ∈ t.keys := by
  by_cases h : k ∈ t.keys
  · rw [keys_put_of_mem h]
    constructor
    · exact Or.inr
    · rintro (rfl | hj)
      · exact h
      · exact hj
  · rw [keys_put_of_notMem h]
    simp [or_comm]

theorem nodup_keys_put {t : Table κ α} (nodup : t.keys.Nodup) (k : κ) (a : α) :
    (t.put k a).keys.Nodup := by
  by_cases h : k ∈ t.keys
  · rwa [keys_put_of_mem h]
  · rw [keys_put_of_notMem h]
    exact nodup.append (List.nodup_singleton k) (by simpa using h)

private theorem lookup_map_write (entries : List (κ × α)) (k : κ) (a : α) (j : κ) :
    (entries.map fun e => if e.1 = k then (k, a) else e).lookup j =
      if j = k then (entries.lookup j).map fun _ => a else entries.lookup j := by
  induction entries with
  | nil => simp
  | cons e rest ih =>
    obtain ⟨i, b⟩ := e
    by_cases hi : i = k
    · simp only [List.map_cons, hi, if_true, lookup_cons_ite, ih]
      by_cases hj : j = k <;> simp [hj]
    · simp only [List.map_cons, hi, if_false, lookup_cons_ite, ih]
      by_cases hj : j = i <;> simp [hj, hi]

@[simp] theorem get?_put_self (t : Table κ α) (k : κ) (a : α) : (t.put k a).get? k = some a := by
  by_cases h : k ∈ t.keys
  · obtain ⟨b, hb⟩ := exists_get?_of_mem h
    unfold get? at hb ⊢
    rw [← contains_iff] at h
    rw [put, if_pos h, lookup_map_write, if_pos rfl, hb]
    rfl
  · have hnone := (get?_eq_none_iff t k).mpr h
    unfold get? at hnone ⊢
    rw [put_of_notMem h, List.lookup_append, hnone]
    simp

theorem get?_put_of_ne (t : Table κ α) {j k : κ} (hne : j ≠ k) (a : α) :
    (t.put k a).get? j = t.get? j := by
  unfold get?
  by_cases h : k ∈ t.keys
  · rw [← contains_iff] at h
    rw [put, if_pos h, lookup_map_write, if_neg hne]
  · rw [put_of_notMem h, List.lookup_append, lookup_cons_ite, if_neg hne]
    simp

/-! Erasing. -/

@[simp] theorem mem_keys_erase (t : Table κ α) (k j : κ) :
    j ∈ (t.erase k).keys ↔ j ≠ k ∧ j ∈ t.keys := by
  simp only [erase, keys, List.mem_map, List.mem_filter, decide_eq_true_eq]
  constructor
  · rintro ⟨e, ⟨he, hne⟩, rfl⟩
    exact ⟨hne, e, he, rfl⟩
  · rintro ⟨hne, e, he, rfl⟩
    exact ⟨e, ⟨he, hne⟩, rfl⟩

theorem get?_erase_of_ne (t : Table κ α) {j k : κ} (hne : j ≠ k) :
    (t.erase k).get? j = t.get? j := by
  simp only [get?, erase]
  induction t.entries with
  | nil => rfl
  | cons e rest ih =>
    obtain ⟨i, b⟩ := e
    by_cases hi : i = k
    · rw [List.filter_cons_of_neg (by simp [hi]), ih, lookup_cons_ite, hi, if_neg hne]
    · rw [List.filter_cons_of_pos (by simp [hi]), lookup_cons_ite, lookup_cons_ite, ih]

theorem nodup_keys_erase {t : Table κ α} (nodup : t.keys.Nodup) (k : κ) :
    (t.erase k).keys.Nodup :=
  (List.filter_sublist.map Prod.fst).nodup nodup

theorem perm_keys_erase {t : Table κ α} (nodup : t.keys.Nodup) {k : κ} (h : k ∈ t.keys) :
    t.keys.Perm (k :: (t.erase k).keys) := by
  have hkeys : (t.erase k).keys = t.keys.erase k := by
    rw [nodup.erase_eq_filter, keys, keys, List.filter_map, erase]
    congr 1
    apply List.filter_congr
    intro e _
    by_cases he : e.1 = k <;> simp [he]
  rw [hkeys]
  exact List.perm_cons_erase h

/-! Tables whose keys, or what stands behind them, were renamed. -/

def mapKeys {ι : Type} (f : κ → ι) (t : Table κ α) : Table ι α :=
  ⟨t.entries.map fun e => (f e.1, e.2)⟩

def mapValues (f : α → β) (t : Table κ α) : Table κ β :=
  ⟨t.entries.map fun e => (e.1, f e.2)⟩

omit [DecidableEq κ] in
@[simp] theorem keys_mapValues (f : α → β) (t : Table κ α) : (t.mapValues f).keys = t.keys := by
  simp [keys, mapValues]

omit [DecidableEq κ] in
@[simp] theorem keys_mapKeys {ι : Type} (f : κ → ι) (t : Table κ α) :
    (t.mapKeys f).keys = t.keys.map f := by
  simp [keys, mapKeys]

theorem get?_mapValues (f : α → β) (t : Table κ α) (k : κ) :
    (t.mapValues f).get? k = (t.get? k).map f := by
  unfold get? mapValues
  induction t.entries with
  | nil => rfl
  | cons e rest ih =>
    obtain ⟨i, b⟩ := e
    rw [List.map_cons, lookup_cons_ite, lookup_cons_ite, ih]
    by_cases h : k = i <;> simp [h]

section Injective

variable {ι : Type} [DecidableEq ι] {f : κ → ι} {t : Table κ α} {k : κ}
  (unique : ∀ j ∈ t.keys, f j = f k → j = k)
include unique

theorem get?_mapKeys : (t.mapKeys f).get? (f k) = t.get? k := by
  unfold get? mapKeys
  unfold keys at unique
  generalize t.entries = entries at unique ⊢
  induction entries with
  | nil => rfl
  | cons e rest ih =>
    obtain ⟨i, b⟩ := e
    rw [List.map_cons, lookup_cons_ite, lookup_cons_ite,
      ih fun j hj => unique j (List.mem_cons_of_mem _ hj)]
    by_cases h : k = i
    · simp [h]
    · have hne : f k ≠ f i := fun heq => h (unique i List.mem_cons_self heq.symm).symm
      rw [if_neg h, if_neg hne]

theorem mapKeys_put (a : α) : (t.put k a).mapKeys f = (t.mapKeys f).put (f k) a := by
  unfold put contains
  rw [get?_mapKeys unique]
  split
  · simp only [mapKeys, List.map_map, mk.injEq]
    apply List.map_congr_left
    intro e he
    by_cases h : e.1 = k
    · simp [h]
    · have hne : f e.1 ≠ f k := fun heq => h (unique _ (List.mem_map_of_mem he) heq)
      simp [h, hne]
  · simp [mapKeys]

theorem mapKeys_erase : (t.erase k).mapKeys f = (t.mapKeys f).erase (f k) := by
  simp only [mapKeys, erase, List.filter_map, mk.injEq]
  congr 1
  apply List.filter_congr
  intro e he
  by_cases h : e.1 = k
  · simp [h]
  · have hne : f e.1 ≠ f k := fun heq => h (unique _ (List.mem_map_of_mem he) heq)
    simp [h, hne]

end Injective

theorem mapValues_put (f : α → β) (t : Table κ α) (k : κ) (a : α) :
    (t.put k a).mapValues f = (t.mapValues f).put k (f a) := by
  unfold put contains
  rw [get?_mapValues, Option.isSome_map]
  split
  · simp only [mapValues, List.map_map, mk.injEq]
    apply List.map_congr_left
    intro e _
    by_cases h : e.1 = k <;> simp [h]
  · simp [mapValues]

omit [DecidableEq κ] in
theorem mapKeys_congr {ι : Type} {f g : κ → ι} {t : Table κ α} (h : ∀ k ∈ t.keys, f k = g k) :
    t.mapKeys f = t.mapKeys g := by
  simp only [mapKeys, mk.injEq]
  apply List.map_congr_left
  intro e he
  rw [h e.1 (List.mem_map_of_mem he)]

omit [DecidableEq κ] in
theorem mapValues_congr {f g : α → β} {t : Table κ α} (h : ∀ a ∈ t.entries.map (·.2), f a = g a) :
    t.mapValues f = t.mapValues g := by
  simp only [mapValues, mk.injEq]
  apply List.map_congr_left
  intro e he
  rw [h e.2 (List.mem_map_of_mem he)]

end NandLang.Table
