import BoltStream.Lib.BigEndian
import Mathlib.Data.List.Lex
import Mathlib.Data.Prod.Lex

/-!
# Maps in key order

A finite map as the list of its entries in increasing key order, so that a loop
over the map meets the entries in that order.  Byte strings are ordered byte by
byte.
-/

namespace BoltStream.Lib

instance linearOrderUInt8 : LinearOrder UInt8 where
  le_refl _ := UInt8.le_refl _
  le_trans _ _ _ := UInt8.le_trans
  le_antisymm _ _ := UInt8.le_antisymm
  le_total _ _ := UInt8.le_total _ _
  lt_iff_le_not_ge a b := by
    rw [UInt8.lt_iff_toNat_lt, UInt8.le_iff_toNat_le, UInt8.le_iff_toNat_le]
    omega
  toDecidableLE := inferInstance
  toDecidableEq := inferInstance
  toDecidableLT := inferInstance

structure SortedMap (κ ν : Type*) [LinearOrder κ] where
  entries : List (κ × ν)
  sorted : entries.Pairwise fun e f ↦ e.1 < f.1

namespace SortedMap

variable {κ ν μ σ : Type*} [LinearOrder κ]

instance [DecidableEq ν] : DecidableEq (SortedMap κ ν) := fun a b ↦
  decidable_of_iff (a.entries = b.entries) (by cases a; cases b; simp)

def empty : SortedMap κ ν := ⟨[], List.Pairwise.nil⟩

instance : EmptyCollection (SortedMap κ ν) := ⟨empty⟩

instance : Inhabited (SortedMap κ ν) := ⟨empty⟩

def keys (map : SortedMap κ ν) : List κ := map.entries.map Prod.fst

def find? (map : SortedMap κ ν) (key : κ) : Option ν := map.entries.lookup key

def insertEntry (key : κ) (value : ν) : List (κ × ν) → List (κ × ν)
  | [] => [(key, value)]
  | entry :: rest =>
      if key < entry.1 then (key, value) :: entry :: rest
      else if key = entry.1 then (key, value) :: rest
      else entry :: insertEntry key value rest

theorem fst_of_mem_insertEntry {key : κ} {value : ν} {entry : κ × ν} {entries : List (κ × ν)}
    (h : entry ∈ insertEntry key value entries) :
    entry.1 = key ∨ entry ∈ entries := by
  induction entries with
  | nil => exact Or.inl (by rw [List.mem_singleton.mp h])
  | cons first rest ih =>
      rw [insertEntry] at h
      split_ifs at h with hlt heq
      · rcases List.mem_cons.mp h with rfl | h
        · exact Or.inl rfl
        · exact Or.inr h
      · rcases List.mem_cons.mp h with rfl | h
        · exact Or.inl rfl
        · exact Or.inr (List.mem_cons_of_mem first h)
      · rcases List.mem_cons.mp h with rfl | h
        · exact Or.inr List.mem_cons_self
        · exact (ih h).imp_right (List.mem_cons_of_mem first)

theorem pairwise_insertEntry {entries : List (κ × ν)}
    (h : entries.Pairwise fun e f ↦ e.1 < f.1) (key : κ) (value : ν) :
    (insertEntry key value entries).Pairwise fun e f ↦ e.1 < f.1 := by
  induction entries with
  | nil => exact List.pairwise_singleton _ _
  | cons first rest ih =>
      obtain ⟨hfirst, hrest⟩ := List.pairwise_cons.mp h
      rw [insertEntry]
      split_ifs with hlt heq
      · refine List.pairwise_cons.mpr ⟨fun entry hentry ↦ ?_, h⟩
        rcases List.mem_cons.mp hentry with rfl | hentry
        · exact hlt
        · exact hlt.trans (hfirst entry hentry)
      · refine List.pairwise_cons.mpr ⟨fun entry hentry ↦ ?_, hrest⟩
        exact heq ▸ hfirst entry hentry
      · refine List.pairwise_cons.mpr ⟨fun entry hentry ↦ ?_, ih hrest⟩
        rcases fst_of_mem_insertEntry hentry with hkey | hentry
        · rw [hkey]
          exact lt_of_le_of_ne (not_lt.mp hlt) (Ne.symm heq)
        · exact hfirst entry hentry

/-- Set the value of a key, adding the key if it is missing. -/
def insert (map : SortedMap κ ν) (key : κ) (value : ν) : SortedMap κ ν :=
  ⟨insertEntry key value map.entries, pairwise_insertEntry map.sorted key value⟩

def filter (map : SortedMap κ ν) (kept : κ → ν → Bool) : SortedMap κ ν :=
  ⟨map.entries.filter fun entry ↦ kept entry.1 entry.2, map.sorted.filter _⟩

def erase (map : SortedMap κ ν) (key : κ) : SortedMap κ ν :=
  map.filter fun other _ ↦ decide (other ≠ key)

def mapAccumEntries (step : σ → κ → ν → σ × μ) : σ → List (κ × ν) → List (κ × μ)
  | _, [] => []
  | state, entry :: rest =>
      let next := step state entry.1 entry.2
      (entry.1, next.2) :: mapAccumEntries step next.1 rest

omit [LinearOrder κ] in
theorem map_fst_mapAccumEntries (step : σ → κ → ν → σ × μ) (state : σ)
    (entries : List (κ × ν)) :
    (mapAccumEntries step state entries).map Prod.fst = entries.map Prod.fst := by
  induction entries generalizing state with
  | nil => rfl
  | cons entry rest ih =>
      rw [mapAccumEntries, List.map_cons, List.map_cons, ih]

theorem pairwise_of_map_fst {entries : List (κ × ν)} {entries' : List (κ × μ)}
    (h : entries.Pairwise fun e f ↦ e.1 < f.1)
    (hkeys : entries'.map Prod.fst = entries.map Prod.fst) :
    entries'.Pairwise fun e f ↦ e.1 < f.1 := by
  rw [← List.pairwise_map (f := Prod.fst) (R := (· < ·))] at h ⊢
  rwa [hkeys]

/-- A loop over the map that updates every value and carries a state along. -/
def mapAccum (step : σ → κ → ν → σ × μ) (state : σ) (map : SortedMap κ ν) : SortedMap κ μ :=
  ⟨mapAccumEntries step state map.entries,
    pairwise_of_map_fst map.sorted (map_fst_mapAccumEntries step state map.entries)⟩

def mapValues (f : κ → ν → μ) (map : SortedMap κ ν) : SortedMap κ μ :=
  ⟨map.entries.map fun entry ↦ (entry.1, f entry.1 entry.2),
    pairwise_of_map_fst map.sorted (by simp)⟩

/-- Keep the entries with an image. -/
def filterMapValues (f : κ → ν → Option μ) (map : SortedMap κ ν) : SortedMap κ μ :=
  ⟨map.entries.filterMap fun entry ↦ (f entry.1 entry.2).map fun value ↦ (entry.1, value),
    map.sorted.filterMap _ fun e e' hlt b hb b' hb' ↦ by
      obtain ⟨value, -, rfl⟩ := Option.map_eq_some_iff.mp hb
      obtain ⟨value', -, rfl⟩ := Option.map_eq_some_iff.mp hb'
      exact hlt⟩

/-! ## Looking up -/

theorem ext_entries {map map' : SortedMap κ ν} (h : map.entries = map'.entries) : map = map' := by
  cases map
  cases map'
  simpa using h

theorem mem_of_find? {map : SortedMap κ ν} {key : κ} {value : ν}
    (h : map.find? key = some value) : (key, value) ∈ map.entries := by
  obtain ⟨before, after, heq, -⟩ := List.lookup_eq_some_iff.mp h
  rw [heq]
  exact List.mem_append_right _ List.mem_cons_self

theorem find?_of_mem {map : SortedMap κ ν} {key : κ} {value : ν}
    (h : (key, value) ∈ map.entries) : map.find? key = some value := by
  obtain ⟨before, after, heq⟩ := List.append_of_mem h
  refine List.lookup_eq_some_iff.mpr ⟨before, after, heq, fun entry hentry ↦ ?_⟩
  have hlt := (List.pairwise_append.mp (heq ▸ map.sorted)).2.2 entry hentry (key, value)
    List.mem_cons_self
  simpa using hlt.ne'

theorem find?_eq_some_iff {map : SortedMap κ ν} {key : κ} {value : ν} :
    map.find? key = some value ↔ (key, value) ∈ map.entries :=
  ⟨mem_of_find?, find?_of_mem⟩

theorem mem_keys_iff {map : SortedMap κ ν} {key : κ} :
    key ∈ map.keys ↔ ∃ value, map.find? key = some value := by
  rw [keys, List.mem_map]
  constructor
  · rintro ⟨entry, hentry, rfl⟩
    exact ⟨entry.2, find?_of_mem hentry⟩
  · rintro ⟨value, hvalue⟩
    exact ⟨(key, value), mem_of_find? hvalue, rfl⟩

theorem find?_eq_none_iff {map : SortedMap κ ν} {key : κ} :
    map.find? key = none ↔ key ∉ map.keys := by
  rw [mem_keys_iff, Option.eq_none_iff_forall_ne_some, not_exists]

/-- A map is determined by its lookups. -/
theorem ext {map map' : SortedMap κ ν} (h : ∀ key, map.find? key = map'.find? key) :
    map = map' := by
  refine ext_entries (List.Pairwise.eq_of_mem_iff (r := fun e f : κ × ν ↦ e.1 < f.1) map.sorted
    map'.sorted fun entry ↦ ?_)
  have hmem : ∀ map : SortedMap κ ν, entry ∈ map.entries ↔ map.find? entry.1 = some entry.2 :=
    fun map ↦ find?_eq_some_iff.symm
  rw [hmem, hmem, h]

@[simp] theorem find?_empty (key : κ) : (∅ : SortedMap κ ν).find? key = none := rfl

theorem mem_insertEntry {key : κ} {value : ν} {entry : κ × ν} {entries : List (κ × ν)}
    (hsorted : entries.Pairwise fun e f ↦ e.1 < f.1) :
    entry ∈ insertEntry key value entries ↔
      entry = (key, value) ∨ entry ∈ entries ∧ entry.1 ≠ key := by
  induction entries with
  | nil => simp [insertEntry]
  | cons first rest ih =>
      obtain ⟨hfirst, hrest⟩ := List.pairwise_cons.mp hsorted
      have hbehind : ∀ e ∈ first :: rest, key < first.1 → e.1 ≠ key := by
        intro e he hlt
        rcases List.mem_cons.mp he with rfl | he
        · exact hlt.ne'
        · exact (hlt.trans (hfirst e he)).ne'
      rw [insertEntry]
      split_ifs with hlt heq
      · rw [List.mem_cons]
        exact or_congr_right ⟨fun h ↦ ⟨h, hbehind entry h hlt⟩, fun h ↦ h.1⟩
      · rw [List.mem_cons, List.mem_cons]
        refine or_congr_right ⟨fun h ↦ ⟨Or.inr h, heq ▸ (hfirst entry h).ne'⟩, ?_⟩
        rintro ⟨rfl | h, hne⟩
        · exact (hne heq.symm).elim
        · exact h
      · rw [List.mem_cons, ih hrest, List.mem_cons]
        constructor
        · rintro (rfl | rfl | ⟨h, hne⟩)
          · exact Or.inr ⟨Or.inl rfl, Ne.symm heq⟩
          · exact Or.inl rfl
          · exact Or.inr ⟨Or.inr h, hne⟩
        · rintro (rfl | ⟨rfl | h, hne⟩)
          · exact Or.inr (Or.inl rfl)
          · exact Or.inl rfl
          · exact Or.inr (Or.inr ⟨h, hne⟩)

theorem find?_insert (map : SortedMap κ ν) (key : κ) (value : ν) (other : κ) :
    (map.insert key value).find? other = if other = key then some value else map.find? other := by
  rw [Option.ext_iff]
  intro found
  rw [find?_eq_some_iff, insert, mem_insertEntry map.sorted]
  split_ifs with h
  · subst h
    simp [eq_comm]
  · simp [h, find?_eq_some_iff]

@[simp] theorem find?_insert_self (map : SortedMap κ ν) (key : κ) (value : ν) :
    (map.insert key value).find? key = some value := by
  rw [find?_insert, if_pos rfl]

theorem find?_filter (map : SortedMap κ ν) (kept : κ → ν → Bool) (key : κ) :
    (map.filter kept).find? key = (map.find? key).filter (kept key) := by
  rw [Option.ext_iff]
  intro found
  rw [find?_eq_some_iff, filter, List.mem_filter, ← find?_eq_some_iff]
  cases h : map.find? key with
  | none => simp
  | some value =>
      rw [Option.filter_some]
      constructor
      · rintro ⟨hfound, hkept⟩
        obtain rfl := Option.some.inj hfound
        rw [if_pos hkept]
      · intro hfound
        split_ifs at hfound with hkept
        obtain rfl := Option.some.inj hfound
        exact ⟨rfl, hkept⟩

theorem find?_erase (map : SortedMap κ ν) (key other : κ) :
    (map.erase key).find? other = if other = key then none else map.find? other := by
  rw [erase, find?_filter]
  split_ifs with h
  · rw [h]
    cases map.find? key <;> simp
  · cases map.find? other <;> simp [h]

theorem nodup_entries (map : SortedMap κ ν) : map.entries.Nodup :=
  map.sorted.imp fun h heq ↦ (heq ▸ h).false

/-- An entry in front of the others. -/
theorem entries_perm_cons_erase {map : SortedMap κ ν} {key : κ} {value : ν}
    (h : map.find? key = some value) :
    map.entries.Perm ((key, value) :: (map.erase key).entries) := by
  have hmem : ∀ entry, entry ∈ (map.erase key).entries ↔ entry ∈ map.entries ∧ entry.1 ≠ key := by
    simp [erase, filter]
  refine (List.perm_ext_iff_of_nodup map.nodup_entries (List.nodup_cons.mpr
    ⟨fun h ↦ ((hmem _).mp h).2 rfl, nodup_entries _⟩)).mpr fun entry ↦ ?_
  rw [List.mem_cons, hmem]
  constructor
  · intro hentry
    by_cases hkey : entry.1 = key
    · have hvalue := find?_of_mem hentry
      rw [hkey, h] at hvalue
      exact Or.inl (Prod.ext hkey (Option.some.inj hvalue).symm)
    · exact Or.inr ⟨hentry, hkey⟩
  · rintro (rfl | hentry)
    · exact mem_of_find? h
    · exact hentry.1

theorem entries_insert_perm (map : SortedMap κ ν) (key : κ) (value : ν) :
    (map.insert key value).entries.Perm ((key, value) :: (map.erase key).entries) := by
  have herase : (map.insert key value).erase key = map.erase key := by
    refine ext fun other ↦ ?_
    rw [find?_erase, find?_erase, find?_insert]
    split_ifs <;> rfl
  rw [← herase]
  exact entries_perm_cons_erase (find?_insert_self map key value)

theorem find?_mapValues (f : κ → ν → μ) (map : SortedMap κ ν) (key : κ) :
    (map.mapValues f).find? key = (map.find? key).map (f key) := by
  rw [Option.ext_iff]
  intro found
  rw [find?_eq_some_iff, mapValues, List.mem_map, Option.map_eq_some_iff]
  constructor
  · rintro ⟨entry, hentry, heq⟩
    obtain ⟨rfl, rfl⟩ := Prod.mk.inj heq
    exact ⟨entry.2, find?_of_mem hentry, rfl⟩
  · rintro ⟨value, hvalue, rfl⟩
    exact ⟨(key, value), mem_of_find? hvalue, rfl⟩

theorem find?_filterMapValues (f : κ → ν → Option μ) (map : SortedMap κ ν) (key : κ) :
    (map.filterMapValues f).find? key = (map.find? key).bind (f key) := by
  rw [Option.ext_iff]
  intro found
  rw [find?_eq_some_iff, filterMapValues, List.mem_filterMap, Option.bind_eq_some_iff]
  constructor
  · rintro ⟨entry, hentry, heq⟩
    obtain ⟨value, hvalue, heq⟩ := Option.map_eq_some_iff.mp heq
    obtain ⟨rfl, rfl⟩ := Prod.mk.inj heq
    exact ⟨entry.2, find?_of_mem hentry, hvalue⟩
  · rintro ⟨value, hvalue, hfound⟩
    exact ⟨(key, value), mem_of_find? hvalue, by rw [hfound, Option.map_some]⟩

/-- Entering the entries of a map one by one, the later ones last. -/
theorem find?_foldl_insert (entries : List (κ × ν)) (hsorted : entries.Pairwise fun e f ↦ e.1 < f.1)
    (start : SortedMap κ ν) (key : κ) :
    (entries.foldl (fun map entry ↦ map.insert entry.1 entry.2) start).find? key =
      (entries.lookup key).or (start.find? key) := by
  induction entries generalizing start with
  | nil => rfl
  | cons entry entries ih =>
      obtain ⟨hentry, hrest⟩ := List.pairwise_cons.mp hsorted
      rw [List.foldl_cons, ih hrest, find?_insert, List.lookup_cons]
      by_cases hkey : key = entry.1
      · have hnone : entries.lookup key = none := by
          rw [List.lookup_eq_none_iff]
          intro other hother
          simpa [hkey] using (hentry other hother).ne
        rw [hnone, if_pos hkey, hkey, beq_self_eq_true]
        rfl
      · rw [if_neg hkey, beq_false_of_ne hkey]

theorem foldl_insert_entries (map : SortedMap κ ν) :
    map.entries.foldl (fun map entry ↦ map.insert entry.1 entry.2) ∅ = map := by
  refine ext fun key ↦ ?_
  rw [find?_foldl_insert _ map.sorted, find?_empty, Option.or_none]
  rfl

theorem keys_mapAccum (step : σ → κ → ν → σ × μ) (state : σ) (map : SortedMap κ ν) :
    (map.mapAccum step state).keys = map.keys :=
  map_fst_mapAccumEntries step state map.entries

/-- What the steps of a loop leave alone can be looked up as before. -/
theorem map_find?_mapAccum {τ : Type*} {step : σ → κ → ν → σ × μ} (view : ν → τ) (view' : μ → τ)
    (hview : ∀ state key value, view' (step state key value).2 = view value) (state : σ)
    (map : SortedMap κ ν) (key : κ) :
    ((map.mapAccum step state).find? key).map view' = (map.find? key).map view := by
  obtain ⟨entries, hsorted⟩ := map
  simp only [find?, mapAccum]
  clear hsorted
  induction entries generalizing state with
  | nil => rfl
  | cons entry rest ih =>
      rw [mapAccumEntries, List.lookup_cons, List.lookup_cons]
      split
      · rw [Option.map_some, Option.map_some, hview]
      · exact ih _

theorem keys_sorted (map : SortedMap κ ν) : map.keys.Pairwise (· < ·) :=
  List.pairwise_map.mpr map.sorted

end SortedMap

end BoltStream.Lib
