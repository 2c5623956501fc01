import BoltStream.Storage.Entry

/-!
# Segment layouts

A layout is the abstract content of a partition: its segments in base-offset
order, each with the entries written to it.  `WellPlaced` is the order that the
appends keep; placing an entry in a segment behind which nothing is stored
keeps it.  Segments without entries may be left behind by a crash.
-/

namespace BoltStream.Storage

open BoltStream.Lib BoltStream.Protocol BoltStream.Compression

structure Segment where
  base : ℕ
  entries : List Entry
  deriving DecidableEq, Repr

namespace Segment

def content (s : Segment) : Bytes := s.entries.flatMap Entry.bytes

def file (s : Segment) : ℕ × Bytes := (s.base, s.content)

def index (s : Segment) : List IndexEntry := Entry.indexFrom s.base 0 s.entries

@[simp] theorem file_fst (s : Segment) : s.file.1 = s.base := rfl

end Segment

abbrev Layout := List Segment

namespace Layout

def files (layout : Layout) : FileTable := layout.map Segment.file

def entries (layout : Layout) : List Entry := layout.flatMap Segment.entries

def index (layout : Layout) : List IndexEntry := layout.flatMap Segment.index

def records (layout : Layout) : List StoredRecord := layout.entries.flatMap Entry.records

/-- Put an entry at the end of the segment named `base`, creating the segment
if it is missing. -/
def place (layout : Layout) (base : ℕ) (e : Entry) : Layout :=
  match layout with
  | [] => [⟨base, [e]⟩]
  | s :: rest =>
      if base < s.base then ⟨base, [e]⟩ :: s :: rest
      else if base = s.base then ⟨s.base, s.entries ++ [e]⟩ :: rest
      else s :: place rest base e

/-- Create the segment named `base` if it is missing. -/
def touch (layout : Layout) (base : ℕ) : Layout :=
  match layout with
  | [] => [⟨base, []⟩]
  | s :: rest =>
      if base < s.base then ⟨base, []⟩ :: s :: rest
      else if base = s.base then s :: rest
      else s :: touch rest base

/-- The order kept by appends: segments by base offset, entries by offset, every
segment named by its first entry, and `next` one past the last entry. -/
structure WellPlaced (layout : Layout) (next : ℕ) : Prop where
  bases : layout.Pairwise fun s t ↦ s.base < t.base
  chain : layout.entries.Pairwise fun e f ↦ e.stop ≤ f.first
  named : ∀ s ∈ layout, ∀ e ∈ s.entries.head?, e.first = s.base
  stop_le : ∀ e ∈ layout.entries, e.stop ≤ next
  last : ∀ e ∈ layout.entries.getLast?, e.stop = next
  start : layout.entries = [] → next = 0

/-- A segment an append may write to: nothing is stored behind it, and it is
named by its first entry. -/
structure Placeable (layout : Layout) (next base : ℕ) : Prop where
  behind : ∀ s ∈ layout, base < s.base → s.entries = []
  named : (∀ s ∈ layout, s.base = base → s.entries = []) → base = next

theorem entries_cons (s : Segment) (layout : Layout) :
    entries (s :: layout) = s.entries ++ entries layout := List.flatMap_cons

theorem index_cons (s : Segment) (layout : Layout) :
    index (s :: layout) = s.index ++ index layout := List.flatMap_cons

theorem files_cons (s : Segment) (layout : Layout) :
    files (s :: layout) = s.file :: files layout := rfl

theorem mem_entries {layout : Layout} {e : Entry} :
    e ∈ layout.entries ↔ ∃ s ∈ layout, e ∈ s.entries := List.mem_flatMap

theorem index_of_entries_nil {layout : Layout} (h : ∀ s ∈ layout, s.entries = []) :
    layout.index = [] := by
  rw [index, List.flatMap_eq_nil_iff]
  intro s hs
  rw [Segment.index, h s hs]
  rfl

theorem entries_eq_nil {layout : Layout} (h : ∀ s ∈ layout, s.entries = []) :
    layout.entries = [] := List.flatMap_eq_nil_iff.mpr h

theorem entries_append (layout layout' : Layout) :
    entries (layout ++ layout') = layout.entries ++ layout'.entries := List.flatMap_append

theorem entries_append_nil (layout : Layout) {after : Layout} (h : entries after = []) :
    entries (layout ++ after) = layout.entries := by
  rw [entries_append, h, List.append_nil]

theorem files_sorted {layout : Layout} (h : layout.Pairwise fun s t ↦ s.base < t.base) :
    layout.files.Sorted := List.pairwise_map.mpr h

/-! ## Placing an entry -/

theorem content_snoc (es : List Entry) (e : Entry) :
    (es ++ [e]).flatMap Entry.bytes = es.flatMap Entry.bytes ++ e.bytes := by
  simp

theorem files_place (layout : Layout) (base : ℕ) (e : Entry) :
    (layout.place base e).files = layout.files.append base e.bytes := by
  induction layout with
  | nil => simp [place, files, FileTable.append, Segment.file, Segment.content]
  | cons s layout ih =>
      rw [files_cons, FileTable.append, place]
      by_cases hlt : base < s.base
      · rw [if_pos hlt, if_pos (by simpa using hlt)]
        simp [files, Segment.file, Segment.content]
      · by_cases heq : base = s.base
        · rw [if_neg hlt, if_pos heq, if_neg (by simpa using hlt), if_pos (by simpa using heq)]
          simp [files, Segment.file, Segment.content]
        · rw [if_neg hlt, if_neg heq, if_neg (by simpa using hlt), if_neg (by simpa using heq),
            files_cons, ih]

theorem files_touch (layout : Layout) (base : ℕ) :
    (layout.touch base).files = layout.files.append base [] := by
  induction layout with
  | nil => simp [touch, files, FileTable.append, Segment.file, Segment.content]
  | cons s layout ih =>
      rw [files_cons, FileTable.append, touch]
      by_cases hlt : base < s.base
      · rw [if_pos hlt, if_pos (by simpa using hlt)]
        simp [files, Segment.file, Segment.content]
      · by_cases heq : base = s.base
        · rw [if_neg hlt, if_pos heq, if_neg (by simpa using hlt), if_pos (by simpa using heq)]
          simp [files, Segment.file]
        · rw [if_neg hlt, if_neg heq, if_neg (by simpa using hlt), if_neg (by simpa using heq),
            files_cons, ih]

theorem indexFrom_append (segment : ℕ) (es fs : List Entry) :
    ∀ position, Entry.indexFrom segment position (es ++ fs) =
      Entry.indexFrom segment position es ++
        Entry.indexFrom segment (position + (es.flatMap Entry.bytes).length) fs := by
  induction es with
  | nil => simp [Entry.indexFrom]
  | cons e es ih =>
      intro position
      simp [Entry.indexFrom, ih, Nat.add_assoc]

theorem indexFrom_snoc (segment position : ℕ) (es : List Entry) (e : Entry) :
    Entry.indexFrom segment position (es ++ [e]) =
      Entry.indexFrom segment position es ++
        e.indexEntries segment (position + (es.flatMap Entry.bytes).length) := by
  rw [indexFrom_append, Entry.indexFrom, Entry.indexFrom, List.append_nil]

/-- Placing an entry where nothing is stored behind it adds it at the end. -/
theorem entries_place {layout : Layout} (hbases : layout.Pairwise fun s t ↦ s.base < t.base)
    {base : ℕ} (hbehind : ∀ s ∈ layout, base < s.base → s.entries = []) (e : Entry) :
    (layout.place base e).entries = layout.entries ++ [e] := by
  induction layout with
  | nil => rfl
  | cons s layout ih =>
      obtain ⟨hs, hrest⟩ := List.pairwise_cons.mp hbases
      rw [place]
      by_cases hlt : base < s.base
      · have hnil : entries (s :: layout) = [] := entries_eq_nil fun t ht ↦ by
          rcases List.mem_cons.mp ht with rfl | ht'
          · exact hbehind _ ht hlt
          · exact hbehind _ ht (hlt.trans (hs t ht'))
        rw [if_pos hlt, entries_cons, hnil]
        rfl
      · by_cases heq : base = s.base
        · have hnil : entries layout = [] := entries_eq_nil fun t ht ↦
            hbehind t (List.mem_cons_of_mem s ht) (heq ▸ hs t ht)
          rw [if_neg hlt, if_pos heq, entries_cons, entries_cons, hnil]
          simp
        · rw [if_neg hlt, if_neg heq, entries_cons, entries_cons, ih hrest fun t ht ↦
            hbehind t (List.mem_cons_of_mem s ht), List.append_assoc]

theorem index_place {layout : Layout} (hbases : layout.Pairwise fun s t ↦ s.base < t.base)
    {base : ℕ} (hbehind : ∀ s ∈ layout, base < s.base → s.entries = []) (e : Entry) :
    (layout.place base e).index =
      layout.index ++ e.indexEntries base (layout.files.sizeOrZero base) := by
  induction layout with
  | nil => simp [place, index, Segment.index, Entry.indexFrom, files, FileTable.sizeOrZero,
      FileTable.content?]
  | cons s layout ih =>
      obtain ⟨hs, hrest⟩ := List.pairwise_cons.mp hbases
      rw [place]
      by_cases hlt : base < s.base
      · have hempty : ∀ t ∈ s :: layout, t.entries = [] := fun t ht ↦ by
          rcases List.mem_cons.mp ht with rfl | ht'
          · exact hbehind _ ht hlt
          · exact hbehind _ ht (hlt.trans (hs t ht'))
        have hmissing : FileTable.content? (files (s :: layout)) base = none := by
          apply FileTable.content?_eq_none
          intro f hf
          obtain ⟨t, ht, rfl⟩ := List.mem_map.mp hf
          rcases List.mem_cons.mp ht with rfl | ht'
          · exact hlt.ne'
          · exact (hlt.trans (hs t ht')).ne'
        rw [if_pos hlt, index_cons, index_of_entries_nil hempty, FileTable.sizeOrZero, hmissing]
        simp [Segment.index, Entry.indexFrom]
      · by_cases heq : base = s.base
        · have hempty : ∀ t ∈ layout, t.entries = [] := fun t ht ↦
            hbehind t (List.mem_cons_of_mem s ht) (heq ▸ hs t ht)
          have hsize : FileTable.sizeOrZero (files (s :: layout)) base = s.content.length := by
            rw [FileTable.sizeOrZero, files_cons, heq, FileTable.content?]
            simp [Segment.file]
          rw [if_neg hlt, if_pos heq, index_cons, index_cons, index_of_entries_nil hempty, hsize,
            heq]
          simp only [Segment.index, indexFrom_snoc, List.append_nil, Nat.zero_add,
            Segment.content]
        · have hsize : FileTable.sizeOrZero (files (s :: layout)) base =
              FileTable.sizeOrZero (files layout) base := by
            rw [FileTable.sizeOrZero, files_cons, FileTable.content?_cons_ne heq]
            rfl
          rw [if_neg hlt, if_neg heq, index_cons, index_cons, hsize, ih hrest fun t ht ↦
            hbehind t (List.mem_cons_of_mem s ht), List.append_assoc]

theorem eq_of_base_eq {layout : Layout} (hbases : layout.Pairwise fun s t ↦ s.base < t.base)
    {s t : Segment} (hs : s ∈ layout) (ht : t ∈ layout) (h : s.base = t.base) : s = t := by
  have hsorted : (layout.map Segment.base).Pairwise (· < ·) := List.pairwise_map.mpr hbases
  exact List.inj_on_of_nodup_map hsorted.nodup hs ht h

/-- A segment after placing an entry is an old one, or the one the entry is now
last in. -/
theorem mem_place {layout : Layout} (hbases : layout.Pairwise fun s t ↦ s.base < t.base)
    {base : ℕ} {e : Entry} {s : Segment} (h : s ∈ layout.place base e) :
    (s ∈ layout ∧ s.base ≠ base) ∨
      ∃ es, s = ⟨base, es ++ [e]⟩ ∧
        (es = [] ∧ (∀ t ∈ layout, t.base ≠ base) ∨ ⟨base, es⟩ ∈ layout) := by
  induction layout with
  | nil =>
      rw [place, List.mem_singleton] at h
      exact Or.inr ⟨[], h, Or.inl ⟨rfl, fun t ht ↦ absurd ht List.not_mem_nil⟩⟩
  | cons t layout ih =>
      obtain ⟨ht, hrest⟩ := List.pairwise_cons.mp hbases
      rw [place] at h
      by_cases hlt : base < t.base
      · have hmissing : ∀ u ∈ t :: layout, u.base ≠ base := fun u hu ↦ by
          rcases List.mem_cons.mp hu with rfl | hu
          · exact hlt.ne'
          · exact (hlt.trans (ht u hu)).ne'
        rw [if_pos hlt, List.mem_cons] at h
        rcases h with rfl | h
        · exact Or.inr ⟨[], rfl, Or.inl ⟨rfl, hmissing⟩⟩
        · exact Or.inl ⟨h, hmissing s h⟩
      · by_cases heq : base = t.base
        · rw [if_neg hlt, if_pos heq, List.mem_cons] at h
          rcases h with rfl | h
          · exact Or.inr ⟨t.entries, by rw [heq], Or.inr (by rw [heq]; exact List.mem_cons_self)⟩
          · exact Or.inl ⟨List.mem_cons_of_mem t h, heq ▸ (ht s h).ne'⟩
        · rw [if_neg hlt, if_neg heq, List.mem_cons] at h
          rcases h with rfl | h
          · exact Or.inl ⟨List.mem_cons_self, fun h ↦ heq h.symm⟩
          · rcases ih hrest h with ⟨hmem, hne⟩ | ⟨es, hs, ⟨hes, hmissing⟩ | hes⟩
            · exact Or.inl ⟨List.mem_cons_of_mem t hmem, hne⟩
            · refine Or.inr ⟨es, hs, Or.inl ⟨hes, fun u hu ↦ ?_⟩⟩
              rcases List.mem_cons.mp hu with rfl | hu
              · exact fun h ↦ heq h.symm
              · exact hmissing u hu
            · exact Or.inr ⟨es, hs, Or.inr (List.mem_cons_of_mem t hes)⟩

theorem exists_mem_place (layout : Layout) (base : ℕ) (e : Entry) :
    ∃ es, ⟨base, es ++ [e]⟩ ∈ layout.place base e := by
  induction layout with
  | nil => exact ⟨[], List.mem_singleton.mpr rfl⟩
  | cons t layout ih =>
      rw [place]
      by_cases hlt : base < t.base
      · exact ⟨[], by rw [if_pos hlt]; exact List.mem_cons_self⟩
      · by_cases heq : base = t.base
        · refine ⟨t.entries, ?_⟩
          rw [if_neg hlt, if_pos heq, heq]
          exact List.mem_cons_self
        · obtain ⟨es, hes⟩ := ih
          refine ⟨es, ?_⟩
          rw [if_neg hlt, if_neg heq]
          exact List.mem_cons_of_mem t hes

theorem bases_place {layout : Layout} (hbases : layout.Pairwise fun s t ↦ s.base < t.base)
    (base : ℕ) (e : Entry) :
    (layout.place base e).Pairwise fun s t ↦ s.base < t.base := by
  induction layout with
  | nil => exact List.pairwise_singleton _ _
  | cons s layout ih =>
      obtain ⟨hs, hrest⟩ := List.pairwise_cons.mp hbases
      rw [place]
      by_cases hlt : base < s.base
      · rw [if_pos hlt]
        refine List.pairwise_cons.mpr ⟨fun t ht ↦ ?_, hbases⟩
        rcases List.mem_cons.mp ht with rfl | ht
        · exact hlt
        · exact hlt.trans (hs t ht)
      · by_cases heq : base = s.base
        · rw [if_neg hlt, if_pos heq]
          exact List.pairwise_cons.mpr ⟨hs, hrest⟩
        · rw [if_neg hlt, if_neg heq]
          refine List.pairwise_cons.mpr ⟨fun t ht ↦ ?_, ih hrest⟩
          rcases mem_place hrest ht with ⟨ht, -⟩ | ⟨es, rfl, -⟩
          · exact hs t ht
          · exact lt_of_le_of_ne (Nat.le_of_not_lt hlt) (Ne.symm heq)

section Placing

variable {layout : Layout} {next base : ℕ} {e : Entry}

/-- Placing the next entry keeps the order. -/
theorem WellPlaced.place (h : layout.WellPlaced next) (hplace : layout.Placeable next base)
    (hfirst : e.first = next) : (layout.place base e).WellPlaced e.stop := by
  have hle : next ≤ e.stop := hfirst ▸ Nat.le_add_right e.first e.count
  have hentries := entries_place h.bases hplace.behind e
  refine ⟨bases_place h.bases base e, ?_, ?_, ?_, ?_, ?_⟩
  · rw [hentries, List.pairwise_append]
    refine ⟨h.chain, List.pairwise_singleton _ _, fun f hf g hg ↦ ?_⟩
    rw [List.mem_singleton.mp hg, hfirst]
    exact h.stop_le f hf
  · intro s hs f hf
    rcases mem_place h.bases hs with ⟨hs, -⟩ | ⟨es, rfl, hes⟩
    · exact h.named s hs f hf
    · cases es with
      | nil =>
          have hbase : base = next := hplace.named fun s hs hsb ↦ by
            rcases hes with ⟨-, hmissing⟩ | hmem
            · exact absurd hsb (hmissing s hs)
            · rw [eq_of_base_eq h.bases hs hmem hsb]
          have hf : e = f := by simpa using hf
          rw [← hf, hfirst, hbase]
      | cons g es =>
          rcases hes with ⟨hnil, -⟩ | hmem
          · cases hnil
          · exact h.named _ hmem f hf
  · intro f hf
    rw [hentries, List.mem_append, List.mem_singleton] at hf
    rcases hf with hf | rfl
    · exact (h.stop_le f hf).trans hle
    · exact le_rfl
  · intro f hf
    rw [hentries, List.getLast?_concat, Option.mem_some_iff] at hf
    rw [hf]
  · intro hnil
    rw [hentries] at hnil
    simp at hnil

/-- The segment just written to can be written to again. -/
theorem Placeable.place (h : layout.WellPlaced next) (hplace : layout.Placeable next base) :
    (layout.place base e).Placeable e.stop base := by
  refine ⟨fun s hs hlt ↦ ?_, fun hempty ↦ ?_⟩
  · rcases mem_place h.bases hs with ⟨hs, -⟩ | ⟨es, rfl, -⟩
    · exact hplace.behind s hs hlt
    · exact absurd hlt (lt_irrefl _)
  · obtain ⟨es, hes⟩ := exists_mem_place layout base e
    simpa using hempty _ hes rfl

/-- A segment with entries is named by an offset below the next one. -/
theorem WellPlaced.base_lt (h : layout.WellPlaced next)
    (hcount : ∀ e ∈ layout.entries, 0 < e.count) {s : Segment} (hs : s ∈ layout)
    (hstored : s.entries ≠ []) : s.base < next := by
  obtain ⟨f, es, hes⟩ := List.exists_cons_of_ne_nil hstored
  have hmem : f ∈ layout.entries := mem_entries.mpr ⟨s, hs, hes ▸ List.mem_cons_self⟩
  have hfirst : f.first = s.base := h.named s hs f (by rw [hes]; rfl)
  have hstop : f.first + f.count ≤ next := h.stop_le f hmem
  have hpos := hcount f hmem
  omega

/-- A segment named by the next offset or a later one holds nothing. -/
theorem WellPlaced.entries_of_le_base (h : layout.WellPlaced next)
    (hcount : ∀ e ∈ layout.entries, 0 < e.count) {s : Segment} (hs : s ∈ layout)
    (hbase : next ≤ s.base) : s.entries = [] := by
  by_contra hstored
  exact absurd (h.base_lt hcount hs hstored) (Nat.not_lt.mpr hbase)

/-- A new segment can be started at the next offset. -/
theorem WellPlaced.placeable_next (h : layout.WellPlaced next)
    (hcount : ∀ e ∈ layout.entries, 0 < e.count) : layout.Placeable next next :=
  ⟨fun _ hs hlt ↦ h.entries_of_le_base hcount hs hlt.le, fun _ ↦ rfl⟩

end Placing

/-! ## Creating and removing segments -/

theorem mem_touch {layout : Layout} {base : ℕ} {s : Segment} (h : s ∈ layout.touch base) :
    s ∈ layout ∨ s = ⟨base, []⟩ := by
  induction layout with
  | nil => exact Or.inr (List.mem_singleton.mp h)
  | cons t layout ih =>
      rw [touch] at h
      split_ifs at h with hlt heq
      · exact (List.mem_cons.mp h).symm
      · exact Or.inl h
      · rcases List.mem_cons.mp h with rfl | h
        · exact Or.inl List.mem_cons_self
        · exact (ih h).imp_left (List.mem_cons_of_mem t)

theorem mem_touch_of_mem {layout : Layout} (base : ℕ) {s : Segment} (h : s ∈ layout) :
    s ∈ layout.touch base := by
  induction layout with
  | nil => cases h
  | cons t layout ih =>
      rw [touch]
      split_ifs with hlt heq
      · exact List.mem_cons_of_mem _ h
      · exact h
      · rcases List.mem_cons.mp h with rfl | h
        · exact List.mem_cons_self
        · exact List.mem_cons_of_mem t (ih h)

theorem exists_mem_touch (layout : Layout) (base : ℕ) :
    ∃ s ∈ layout.touch base, s.base = base := by
  induction layout with
  | nil => exact ⟨⟨base, []⟩, List.mem_singleton.mpr rfl, rfl⟩
  | cons t layout ih =>
      rw [touch]
      split_ifs with hlt heq
      · exact ⟨⟨base, []⟩, List.mem_cons_self, rfl⟩
      · exact ⟨t, List.mem_cons_self, heq.symm⟩
      · obtain ⟨s, hs, hbase⟩ := ih
        exact ⟨s, List.mem_cons_of_mem t hs, hbase⟩

theorem bases_touch {layout : Layout} (hbases : layout.Pairwise fun s t ↦ s.base < t.base)
    (base : ℕ) : (layout.touch base).Pairwise fun s t ↦ s.base < t.base := by
  induction layout with
  | nil => exact List.pairwise_singleton _ _
  | cons s layout ih =>
      obtain ⟨hs, hrest⟩ := List.pairwise_cons.mp hbases
      rw [touch]
      split_ifs with hlt heq
      · refine List.pairwise_cons.mpr ⟨fun t ht ↦ ?_, hbases⟩
        rcases List.mem_cons.mp ht with rfl | ht
        · exact hlt
        · exact hlt.trans (hs t ht)
      · exact hbases
      · refine List.pairwise_cons.mpr ⟨fun t ht ↦ ?_, ih hrest⟩
        rcases mem_touch ht with ht | rfl
        · exact hs t ht
        · exact lt_of_le_of_ne (Nat.le_of_not_lt hlt) (Ne.symm heq)

theorem touch_of_mem {layout : Layout} (hbases : layout.Pairwise fun s t ↦ s.base < t.base)
    {s : Segment} (hs : s ∈ layout) : layout.touch s.base = layout := by
  induction layout with
  | nil => exact absurd hs List.not_mem_nil
  | cons t layout ih =>
      obtain ⟨ht, hrest⟩ := List.pairwise_cons.mp hbases
      rw [touch]
      rcases List.mem_cons.mp hs with rfl | hs
      · rw [if_neg (lt_irrefl _), if_pos rfl]
      · have hlt := ht s hs
        rw [if_neg (by omega), if_neg (by omega), ih hrest hs]

theorem entries_touch (layout : Layout) (base : ℕ) :
    (layout.touch base).entries = layout.entries := by
  induction layout with
  | nil => rfl
  | cons s layout ih =>
      rw [touch]
      split_ifs with hlt heq
      · rfl
      · rfl
      · rw [entries_cons, entries_cons, ih]

theorem index_touch (layout : Layout) (base : ℕ) :
    (layout.touch base).index = layout.index := by
  induction layout with
  | nil => rfl
  | cons s layout ih =>
      rw [touch]
      split_ifs with hlt heq
      · rfl
      · rfl
      · rw [index_cons, index_cons, ih]

theorem WellPlaced.touch {layout : Layout} {next : ℕ} (h : layout.WellPlaced next) (base : ℕ) :
    (layout.touch base).WellPlaced next := by
  have hentries := entries_touch layout base
  refine ⟨bases_touch h.bases base, ?_, fun s hs e he ↦ ?_, ?_, ?_, ?_⟩
  · exact hentries ▸ h.chain
  · rcases mem_touch hs with hs | rfl
    · exact h.named s hs e he
    · cases he
  · exact hentries ▸ h.stop_le
  · exact hentries ▸ h.last
  · exact hentries ▸ h.start

/-- Segments without entries can be dropped from the end. -/
theorem WellPlaced.of_append_nil {layout after : Layout} {next : ℕ}
    (h : WellPlaced (layout ++ after) next) (hafter : entries after = []) :
    layout.WellPlaced next := by
  have hentries := entries_append_nil layout hafter
  refine ⟨(List.pairwise_append.mp h.bases).1, hentries ▸ h.chain,
    fun s hs ↦ h.named s (List.mem_append_left _ hs), hentries ▸ h.stop_le, hentries ▸ h.last,
    hentries ▸ h.start⟩

/-- Cutting a layout inside a segment keeps the order. -/
theorem WellPlaced.cut {before after : Layout} {base next : ℕ} {es rest : List Entry}
    (h : WellPlaced (before ++ ⟨base, es ++ rest⟩ :: after) next) :
    ∃ next' ≤ next, WellPlaced (before ++ [⟨base, es⟩]) next' := by
  have hkept : entries (before ++ [⟨base, es⟩]) = entries before ++ es := by
    simp [entries]
  have hfrontEntries : entries (before ++ [⟨base, es⟩]) <+:
      entries (before ++ ⟨base, es ++ rest⟩ :: after) := by
    refine ⟨rest ++ entries after, ?_⟩
    rw [hkept, entries_append, entries_cons]
    simp
  have hchain := h.chain.sublist hfrontEntries.sublist
  have hbases := List.pairwise_append.mp h.bases
  have hbases' : (before ++ [(⟨base, es⟩ : Segment)]).Pairwise fun s t ↦ s.base < t.base :=
    List.pairwise_append.mpr ⟨hbases.1, List.pairwise_singleton _ _, fun s hs t ht ↦ by
      rw [List.mem_singleton.mp ht]
      exact hbases.2.2 s hs ⟨base, es ++ rest⟩ List.mem_cons_self⟩
  have hnamed : ∀ s ∈ before ++ [(⟨base, es⟩ : Segment)], ∀ e ∈ s.entries.head?,
      e.first = s.base := fun s hs e he ↦ by
    rcases List.mem_append.mp hs with hs | hs
    · exact h.named s (List.mem_append_left _ hs) e he
    · rw [List.mem_singleton.mp hs] at he ⊢
      refine h.named ⟨base, es ++ rest⟩ (by simp) e ?_
      rw [List.head?_append]
      simp only [Option.mem_def] at he
      rw [he]
      rfl
  rcases List.eq_nil_or_concat (entries (before ++ [⟨base, es⟩])) with hnil | ⟨fs, f, hfs⟩
  · exact ⟨0, Nat.zero_le _, hbases', hchain, hnamed, by simp [hnil], by simp [hnil], fun _ ↦ rfl⟩
  · rw [List.concat_eq_append] at hfs
    have hmem : f ∈ entries (before ++ ⟨base, es ++ rest⟩ :: after) :=
      hfrontEntries.subset (by rw [hfs]; simp)
    refine ⟨f.stop, h.stop_le f hmem, hbases', hchain, hnamed, fun e he ↦ ?_, by simp [hfs],
      by simp [hfs]⟩
    rw [hfs] at hchain he
    rcases List.mem_append.mp he with he | he
    · have hle := (List.pairwise_append.mp hchain).2.2 e he f (List.mem_singleton.mpr rfl)
      exact hle.trans (Nat.le_add_right _ _)
    · rw [List.mem_singleton.mp he]

/-- The last segment with entries. -/
structure LastStored (layout : Layout) (s : Segment) : Prop where
  mem : s ∈ layout
  stored : s.entries ≠ []
  behind : ∀ t ∈ layout, s.base < t.base → t.entries = []

theorem exists_lastStored {layout : Layout}
    (hbases : layout.Pairwise fun s t ↦ s.base < t.base) (hne : layout.entries ≠ []) :
    ∃ s, layout.LastStored s := by
  induction layout with
  | nil => exact absurd rfl hne
  | cons s layout ih =>
      obtain ⟨hs, hrest⟩ := List.pairwise_cons.mp hbases
      by_cases hnil : entries layout = []
      · refine ⟨s, List.mem_cons_self, ?_, fun t ht hlt ↦ ?_⟩
        · simpa [entries_cons, hnil] using hne
        · rcases List.mem_cons.mp ht with rfl | ht
          · exact absurd hlt (lt_irrefl _)
          · exact List.flatMap_eq_nil_iff.mp hnil t ht
      · obtain ⟨u, hu, hstored, hbehind⟩ := ih hrest hnil
        refine ⟨u, List.mem_cons_of_mem s hu, hstored, fun t ht hlt ↦ ?_⟩
        rcases List.mem_cons.mp ht with rfl | ht
        · exact absurd (hs u hu) (Nat.not_lt.mpr hlt.le)
        · exact hbehind t ht hlt

/-- The entries end with those of the last segment that has any. -/
theorem LastStored.entries_eq {layout : Layout}
    (hbases : layout.Pairwise fun s t ↦ s.base < t.base) {s : Segment}
    (h : layout.LastStored s) : ∃ before, layout.entries = before ++ s.entries := by
  obtain ⟨before, after, rfl⟩ := List.append_of_mem h.mem
  have hafter : entries after = [] := entries_eq_nil fun t ht ↦
    h.behind t (by simp [ht])
      ((List.pairwise_cons.mp (List.pairwise_append.mp hbases).2.1).1 t ht)
  refine ⟨entries before, ?_⟩
  rw [entries_append, entries_cons, hafter, List.append_nil]

theorem LastStored.filter {layout : Layout} {s : Segment} (h : layout.LastStored s)
    {kept : Segment → Bool} (hkept : kept s = true) : LastStored (layout.filter kept) s :=
  ⟨List.mem_filter.mpr ⟨h.mem, hkept⟩, h.stored, fun t ht ↦ h.behind t (List.mem_filter.mp ht).1⟩

/-- Removing segments other than the last one with entries keeps the order. -/
theorem WellPlaced.filter {layout : Layout} {next : ℕ} (h : layout.WellPlaced next)
    {kept : Segment → Bool} (hkept : ∀ s, layout.LastStored s → kept s = true) :
    WellPlaced (layout.filter kept) next := by
  have hsub : (entries (layout.filter kept)).Sublist layout.entries :=
    List.filter_sublist.flatMap _
  have hbases : (layout.filter kept).Pairwise fun s t ↦ s.base < t.base :=
    h.bases.sublist List.filter_sublist
  refine ⟨hbases, h.chain.sublist hsub, fun s hs ↦ h.named s (List.mem_filter.mp hs).1,
    fun e he ↦ h.stop_le e (hsub.subset he),
    fun e he ↦ ?_, fun hnil ↦ ?_⟩
  · have hne : layout.entries ≠ [] :=
      List.ne_nil_of_mem (hsub.subset (List.mem_of_mem_getLast? he))
    obtain ⟨s, hs⟩ := exists_lastStored h.bases hne
    obtain ⟨before, hbefore⟩ := hs.entries_eq h.bases
    obtain ⟨before', hbefore'⟩ := (hs.filter (hkept s hs)).entries_eq hbases
    rw [hbefore', List.getLast?_append_of_ne_nil _ hs.stored] at he
    exact h.last e (by rw [hbefore, List.getLast?_append_of_ne_nil _ hs.stored]; exact he)
  · apply h.start
    by_contra hne
    obtain ⟨s, hs⟩ := exists_lastStored h.bases hne
    obtain ⟨before, hbefore⟩ := (hs.filter (hkept s hs)).entries_eq hbases
    rw [hnil] at hbefore
    exact hs.stored (List.append_eq_nil_iff.mp hbefore.symm).2

/-! ## The index -/

theorem segment_of_mem_indexFrom {segment : ℕ} {entry : IndexEntry} :
    ∀ {position : ℕ} {es : List Entry}, entry ∈ Entry.indexFrom segment position es →
      entry.segment = segment := by
  intro position es
  induction es generalizing position with
  | nil => intro h; cases h
  | cons e es ih =>
      intro h
      rw [Entry.indexFrom, List.mem_append] at h
      rcases h with h | h
      · cases e with
        | record => rw [List.mem_singleton.mp h]
        | batch =>
            obtain ⟨i, -, rfl⟩ := List.mem_map.mp h
            rfl
      · exact ih h

theorem length_indexFrom (segment : ℕ) :
    ∀ position es, (Entry.indexFrom segment position es).length = (es.map Entry.count).sum := by
  intro position es
  induction es generalizing position with
  | nil => rfl
  | cons e es ih =>
      rw [Entry.indexFrom, List.length_append, ih, List.map_cons, List.sum_cons]
      cases e with
      | record => rfl
      | batch => simp [Entry.indexEntries, PartitionLog.batchEntries, Entry.count]

theorem index_eq_nil_iff {s : Segment} (hcount : ∀ e ∈ s.entries, 0 < e.count) :
    s.index = [] ↔ s.entries = [] := by
  refine ⟨fun h ↦ ?_, fun h ↦ by rw [Segment.index, h]; rfl⟩
  rw [Segment.index, ← List.length_eq_zero_iff, length_indexFrom, List.sum_eq_zero_iff] at h
  refine List.eq_nil_iff_forall_not_mem.mpr fun e he ↦ ?_
  exact (hcount e he).ne' (h _ (List.mem_map_of_mem he))

/-- The index ends with that of the last segment that has entries. -/
theorem LastStored.index_eq {layout : Layout}
    (hbases : layout.Pairwise fun s t ↦ s.base < t.base) {s : Segment}
    (h : layout.LastStored s) : ∃ front, layout.index = front ++ s.index := by
  obtain ⟨before, after, rfl⟩ := List.append_of_mem h.mem
  have hafter : index after = [] := index_of_entries_nil fun t ht ↦
    h.behind t (by simp [ht])
      ((List.pairwise_cons.mp (List.pairwise_append.mp hbases).2.1).1 t ht)
  refine ⟨index before, ?_⟩
  rw [index, List.flatMap_append, List.flatMap_cons]
  change index before ++ (s.index ++ index after) = _
  rw [hafter, List.append_nil]

/-- The last index entry names the last segment that has entries. -/
theorem LastStored.segment_eq {layout : Layout}
    (hbases : layout.Pairwise fun s t ↦ s.base < t.base)
    (hcount : ∀ e ∈ layout.entries, 0 < e.count) {s : Segment} (h : layout.LastStored s) :
    ∃ entry, layout.index.getLast? = some entry ∧ entry.segment = s.base := by
  obtain ⟨front, hindex⟩ := h.index_eq hbases
  have hne : s.index ≠ [] := fun hnil ↦ h.stored ((index_eq_nil_iff fun e he ↦
    hcount e (mem_entries.mpr ⟨s, h.mem, he⟩)).mp hnil)
  refine ⟨s.index.getLast hne, ?_, segment_of_mem_indexFrom (List.getLast_mem hne)⟩
  rw [hindex, List.getLast?_append_of_ne_nil _ hne, List.getLast?_eq_some_getLast hne]

theorem index_filter (layout : Layout) (deleted : List ℕ) :
    index (layout.filter fun s ↦ s.base ∉ deleted) =
      layout.index.filter fun entry ↦ entry.segment ∉ deleted := by
  induction layout with
  | nil => rfl
  | cons s layout ih =>
      have hsegment : ∀ entry ∈ s.index, entry.segment = s.base := fun entry hentry ↦
        segment_of_mem_indexFrom hentry
      rw [index_cons, List.filter_append]
      by_cases hdeleted : s.base ∈ deleted
      · have hnone : (s.index.filter fun entry ↦ entry.segment ∉ deleted) = [] :=
          List.filter_eq_nil_iff.mpr fun entry hentry ↦ by
            simpa [hsegment entry hentry] using hdeleted
        rw [List.filter_cons_of_neg (by simpa using hdeleted), ih, hnone, List.nil_append]
      · have hall : (s.index.filter fun entry ↦ entry.segment ∉ deleted) = s.index :=
          List.filter_eq_self.mpr fun entry hentry ↦ by
            simpa [hsegment entry hentry] using hdeleted
        rw [List.filter_cons_of_pos (by simpa using hdeleted), index_cons, ih, hall]

theorem files_filter (layout : Layout) (deleted : List ℕ) :
    files (layout.filter fun s ↦ s.base ∉ deleted) =
      layout.files.filter fun file ↦ file.1 ∉ deleted := by
  rw [files, files, List.filter_map]
  rfl

/-- The offsets of an entry, in the index and among its records. -/
theorem map_offset_indexEntries {e : Entry} (hstop : e.stop < 2 ^ 64) (segment position : ℕ) :
    (e.indexEntries segment position).map IndexEntry.offset = List.range' e.first e.count := by
  cases e with
  | record => rfl
  | batch baseOffset timestamp codec encoded records =>
      have hstop : baseOffset + records.length < 2 ^ 64 := hstop
      rw [Entry.indexEntries, PartitionLog.batchEntries, List.map_map, Entry.first, Entry.count,
        List.range'_eq_map_range]
      refine List.map_congr_left fun i hi ↦ ?_
      have hi : i < records.length := List.mem_range.mp hi
      exact Nat.mod_eq_of_lt (by omega)

theorem map_offset_records (e : Entry) :
    e.records.map StoredRecord.offset = List.range' e.first e.count := by
  cases e with
  | record => rfl
  | batch baseOffset timestamp codec encoded records =>
      refine List.ext_getElem (by simp [Entry.records, Entry.count]) fun i h h' ↦ ?_
      simp [Entry.records, Entry.first]

theorem map_offset_index {layout : Layout} (hstop : ∀ e ∈ layout.entries, e.stop < 2 ^ 64) :
    layout.index.map IndexEntry.offset = layout.records.map StoredRecord.offset := by
  have hsegment : ∀ segment position es, (∀ e ∈ es, e.stop < 2 ^ 64) →
      (Entry.indexFrom segment position es).map IndexEntry.offset =
        (es.flatMap Entry.records).map StoredRecord.offset := by
    intro segment position es hes
    induction es generalizing position with
    | nil => rfl
    | cons e es ih =>
        rw [Entry.indexFrom, List.map_append, List.flatMap_cons, List.map_append,
          map_offset_indexEntries (hes e (by simp)), map_offset_records,
          ih _ fun f hf ↦ hes f (List.mem_cons_of_mem e hf)]
  induction layout with
  | nil => rfl
  | cons s layout ih =>
      have hrest := ih fun e he ↦ hstop e (by rw [entries_cons]; exact List.mem_append_right _ he)
      rw [index_cons, List.map_append, records, entries_cons, List.flatMap_append,
        List.map_append, Segment.index, hsegment _ _ _ fun e he ↦
          hstop e (by rw [entries_cons]; exact List.mem_append_left _ he), hrest]
      rfl

/-- Offsets increase along the log. -/
theorem WellPlaced.offsets_increase {layout : Layout} {next : ℕ} (h : layout.WellPlaced next) :
    (layout.records.map StoredRecord.offset).Pairwise (· < ·) := by
  rw [records, List.map_flatMap, List.pairwise_flatMap]
  refine ⟨fun e _ ↦ ?_, h.chain.imp fun {e f} hef x hx y hy ↦ ?_⟩
  · rw [map_offset_records]
    exact List.pairwise_lt_range'
  · rw [map_offset_records, List.mem_range'_1] at hx hy
    have hstop : e.first + e.count ≤ f.first := hef
    omega

end Layout

end BoltStream.Storage
