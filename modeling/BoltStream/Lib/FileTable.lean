import BoltStream.Lib.BigEndian

/-!
# Numbered files

A directory of files named by numbers, as the list of its files in increasing
order.  Appending creates a missing file in its place.  `writeUpTo` is what a
sequence of appends leaves on disk when only its first bytes arrive.
-/

namespace BoltStream.Lib

abbrev FileTable := List (ℕ × Bytes)

namespace FileTable

def Sorted (files : FileTable) : Prop := files.Pairwise fun f g ↦ f.1 < g.1

def content? (files : FileTable) (name : ℕ) : Option Bytes := files.lookup name

def sizeOrZero (files : FileTable) (name : ℕ) : ℕ :=
  ((files.content? name).map List.length).getD 0

/-- The bytes of all files. -/
def totalBytes (files : FileTable) : ℕ := (files.map fun file ↦ file.2.length).sum

/-- Open `name` for appending, creating it if it is missing, and write `bytes`. -/
def append (files : FileTable) (name : ℕ) (bytes : Bytes) : FileTable :=
  match files with
  | [] => [(name, bytes)]
  | file :: rest =>
      if name < file.1 then (name, bytes) :: file :: rest
      else if name = file.1 then (file.1, file.2 ++ bytes) :: rest
      else file :: append rest name bytes

/-- Open `name` truncated and write `bytes`. -/
def overwrite (files : FileTable) (name : ℕ) (bytes : Bytes) : FileTable :=
  match files with
  | [] => [(name, bytes)]
  | file :: rest =>
      if name < file.1 then (name, bytes) :: file :: rest
      else if name = file.1 then (file.1, bytes) :: rest
      else file :: overwrite rest name bytes

def remove (files : FileTable) (name : ℕ) : FileTable := files.filter fun file ↦ file.1 ≠ name

/-- Change the size of an existing file, cutting it or filling it with zeros. -/
def resize (files : FileTable) (name size : ℕ) : FileTable :=
  files.map fun file ↦
    if file.1 = name then
      (file.1, file.2.take size ++ List.replicate (size - file.2.length) 0)
    else file

/-- The first `cut` bytes of a sequence of appends reach the disk, in order.
When the cut falls between two appends, `created` tells whether the file of the
later one had been opened. -/
def writeUpTo (created : Bool) : ℕ → List (ℕ × Bytes) → FileTable → FileTable
  | _, [], files => files
  | cut, write :: rest, files =>
      if write.2.length ≤ cut then
        writeUpTo created (cut - write.2.length) rest (files.append write.1 write.2)
      else if cut = 0 ∧ created = false then files
      else files.append write.1 (write.2.take cut)

/-- The whole sequence of appends. -/
def writeAll (files : FileTable) (writes : List (ℕ × Bytes)) : FileTable :=
  writes.foldl (fun files write ↦ files.append write.1 write.2) files

/-! ## Appending at a known place -/

/-- Appending to a file in the middle of the table. -/
theorem append_existing {before after : FileTable} {name : ℕ} {old : Bytes} (bytes : Bytes)
    (hbefore : ∀ f ∈ before, f.1 < name) :
    append (before ++ (name, old) :: after) name bytes =
      before ++ (name, old ++ bytes) :: after := by
  induction before with
  | nil => simp [append]
  | cons f before ih =>
      have hf : f.1 < name := hbefore f (by simp)
      have hrest := ih fun g hg ↦ hbefore g (List.mem_cons_of_mem f hg)
      rw [List.cons_append, append, if_neg (by omega), if_neg (by omega), hrest]
      rfl

/-- Appending to a missing file creates it in its place. -/
theorem append_missing {before after : FileTable} {name : ℕ} (bytes : Bytes)
    (hbefore : ∀ f ∈ before, f.1 < name) (hafter : ∀ f ∈ after, name < f.1) :
    append (before ++ after) name bytes = before ++ (name, bytes) :: after := by
  induction before with
  | nil =>
      cases after with
      | nil => rfl
      | cons g after => simp [append, hafter g (by simp)]
  | cons f before ih =>
      have hf : f.1 < name := hbefore f (by simp)
      have hrest := ih fun g hg ↦ hbefore g (List.mem_cons_of_mem f hg)
      rw [List.cons_append, append, if_neg (by omega), if_neg (by omega), hrest]
      rfl

theorem append_append (files : FileTable) (name : ℕ) (x y : Bytes) :
    (files.append name x).append name y = files.append name (x ++ y) := by
  induction files with
  | nil => simp [append]
  | cons f files ih =>
      rw [append, append]
      split_ifs with hlt heq
      · simp [append]
      · simp [append, heq]
      · rw [append, if_neg hlt, if_neg heq, ih]

theorem content?_cons_ne {file : ℕ × Bytes} {name : ℕ} (h : name ≠ file.1) (files : FileTable) :
    content? (file :: files) name = content? files name := by
  rw [content?, List.lookup_cons, beq_false_of_ne h]
  rfl

theorem content?_append_cons {before after : FileTable} {name : ℕ} {bytes : Bytes}
    (hbefore : ∀ f ∈ before, f.1 ≠ name) :
    content? (before ++ (name, bytes) :: after) name = some bytes := by
  induction before with
  | nil => simp [content?]
  | cons f before ih =>
      have hf : name ≠ f.1 := (hbefore f (by simp)).symm
      have hrest := ih fun g hg ↦ hbefore g (List.mem_cons_of_mem f hg)
      rw [List.cons_append, content?_cons_ne hf, hrest]

theorem content?_eq_none {files : FileTable} {name : ℕ} (h : ∀ f ∈ files, f.1 ≠ name) :
    content? files name = none := by
  induction files with
  | nil => rfl
  | cons f files ih =>
      have hf : name ≠ f.1 := (h f (by simp)).symm
      rw [content?_cons_ne hf, ih fun g hg ↦ h g (List.mem_cons_of_mem f hg)]

theorem content?_cons_self (file : ℕ × Bytes) (files : FileTable) :
    content? (file :: files) file.1 = some file.2 := by
  rw [content?, List.lookup_cons, beq_self_eq_true]

theorem content?_append {files : FileTable} (hsorted : Sorted files) (name : ℕ) (bytes : Bytes)
    (other : ℕ) :
    (files.append name bytes).content? other =
      if other = name then some ((files.content? name).getD [] ++ bytes)
      else files.content? other := by
  induction files with
  | nil =>
      rw [append]
      split_ifs with h
      · rw [h, content?_cons_self (name, bytes)]
        rfl
      · rw [content?_cons_ne h]
  | cons f files ih =>
      obtain ⟨hf, hrest⟩ := List.pairwise_cons.mp hsorted
      rw [append]
      by_cases hlt : name < f.1
      · have hmissing : content? (f :: files) name = none := content?_eq_none fun g hg ↦ by
          rcases List.mem_cons.mp hg with rfl | hg
          · exact hlt.ne'
          · exact (hlt.trans (hf g hg)).ne'
        rw [if_pos hlt, hmissing]
        split_ifs with h
        · rw [h, content?_cons_self (name, bytes)]
          rfl
        · rw [content?_cons_ne h]
      rw [if_neg hlt]
      by_cases heq : name = f.1
      · rw [if_pos heq, heq, content?_cons_self f]
        split_ifs with h
        · rw [h, content?_cons_self (f.1, f.2 ++ bytes)]
          rfl
        · rw [content?_cons_ne (show other ≠ (f.1, f.2 ++ bytes).1 from h), content?_cons_ne h]
      · rw [if_neg heq, content?_cons_ne heq]
        by_cases hfirst : other = f.1
        · rw [if_neg (by omega), hfirst, content?_cons_self, content?_cons_self]
        · rw [content?_cons_ne hfirst, content?_cons_ne hfirst, ih hrest]

theorem content?_filter (files : FileTable) (kept : ℕ → Bool) (name : ℕ) :
    content? (files.filter fun file ↦ kept file.1) name =
      if kept name then files.content? name else none := by
  induction files with
  | nil => simp [content?]
  | cons f files ih =>
      rw [List.filter_cons]
      by_cases hname : name = f.1
      · rw [hname] at ih ⊢
        split_ifs with hf
        · rw [content?_cons_self, content?_cons_self]
        · rw [ih, if_neg hf]
      · rw [content?_cons_ne hname, ← ih]
        split_ifs with hf
        · rw [content?_cons_ne hname]
        · rfl

theorem content?_remove (files : FileTable) (name other : ℕ) :
    (files.remove name).content? other =
      if other = name then none else files.content? other := by
  rw [remove, content?_filter files fun file ↦ decide (file ≠ name)]
  by_cases h : other = name <;> simp [h]

theorem content?_resize (files : FileTable) (name size other : ℕ) :
    (files.resize name size).content? other =
      (files.content? other).map fun bytes ↦
        if other = name then bytes.take size ++ List.replicate (size - bytes.length) 0
        else bytes := by
  induction files with
  | nil => simp [resize, content?]
  | cons f files ih =>
      rw [resize] at ih ⊢
      rw [List.map_cons]
      by_cases hother : other = f.1
      · rw [hother, content?_cons_self, Option.map_some]
        split_ifs
        · exact content?_cons_self (f.1, _) _
        · exact content?_cons_self f _
      · rw [content?_cons_ne hother, ← ih]
        split_ifs
        · exact content?_cons_ne (show other ≠ (f.1, f.2.take size ++
            List.replicate (size - f.2.length) 0).1 from hother) _
        · exact content?_cons_ne hother _

theorem sizeOrZero_append (files : FileTable) (name : ℕ) (bytes : Bytes)
    (hsorted : Sorted files) :
    (files.append name bytes).sizeOrZero name = files.sizeOrZero name + bytes.length := by
  rw [sizeOrZero, sizeOrZero, content?_append hsorted, if_pos rfl]
  cases files.content? name <;> simp

theorem content?_of_mem {files : FileTable} (hsorted : Sorted files) {name : ℕ} {bytes : Bytes}
    (h : (name, bytes) ∈ files) : content? files name = some bytes := by
  obtain ⟨before, after, rfl⟩ := List.append_of_mem h
  apply content?_append_cons
  intro f hf
  exact ((List.pairwise_append.mp hsorted).2.2 f hf (name, bytes) (by simp)).ne

theorem name_of_mem_append {files : FileTable} {name : ℕ} {bytes : Bytes} {file : ℕ × Bytes}
    (h : file ∈ files.append name bytes) : file.1 = name ∨ ∃ old ∈ files, old.1 = file.1 := by
  induction files with
  | nil => exact Or.inl (by rw [List.mem_singleton.mp h])
  | cons f files ih =>
      rw [append] at h
      split_ifs at h with hlt heq
      · rcases List.mem_cons.mp h with rfl | h
        · exact Or.inl rfl
        · exact Or.inr ⟨file, h, rfl⟩
      · rcases List.mem_cons.mp h with rfl | h
        · exact Or.inl heq.symm
        · exact Or.inr ⟨file, List.mem_cons_of_mem f h, rfl⟩
      · rcases List.mem_cons.mp h with rfl | h
        · exact Or.inr ⟨_, List.mem_cons_self, rfl⟩
        · rcases ih h with h | ⟨old, hold, h⟩
          · exact Or.inl h
          · exact Or.inr ⟨old, List.mem_cons_of_mem f hold, h⟩

theorem mem_append {files : FileTable} {name : ℕ} {bytes : Bytes} {file : ℕ × Bytes}
    (h : file ∈ files.append name bytes) : file.1 = name ∨ file ∈ files := by
  induction files with
  | nil => exact Or.inl (by rw [List.mem_singleton.mp h])
  | cons f files ih =>
      rw [append] at h
      split_ifs at h with hlt heq
      · rcases List.mem_cons.mp h with rfl | h
        · exact Or.inl rfl
        · exact Or.inr h
      · rcases List.mem_cons.mp h with rfl | h
        · exact Or.inl heq.symm
        · exact Or.inr (List.mem_cons_of_mem f h)
      · rcases List.mem_cons.mp h with rfl | h
        · exact Or.inr List.mem_cons_self
        · exact (ih h).imp_right (List.mem_cons_of_mem f)

theorem mem_names_append {files : FileTable} {name : ℕ} {bytes : Bytes} {other : ℕ} :
    other ∈ (files.append name bytes).map Prod.fst ↔
      other = name ∨ other ∈ files.map Prod.fst := by
  induction files with
  | nil => simp [append]
  | cons f files ih =>
      rw [append]
      split_ifs with hlt heq
      · simp
      · simp [heq]
      · rw [List.map_cons, List.mem_cons, ih, List.map_cons, List.mem_cons]
        tauto

/-- A file after a sequence of appends: written to, or as it was. -/
theorem mem_writeAll {writes : List (ℕ × Bytes)} {file : ℕ × Bytes} :
    ∀ {files : FileTable}, file ∈ files.writeAll writes →
      file.1 ∈ writes.map Prod.fst ∨ file ∈ files := by
  induction writes with
  | nil => exact Or.inr
  | cons write writes ih =>
      intro files h
      rcases ih h with hwritten | hfile
      · exact Or.inl (List.mem_cons_of_mem _ hwritten)
      · exact (mem_append hfile).imp_left fun heq ↦ by rw [heq]; exact List.mem_cons_self

theorem mem_names_writeAll {writes : List (ℕ × Bytes)} {name : ℕ} :
    ∀ {files : FileTable}, name ∈ (files.writeAll writes).map Prod.fst ↔
      name ∈ files.map Prod.fst ∨ name ∈ writes.map Prod.fst := by
  induction writes with
  | nil => simp [writeAll]
  | cons write writes ih =>
      intro files
      have hrest := @ih (files.append write.1 write.2)
      rw [writeAll] at hrest ⊢
      rw [List.foldl_cons, hrest, mem_names_append, List.map_cons, List.mem_cons]
      tauto

theorem Sorted.append {files : FileTable} (h : Sorted files) (name : ℕ) (bytes : Bytes) :
    Sorted (files.append name bytes) := by
  induction files with
  | nil => exact List.pairwise_singleton _ _
  | cons f files ih =>
      obtain ⟨hf, hrest⟩ := List.pairwise_cons.mp h
      rw [FileTable.append]
      split_ifs with hlt heq
      · refine List.pairwise_cons.mpr ⟨fun g hg ↦ ?_, h⟩
        rcases List.mem_cons.mp hg with rfl | hg
        · exact hlt
        · exact hlt.trans (hf g hg)
      · exact List.pairwise_cons.mpr ⟨hf, hrest⟩
      · refine List.pairwise_cons.mpr ⟨fun g hg ↦ ?_, ih hrest⟩
        rcases name_of_mem_append hg with hg | ⟨old, hold, hg⟩
        · omega
        · exact hg ▸ hf old hold

theorem Sorted.writeAll {files : FileTable} (h : Sorted files) (writes : List (ℕ × Bytes)) :
    Sorted (files.writeAll writes) := by
  induction writes generalizing files with
  | nil => exact h
  | cons write writes ih => exact ih (h.append write.1 write.2)

theorem content?_writeAll_of_not_mem {writes : List (ℕ × Bytes)} {name : ℕ} :
    ∀ {files : FileTable}, Sorted files → name ∉ writes.map Prod.fst →
      (files.writeAll writes).content? name = files.content? name := by
  induction writes with
  | nil => exact fun _ _ ↦ rfl
  | cons write writes ih =>
      intro files hsorted hmissing
      rw [List.map_cons, List.mem_cons, not_or] at hmissing
      have hrest := ih (hsorted.append write.1 write.2) hmissing.2
      rw [content?_append hsorted, if_neg hmissing.1] at hrest
      exact hrest

theorem Sorted.remove {files : FileTable} (h : Sorted files) (name : ℕ) :
    Sorted (files.remove name) :=
  List.Pairwise.filter _ h

theorem Sorted.resize {files : FileTable} (h : Sorted files) (name size : ℕ) :
    Sorted (files.resize name size) := by
  rw [Sorted, FileTable.resize, List.pairwise_map]
  refine List.Pairwise.imp (fun {f g} hlt ↦ ?_) h
  split_ifs <;> exact hlt

/-- Opening a file truncated is cutting it to nothing and appending. -/
theorem Sorted.overwrite_eq {files : FileTable} (h : Sorted files) (name : ℕ) (bytes : Bytes) :
    files.overwrite name bytes = (files.resize name 0).append name bytes := by
  induction files with
  | nil => rfl
  | cons f files ih =>
      obtain ⟨hf, hrest⟩ := List.pairwise_cons.mp h
      have hbehind : name ≤ f.1 → FileTable.resize files name 0 = files := fun hle ↦ by
        rw [FileTable.resize]
        refine (List.map_congr_left fun g hg ↦ if_neg ?_).trans files.map_id'
        exact (lt_of_le_of_lt hle (hf g hg)).ne'
      rw [FileTable.overwrite, FileTable.resize, List.map_cons]
      change _ = FileTable.append (_ :: FileTable.resize files name 0) name bytes
      rw [FileTable.append]
      by_cases hlt : name < f.1
      · simp [hlt, hlt.ne', hbehind hlt.le]
      · by_cases heq : name = f.1
        · simp [heq, heq ▸ hbehind heq.le]
        · have hne : f.1 ≠ name := fun h ↦ heq h.symm
          simp [hlt, heq, hne, ih hrest]

theorem content?_overwrite {files : FileTable} (hsorted : Sorted files) (name : ℕ) (bytes : Bytes)
    (other : ℕ) :
    (files.overwrite name bytes).content? other =
      if other = name then some bytes else files.content? other := by
  rw [hsorted.overwrite_eq, content?_append (hsorted.resize name 0), content?_resize,
    content?_resize]
  by_cases h : other = name
  · cases files.content? name <;> simp [h]
  · simp [h]

theorem Sorted.overwrite {files : FileTable} (h : Sorted files) (name : ℕ) (bytes : Bytes) :
    Sorted (files.overwrite name bytes) := by
  rw [h.overwrite_eq]
  exact (h.resize name 0).append name bytes

theorem exists_mem_of_content? {files : FileTable} {name : ℕ} {bytes : Bytes}
    (h : files.content? name = some bytes) : (name, bytes) ∈ files := by
  obtain ⟨before, after, rfl, -⟩ := List.lookup_eq_some_iff.mp h
  exact List.mem_append_right _ List.mem_cons_self

/-- A table is determined by what its files hold. -/
theorem Sorted.ext {files files' : FileTable} (h : Sorted files) (h' : Sorted files')
    (hcontent : ∀ name, files.content? name = files'.content? name) : files = files' := by
  refine List.Pairwise.eq_of_mem_iff (r := fun f g : ℕ × Bytes ↦ f.1 < g.1) h h' fun f ↦ ?_
  constructor
  · intro hf
    exact exists_mem_of_content? ((hcontent f.1).symm.trans (content?_of_mem h hf))
  · intro hf
    exact exists_mem_of_content? ((hcontent f.1).trans (content?_of_mem h' hf))

theorem content?_isSome {files : FileTable} {name : ℕ} :
    (files.content? name).isSome ↔ name ∈ files.map Prod.fst := by
  induction files with
  | nil => simp [content?]
  | cons f files ih =>
      by_cases h : name = f.1
      · rw [h, content?_cons_self]
        simp
      · rw [content?_cons_ne h, ih, List.map_cons, List.mem_cons]
        simp [h]

/-- Opening an existing file for appending changes nothing. -/
theorem Sorted.append_nil {files : FileTable} (h : Sorted files) {name : ℕ}
    (hname : name ∈ files.map Prod.fst) : files.append name [] = files := by
  refine (h.append name []).ext h fun other ↦ ?_
  rw [content?_append h, List.append_nil]
  split_ifs with hother
  · obtain ⟨bytes, hbytes⟩ := Option.isSome_iff_exists.mp (content?_isSome.mpr hname)
    rw [hother, hbytes]
    rfl
  · rfl

theorem totalBytes_append (files : FileTable) (name : ℕ) (bytes : Bytes) :
    (files.append name bytes).totalBytes = files.totalBytes + bytes.length := by
  induction files with
  | nil =>
      rw [append]
      simp [totalBytes]
  | cons f files ih =>
      have hcons : ∀ (file : ℕ × Bytes) (rest : FileTable),
          totalBytes (file :: rest) = file.2.length + rest.totalBytes := fun _ _ ↦ rfl
      rw [append]
      split_ifs
      · rw [hcons, Nat.add_comm]
      · rw [hcons, hcons, List.length_append]
        omega
      · rw [hcons, hcons, ih, Nat.add_assoc]

/-- Opening a file for appending leaves no bytes behind. -/
theorem totalBytes_append_nil (files : FileTable) (name : ℕ) :
    (files.append name []).totalBytes = files.totalBytes := totalBytes_append files name []

theorem map_fst_resize (files : FileTable) (name size : ℕ) :
    (files.resize name size).map Prod.fst = files.map Prod.fst := by
  rw [resize, List.map_map]
  refine List.map_congr_left fun file _ ↦ ?_
  simp only [Function.comp_apply]
  split_ifs
  · rfl
  · rfl

theorem mem_names_writeUpTo (created : Bool) {writes : List (ℕ × Bytes)} {name : ℕ} :
    ∀ {cut : ℕ} {files : FileTable}, name ∈ (writeUpTo created cut writes files).map Prod.fst →
      name ∈ files.map Prod.fst ∨ name ∈ writes.map Prod.fst := by
  induction writes with
  | nil => exact Or.inl
  | cons write writes ih =>
      intro cut files h
      rw [List.map_cons, List.mem_cons]
      rw [writeUpTo] at h
      split_ifs at h
      · have hrest := ih h
        rw [mem_names_append] at hrest
        tauto
      · exact Or.inl h
      · rw [mem_names_append] at h
        tauto

/-! ## Undoing appends -/

/-- `new` comes from `old` by appends. -/
structure Grows (old new : FileTable) : Prop where
  sorted : Sorted new
  kept : ∀ name bytes, old.content? name = some bytes →
    ∃ more, new.content? name = some (bytes ++ more)

theorem Grows.refl {files : FileTable} (h : Sorted files) : Grows files files :=
  ⟨h, fun _ bytes hbytes ↦ ⟨[], by rw [hbytes, List.append_nil]⟩⟩

theorem Grows.append {old new : FileTable} (h : Grows old new) (name : ℕ) (bytes : Bytes) :
    Grows old (new.append name bytes) := by
  refine ⟨h.sorted.append name bytes, fun other kept hkept ↦ ?_⟩
  obtain ⟨more, hmore⟩ := h.kept other kept hkept
  rw [content?_append h.sorted]
  split_ifs with hname
  · refine ⟨more ++ bytes, ?_⟩
    rw [← hname, hmore, Option.getD_some, List.append_assoc]
  · exact ⟨more, hmore⟩

theorem Grows.writeAll {old new : FileTable} (h : Grows old new) (writes : List (ℕ × Bytes)) :
    Grows old (new.writeAll writes) := by
  induction writes generalizing new with
  | nil => exact h
  | cons write writes ih => exact ih (h.append write.1 write.2)

theorem Grows.writeUpTo {old new : FileTable} (h : Grows old new) (created : Bool)
    (writes : List (ℕ × Bytes)) :
    ∀ cut, Grows old (FileTable.writeUpTo created cut writes new) := by
  induction writes generalizing new with
  | nil => exact fun _ ↦ h
  | cons write writes ih =>
      intro cut
      rw [FileTable.writeUpTo]
      split_ifs
      · exact ih (h.append write.1 write.2) _
      · exact h
      · exact h.append write.1 _

/-- Give a file the size it has in `old`, or remove it if it is not there. -/
def restoreFile (old files : FileTable) (name : ℕ) : FileTable :=
  match old.content? name with
  | none => files.remove name
  | some bytes => files.resize name bytes.length

theorem Sorted.restoreFile {files : FileTable} (h : Sorted files) (old : FileTable) (name : ℕ) :
    Sorted (old.restoreFile files name) := by
  rw [FileTable.restoreFile]
  cases old.content? name with
  | none => exact h.remove name
  | some bytes => exact h.resize name bytes.length

theorem content?_restoreFile_ne (old files : FileTable) {name other : ℕ} (h : other ≠ name) :
    (old.restoreFile files name).content? other = files.content? other := by
  rw [restoreFile]
  cases old.content? name with
  | none => rw [content?_remove, if_neg h]
  | some bytes =>
      rw [content?_resize]
      simp [h]

/-- Restoring the only file that has grown. -/
theorem Grows.restoreFile {old new : FileTable} (hold : Sorted old) (h : Grows old new) {name : ℕ}
    (hother : ∀ other, other ≠ name → new.content? other = old.content? other) :
    old.restoreFile new name = old := by
  refine (h.sorted.restoreFile old name).ext hold fun other ↦ ?_
  by_cases hname : other = name
  · rw [FileTable.restoreFile, hname]
    cases hcontent : old.content? name with
    | none => rw [content?_remove, if_pos rfl]
    | some bytes =>
        obtain ⟨more, hmore⟩ := h.kept name bytes hcontent
        rw [content?_resize, hmore]
        simp
  · rw [content?_restoreFile_ne old new hname, hother other hname]

/-- Restoring every file of a grown table undoes the appends. -/
theorem Grows.restore {old new : FileTable} (hold : Sorted old) (h : Grows old new) :
    new.foldl (fun files file ↦ old.restoreFile files file.1) new = old := by
  -- Files the loop has passed are as in `old`, those ahead as in `new`.
  have hloop : ∀ rest files : FileTable, Sorted files →
      (∀ name, files.content? name = old.content? name ∨
        files.content? name = new.content? name ∧ name ∈ rest.map Prod.fst) →
      rest.foldl (fun files file ↦ old.restoreFile files file.1) files = old := by
    intro rest
    induction rest with
    | nil =>
        intro files hsorted hfiles
        refine hsorted.ext hold fun name ↦ ?_
        rcases hfiles name with hname | ⟨-, hname⟩
        · exact hname
        · simp at hname
    | cons file rest ih =>
        intro files hsorted hfiles
        refine ih _ (hsorted.restoreFile old file.1) fun name ↦ ?_
        by_cases hname : name = file.1
        · refine Or.inl ?_
          simp only [← hname, FileTable.restoreFile]
          cases hcontent : old.content? name with
          | none => rw [content?_remove, if_pos rfl]
          | some bytes =>
              obtain ⟨more, hmore⟩ := h.kept name bytes hcontent
              rw [content?_resize]
              rcases hfiles name with hfile | ⟨hfile, -⟩
              · rw [hfile, hcontent]
                simp
              · rw [hfile, hmore]
                simp
        · simp only [content?_restoreFile_ne old files hname]
          rcases hfiles name with hfile | ⟨hfile, hmem⟩
          · exact Or.inl hfile
          · rw [List.map_cons, List.mem_cons] at hmem
            exact Or.inr ⟨hfile, hmem.resolve_left hname⟩
  refine hloop new new h.sorted fun name ↦ ?_
  cases hcontent : new.content? name with
  | none =>
      left
      cases hbefore : old.content? name with
      | none => rfl
      | some bytes =>
          obtain ⟨more, hmore⟩ := h.kept name bytes hbefore
          rw [hmore] at hcontent
          cases hcontent
  | some bytes =>
      exact Or.inr ⟨rfl, List.mem_map_of_mem (f := Prod.fst) (exists_mem_of_content? hcontent)⟩

/-! ## Cutting -/

theorem resize_of_ne {files : FileTable} {name : ℕ} (h : ∀ f ∈ files, f.1 ≠ name) (size : ℕ) :
    files.resize name size = files := by
  rw [resize]
  exact (List.map_congr_left fun f hf ↦ if_neg (h f hf)).trans files.map_id'

/-- Cutting a file back to its old bytes and removing what is behind it. -/
theorem filter_resize_cut (before : FileTable) {after : FileTable} {name : ℕ} (old bytes : Bytes)
    (hbefore : ∀ f ∈ before, f.1 < name) (hafter : ∀ f ∈ after, name < f.1) :
    ((resize (before ++ (name, old ++ bytes) :: after) name old.length).filter fun f ↦
      f.1 ∉ after.map Prod.fst) = before ++ [(name, old)] := by
  have hresize : resize (before ++ (name, old ++ bytes) :: after) name old.length =
      before ++ (name, old) :: after := by
    have hb := resize_of_ne (fun f hf ↦ (hbefore f hf).ne) old.length
    have ha := resize_of_ne (fun f hf ↦ (hafter f hf).ne') old.length
    rw [resize] at hb ha
    rw [resize, List.map_append, List.map_cons, hb, ha]
    simp
  have hkeep : ∀ f : ℕ × Bytes, f.1 ≤ name → f.1 ∉ after.map Prod.fst := by
    intro f hf hmem
    obtain ⟨g, hg, hgf⟩ := List.mem_map.mp hmem
    exact absurd (hafter g hg) (by omega)
  have hdrop : (after.filter fun f ↦ f.1 ∉ after.map Prod.fst) = [] := by
    rw [List.filter_eq_nil_iff]
    intro f hf
    simpa using ⟨f.2, hf⟩
  rw [hresize, List.filter_append,
    List.filter_cons_of_pos (by simpa using hkeep (name, old) le_rfl),
    hdrop, List.filter_eq_self.mpr fun f hf ↦ by simpa using hkeep f (hbefore f hf).le]

/-! ## Empty files -/

/-- The files that hold something. -/
def nonempty (files : FileTable) : FileTable := files.filter fun file ↦ file.2 ≠ []

/-- Two tables that hold the same bytes: one may have empty files that the other
does not have. -/
structure SameBytes (files files' : FileTable) : Prop where
  sorted : Sorted files
  sorted' : Sorted files'
  same : ∀ name, (files.content? name).getD [] = (files'.content? name).getD []

theorem sizeOrZero_eq (files : FileTable) (name : ℕ) :
    files.sizeOrZero name = ((files.content? name).getD []).length := by
  rw [sizeOrZero]
  cases files.content? name <;> rfl

theorem content?_nonempty {files : FileTable} (h : Sorted files) (name : ℕ) :
    files.nonempty.content? name = (files.content? name).filter fun bytes ↦ bytes ≠ [] := by
  have hsorted : Sorted files.nonempty := List.Pairwise.filter _ h
  cases hcontent : files.content? name with
  | none =>
      refine content?_eq_none fun file hfile hname ↦ ?_
      have hmem := content?_of_mem h (List.mem_filter.mp hfile).1
      rw [hname, hcontent] at hmem
      cases hmem
  | some bytes =>
      by_cases hempty : bytes = []
      · rw [Option.filter_some, if_neg (by simpa using hempty)]
        refine content?_eq_none fun file hfile hname ↦ ?_
        obtain ⟨hmem, hbytes⟩ := List.mem_filter.mp hfile
        have hsame := content?_of_mem h hmem
        rw [hname, hcontent, hempty] at hsame
        exact of_decide_eq_true hbytes (Option.some.inj hsame).symm
      · rw [Option.filter_some, if_pos (by simpa using hempty)]
        exact content?_of_mem hsorted (List.mem_filter.mpr
          ⟨exists_mem_of_content? hcontent, decide_eq_true hempty⟩)

theorem totalBytes_nonempty (files : FileTable) : files.nonempty.totalBytes = files.totalBytes := by
  induction files with
  | nil => rfl
  | cons file files ih =>
      rw [nonempty, List.filter_cons]
      rw [nonempty] at ih
      split_ifs with hfile
      · simp only [totalBytes, List.map_cons, List.sum_cons] at ih ⊢
        rw [ih]
      · have hempty : file.2 = [] := by simpa using hfile
        simp only [totalBytes, List.map_cons, List.sum_cons, hempty, List.length_nil,
          Nat.zero_add] at ih ⊢
        exact ih

namespace SameBytes

variable {files files' : FileTable}

theorem refl (h : Sorted files) : SameBytes files files := ⟨h, h, fun _ ↦ rfl⟩

theorem sizeOrZero (h : SameBytes files files') (name : ℕ) :
    files.sizeOrZero name = files'.sizeOrZero name := by
  rw [sizeOrZero_eq, sizeOrZero_eq, h.same]

/-- A file that holds something is in both tables. -/
theorem content (h : SameBytes files files') {name : ℕ} (hsize : files.sizeOrZero name ≠ 0) :
    files.content? name = files'.content? name := by
  have hsame := h.same name
  rw [sizeOrZero_eq] at hsize
  cases hcontent : files.content? name with
  | none =>
      rw [hcontent] at hsize
      exact absurd rfl hsize
  | some bytes =>
      cases hcontent' : files'.content? name with
      | none =>
          rw [hsame, hcontent'] at hsize
          exact absurd rfl hsize
      | some bytes' =>
          rw [hcontent, hcontent'] at hsame
          exact congrArg some hsame

/-- A file that is in both tables holds the same in both. -/
theorem content_of_mem (h : SameBytes files files') {name : ℕ} (hname : name ∈ files.map Prod.fst)
    (hname' : name ∈ files'.map Prod.fst) : files.content? name = files'.content? name := by
  obtain ⟨bytes, hbytes⟩ := Option.isSome_iff_exists.mp (content?_isSome.mpr hname)
  obtain ⟨bytes', hbytes'⟩ := Option.isSome_iff_exists.mp (content?_isSome.mpr hname')
  have hsame := h.same name
  rw [hbytes, hbytes'] at hsame ⊢
  exact congrArg some hsame

theorem of_nonempty (h : Sorted files) (h' : Sorted files')
    (hsame : files.nonempty = files'.nonempty) : SameBytes files files' := by
  refine ⟨h, h', fun name ↦ ?_⟩
  have hfilter : ∀ content : Option Bytes,
      content.getD [] = (content.filter fun bytes ↦ bytes ≠ []).getD [] := by
    rintro (- | bytes)
    · rfl
    · by_cases hbytes : bytes = [] <;> simp [Option.filter_some, hbytes]
  rw [hfilter, ← content?_nonempty h, hsame, content?_nonempty h', ← hfilter]

theorem nonempty (h : SameBytes files files') : files.nonempty = files'.nonempty := by
  refine Sorted.ext (List.Pairwise.filter _ h.sorted) (List.Pairwise.filter _ h.sorted')
    fun name ↦ ?_
  rw [content?_nonempty h.sorted, content?_nonempty h.sorted']
  have hsame := h.same name
  cases hcontent : files.content? name <;> cases hcontent' : files'.content? name <;>
    simp_all [Option.filter_some]

theorem totalBytes (h : SameBytes files files') : files.totalBytes = files'.totalBytes := by
  rw [← totalBytes_nonempty, h.nonempty, totalBytes_nonempty]

theorem append (h : SameBytes files files') (name : ℕ) (bytes : Bytes) :
    SameBytes (files.append name bytes) (files'.append name bytes) := by
  refine ⟨h.sorted.append name bytes, h.sorted'.append name bytes, fun other ↦ ?_⟩
  rw [content?_append h.sorted, content?_append h.sorted', h.same name]
  split_ifs
  · rfl
  · exact h.same other

/-- A file that is in both tables stays there, and the one written to is. -/
theorem append_content (h : SameBytes files files') (name : ℕ) (bytes : Bytes) {other : ℕ}
    (hother : other = name ∨ files.content? other = files'.content? other) :
    (files.append name bytes).content? other = (files'.append name bytes).content? other := by
  rw [content?_append h.sorted, content?_append h.sorted', h.same name]
  split_ifs with hname
  · rfl
  · exact hother.resolve_left hname

theorem writeAll (h : SameBytes files files') (writes : List (ℕ × Bytes)) :
    SameBytes (files.writeAll writes) (files'.writeAll writes) := by
  induction writes generalizing files files' with
  | nil => exact h
  | cons write writes ih => exact ih (h.append write.1 write.2)

theorem writeAll_content {writes : List (ℕ × Bytes)} {other : ℕ} :
    ∀ {files files' : FileTable}, SameBytes files files' →
      other ∈ writes.map Prod.fst ∨ files.content? other = files'.content? other →
      (files.writeAll writes).content? other = (files'.writeAll writes).content? other := by
  induction writes with
  | nil => exact fun _ hother ↦ hother.resolve_left (List.not_mem_nil)
  | cons write writes ih =>
      intro files files' h hother
      refine ih (h.append write.1 write.2) ?_
      by_cases hlater : other ∈ writes.map Prod.fst
      · exact Or.inl hlater
      · refine Or.inr (h.append_content write.1 write.2 (hother.imp_left fun hwrites ↦ ?_))
        exact (List.mem_cons.mp hwrites).resolve_right hlater

theorem writeUpTo (created : Bool) (writes : List (ℕ × Bytes)) :
    ∀ {files files' : FileTable} (cut : ℕ), SameBytes files files' →
      SameBytes (FileTable.writeUpTo created cut writes files)
        (FileTable.writeUpTo created cut writes files') := by
  induction writes with
  | nil => exact fun _ h ↦ h
  | cons write writes ih =>
      intro files files' cut h
      rw [FileTable.writeUpTo, FileTable.writeUpTo]
      split_ifs
      · exact ih _ (h.append write.1 write.2)
      · exact h
      · exact h.append write.1 (write.2.take cut)

theorem writeUpTo_content (created : Bool) (writes : List (ℕ × Bytes)) {other : ℕ} :
    ∀ {files files' : FileTable} (cut : ℕ), SameBytes files files' →
      files.content? other = files'.content? other →
      (FileTable.writeUpTo created cut writes files).content? other =
        (FileTable.writeUpTo created cut writes files').content? other := by
  induction writes with
  | nil => exact fun _ _ hother ↦ hother
  | cons write writes ih =>
      intro files files' cut h hother
      rw [FileTable.writeUpTo, FileTable.writeUpTo]
      split_ifs
      · exact ih _ (h.append write.1 write.2) (h.append_content _ _ (Or.inr hother))
      · exact hother
      · exact h.append_content _ _ (Or.inr hother)

theorem remove (h : SameBytes files files') (name : ℕ) :
    SameBytes (files.remove name) (files'.remove name) := by
  refine ⟨h.sorted.remove name, h.sorted'.remove name, fun other ↦ ?_⟩
  rw [content?_remove, content?_remove]
  split_ifs
  · rfl
  · exact h.same other

theorem resize (h : SameBytes files files') {name : ℕ}
    (hname : files.content? name = files'.content? name) (size : ℕ) :
    SameBytes (files.resize name size) (files'.resize name size) := by
  refine ⟨h.sorted.resize name size, h.sorted'.resize name size, fun other ↦ ?_⟩
  rw [content?_resize, content?_resize]
  by_cases hother : other = name
  · rw [hother, hname]
  · have hsame := h.same other
    simp only [if_neg hother, Option.map_id']
    exact hsame

/-- Removing a file without bytes. -/
theorem remove_empty (h : Sorted files) {name : ℕ} (hempty : files.sizeOrZero name = 0) :
    SameBytes (files.remove name) files := by
  refine ⟨h.remove name, h, fun other ↦ ?_⟩
  rw [content?_remove]
  split_ifs with hother
  · rw [sizeOrZero_eq, List.length_eq_zero_iff] at hempty
    rw [hother, hempty]
    rfl
  · rfl

end SameBytes

end FileTable

end BoltStream.Lib
