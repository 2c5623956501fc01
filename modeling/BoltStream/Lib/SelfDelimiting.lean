import Mathlib.Data.List.Basic

/-!
# Self-delimiting entries

Files hold entries one behind the other, and an entry says itself where it
ends.  Reading the files in order then gives one sequence of entries that no
other extends.
-/

namespace BoltStream.Lib

variable {α ν : Type*}

/-- No entry is empty, and no entry is the front of another one. -/
structure SelfDelimiting (P : List α → Prop) : Prop where
  ne_nil : ∀ c, P c → c ≠ []
  cancel : ∀ c d x y, P c → P d → c ++ x = d ++ y → c = d

/-- Entries that are read one after another: the next one starts where the last
one ended, or at the start of the next file if the file is used up. -/
inductive ParsesOver (P : List α → Prop) : List (ν × List α) → List (ν × List α) → Prop
  | stop (files : List (ν × List α)) : ParsesOver P files []
  | next {name : ν} {files es : List (ν × List α)} (h : ParsesOver P files es) :
      ParsesOver P ((name, []) :: files) es
  | entry {name : ν} {c rest : List α} {files es : List (ν × List α)} (hc : P c)
      (h : ParsesOver P ((name, rest) :: files) es) :
      ParsesOver P ((name, c ++ rest) :: files) ((name, c) :: es)

/-- No sequence of entries goes further. -/
def LongestParse (P : List α → Prop) (files es : List (ν × List α)) : Prop :=
  ParsesOver P files es ∧ ∀ es', ParsesOver P files es' → es' <+: es

/-- The files up to the first bytes that are no entry, cut there, as the entries
they hold. -/
inductive IntactPart (P : List α → Prop) : List (ν × List α) → List (ν × List (List α)) → Prop
  | nil : IntactPart P [] []
  | whole {name : ν} {cs : List (List α)} {files : List (ν × List α)}
      {kept : List (ν × List (List α))} (hcs : ∀ c ∈ cs, P c) (h : IntactPart P files kept) :
      IntactPart P ((name, cs.flatten) :: files) ((name, cs) :: kept)
  | broken {name : ν} {cs : List (List α)} {rest : List α} {files : List (ν × List α)}
      (hcs : ∀ c ∈ cs, P c) (hne : rest ≠ []) (hrest : ∀ c, P c → ¬ c <+: rest) :
      IntactPart P ((name, cs.flatten ++ rest) :: files) [(name, cs)]

/-- The entries of files, in order. -/
def entriesOf (kept : List (ν × List (List α))) : List (ν × List α) :=
  kept.flatMap fun file ↦ file.2.map fun c ↦ (file.1, c)

/-- The files that hold just the entries. -/
def contentsOf (kept : List (ν × List (List α))) : List (ν × List α) :=
  kept.map fun file ↦ (file.1, file.2.flatten)

theorem entriesOf_cons (file : ν × List (List α)) (kept : List (ν × List (List α))) :
    entriesOf (file :: kept) = (file.2.map fun c ↦ (file.1, c)) ++ entriesOf kept := rfl

theorem contentsOf_cons (file : ν × List (List α)) (kept : List (ν × List (List α))) :
    contentsOf (file :: kept) = (file.1, file.2.flatten) :: contentsOf kept := rfl

variable {P : List α → Prop} {files es es' : List (ν × List α)} {kept : List (ν × List (List α))}

/-- Only files with entries count. -/
theorem flatMap_filter_nonempty {β : Type*} (f : ν × List (List α) → List β)
    (hempty : ∀ name, f (name, []) = []) (kept : List (ν × List (List α))) :
    (kept.filter fun file ↦ file.2 ≠ []).flatMap f = kept.flatMap f := by
  induction kept with
  | nil => rfl
  | cons file kept ih =>
      rw [List.filter_cons, List.flatMap_cons]
      split_ifs with hfile
      · rw [List.flatMap_cons, ih]
      · obtain ⟨name, cs⟩ := file
        obtain rfl : cs = [] := by simpa using hfile
        rw [ih, hempty, List.nil_append]

theorem flatten_eq_nil (hP : SelfDelimiting P) {cs : List (List α)} (hcs : ∀ c ∈ cs, P c)
    (hempty : cs.flatten = []) : cs = [] := by
  refine List.eq_nil_iff_forall_not_mem.mpr fun c hc ↦ ?_
  exact hP.ne_nil c (hcs c hc) (List.flatten_eq_nil_iff.mp hempty c hc)

/-- The files of entries that hold something. -/
theorem contentsOf_filter_nonempty (hP : SelfDelimiting P)
    (hkept : ∀ file ∈ kept, ∀ c ∈ file.2, P c) :
    ((contentsOf kept).filter fun file ↦ file.2 ≠ []) =
      contentsOf (kept.filter fun file ↦ file.2 ≠ []) := by
  rw [contentsOf, contentsOf, List.filter_map]
  congr 1
  refine List.filter_congr fun file hfile ↦ decide_eq_decide.mpr (not_congr ?_)
  refine ⟨flatten_eq_nil hP (hkept file hfile), fun hnil ↦ ?_⟩
  change file.2.flatten = []
  rw [hnil]
  rfl

namespace ParsesOver

/-- The entries at the front of a file come before what is read behind them. -/
theorem of_front {name : ν} {cs : List (List α)} {rest : List α} (hcs : ∀ c ∈ cs, P c)
    (h : ParsesOver P ((name, rest) :: files) es) :
    ParsesOver P ((name, cs.flatten ++ rest) :: files)
      ((cs.map fun c ↦ (name, c)) ++ es) := by
  induction cs with
  | nil => exact h
  | cons c cs ih =>
      obtain ⟨hc, hcs⟩ := List.forall_mem_cons.mp hcs
      rw [List.flatten_cons, List.append_assoc]
      exact .entry hc (ih hcs)

/-- What is read of files that start with an entry. -/
theorem cons_inv (hP : SelfDelimiting P) {name : ν} {c rest : List α} (hc : P c)
    (h : ParsesOver P ((name, c ++ rest) :: files) es) :
    es = [] ∨ ∃ es', es = (name, c) :: es' ∧ ParsesOver P ((name, rest) :: files) es' := by
  generalize hcontent : c ++ rest = content at h
  cases h with
  | stop => exact Or.inl rfl
  | next h => exact absurd (List.append_eq_nil_iff.mp hcontent).1 (hP.ne_nil c hc)
  | @entry _ d rest' _ es' hd h =>
      obtain rfl := hP.cancel c d rest rest' hc hd hcontent
      obtain rfl := List.append_cancel_left hcontent
      exact Or.inr ⟨es', rfl, h⟩

end ParsesOver

namespace IntactPart

theorem all (h : IntactPart P files kept) : ∀ file ∈ kept, ∀ c ∈ file.2, P c := by
  induction h with
  | nil => simp
  | whole hcs _ ih => exact List.forall_mem_cons.mpr ⟨hcs, ih⟩
  | broken hcs _ _ => simpa using hcs

/-- The intact files are the first ones. -/
theorem names (h : IntactPart P files kept) : kept.map Prod.fst <+: files.map Prod.fst := by
  induction h with
  | nil => exact List.prefix_refl _
  | whole _ _ ih => exact List.prefix_cons_inj _ |>.mpr ih
  | broken _ _ _ => exact (List.prefix_cons_inj _).mpr List.nil_prefix

/-- The first file is among them, if only cut to nothing. -/
theorem head?_names (h : IntactPart P files kept) :
    (kept.map Prod.fst).head? = (files.map Prod.fst).head? := by
  cases h <;> rfl

theorem parsesOver (h : IntactPart P files kept) : ParsesOver P files (entriesOf kept) := by
  induction h with
  | nil => exact .stop []
  | @whole name cs files kept hcs _ ih =>
      rw [entriesOf_cons, ← List.append_nil cs.flatten]
      exact ParsesOver.of_front hcs (.next ih)
  | @broken name cs rest files hcs _ _ =>
      rw [entriesOf_cons]
      exact ParsesOver.of_front hcs (.stop _)

/-- Reading on from behind entries of the first file. -/
theorem longest_from (hP : SelfDelimiting P) {name : ν} {cs : List (List α)} {rest : List α}
    {later : List (ν × List α)} (hcs : ∀ c ∈ cs, P c)
    (hbehind : ∀ es, ParsesOver P ((name, rest) :: files) es → es <+: later)
    (h : ParsesOver P ((name, cs.flatten ++ rest) :: files) es) :
    es <+: (cs.map fun c ↦ (name, c)) ++ later := by
  induction cs generalizing es with
  | nil => exact hbehind es h
  | cons c cs ih =>
      obtain ⟨hc, hcs⟩ := List.forall_mem_cons.mp hcs
      rw [List.flatten_cons, List.append_assoc] at h
      rcases h.cons_inv hP hc with rfl | ⟨es', rfl, hrest⟩
      · exact List.nil_prefix
      · exact (List.prefix_cons_inj _).mpr (ih hcs hrest)

theorem longest (hP : SelfDelimiting P) (h : IntactPart P files kept) :
    LongestParse P files (entriesOf kept) := by
  refine ⟨h.parsesOver, ?_⟩
  induction h with
  | nil =>
      intro es h
      cases h
      exact List.nil_prefix
  | @whole name cs files kept hcs _ ih =>
      intro es h
      rw [← List.append_nil cs.flatten] at h
      refine longest_from hP hcs (fun es' hrest ↦ ?_) h
      generalize hcontent : ([] : List α) = content at hrest
      cases hrest with
      | stop => exact List.nil_prefix
      | next hrest => exact ih es' hrest
      | @entry _ d rest' _ _ hd _ =>
          exact absurd (List.append_eq_nil_iff.mp hcontent.symm).1 (hP.ne_nil d hd)
  | @broken name cs rest files hcs hne hrest =>
      intro es h
      rw [entriesOf_cons]
      refine longest_from hP hcs (fun es' hbehind ↦ ?_) h
      generalize hcontent : rest = content at hbehind
      cases hbehind with
      | stop => exact List.nil_prefix
      | next => exact absurd hcontent hne
      | @entry _ d rest' _ _ hd _ => exact absurd ⟨rest', hcontent.symm⟩ (hrest d hd)

/-- Entries in front of bytes that are no entry are the only ones. -/
theorem front_unique (hP : SelfDelimiting P) (rest rest' : List α)
    (hrest : rest ≠ [] → ∀ c, P c → ¬ c <+: rest)
    (hrest' : rest' ≠ [] → ∀ c, P c → ¬ c <+: rest') :
    ∀ {cs ds : List (List α)}, (∀ c ∈ cs, P c) → (∀ d ∈ ds, P d) →
      cs.flatten ++ rest = ds.flatten ++ rest' → cs = ds ∧ rest = rest' := by
  intro cs
  induction cs with
  | nil =>
      intro ds _ hds heq
      cases ds with
      | nil => exact ⟨rfl, heq⟩
      | cons d ds =>
          have hd := (List.forall_mem_cons.mp hds).1
          rw [List.flatten_cons, List.append_assoc] at heq
          have hne : rest ≠ [] := fun hnil ↦ hP.ne_nil d hd
            (List.append_eq_nil_iff.mp (heq.symm.trans hnil)).1
          exact absurd ⟨ds.flatten ++ rest', heq.symm⟩ (hrest hne d hd)
  | cons c cs ih =>
      intro ds hcs hds heq
      obtain ⟨hc, hcs'⟩ := List.forall_mem_cons.mp hcs
      rw [List.flatten_cons, List.append_assoc] at heq
      cases ds with
      | nil =>
          have hne : rest' ≠ [] := fun hnil ↦ hP.ne_nil c hc
            (List.append_eq_nil_iff.mp (heq.trans hnil)).1
          exact absurd ⟨cs.flatten ++ rest, heq⟩ (hrest' hne c hc)
      | cons d ds =>
          obtain ⟨hd, hds'⟩ := List.forall_mem_cons.mp hds
          rw [List.flatten_cons, List.append_assoc] at heq
          obtain rfl := hP.cancel c d _ _ hc hd heq
          obtain ⟨rfl, hbehind⟩ := ih hcs' hds' (List.append_cancel_left heq)
          exact ⟨rfl, hbehind⟩

/-- Files have one intact part. -/
theorem unique (hP : SelfDelimiting P) {kept' : List (ν × List (List α))}
    (h : IntactPart P files kept) (h' : IntactPart P files kept') : kept = kept' := by
  induction h generalizing kept' with
  | nil =>
      cases h'
      rfl
  | @whole name cs files kept hcs _ ih =>
      generalize hfiles : (name, cs.flatten) :: files = others at h'
      cases h' with
      | nil => cases hfiles
      | @whole _ ds _ kept' hds h' =>
          obtain ⟨hfile, rfl⟩ := List.cons.inj hfiles
          obtain ⟨rfl, hcontent⟩ := Prod.mk.inj hfile
          obtain ⟨rfl, -⟩ := front_unique hP [] [] (fun h ↦ absurd rfl h) (fun h ↦ absurd rfl h)
            hcs hds (by simpa using hcontent)
          rw [ih h']
      | @broken _ ds rest _ hds hne hrest =>
          obtain ⟨hfile, rfl⟩ := List.cons.inj hfiles
          obtain ⟨rfl, hcontent⟩ := Prod.mk.inj hfile
          obtain ⟨-, hnil⟩ := front_unique hP [] rest (fun h ↦ absurd rfl h) (fun _ ↦ hrest)
            hcs hds (by simpa using hcontent)
          exact absurd hnil.symm hne
  | @broken name cs rest files hcs hne hrest =>
      generalize hfiles : (name, cs.flatten ++ rest) :: files = others at h'
      cases h' with
      | nil => cases hfiles
      | @whole _ ds _ kept' hds h' =>
          obtain ⟨hfile, rfl⟩ := List.cons.inj hfiles
          obtain ⟨rfl, hcontent⟩ := Prod.mk.inj hfile
          obtain ⟨-, hnil⟩ := front_unique hP rest [] (fun _ ↦ hrest) (fun h ↦ absurd rfl h)
            hcs hds (by simpa using hcontent)
          exact absurd hnil hne
      | @broken _ ds rest' _ hds hne' hrest' =>
          obtain ⟨hfile, rfl⟩ := List.cons.inj hfiles
          obtain ⟨rfl, hcontent⟩ := Prod.mk.inj hfile
          obtain ⟨rfl, -⟩ := front_unique hP rest rest' (fun _ ↦ hrest) (fun _ ↦ hrest')
            hcs hds hcontent
          rfl

/-- The files that are left hold nothing but entries. -/
theorem contents (hkept : ∀ file ∈ kept, ∀ c ∈ file.2, P c) :
    IntactPart P (contentsOf kept) kept := by
  induction kept with
  | nil => exact .nil
  | cons file kept ih =>
      obtain ⟨hfile, hkept⟩ := List.forall_mem_cons.mp hkept
      exact .whole hfile (ih hkept)

/-- Files without bytes do not matter. -/
theorem filter_nonempty (hP : SelfDelimiting P) (h : IntactPart P files kept) :
    ∃ kept', IntactPart P (files.filter fun file ↦ file.2 ≠ []) kept' ∧
      (kept'.filter fun file ↦ file.2 ≠ []) = kept.filter fun file ↦ file.2 ≠ [] := by
  induction h with
  | nil => exact ⟨[], .nil, rfl⟩
  | @whole name cs files kept hcs _ ih =>
      obtain ⟨kept', hkept', hsame⟩ := ih
      rw [List.filter_cons, List.filter_cons]
      by_cases hempty : cs.flatten = []
      · rw [if_neg (by simpa using hempty)]
        refine ⟨kept', hkept', hsame.trans ?_⟩
        rw [if_neg (by simpa using flatten_eq_nil hP hcs hempty)]
      · have hne : cs ≠ [] := fun hnil ↦ hempty (by rw [hnil]; rfl)
        rw [if_pos (decide_eq_true hempty), if_pos (decide_eq_true hne)]
        refine ⟨(name, cs) :: kept', .whole hcs hkept', ?_⟩
        rw [List.filter_cons, if_pos (decide_eq_true hne), hsame]
  | @broken name cs rest files hcs hne hrest =>
      have hcontent : cs.flatten ++ rest ≠ [] := fun hnil ↦ hne (List.append_eq_nil_iff.mp hnil).2
      rw [List.filter_cons, if_pos (decide_eq_true hcontent)]
      exact ⟨[(name, cs)], .broken hcs hne hrest, rfl⟩

/-- Two directories that hold the same bytes have the same entries in the same
files. -/
theorem same_nonempty (hP : SelfDelimiting P) {files' : List (ν × List α)}
    {kept' : List (ν × List (List α))} (h : IntactPart P files kept)
    (h' : IntactPart P files' kept') (hfiles : (files.filter fun file ↦ file.2 ≠ []) =
      files'.filter fun file ↦ file.2 ≠ []) :
    (kept.filter fun file ↦ file.2 ≠ []) = kept'.filter fun file ↦ file.2 ≠ [] := by
  obtain ⟨full, hfull, hsame⟩ := h.filter_nonempty hP
  obtain ⟨full', hfull', hsame'⟩ := h'.filter_nonempty hP
  rw [hfiles] at hfull
  rw [← hsame, ← hsame', hfull.unique hP hfull']

end IntactPart

end BoltStream.Lib
