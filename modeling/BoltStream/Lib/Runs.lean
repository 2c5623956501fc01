import Mathlib.Data.List.Basic

/-!
# Runs of a step function

A system is a state and a partial step function that takes what happens next as
its label.  `Along` says that every step of a run meets a condition on its label
and on the state before it.
-/

namespace BoltStream.Lib

variable {σ α : Type*}

def run (step : σ → α → Option σ) (s : σ) : List α → Option σ
  | [] => some s
  | a :: as => (step s a).bind fun t ↦ run step t as

def Along (step : σ → α → Option σ) (Ok : σ → α → Prop) (s : σ) : List α → Prop
  | [] => True
  | a :: as => Ok s a ∧ ∀ t, step s a = some t → Along step Ok t as

variable {step : σ → α → Option σ} {s t : σ} {as bs : List α}

theorem run_cons {a : α} (h : run step s (a :: as) = some t) :
    ∃ u, step s a = some u ∧ run step u as = some t :=
  Option.bind_eq_some_iff.mp h

theorem run_of_append {u : σ} (h : run step s as = some u) (hrest : run step u bs = some t) :
    run step s (as ++ bs) = some t := by
  induction as generalizing s with
  | nil => exact Option.some.inj h ▸ hrest
  | cons a as ih =>
      obtain ⟨v, hstep, htail⟩ := run_cons h
      rw [List.cons_append, run, hstep]
      exact ih htail

theorem along_of_forall {Ok : σ → α → Prop} (h : ∀ a ∈ as, ∀ s, Ok s a) (s : σ) :
    Along step Ok s as := by
  induction as generalizing s with
  | nil => trivial
  | cons a as ih =>
      exact ⟨h a List.mem_cons_self s, fun t _ ↦ ih (fun b hb ↦ h b (List.mem_cons_of_mem a hb)) t⟩

theorem along_cons {Ok : σ → α → Prop} {a : α} (hok : Ok s a) (hstep : step s a = some t)
    (h : Along step Ok t as) : Along step Ok s (a :: as) := by
  refine ⟨hok, fun u hu ↦ ?_⟩
  rw [hstep] at hu
  exact Option.some.inj hu ▸ h

theorem along_cons_iff {Ok : σ → α → Prop} {a : α} (h : step s a = some t) :
    Ok s a ∧ Along step Ok t as ↔ Along step Ok s (a :: as) :=
  and_congr_right' ⟨fun hrest _ hu ↦ Option.some.inj (h.symm.trans hu) ▸ hrest,
    fun hrest ↦ hrest t h⟩

theorem along_cons_none_iff {Ok : σ → α → Prop} {a : α} (h : step s a = none) :
    Ok s a ↔ Along step Ok s (a :: as) :=
  (and_iff_left fun _ hu ↦ by rw [h] at hu; cases hu).symm

instance decidableAlong (Ok : σ → α → Prop) [∀ s a, Decidable (Ok s a)] :
    ∀ s as, Decidable (Along step Ok s as)
  | _, [] => .isTrue trivial
  | s, a :: as =>
      match h : step s a with
      | none => decidable_of_iff _ (along_cons_none_iff h)
      | some t =>
          haveI := decidableAlong Ok t as
          decidable_of_iff _ (along_cons_iff h)

/-- What every step keeps, every run keeps. -/
theorem run_invariant (Ok : σ → α → Prop) (Inv : σ → Prop)
    (hstep : ∀ s a t, Ok s a → step s a = some t → Inv s → Inv t) (hok : Along step Ok s as)
    (hrun : run step s as = some t) (hinit : Inv s) : Inv t := by
  induction as generalizing s with
  | nil => exact Option.some.inj hrun ▸ hinit
  | cons a as ih =>
      obtain ⟨u, hu, hrest⟩ := run_cons hrun
      exact ih (hok.2 u hu) hrest (hstep s a u hok.1 hu hinit)

/-- Where every step takes something off a measure, a run has no more steps than that. -/
theorem length_le_of_decreasing (Ok : σ → α → Prop) (measure : σ → ℕ)
    (hstep : ∀ s a t, Ok s a → step s a = some t → measure t < measure s)
    (hok : Along step Ok s as) (hrun : run step s as = some t) :
    as.length + measure t ≤ measure s := by
  induction as generalizing s with
  | nil => exact Option.some.inj hrun ▸ Nat.le_of_eq (Nat.zero_add _)
  | cons a as ih =>
      obtain ⟨u, hu, hrest⟩ := run_cons hrun
      have hless := hstep s a u hok.1 hu
      have hle := ih (hok.2 u hu) hrest
      rw [List.length_cons]
      omega

end BoltStream.Lib
