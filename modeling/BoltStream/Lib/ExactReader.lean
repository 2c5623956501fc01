import Mathlib.Tactic

/-!
# Exact readers

A reader takes a value off the front of a list of symbols.  It is exact for a
writer when it takes back what was written, whatever follows, and takes nothing
else.  Fields are added to an exact reader one at a time: `ExactOn S` speaks of
the values whose fields read so far are the ones that `S` asks for.
-/

namespace BoltStream.Lib

variable {σ α β : Type}

abbrev Reader (σ α : Type) := StateT (List σ) Option α

namespace Reader

/-- A value from `count` turns of the reader. -/
def many (read : Reader σ α) : ℕ → Reader σ (List α)
  | 0 => pure []
  | count + 1 => do
      let a ← read
      let as ← many read count
      return a :: as

theorem bind_apply (read : Reader σ β) (next : β → Reader σ α) (symbols : List σ) :
    (read >>= next) symbols = (read symbols).bind fun b ↦ next b.1 b.2 := rfl

theorem pure_apply (a : α) (symbols : List σ) :
    (pure a : Reader σ α) symbols = some (a, symbols) := rfl

/-- Both steps of a reader that takes a value have taken one. -/
theorem bind_eq_some {read : Reader σ β} {next : β → Reader σ α} {symbols rest : List σ} {a : α}
    (h : (read >>= next) symbols = some (a, rest)) :
    ∃ b tail, read symbols = some (b, tail) ∧ next b tail = some (a, rest) := by
  obtain ⟨⟨b, tail⟩, hb, ha⟩ := Option.bind_eq_some_iff.mp h
  exact ⟨b, tail, hb, ha⟩

end Reader

structure ExactOn (S : α → Prop) (write : α → List σ) (read : Reader σ α) (Fits : α → Prop) :
    Prop where
  read_write : ∀ a, S a → Fits a → ∀ rest, read (write a ++ rest) = some (a, rest)
  write_read : ∀ symbols a rest, read symbols = some (a, rest) →
    S a ∧ Fits a ∧ symbols = write a ++ rest

abbrev Exact (write : α → List σ) (read : Reader σ α) (Fits : α → Prop) : Prop :=
  ExactOn (fun _ ↦ True) write read Fits

namespace ExactOn

variable {S : α → Prop} {write : α → List σ} {first : β → List σ} {read : Reader σ β}
  {Fits : α → Prop} {FirstFits : β → Prop}

theorem congr {read : Reader σ α} {Fits' : α → Prop} (h : ExactOn S write read Fits)
    (hfits : ∀ a, Fits a ↔ Fits' a) : ExactOn S write read Fits' := by
  obtain rfl : Fits = Fits' := funext fun a ↦ propext (hfits a)
  exact h

/-- One more field in front of a reader that knows its value. -/
theorem field {next : β → Reader σ α} (p : α → β) (h : Exact first read FirstFits)
    (hnext : ∀ b, ExactOn (fun a ↦ S a ∧ p a = b) write (next b) Fits) :
    ExactOn S (fun a ↦ first (p a) ++ write a) (read >>= next)
      (fun a ↦ FirstFits (p a) ∧ Fits a) := by
  constructor
  · rintro a hS ⟨hfirst, hfits⟩ rest
    rw [Reader.bind_apply, List.append_assoc, h.read_write (p a) trivial hfirst, Option.bind_some,
      (hnext (p a)).read_write a ⟨hS, rfl⟩ hfits]
  · intro symbols a rest hread
    obtain ⟨b, tail, hb, ha⟩ := Reader.bind_eq_some hread
    obtain ⟨-, hfirst, rfl⟩ := h.write_read _ _ _ hb
    obtain ⟨⟨hS, rfl⟩, hfits, htail⟩ := (hnext b).write_read _ _ _ ha
    refine ⟨hS, ⟨hfirst, hfits⟩, ?_⟩
    rw [List.append_assoc, ← htail]

/-- The last field: with it the value is known. -/
theorem last {make : β → α} (p : α → β) (h : Exact first read FirstFits)
    (hmake : ∀ a b, make b = a ↔ S a ∧ p a = b) :
    ExactOn S (fun a ↦ first (p a)) (read >>= fun b ↦ pure (make b))
      (fun a ↦ FirstFits (p a)) := by
  constructor
  · intro a hS hfits rest
    rw [Reader.bind_apply, h.read_write (p a) trivial hfits, Option.bind_some, Reader.pure_apply,
      (hmake a (p a)).mpr ⟨hS, rfl⟩]
  · intro symbols a rest hread
    obtain ⟨b, tail, hb, ha⟩ := Reader.bind_eq_some hread
    obtain ⟨-, hfits, rfl⟩ := h.write_read _ _ _ hb
    obtain ⟨hvalue, rfl⟩ := Prod.mk.inj (Option.some.inj ha)
    obtain ⟨hS, rfl⟩ := (hmake a b).mp hvalue
    exact ⟨hS, hfits, rfl⟩

theorem many {write : β → List σ} {read : Reader σ β} {Fits : β → Prop}
    (h : Exact write read Fits) (count : ℕ) :
    ExactOn (fun bs ↦ bs.length = count) (fun bs ↦ bs.flatMap write) (Reader.many read count)
      (fun bs ↦ ∀ b ∈ bs, Fits b) := by
  constructor
  · intro bs hlength hfits rest
    induction bs generalizing count with
    | nil =>
        obtain rfl := hlength
        rfl
    | cons b bs ih =>
        obtain rfl := hlength
        have htail := ih bs.length rfl fun c hc ↦ hfits c (List.mem_cons_of_mem b hc)
        rw [List.length_cons, Reader.many, Reader.bind_apply, List.flatMap_cons,
          List.append_assoc, h.read_write b trivial (hfits b List.mem_cons_self),
          Option.bind_some, Reader.bind_apply, htail]
        rfl
  · intro symbols bs rest hread
    induction count generalizing symbols bs with
    | zero =>
        obtain ⟨rfl, rfl⟩ := Prod.mk.inj (Option.some.inj hread)
        simp
    | succ count ih =>
        obtain ⟨b, tail, hb, hread⟩ := Reader.bind_eq_some hread
        obtain ⟨cs, last, hcs, hread⟩ := Reader.bind_eq_some hread
        obtain ⟨rfl, rfl⟩ := Prod.mk.inj (Option.some.inj hread)
        obtain ⟨-, hfits, rfl⟩ := h.write_read _ _ _ hb
        obtain ⟨hlength, htail, rfl⟩ := ih _ _ hcs
        refine ⟨by simp [hlength], ?_, by simp⟩
        rintro c hc
        rcases List.mem_cons.mp hc with rfl | hc
        · exact hfits
        · exact htail c hc

/-- A list behind the number of its elements. -/
theorem counted {write : β → List σ} {read : Reader σ β} {Fits : β → Prop}
    {count : ℕ → List σ} {readCount : Reader σ ℕ} {CountFits : ℕ → Prop}
    (hcount : Exact count readCount CountFits) (h : Exact write read Fits) :
    Exact (fun bs ↦ count bs.length ++ bs.flatMap write) (readCount >>= Reader.many read)
      (fun bs ↦ CountFits bs.length ∧ ∀ b ∈ bs, Fits b) := by
  apply field List.length hcount
  intro length
  simpa only [true_and] using h.many length

end ExactOn

end BoltStream.Lib
