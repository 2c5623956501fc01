import Mathlib.Tactic

/-!
# Walking a list by pages

Items carry increasing numbers.  A page function answers a position with some
items and the position to go on from, or fails.  If every page holds exactly the
items between its position and the next one, a walk returns every item once and
in order, up to its end or the first failure.
-/

namespace BoltStream.Lib

variable {α β ε : Type*}

inductive WalkEnd (ε : Type*) where
  | finished
  | failed (error : ε)
  | running
  deriving DecidableEq, Repr

/-- Ask for page after page until `high` is reached. -/
def walk (page : ℕ → Except ε (List α × ℕ)) (high : ℕ) : ℕ → ℕ → List α × WalkEnd ε
  | 0, _ => ([], .running)
  | fuel + 1, position =>
      if position = high then ([], .finished)
      else
        match page position with
        | .error error => ([], .failed error)
        | .ok (items, next) =>
            let rest := walk page high fuel next
            (items ++ rest.1, rest.2)

/-- The items numbered from `first` on and below `stop`. -/
def itemsWithin (key : β → ℕ) (items : List β) (first stop : ℕ) : List β :=
  items.filter fun item ↦ decide (first ≤ key item ∧ key item < stop)

/-- Every page below `high` goes on and holds what lies before its end, or fails
in an expected way. -/
structure Pages (page : ℕ → Except ε (List α × ℕ)) (view : α → β) (key : β → ℕ) (items : List β)
    (low high : ℕ) (Expected : ε → Prop) : Prop where
  sorted : items.Pairwise fun a b ↦ key a < key b
  page : ∀ position, low ≤ position → position < high →
    (∃ error, page position = .error error ∧ Expected error) ∨
      ∃ found next, page position = .ok (found, next) ∧ position < next ∧ next ≤ high ∧
        found.map view = itemsWithin key items position next

theorem itemsWithin_append {key : β → ℕ} {items : List β}
    (hsorted : items.Pairwise fun a b ↦ key a < key b) {first middle stop : ℕ}
    (hfirst : first ≤ middle) (hstop : middle ≤ stop) :
    itemsWithin key items first middle ++ itemsWithin key items middle stop =
      itemsWithin key items first stop := by
  induction items with
  | nil => rfl
  | cons item items ih =>
      obtain ⟨hitem, hrest⟩ := List.pairwise_cons.mp hsorted
      have ih := ih hrest
      simp only [itemsWithin, List.filter_cons, decide_eq_true_eq] at ih ⊢
      by_cases hbelow : key item < middle
      · rw [if_neg (show ¬ (middle ≤ key item ∧ key item < stop) by omega)]
        by_cases hin : first ≤ key item
        · rw [if_pos ⟨hin, hbelow⟩, if_pos ⟨hin, hbelow.trans_le hstop⟩, List.cons_append, ih]
        · rw [if_neg (fun h ↦ hin h.1), if_neg (fun h ↦ hin h.1), ih]
      · -- No later item lies below the middle either.
        have hnone : (items.filter fun other ↦ decide (first ≤ key other ∧ key other < middle)) =
            [] := by
          rw [List.filter_eq_nil_iff]
          intro other hother
          have hlt := hitem other hother
          simp
          omega
        rw [hnone, List.nil_append] at ih
        rw [if_neg (fun h ↦ hbelow h.2), hnone, List.nil_append, ih]
        by_cases hin : key item < stop
        · rw [if_pos ⟨not_lt.mp hbelow, hin⟩, if_pos ⟨hfirst.trans (not_lt.mp hbelow), hin⟩]
        · rw [if_neg (fun h ↦ hin h.2), if_neg (fun h ↦ hin h.2)]

/-- The first items from a position on are those up to the last of them. -/
theorem take_eq_itemsWithin {key : β → ℕ} {items : List β}
    (hsorted : items.Pairwise fun a b ↦ key a < key b) {first count : ℕ} {last : β}
    (hlast : ((items.filter fun item ↦ first ≤ key item).take count).getLast? = some last) :
    (items.filter fun item ↦ first ≤ key item).take count =
      itemsWithin key items first (key last + 1) := by
  set behind := items.filter fun item ↦ first ≤ key item with hbehind
  have hpairs : behind.Pairwise fun a b ↦ key a < key b := hsorted.filter _
  have hwithin : itemsWithin key items first (key last + 1) =
      behind.filter fun item ↦ key item < key last + 1 := by
    rw [itemsWithin, hbehind, List.filter_filter]
    refine List.filter_congr fun item _ ↦ ?_
    rw [Bool.decide_and, Bool.and_comm]
  rw [← List.take_append_drop count behind, List.pairwise_append] at hpairs
  obtain ⟨hfront, -, hacross⟩ := hpairs
  have hmem : last ∈ behind.take count := List.mem_of_getLast? hlast
  have htaken : ((behind.take count).filter fun item ↦ key item < key last + 1) =
      behind.take count := by
    rw [List.filter_eq_self]
    intro item hitem
    obtain ⟨front, hsplit⟩ := List.getLast?_eq_some_iff.mp hlast
    rw [hsplit, List.mem_append, List.mem_singleton] at hitem
    rw [hsplit, List.pairwise_append] at hfront
    rcases hitem with hitem | rfl
    · have hlt := hfront.2.2 item hitem last (List.mem_singleton.mpr rfl)
      simpa using hlt.le
    · simp
  have hdropped : ((behind.drop count).filter fun item ↦ key item < key last + 1) = [] := by
    rw [List.filter_eq_nil_iff]
    intro item hitem
    have hlt := hacross last hmem item hitem
    simpa using hlt
  rw [hwithin]
  conv_rhs => rw [← List.take_append_drop count behind, List.filter_append, htaken, hdropped]
  rw [List.append_nil]

/-- A walk returns every item once, in order, or stops with an expected failure
behind a part of them. -/
theorem Pages.walk {page : ℕ → Except ε (List α × ℕ)} {view : α → β} {key : β → ℕ}
    {items : List β} {low high : ℕ} {Expected : ε → Prop}
    (h : Pages page view key items low high Expected) :
    ∀ fuel position, low ≤ position → position ≤ high → high - position < fuel →
      ((Lib.walk page high fuel position).2 = .finished ∧
          (Lib.walk page high fuel position).1.map view = itemsWithin key items position high) ∨
        ∃ error stop, (Lib.walk page high fuel position).2 = .failed error ∧ Expected error ∧
          position ≤ stop ∧ stop < high ∧
          (Lib.walk page high fuel position).1.map view = itemsWithin key items position stop := by
  have hempty : ∀ position, itemsWithin key items position position = [] := by
    intro position
    rw [itemsWithin, List.filter_eq_nil_iff]
    intro item _
    simp
  intro fuel
  induction fuel with
  | zero => exact fun position _ _ hfuel ↦ absurd hfuel (Nat.not_lt_zero _)
  | succ fuel ih =>
      intro position hlow hhigh hfuel
      rw [Lib.walk]
      by_cases hend : position = high
      · rw [if_pos hend, hend]
        exact Or.inl ⟨rfl, (hempty high).symm⟩
      · rw [if_neg hend]
        have hlt : position < high := by omega
        rcases h.page position hlow hlt with
          ⟨error, hpage, hexpected⟩ | ⟨found, next, hpage, hnext, hle, hfound⟩
        · simp only [hpage]
          exact Or.inr ⟨error, position, rfl, hexpected, le_rfl, hlt, (hempty position).symm⟩
        · simp only [hpage, List.map_append, hfound]
          rcases ih next (by omega) hle (by omega) with
            ⟨hfinished, hitems⟩ | ⟨error, stop, hfailed, hexpected, hbehind, hstop, hitems⟩
          · refine Or.inl ⟨hfinished, ?_⟩
            rw [hitems, itemsWithin_append h.sorted hnext.le hle]
          · refine Or.inr ⟨error, stop, hfailed, hexpected, hnext.le.trans hbehind, hstop, ?_⟩
            rw [hitems, itemsWithin_append h.sorted hnext.le hbehind]

end BoltStream.Lib
