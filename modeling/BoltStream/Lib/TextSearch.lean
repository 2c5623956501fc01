import Mathlib.Tactic

/-!
# Searching a text

A search leaves what follows the first occurrence.  Strings between two quotes
are found by going from quote to quote.
-/

namespace BoltStream.Lib

variable {α : Type*} [DecidableEq α]

/-- What follows the first occurrence of a string. -/
def after (needle : List α) : List α → Option (List α)
  | [] => if needle = [] then some [] else none
  | symbol :: text =>
      if needle <+: symbol :: text then some ((symbol :: text).drop needle.length)
      else after needle text

/-- What stands in front of a symbol that occurs. -/
def upTo (symbol : α) (text : List α) : Option (List α) :=
  if symbol ∈ text then some (text.takeWhile (· ≠ symbol)) else none

theorem after_front {needle rest : List α} (hne : needle ≠ []) :
    after needle (needle ++ rest) = some rest := by
  cases needle with
  | nil => exact absurd rfl hne
  | cons symbol needle =>
      rw [List.cons_append, after, if_pos ⟨rest, rfl⟩, ← List.cons_append, List.drop_left]

/-- A symbol is found behind a part without it. -/
theorem after_symbol {symbol : α} {front rest : List α} (h : symbol ∉ front) :
    after [symbol] (front ++ symbol :: rest) = some rest := by
  induction front with
  | nil => exact after_front (List.cons_ne_nil symbol [])
  | cons other front ih =>
      rw [List.mem_cons, not_or] at h
      rw [List.cons_append, after, if_neg]
      · exact ih h.2
      · rintro ⟨behind, hbehind⟩
        exact h.1 (List.cons.inj hbehind).1

theorem upTo_symbol {symbol : α} {front rest : List α} (h : symbol ∉ front) :
    upTo symbol (front ++ symbol :: rest) = some front := by
  rw [upTo, if_pos (List.mem_append_right _ List.mem_cons_self)]
  refine congrArg some ?_
  rw [List.takeWhile_append_of_pos, List.takeWhile_cons_of_neg (by simp), List.append_nil]
  intro other hother
  rw [decide_eq_true_eq]
  rintro rfl
  exact h hother

section Quoted

variable {quote : α} {name : List α}

/-- A part without quotes is passed over. -/
theorem after_quoted_skip {front rest : List α} (h : quote ∉ front) :
    after (quote :: (name ++ [quote])) (front ++ rest) =
      after (quote :: (name ++ [quote])) rest := by
  induction front with
  | nil => rfl
  | cons other front ih =>
      rw [List.mem_cons, not_or] at h
      rw [List.cons_append, after, if_neg]
      · exact ih h.2
      · rintro ⟨behind, hbehind⟩
        exact h.1 (List.cons.inj hbehind).1

/-- Two strings without quotes that are each followed by one. -/
theorem eq_of_quoted {left right rest rest' : List α} (hleft : quote ∉ left)
    (hright : quote ∉ right) (h : left ++ quote :: rest = right ++ quote :: rest') :
    left = right := by
  have hup := @upTo_symbol α _ quote left rest hleft
  rw [h, upTo_symbol hright] at hup
  exact (Option.some.inj hup).symm

/-- The string that is searched. -/
theorem after_quoted_found (rest : List α) :
    after (quote :: (name ++ [quote])) (quote :: (name ++ quote :: rest)) = some rest := by
  have hfound := @after_front α _ (quote :: (name ++ [quote])) rest (List.cons_ne_nil _ _)
  rwa [List.cons_append, List.append_assoc] at hfound

/-- Another string is passed over up to its second quote. -/
theorem after_quoted_other (hname : quote ∉ name) {other rest : List α} (hother : quote ∉ other)
    (hne : other ≠ name) :
    after (quote :: (name ++ [quote])) (quote :: (other ++ quote :: rest)) =
      after (quote :: (name ++ [quote])) (quote :: rest) := by
  rw [after, if_neg, after_quoted_skip hother]
  rintro ⟨behind, hbehind⟩
  rw [List.cons_append] at hbehind
  have htail := (List.cons.inj hbehind).2
  rw [List.append_assoc] at htail
  exact hne (eq_of_quoted hname hother htail).symm

end Quoted

end BoltStream.Lib
