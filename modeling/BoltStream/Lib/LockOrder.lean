import Mathlib.Order.WellFounded
import BoltStream.Lib.Runs

/-!
# Scoped locks that are taken in an order

Threads run code in which a lock is held for the time of a block.  Between taking
and giving back locks nothing is followed: a branch may go either way, a loop may
end after any round, and an exception may leave any block, which gives back its lock.
When every block takes a lock of higher rank than those around it, no threads wait
for each other in a circle.
-/

namespace BoltStream.Lib

inductive LockCode (L : Type*) where
  | done
  | locked (lock : L) (body : LockCode L)
  | andThen (first second : LockCode L)
  | orElse (first second : LockCode L)
  | repeated (body : LockCode L)
  deriving DecidableEq, Repr

namespace LockCode

variable {L : Type*}

/-- Takes a lock and gives it back. -/
def touch (lock : L) : LockCode L := .locked lock .done

/-- The same for each of several things, in turn. -/
def each {α : Type*} (items : List α) (body : α → LockCode L) : LockCode L :=
  items.foldr (fun item rest ↦ .andThen (body item) rest) .done

/-- One after the other. -/
def inTurn (codes : List (LockCode L)) : LockCode L := each codes id

end LockCode

/-- What a thread has still to do, the next first. -/
inductive LockFrame (L : Type*) where
  | run (code : LockCode L)
  | release (lock : L)
  deriving DecidableEq, Repr

structure LockState (T L : Type*) where
  frames : T → List (LockFrame L)
  holder : L → Option T

inductive LockMove (O : Type*) where
  | start (operation : O)
  | go
  /-- Takes the second branch. -/
  | turn
  /-- Skips the code that comes next, for a branch without code, the end of a loop or an
  exception. -/
  | leave
  deriving DecidableEq, Repr

namespace LockState

variable {T L O : Type*} [DecidableEq T] [DecidableEq L]

def setStack (s : LockState T L) (thread : T) (stack : List (LockFrame L)) : LockState T L :=
  { s with frames := Function.update s.frames thread stack }

def setHolder (s : LockState T L) (lock : L) (holder : Option T) : LockState T L :=
  { s with holder := Function.update s.holder lock holder }

/-- One move of a thread.  There is none while it waits for a lock. -/
def step (code : O → LockCode L) (s : LockState T L) (event : T × LockMove O) :
    Option (LockState T L) :=
  match event.2, s.frames event.1 with
  | .start operation, [] => some (s.setStack event.1 [.run (code operation)])
  | .go, .run .done :: rest => some (s.setStack event.1 rest)
  | .go, .run (.locked lock body) :: rest =>
      if s.holder lock = none then
        some ((s.setHolder lock (some event.1)).setStack event.1
          (.run body :: .release lock :: rest))
      else none
  | .go, .run (.andThen first second) :: rest =>
      some (s.setStack event.1 (.run first :: .run second :: rest))
  | .go, .run (.orElse first _) :: rest => some (s.setStack event.1 (.run first :: rest))
  | .turn, .run (.orElse _ second) :: rest => some (s.setStack event.1 (.run second :: rest))
  | .go, .run (.repeated body) :: rest =>
      some (s.setStack event.1 (.run body :: .run (.repeated body) :: rest))
  | .go, .release lock :: rest => some ((s.setHolder lock none).setStack event.1 rest)
  | .leave, .run _ :: rest => some (s.setStack event.1 rest)
  | _, _ => none

def initial : LockState T L := ⟨fun _ ↦ [], fun _ ↦ none⟩

/-- The thread comes to a lock next. -/
def WaitsFor (s : LockState T L) (thread : T) (lock : L) : Prop :=
  ∃ body rest, s.frames thread = .run (.locked lock body) :: rest

/-- Each of the threads waits for a lock that one of them holds. -/
def Deadlocked (s : LockState T L) (threads : Set T) : Prop :=
  threads.Nonempty ∧ ∀ thread ∈ threads, ∃ lock, s.WaitsFor thread lock ∧
    ∃ other ∈ threads, s.holder lock = some other

end LockState

/-! ## The order -/

section Order

variable {L R : Type*} [LT R] (rank : L → R)

/-- Every lock that the code takes ranks above those that are held then. -/
def LockCode.Ordered : List L → LockCode L → Prop
  | _, .done => True
  | held, .locked lock body => (∀ h ∈ held, rank h < rank lock) ∧ Ordered (lock :: held) body
  | held, .andThen first second => Ordered held first ∧ Ordered held second
  | held, .orElse first second => Ordered held first ∧ Ordered held second
  | held, .repeated body => Ordered held body

def heldBy : List (LockFrame L) → List L
  | [] => []
  | .run _ :: rest => heldBy rest
  | .release lock :: rest => lock :: heldBy rest

def StackOrdered : List (LockFrame L) → Prop
  | [] => True
  | .run code :: rest => code.Ordered rank (heldBy rest) ∧ StackOrdered rest
  | .release lock :: rest => (∀ h ∈ heldBy rest, rank h < rank lock) ∧ StackOrdered rest

variable {rank}

@[simp] theorem LockCode.ordered_touch {held : List L} {lock : L} :
    (LockCode.touch lock).Ordered rank held ↔ ∀ h ∈ held, rank h < rank lock := by
  simp [touch, Ordered]

@[simp] theorem LockCode.ordered_each {α : Type*} {items : List α} {body : α → LockCode L}
    {held : List L} :
    (LockCode.each items body).Ordered rank held ↔
      ∀ item ∈ items, (body item).Ordered rank held := by
  induction items with
  | nil => simp [each, Ordered]
  | cons item items ih =>
      rw [List.forall_mem_cons, ← ih]
      rfl

@[simp] theorem LockCode.ordered_inTurn {codes : List (LockCode L)} {held : List L} :
    (LockCode.inTurn codes).Ordered rank held ↔ ∀ code ∈ codes, code.Ordered rank held :=
  ordered_each

end Order

namespace LockState

section Invariant

variable {T L O R : Type*} [Preorder R] {rank : L → R} {s t : LockState T L}

/-- Locks are held by those that will give them back, in the order of their ranks. -/
structure InOrder (rank : L → R) (s : LockState T L) : Prop where
  holder : ∀ thread lock, s.holder lock = some thread ↔ lock ∈ heldBy (s.frames thread)
  ordered : ∀ thread, StackOrdered rank (s.frames thread)

theorem inOrder_initial : InOrder rank (initial : LockState T L) := by
  refine ⟨fun thread lock ↦ ?_, fun thread ↦ trivial⟩
  simp [initial, heldBy]

variable [DecidableEq T]

/-- A thread goes on with the locks it has. -/
theorem InOrder.setStack (h : InOrder rank s) {thread : T} {stack : List (LockFrame L)}
    (hheld : heldBy stack = heldBy (s.frames thread)) (hordered : StackOrdered rank stack) :
    InOrder rank (s.setStack thread stack) := by
  refine ⟨fun other lock ↦ ?_, fun other ↦ ?_⟩
  · by_cases heq : other = thread
    · subst heq
      simp only [LockState.setStack, Function.update_self, hheld]
      exact h.holder other lock
    · simp only [LockState.setStack, Function.update_of_ne heq]
      exact h.holder other lock
  · by_cases heq : other = thread
    · subst heq
      simp only [LockState.setStack, Function.update_self]
      exact hordered
    · simp only [LockState.setStack, Function.update_of_ne heq]
      exact h.ordered other

variable [DecidableEq L]

theorem InOrder.acquire (h : InOrder rank s) {thread : T} {lock : L} {body : LockCode L}
    {rest : List (LockFrame L)} (hstack : s.frames thread = .run (.locked lock body) :: rest)
    (hfree : s.holder lock = none) :
    InOrder rank ((s.setHolder lock (some thread)).setStack thread
      (.run body :: .release lock :: rest)) := by
  have hordered := h.ordered thread
  rw [hstack] at hordered
  obtain ⟨⟨habove, hbody⟩, hrest⟩ := hordered
  refine ⟨fun other l ↦ ?_, fun other ↦ ?_⟩
  · have hold := h.holder other l
    by_cases heq : other = thread
    · subst heq
      rw [hstack] at hold
      by_cases hl : l = lock
      · simp [LockState.setStack, setHolder, heldBy, hl]
      · simp only [LockState.setStack, setHolder, Function.update_self, Function.update_of_ne hl,
          heldBy, List.mem_cons, hl, false_or]
        exact hold
    · by_cases hl : l = lock
      · subst hl
        rw [hfree] at hold
        simp only [LockState.setStack, setHolder, Function.update_self, Function.update_of_ne heq,
          ← hold, Option.some.injEq, Ne.symm heq, reduceCtorEq]
      · simp only [LockState.setStack, setHolder, Function.update_of_ne heq,
          Function.update_of_ne hl]
        exact hold
  · by_cases heq : other = thread
    · subst heq
      simp only [LockState.setStack, Function.update_self]
      exact ⟨hbody, habove, hrest⟩
    · simp only [LockState.setStack, setHolder, Function.update_of_ne heq]
      exact h.ordered other

theorem InOrder.release (h : InOrder rank s) {thread : T} {lock : L}
    {rest : List (LockFrame L)} (hstack : s.frames thread = .release lock :: rest) :
    InOrder rank ((s.setHolder lock none).setStack thread rest) := by
  have hordered := h.ordered thread
  rw [hstack] at hordered
  obtain ⟨habove, hrest⟩ := hordered
  have hheld : s.holder lock = some thread := by
    rw [h.holder, hstack]
    exact List.mem_cons_self
  refine ⟨fun other l ↦ ?_, fun other ↦ ?_⟩
  · have hold := h.holder other l
    by_cases heq : other = thread
    · subst heq
      rw [hstack] at hold
      by_cases hl : l = lock
      · subst hl
        -- A lock is in a stack once, since ranks fall from one to the next.
        have hnot : l ∉ heldBy rest := fun hmem ↦ lt_irrefl _ (habove l hmem)
        simp [LockState.setStack, setHolder, hnot]
      · simp only [heldBy, List.mem_cons, hl, false_or] at hold
        simp only [LockState.setStack, setHolder, Function.update_self, Function.update_of_ne hl]
        exact hold
    · by_cases hl : l = lock
      · subst hl
        rw [hheld] at hold
        simp only [LockState.setStack, setHolder, Function.update_self, Function.update_of_ne heq,
          ← hold, Option.some.injEq, Ne.symm heq, reduceCtorEq]
      · simp only [LockState.setStack, setHolder, Function.update_of_ne heq,
          Function.update_of_ne hl]
        exact hold
  · by_cases heq : other = thread
    · subst heq
      simp only [LockState.setStack, Function.update_self]
      exact hrest
    · simp only [LockState.setStack, setHolder, Function.update_of_ne heq]
      exact h.ordered other

theorem InOrder.step (h : InOrder rank s) {code : O → LockCode L}
    (hcode : ∀ operation, (code operation).Ordered rank []) {event : T × LockMove O}
    (hstep : s.step code event = some t) : InOrder rank t := by
  obtain ⟨thread, move⟩ := event
  have hordered := h.ordered thread
  rw [LockState.step] at hstep
  split at hstep
  case h_1 operation hmove hstack =>
    obtain rfl := Option.some.inj hstep
    refine h.setStack ?_ ⟨hcode operation, trivial⟩
    rw [hstack]
    rfl
  case h_2 rest hmove hstack =>
    obtain rfl := Option.some.inj hstep
    rw [hstack] at hordered
    exact h.setStack (hstack ▸ rfl) hordered.2
  case h_3 lock body rest hmove hstack =>
    split_ifs at hstep with hfree
    obtain rfl := Option.some.inj hstep
    exact h.acquire hstack hfree
  case h_4 first second rest hmove hstack =>
    obtain rfl := Option.some.inj hstep
    rw [hstack] at hordered
    exact h.setStack (hstack ▸ rfl) ⟨hordered.1.1, hordered.1.2, hordered.2⟩
  case h_5 first second rest hmove hstack =>
    obtain rfl := Option.some.inj hstep
    rw [hstack] at hordered
    exact h.setStack (hstack ▸ rfl) ⟨hordered.1.1, hordered.2⟩
  case h_6 first second rest hmove hstack =>
    obtain rfl := Option.some.inj hstep
    rw [hstack] at hordered
    exact h.setStack (hstack ▸ rfl) ⟨hordered.1.2, hordered.2⟩
  case h_7 body rest hmove hstack =>
    obtain rfl := Option.some.inj hstep
    rw [hstack] at hordered
    exact h.setStack (hstack ▸ rfl) ⟨hordered.1, hordered.1, hordered.2⟩
  case h_8 lock rest hmove hstack =>
    obtain rfl := Option.some.inj hstep
    exact h.release hstack
  case h_9 next rest hmove hstack =>
    obtain rfl := Option.some.inj hstep
    rw [hstack] at hordered
    exact h.setStack (hstack ▸ rfl) hordered.2
  case h_10 => cases hstep

theorem inOrder_run {code : O → LockCode L}
    (hcode : ∀ operation, (code operation).Ordered rank []) {events : List (T × LockMove O)}
    (hrun : run (LockState.step code) initial events = some s) : InOrder rank s :=
  run_invariant (fun _ _ ↦ True) (InOrder rank) (fun _ _ _ _ hstep h ↦ h.step hcode hstep)
    (along_of_forall (fun _ _ _ ↦ trivial) _) hrun inOrder_initial

end Invariant

/-- Whoever waits in a circle would wait for locks of ever higher rank. -/
theorem InOrder.not_deadlocked {T L R : Type*} [Preorder R] [WellFoundedGT R] {rank : L → R}
    {s : LockState T L} (h : InOrder rank s) (threads : Set T) : ¬s.Deadlocked threads := by
  rintro ⟨⟨first, hfirst⟩, hwaits⟩
  -- A lock of the highest rank that one of them waits for.
  let awaited : Set R := {r | ∃ thread ∈ threads, ∃ lock, s.WaitsFor thread lock ∧
    (∃ other ∈ threads, s.holder lock = some other) ∧ rank lock = r}
  obtain ⟨lock, hlock, hheld⟩ := hwaits first hfirst
  have hne : awaited.Nonempty := ⟨rank lock, first, hfirst, lock, hlock, hheld, rfl⟩
  obtain ⟨r, ⟨thread, -, top, -, ⟨other, hother, hholder⟩, rfl⟩, hmax⟩ :=
    (wellFounded_gt (α := R)).has_min awaited hne
  obtain ⟨next, ⟨body, rest, hstack⟩, hnext⟩ := hwaits other hother
  have hordered := h.ordered other
  have hmem := (h.holder other top).mp hholder
  rw [hstack] at hordered hmem
  exact hmax (rank next) ⟨other, hother, next, ⟨body, rest, hstack⟩, hnext, rfl⟩
    (hordered.1.1 top hmem)

end LockState

end BoltStream.Lib
