import BoltStream.Lib.Runs
import BoltStream.Lib.SortedMap
import Mathlib.Data.Multiset.AddSub
import Mathlib.Tactic.Abel

/-!
# Long-poll slots

The runtime keeps the waiters of all sessions in one map, and beside it a counter
that registrations check against the limit.  Each operation is one section under
`waiters_mutex_`; a notification runs the callbacks it has taken out when it has
left the mutex.
-/

namespace BoltStream.Broker

open BoltStream.Lib

/-- A `FetchWaiter` of the runtime. -/
structure StoredWaiter (C : Type*) where
  id : ℕ
  callback : C

/-- The topic and the partition of a `WaiterKey`, in their order. -/
abbrev WaiterMapKey := Bytes ×ₗ ℕ

/-- `active_long_poll_waiters_`, and whether `min` has ever kept it from falling
below zero. -/
structure PollCount where
  active : ℕ := 0
  clamped : Bool := false

def PollCount.decrease (count : PollCount) (removed : ℕ) : PollCount :=
  { active := count.active - min removed count.active
    clamped := count.clamped || decide (count.active < removed) }

structure WaiterState (C : Type*) where
  waiters : SortedMap WaiterMapKey (List (StoredWaiter C))
  count : PollCount
  nextWaiterId : ℕ
  /-- The callbacks that each notification behind the mutex has still to run. -/
  running : List (List (StoredWaiter C))
  /-- The registrations, and the waiters that were taken out by a notification or
  cancelled, in order. -/
  issued : List (StoredWaiter C)
  taken : List (StoredWaiter C)
  cancelled : List (StoredWaiter C)
  /-- The waiters whose callbacks were run. -/
  ran : List (StoredWaiter C)

inductive WaiterEvent (C : Type*) where
  | registerFetchWaiter (topic : Bytes) (partition : ℕ) (callback : C)
  | cancelFetchWaiter (waiterId : ℕ)
  | notifyFetchWaiters (topic : Bytes) (partition : ℕ)
  | notifyTopicWaiters (topic : Bytes)
  /-- A notification runs the next of its callbacks. -/
  | runCallback (notification : ℕ)

namespace WaiterState

variable {C : Type*}

def initial : WaiterState C :=
  { waiters := ∅
    count := {}
    nextWaiterId := 1
    running := []
    issued := []
    taken := []
    cancelled := []
    ran := [] }

/-- The waiters in `waiters_`, key by key. -/
def registered (s : WaiterState C) : List (StoredWaiter C) := s.waiters.entries.flatMap Prod.snd

/-- A request beyond the limit gets no id. -/
def registerFetchWaiter (maxLongPollWaiters : UInt32) (s : WaiterState C) (topic : Bytes)
    (partition : ℕ) (callback : C) : WaiterState C :=
  if s.count.active ≥ maxLongPollWaiters.toNat then s
  else
    let key : WaiterMapKey := toLex (topic, partition)
    let waiter : StoredWaiter C := ⟨s.nextWaiterId, callback⟩
    { s with
        waiters := s.waiters.insert key ((s.waiters.find? key).getD [] ++ [waiter])
        count := { s.count with active := s.count.active + 1 }
        nextWaiterId := (s.nextWaiterId + 1) % 2 ^ 64
        issued := s.issued ++ [waiter] }

/-- The loop over all keys.  A key without callbacks is erased, and the counter
follows key by key. -/
def cancelFetchWaiter (s : WaiterState C) (waiterId : ℕ) : WaiterState C :=
  { s with
      waiters := s.waiters.filterMapValues fun _ callbacks ↦
        let left := callbacks.filter fun waiter ↦ waiter.id ≠ waiterId
        if left.isEmpty then none else some left
      count := s.waiters.entries.foldl (fun count entry ↦
        count.decrease (entry.2.countP fun waiter ↦ waiter.id = waiterId)) s.count
      cancelled := s.cancelled ++ s.registered.filter fun waiter ↦ waiter.id = waiterId }

/-- The notification of one partition. -/
def notifyFetchWaiters (s : WaiterState C) (topic : Bytes) (partition : ℕ) : WaiterState C :=
  let key : WaiterMapKey := toLex (topic, partition)
  match s.waiters.find? key with
  | none => s
  | some waiters =>
      { s with
          waiters := s.waiters.erase key
          count := s.count.decrease waiters.length
          running := s.running ++ [waiters]
          taken := s.taken ++ waiters }

/-- The notification of all partitions of a topic. -/
def notifyTopicWaiters (s : WaiterState C) (topic : Bytes) : WaiterState C :=
  let found := s.waiters.entries.filter fun entry ↦ (ofLex entry.1).1 = topic
  { s with
      waiters := s.waiters.filter fun key _ ↦ (ofLex key).1 ≠ topic
      count := found.foldl (fun count entry ↦ count.decrease entry.2.length) s.count
      running := s.running ++ [found.flatMap Prod.snd]
      taken := s.taken ++ found.flatMap Prod.snd }

def runCallback (s : WaiterState C) (notification : ℕ) : Option (WaiterState C) :=
  match s.running[notification]? with
  | some (waiter :: rest) =>
      some { s with
        running := s.running.set notification rest
        ran := s.ran ++ [waiter] }
  | _ => none

def step (maxLongPollWaiters : UInt32) (s : WaiterState C) :
    WaiterEvent C → Option (WaiterState C)
  | .registerFetchWaiter topic partition callback =>
      some (s.registerFetchWaiter maxLongPollWaiters topic partition callback)
  | .cancelFetchWaiter waiterId => some (s.cancelFetchWaiter waiterId)
  | .notifyFetchWaiters topic partition => some (s.notifyFetchWaiters topic partition)
  | .notifyTopicWaiters topic => some (s.notifyTopicWaiters topic)
  | .runCallback notification => s.runCallback notification

/-! ## The counter -/

theorem foldl_decrease {α : Type*} (size : α → ℕ) (entries : List α) (count : PollCount)
    (h : (entries.map size).sum ≤ count.active) :
    entries.foldl (fun count entry ↦ count.decrease (size entry)) count =
      { count with active := count.active - (entries.map size).sum } := by
  induction entries generalizing count with
  | nil => rfl
  | cons entry rest ih =>
      rw [List.map_cons, List.sum_cons] at h ⊢
      have hfirst : count.decrease (size entry) =
          { count with active := count.active - size entry } := by
        simp only [PollCount.decrease, min_eq_left (show size entry ≤ count.active by omega)]
        rw [decide_eq_false (by omega), Bool.or_false]
      rw [List.foldl_cons, hfirst, ih _ (by dsimp only; omega)]
      dsimp only
      rw [Nat.sub_sub]

/-! ## The invariant -/

/-- Whatever has happened to the waiters, the counter counts those in the map, and
every registration is accounted for. -/
structure Accounted (maxLongPollWaiters : UInt32) (s : WaiterState C) : Prop where
  active : s.count.active = s.registered.length
  limit : s.count.active ≤ maxLongPollWaiters.toNat
  clamped : s.count.clamped = false
  nonempty : ∀ key, s.waiters.find? key ≠ some []
  fates : s.issued.Perm (s.registered ++ (s.taken ++ s.cancelled))
  callbacks : s.taken.Perm (s.ran ++ s.running.flatten)

/-- Ids are handed out in turn. -/
structure InTurn (s : WaiterState C) : Prop where
  ids : s.issued.map StoredWaiter.id = (List.range s.issued.length).map fun n ↦ (n + 1) % 2 ^ 64
  next : s.nextWaiterId = (s.issued.length + 1) % 2 ^ 64

variable {s t : WaiterState C} {maxLongPollWaiters : UInt32}

theorem accounted_initial : (initial : WaiterState C).Accounted maxLongPollWaiters :=
  { active := rfl
    limit := Nat.zero_le _
    clamped := rfl
    nonempty := fun _ ↦ nofun
    fates := List.Perm.refl _
    callbacks := List.Perm.refl _ }

theorem Accounted.registerFetchWaiter (h : s.Accounted maxLongPollWaiters) (topic : Bytes)
    (partition : ℕ) (callback : C) :
    (s.registerFetchWaiter maxLongPollWaiters topic partition callback).Accounted
      maxLongPollWaiters := by
  rw [WaiterState.registerFetchWaiter]
  split_ifs with hlimit
  · exact h
  set key : WaiterMapKey := toLex (topic, partition)
  set waiter : StoredWaiter C := ⟨s.nextWaiterId, callback⟩
  set old := (s.waiters.find? key).getD [] with hold
  have hregistered : ((s.waiters.insert key (old ++ [waiter])).entries.flatMap Prod.snd).Perm
      (waiter :: s.registered) := by
    have hbefore : s.registered.Perm (old ++ (s.waiters.erase key).entries.flatMap Prod.snd) := by
      cases hfind : s.waiters.find? key with
      | none =>
          have hsame : s.waiters.erase key = s.waiters := by
            refine SortedMap.ext fun other ↦ ?_
            rw [SortedMap.find?_erase]
            split_ifs with hother
            · rw [hother, hfind]
            · rfl
          rw [hold, hfind, hsame]
          exact List.Perm.refl _
      | some callbacks =>
          rw [hold, hfind]
          exact (SortedMap.entries_perm_cons_erase hfind).flatMap_right _
    have hinsert := (SortedMap.entries_insert_perm s.waiters key (old ++ [waiter])).flatMap_right
      (fun entry : WaiterMapKey × List (StoredWaiter C) ↦ entry.2)
    refine hinsert.trans ?_
    rw [List.flatMap_cons, List.append_assoc, List.singleton_append]
    exact List.perm_middle.trans (hbefore.symm.cons waiter)
  refine ⟨?_, ?_, h.clamped, fun other hother ↦ ?_, ?_, h.callbacks⟩
  · rw [WaiterState.registered, hregistered.length_eq, List.length_cons, ← h.active]
  · exact Nat.lt_of_not_le hlimit
  · rw [SortedMap.find?_insert] at hother
    split_ifs at hother
    · simp at hother
    · exact h.nonempty other hother
  · refine (List.perm_append_singleton waiter s.issued).trans ((h.fates.cons waiter).trans ?_)
    exact (hregistered.append_right _).symm

theorem Accounted.cancelFetchWaiter (h : s.Accounted maxLongPollWaiters) (waiterId : ℕ) :
    (s.cancelFetchWaiter waiterId).Accounted maxLongPollWaiters := by
  have hregistered : (s.cancelFetchWaiter waiterId).registered =
      s.registered.filter fun waiter ↦ waiter.id ≠ waiterId := by
    simp only [WaiterState.registered, WaiterState.cancelFetchWaiter, SortedMap.filterMapValues]
    induction s.waiters.entries with
    | nil => rfl
    | cons entry rest ih =>
        rw [List.flatMap_cons, List.filter_append, ← ih, List.filterMap_cons]
        cases hleft : entry.2.filter fun waiter ↦ decide (waiter.id ≠ waiterId) with
        | nil => simp
        | cons waiter left => simp
  have hgone : (s.waiters.entries.map fun entry ↦
      entry.2.countP fun waiter ↦ decide (waiter.id = waiterId)).sum =
        s.registered.countP fun waiter ↦ decide (waiter.id = waiterId) := by
    rw [WaiterState.registered, List.countP_flatMap]
    rfl
  have hsplit := s.registered.length_eq_countP_add_countP fun waiter ↦ decide (waiter.id = waiterId)
  have hcount : (s.cancelFetchWaiter waiterId).count =
      { s.count with active := s.count.active -
          s.registered.countP fun waiter ↦ decide (waiter.id = waiterId) } := by
    rw [← hgone]
    refine foldl_decrease _ _ _ ?_
    rw [hgone, h.active]
    exact List.countP_le_length
  refine ⟨?_, ?_, ?_, fun key hkey ↦ ?_, ?_, h.callbacks⟩
  · rw [hcount, hregistered, ← List.countP_eq_length_filter, h.active]
    refine Nat.sub_eq_of_eq_add' (hsplit.trans ?_)
    simp
  · rw [hcount]
    exact (Nat.sub_le _ _).trans h.limit
  · rw [hcount]
    exact h.clamped
  · rw [WaiterState.cancelFetchWaiter, SortedMap.find?_filterMapValues] at hkey
    obtain ⟨callbacks, -, hleft⟩ := Option.bind_eq_some_iff.mp hkey
    dsimp only at hleft
    split_ifs at hleft with hempty
    exact hempty (by rw [Option.some.inj hleft]; rfl)
  · rw [hregistered]
    refine h.fates.trans ?_
    have hparts := (List.filter_append_perm (fun waiter : StoredWaiter C ↦
      decide (waiter.id = waiterId)) s.registered).symm
    simp only [← decide_not] at hparts
    rw [← Multiset.coe_eq_coe] at hparts ⊢
    simp only [WaiterState.cancelFetchWaiter, ← Multiset.coe_add] at hparts ⊢
    rw [hparts]
    abel

theorem Accounted.notifyFetchWaiters (h : s.Accounted maxLongPollWaiters) (topic : Bytes)
    (partition : ℕ) : (s.notifyFetchWaiters topic partition).Accounted maxLongPollWaiters := by
  rw [WaiterState.notifyFetchWaiters]
  cases hfind : s.waiters.find? (toLex (topic, partition)) with
  | none => exact h
  | some waiters =>
      have hregistered : s.registered.Perm
          (waiters ++ (s.waiters.erase (toLex (topic, partition))).entries.flatMap Prod.snd) :=
        (SortedMap.entries_perm_cons_erase hfind).flatMap_right _
      have hlength := hregistered.length_eq
      rw [List.length_append, ← h.active] at hlength
      have hcount := foldl_decrease List.length [waiters] s.count (by simp; omega)
      simp only [List.foldl_cons, List.foldl_nil, List.map_cons, List.map_nil, List.sum_cons,
        List.sum_nil, Nat.add_zero] at hcount
      dsimp only
      refine ⟨?_, ?_, ?_, fun other hother ↦ ?_, ?_, ?_⟩
      · rw [hcount, WaiterState.registered]
        dsimp only
        omega
      · rw [hcount]
        exact (Nat.sub_le _ _).trans h.limit
      · rw [hcount]
        exact h.clamped
      · rw [SortedMap.find?_erase] at hother
        split_ifs at hother
        exact h.nonempty other hother
      · refine h.fates.trans ?_
        rw [← Multiset.coe_eq_coe] at hregistered ⊢
        simp only [WaiterState.registered, ← Multiset.coe_add] at hregistered ⊢
        rw [hregistered]
        abel
      · rw [List.flatten_append, List.flatten_singleton, ← List.append_assoc]
        exact h.callbacks.append_right waiters

theorem Accounted.notifyTopicWaiters (h : s.Accounted maxLongPollWaiters) (topic : Bytes) :
    (s.notifyTopicWaiters topic).Accounted maxLongPollWaiters := by
  set found := s.waiters.entries.filter fun entry ↦ (ofLex entry.1).1 = topic with hfound
  have hregistered : s.registered.Perm
      (found.flatMap Prod.snd ++ (s.notifyTopicWaiters topic).registered) := by
    have hparts := (List.filter_append_perm (fun entry : WaiterMapKey × List (StoredWaiter C) ↦
      decide ((ofLex entry.1).1 = topic)) s.waiters.entries).symm
    simp only [← decide_not] at hparts
    have hflat := hparts.flatMap_right (fun entry ↦ entry.2)
    rwa [List.flatMap_append] at hflat
  have htaken : (found.flatMap Prod.snd).length = (found.map fun entry ↦ entry.2.length).sum :=
    List.length_flatMap
  have hlength := hregistered.length_eq
  rw [List.length_append, ← h.active] at hlength
  have hcount : (s.notifyTopicWaiters topic).count =
      { s.count with active := s.count.active - (found.flatMap Prod.snd).length } := by
    rw [htaken]
    refine foldl_decrease _ _ _ ?_
    rw [← hfound, ← htaken]
    omega
  refine ⟨?_, ?_, ?_, fun other hother ↦ ?_, ?_, ?_⟩
  · rw [hcount]
    dsimp only
    omega
  · rw [hcount]
    exact (Nat.sub_le _ _).trans h.limit
  · rw [hcount]
    exact h.clamped
  · rw [WaiterState.notifyTopicWaiters, SortedMap.find?_filter] at hother
    exact h.nonempty other (Option.eq_some_of_filter_eq_some hother)
  · refine h.fates.trans ?_
    rw [← Multiset.coe_eq_coe] at hregistered ⊢
    simp only [WaiterState.notifyTopicWaiters, ← Multiset.coe_add] at hregistered ⊢
    rw [hregistered]
    abel
  · simp only [WaiterState.notifyTopicWaiters, List.flatten_append, List.flatten_singleton,
      ← List.append_assoc]
    exact h.callbacks.append_right _

/-- A notification that runs a callback takes it from its list. -/
theorem Accounted.runCallback (h : s.Accounted maxLongPollWaiters) {notification : ℕ}
    (hrun : s.runCallback notification = some t) : t.Accounted maxLongPollWaiters := by
  rw [WaiterState.runCallback] at hrun
  split at hrun
  · next waiter rest hnext =>
      obtain rfl := Option.some.inj hrun
      refine ⟨h.active, h.limit, h.clamped, h.nonempty, h.fates, h.callbacks.trans ?_⟩
      obtain ⟨hlt, hget⟩ := List.getElem?_eq_some_iff.mp hnext
      have hbefore : s.running = s.running.take notification ++
          (waiter :: rest) :: s.running.drop (notification + 1) := by
        rw [← hget, List.getElem_cons_drop, List.take_append_drop]
      have hafter : s.running.set notification rest = s.running.take notification ++
          rest :: s.running.drop (notification + 1) := List.set_eq_take_append_cons_drop.trans
            (if_pos hlt)
      rw [hafter]
      nth_rewrite 1 [hbefore]
      rw [← Multiset.coe_eq_coe]
      simp only [List.flatten_append, List.flatten_cons, List.cons_append, ← Multiset.coe_add,
        ← Multiset.cons_coe, ← Multiset.singleton_add, Multiset.coe_nil, add_zero]
      abel
  · cases hrun

theorem Accounted.step (h : s.Accounted maxLongPollWaiters) {event : WaiterEvent C}
    (hstep : s.step maxLongPollWaiters event = some t) : t.Accounted maxLongPollWaiters := by
  cases event with
  | registerFetchWaiter topic partition callback =>
      exact Option.some.inj hstep ▸ h.registerFetchWaiter topic partition callback
  | cancelFetchWaiter waiterId => exact Option.some.inj hstep ▸ h.cancelFetchWaiter waiterId
  | notifyFetchWaiters topic partition =>
      exact Option.some.inj hstep ▸ h.notifyFetchWaiters topic partition
  | notifyTopicWaiters topic => exact Option.some.inj hstep ▸ h.notifyTopicWaiters topic
  | runCallback notification => exact h.runCallback hstep

/-! ## Ids -/

theorem InTurn.registerFetchWaiter (h : s.InTurn) (topic : Bytes) (partition : ℕ) (callback : C) :
    (s.registerFetchWaiter maxLongPollWaiters topic partition callback).InTurn := by
  rw [WaiterState.registerFetchWaiter]
  split_ifs
  · exact h
  refine ⟨?_, ?_⟩
  · simp only [List.map_append, List.map_cons, List.map_nil, List.length_append,
      List.length_singleton, List.range_succ]
    rw [h.ids, h.next]
  · simp only [List.length_append, List.length_singleton, h.next]
    rw [Nat.mod_add_mod]

theorem InTurn.step (h : s.InTurn) {event : WaiterEvent C}
    (hstep : s.step maxLongPollWaiters event = some t) : t.InTurn := by
  cases event with
  | registerFetchWaiter topic partition callback =>
      exact Option.some.inj hstep ▸ h.registerFetchWaiter topic partition callback
  | cancelFetchWaiter waiterId => exact Option.some.inj hstep ▸ ⟨h.ids, h.next⟩
  | notifyFetchWaiters topic partition =>
      obtain rfl := Option.some.inj hstep
      rw [WaiterState.notifyFetchWaiters]
      split
      · exact h
      · exact ⟨h.ids, h.next⟩
  | notifyTopicWaiters topic => exact Option.some.inj hstep ▸ ⟨h.ids, h.next⟩
  | runCallback notification =>
      change s.runCallback notification = some t at hstep
      rw [WaiterState.runCallback] at hstep
      split at hstep
      · exact Option.some.inj hstep ▸ ⟨h.ids, h.next⟩
      · cases hstep

/-- The first `2 ^ 64` ids differ. -/
theorem InTurn.nodup (h : s.InTurn) (hissued : s.issued.length ≤ 2 ^ 64) :
    (s.issued.map StoredWaiter.id).Nodup := by
  rw [h.ids]
  refine List.Nodup.map_on (fun m hm n hn heq ↦ ?_) List.nodup_range
  rw [List.mem_range] at hm hn
  have hmod : m % 2 ^ 64 = n % 2 ^ 64 := Nat.ModEq.add_right_cancel' 1 heq
  rwa [Nat.mod_eq_of_lt (by omega), Nat.mod_eq_of_lt (by omega)] at hmod

/-! ## What becomes of a registration -/

def ids (waiters : List (StoredWaiter C)) : List ℕ := waiters.map StoredWaiter.id

/-- Slots are neither leaked nor counted twice: the counter counts the callbacks in the
map and respects the limit, every issued id is registered, taken or cancelled, and of
these ids exactly the taken ones have their callback run, once. -/
structure SlotsKept (maxLongPollWaiters : UInt32) (s : WaiterState C) : Prop where
  active : s.count.active = s.registered.length
  limit : s.count.active ≤ maxLongPollWaiters.toNat
  clamped : s.count.clamped = false
  nonempty : ∀ key, s.waiters.find? key ≠ some []
  distinct : (ids s.registered).Nodup
  fates : ∀ id ∈ ids s.issued,
    id ∈ ids s.registered ∧ id ∉ ids s.taken ∧ id ∉ ids s.cancelled ∨
    id ∉ ids s.registered ∧ id ∈ ids s.taken ∧ id ∉ ids s.cancelled ∨
    id ∉ ids s.registered ∧ id ∉ ids s.taken ∧ id ∈ ids s.cancelled
  issued : ∀ waiter, waiter ∈ s.registered ∨ waiter ∈ s.taken ∨ waiter ∈ s.cancelled →
    waiter ∈ s.issued
  /-- The callback was run, or the notification that took the waiter is about to. -/
  runsOnce : ∀ waiter ∈ s.taken, (ids s.ran).count waiter.id +
    (ids s.running.flatten).count waiter.id = 1
  runsTaken : ∀ waiter, waiter ∈ s.ran ∨ waiter ∈ s.running.flatten → waiter ∈ s.taken
  cancelledStays : ∀ waiter ∈ s.cancelled, waiter.id ∉ ids s.ran ∧
    waiter.id ∉ ids s.running.flatten

theorem Accounted.slotsKept (h : s.Accounted maxLongPollWaiters)
    (hnodup : (ids s.issued).Nodup) : s.SlotsKept maxLongPollWaiters := by
  have hfates : (ids s.issued).Perm (ids s.registered ++ (ids s.taken ++ ids s.cancelled)) := by
    simpa only [ids, List.map_append] using h.fates.map StoredWaiter.id
  have hcallbacks : (ids s.taken).Perm (ids s.ran ++ ids s.running.flatten) := by
    simpa only [ids, List.map_append] using h.callbacks.map StoredWaiter.id
  have hparts := hfates.nodup_iff.mp hnodup
  rw [List.nodup_append, List.nodup_append] at hparts
  obtain ⟨hregistered, ⟨htaken, -, htakenCancelled⟩, hothers⟩ := hparts
  have hregisteredTaken : ∀ id ∈ ids s.registered, id ∉ ids s.taken := fun id hid htaken ↦
    hothers id hid id (List.mem_append_left _ htaken) rfl
  have hregisteredCancelled : ∀ id ∈ ids s.registered, id ∉ ids s.cancelled :=
    fun id hid hcancelled ↦ hothers id hid id (List.mem_append_right _ hcancelled) rfl
  have htakenNotCancelled : ∀ id ∈ ids s.taken, id ∉ ids s.cancelled := fun id hid hcancelled ↦
    htakenCancelled id hid id hcancelled rfl
  refine ⟨h.active, h.limit, h.clamped, h.nonempty, hregistered, fun id hid ↦ ?_,
    fun waiter hwaiter ↦ ?_, fun waiter hwaiter ↦ ?_, fun waiter hwaiter ↦ ?_,
    fun waiter hwaiter ↦ ?_⟩
  · have hplace := hfates.mem_iff.mp hid
    rw [List.mem_append, List.mem_append] at hplace
    rcases hplace with hplace | hplace | hplace
    · exact Or.inl ⟨hplace, hregisteredTaken id hplace, hregisteredCancelled id hplace⟩
    · exact Or.inr (Or.inl ⟨fun hregistered ↦ hregisteredTaken id hregistered hplace, hplace,
        htakenNotCancelled id hplace⟩)
    · exact Or.inr (Or.inr ⟨fun hregistered ↦ hregisteredCancelled id hregistered hplace,
        fun htaken ↦ htakenNotCancelled id htaken hplace, hplace⟩)
  · rw [h.fates.mem_iff, List.mem_append, List.mem_append]
    exact hwaiter
  · have hid : waiter.id ∈ ids s.taken := List.mem_map_of_mem hwaiter
    rw [← List.count_append, ← hcallbacks.count_eq]
    exact List.count_eq_one_of_mem htaken hid
  · rw [h.callbacks.mem_iff, List.mem_append]
    exact hwaiter
  · have hid : waiter.id ∈ ids s.cancelled := List.mem_map_of_mem hwaiter
    have hnot : waiter.id ∉ ids s.ran ++ ids s.running.flatten := fun hran ↦
      htakenNotCancelled _ (hcallbacks.mem_iff.mpr hran) hid
    rw [List.mem_append, not_or] at hnot
    exact hnot

/-- In every interleaving of registrations, cancellations and notifications, as long as
no more than `2 ^ 64` ids were issued, slots are neither leaked nor counted twice. -/
theorem slots_kept (maxLongPollWaiters : UInt32) (events : List (WaiterEvent C))
    (s : WaiterState C) (hrun : run (step maxLongPollWaiters) initial events = some s)
    (hissued : s.issued.length ≤ 2 ^ 64) : s.SlotsKept maxLongPollWaiters := by
  have haccounted : s.Accounted maxLongPollWaiters ∧ s.InTurn := by
    refine run_invariant (fun _ _ ↦ True) (fun s ↦ s.Accounted maxLongPollWaiters ∧ s.InTurn) ?_
      (along_of_forall (fun _ _ _ ↦ trivial) _) hrun ⟨accounted_initial, rfl, rfl⟩
    rintro s event t - hstep ⟨h, hturn⟩
    exact ⟨h.step hstep, hturn.step hstep⟩
  exact haccounted.1.slotsKept (haccounted.2.nodup hissued)

/-- Two long polls, of which one is woken and the other times out. -/
def twoPolls : List (WaiterEvent Unit) :=
  [.registerFetchWaiter [116] 0 (), .registerFetchWaiter [116] 1 (), .notifyFetchWaiters [116] 1,
    .cancelFetchWaiter 1, .runCallback 0]

theorem slots_kept_twoPolls :
    ∃ s, run (step 2) initial twoPolls = some s ∧ s.SlotsKept 2 ∧ ids s.ran = [2] ∧
      ids s.cancelled = [1] := by
  have hends : (run (step 2) initial twoPolls).map (fun s ↦ decide (s.issued.length ≤ 2 ^ 64 ∧
      ids s.ran = [2] ∧ ids s.cancelled = [1])) = some true := by
    decide
  obtain ⟨s, hrun, hends⟩ := Option.map_eq_some_iff.mp hends
  obtain ⟨hissued, hran, hcancelled⟩ := of_decide_eq_true hends
  exact ⟨s, hrun, slots_kept 2 twoPolls s hrun hissued, hran, hcancelled⟩

/-! ## After `2 ^ 64` registrations -/

/-- Long polls that time out, one after the other. -/
def timedOutPolls (count : ℕ) : List (WaiterEvent Unit) :=
  (List.range count).flatMap fun n ↦
    [.registerFetchWaiter [116] 0 (), .cancelFetchWaiter ((n + 2) % 2 ^ 64)]

/-- The waiter that got the first id is in the map, alone. -/
structure FirstWaits (s : WaiterState Unit) : Prop where
  waiters : s.waiters.entries = [(toLex ([116], 0), [⟨1, ()⟩])]
  active : s.count.active = 1

theorem FirstWaits.timedOut {s : WaiterState Unit} (h : s.FirstWaits)
    (hfirst : s.nextWaiterId ≠ 1) :
    ((s.registerFetchWaiter 2 [116] 0 ()).cancelFetchWaiter s.nextWaiterId).FirstWaits ∧
      ((s.registerFetchWaiter 2 [116] 0 ()).cancelFetchWaiter s.nextWaiterId).nextWaiterId =
        (s.nextWaiterId + 1) % 2 ^ 64 := by
  have hentries : (s.registerFetchWaiter 2 [116] 0 ()).waiters.entries =
      [(toLex ([116], 0), [⟨1, ()⟩, ⟨s.nextWaiterId, ()⟩])] := by
    simp [registerFetchWaiter, h.active, SortedMap.insert, SortedMap.insertEntry,
      SortedMap.find?, h.waiters]
  refine ⟨⟨?_, ?_⟩, ?_⟩
  · simp [cancelFetchWaiter, SortedMap.filterMapValues, hentries, hfirst.symm]
  · simp only [cancelFetchWaiter, hentries, List.foldl_cons, List.foldl_nil]
    simp [PollCount.decrease, registerFetchWaiter, h.active, hfirst.symm]
  · simp [cancelFetchWaiter, registerFetchWaiter, h.active]

theorem run_timedOutPolls {count : ℕ} (hcount : count < 2 ^ 64) :
    ∃ s, run (step 2) initial (.registerFetchWaiter [116] 0 () :: timedOutPolls count) = some s ∧
      s.FirstWaits ∧ s.nextWaiterId = (count + 2) % 2 ^ 64 := by
  induction count with
  | zero => exact ⟨_, rfl, ⟨rfl, rfl⟩, rfl⟩
  | succ count ih =>
      obtain ⟨s, hrun, hfirst, hnext⟩ := ih (by omega)
      have hne : s.nextWaiterId ≠ 1 := by omega
      obtain ⟨hwaits, hafter⟩ := hfirst.timedOut hne
      refine ⟨_, ?_, hwaits, ?_⟩
      · rw [timedOutPolls, List.range_succ, List.flatMap_append, ← List.cons_append,
          ← timedOutPolls]
        refine run_of_append hrun ?_
        rw [List.flatMap_singleton, ← hnext]
        rfl
      · rw [hafter, hnext]
        omega

/-- The counter has come round to an id that is still registered. -/
theorem timedOutPolls_repeats_id :
    ∃ s, run (step 2) initial (.registerFetchWaiter [116] 0 () :: timedOutPolls (2 ^ 64 - 1) ++
      [.registerFetchWaiter [116] 0 ()]) = some s ∧ ¬ (ids s.registered).Nodup := by
  obtain ⟨s, hrun, hfirst, hnext⟩ := @run_timedOutPolls (2 ^ 64 - 1) (by omega)
  refine ⟨_, run_of_append hrun rfl, ?_⟩
  have hid : s.nextWaiterId = 1 := by omega
  simp [registered, registerFetchWaiter, hfirst.active, SortedMap.insert, SortedMap.insertEntry,
    SortedMap.find?, hfirst.waiters, hid, ids]

end WaiterState

end BoltStream.Broker
