import BoltStream.Broker.SessionEnds

/-!
# The connections of the broker

The broker accepts connections one after the other and gives each a session, up to the
limit.  A session takes its slot in `handle_broker_client`, on the strand of the server,
and gives it back in its destructor, on whatever thread lets go of it last, so slots are
given back while the next connection is being let in.  The connections are followed up to
the stop of the server, which ends everything.
-/

namespace BoltStream.Broker

open BoltStream.Lib BoltStream.Protocol

structure Server where
  maxBrokerConnections : ℕ
  maxFrameBytes : ℕ
  authRequired : Bool
  /-- An `async_accept` is outstanding. -/
  accepting : Bool := true
  /-- `handle_broker_client` has found a slot and not taken it yet. -/
  admitting : Bool := false
  /-- `active_broker_sessions_` -/
  activeSessions : ℕ := 0
  /-- The sessions of the connections let in, up to their destruction. -/
  sessions : List (Option Session) := []
  rejected : ℕ := 0

inductive ServerEvent where
  /-- The handler of the accept runs, up to the look at `active_broker_sessions_`. -/
  | accepted (ok : Bool)
  /-- The rest of `handle_broker_client`, and the next accept. -/
  | admitted
  | session (connection : ℕ) (event : Session.Event)
  /-- Nothing holds the session any more. -/
  | destroyed (connection : ℕ)

namespace Server

def onAccept (s : Server) (ok : Bool) : Server :=
  if ok = false then { s with accepting := false }
  else if s.activeSessions ≥ s.maxBrokerConnections then { s with rejected := s.rejected + 1 }
  else { s with accepting := false, admitting := true }

def startSession (s : Server) : Server :=
  { s with
      accepting := true
      admitting := false
      activeSessions := s.activeSessions + 1
      sessions := s.sessions ++ [some (Session.opened s.authRequired)] }

def step (s : Server) : ServerEvent → Option Server
  | .accepted ok => if s.accepting then some (s.onAccept ok) else none
  | .admitted => if s.admitting then some s.startSession else none
  | .session connection event =>
      (s.sessions[connection]?.join).bind fun session ↦
        (session.step s.maxFrameBytes event).map fun session ↦
          { s with sessions := s.sessions.set connection (some session) }
  | .destroyed connection =>
      (s.sessions[connection]?.join).bind fun session ↦
        if session.Released then
          some { s with
            sessions := s.sessions.set connection none
            activeSessions := s.activeSessions - 1 }
        else none

def listening (maxBrokerConnections maxFrameBytes : ℕ) (authRequired : Bool) : Server :=
  { maxBrokerConnections := maxBrokerConnections
    maxFrameBytes := maxFrameBytes
    authRequired := authRequired }

variable {s t : Server}

/-- The slots that are taken are those of the sessions that exist. -/
structure Slots (s : Server) : Prop where
  counted : s.activeSessions = s.sessions.countP Option.isSome
  bounded : s.activeSessions + (if s.admitting then 1 else 0) ≤ s.maxBrokerConnections
  exclusive : s.admitting = true → s.accepting = false
  sessions : ∀ session, some session ∈ s.sessions →
    session.Waiting ∧ ∃ live, session.Ordered live

theorem slots_listening (maxBrokerConnections maxFrameBytes : ℕ) (authRequired : Bool) :
    (listening maxBrokerConnections maxFrameBytes authRequired).Slots :=
  ⟨rfl, Nat.zero_le _, nofun, fun _ hmem ↦ absurd hmem List.not_mem_nil⟩

theorem Slots.accepted (h : s.Slots) (haccepting : s.accepting = true) (ok : Bool) :
    (s.onAccept ok).Slots := by
  have hadmitting : s.admitting = false := by
    cases hadmitting : s.admitting with
    | false => rfl
    | true =>
        rw [h.exclusive hadmitting] at haccepting
        cases haccepting
  have hbounded := h.bounded
  rw [onAccept]
  split_ifs with hok hfull
  · exact ⟨h.counted, hbounded, fun _ ↦ rfl, h.sessions⟩
  · exact ⟨h.counted, hbounded, h.exclusive, h.sessions⟩
  · refine ⟨h.counted, ?_, fun _ ↦ rfl, h.sessions⟩
    rw [if_pos rfl]
    exact not_le.mp hfull

/-- In between no slot can have been taken, only given back. -/
theorem Slots.admitted (h : s.Slots) (hadmitting : s.admitting = true) : s.startSession.Slots := by
  have hbounded := h.bounded
  rw [if_pos hadmitting] at hbounded
  refine ⟨?_, hbounded, fun hnone ↦ absurd hnone (by simp [startSession]), fun session hmem ↦ ?_⟩
  · rw [startSession, List.countP_append, h.counted]
    rfl
  · rcases List.mem_append.mp hmem with hmem | hmem
    · exact h.sessions session hmem
    · obtain rfl := Option.some.inj (List.mem_singleton.mp hmem)
      exact ⟨Session.waiting_opened _, none, Session.ordered_opened _⟩

theorem mem_of_join {connection : ℕ} {session : Session}
    (h : s.sessions[connection]?.join = some session) :
    s.sessions[connection]? = some (some session) := Option.join_eq_some_iff.mp h

theorem set_split {α : Type*} {l : List α} {k : ℕ} {a : α} (h : l[k]? = some a) :
    ∃ front back, l = front ++ a :: back ∧ ∀ b, l.set k b = front ++ b :: back := by
  obtain ⟨hlt, rfl⟩ := List.getElem?_eq_some_iff.mp h
  refine ⟨l.take k, l.drop (k + 1), ?_, fun b ↦ List.set_eq_take_append_cons_drop.trans ?_⟩
  · rw [← List.drop_eq_getElem_cons hlt, List.take_append_drop]
  · rw [if_pos hlt]

theorem countP_set {sessions : List (Option Session)} {connection : ℕ} {session : Session}
    (h : sessions[connection]? = some (some session)) (other : Option Session) :
    (sessions.set connection other).countP Option.isSome + 1 =
      sessions.countP Option.isSome + if other.isSome then 1 else 0 := by
  obtain ⟨front, back, hsplit, hset⟩ := set_split h
  rw [hset, hsplit, List.countP_append, List.countP_append, List.countP_cons, List.countP_cons,
    Option.isSome_some, if_pos rfl]
  omega

theorem Slots.session (h : s.Slots) {connection : ℕ} {session session' : Session}
    (hsession : s.sessions[connection]?.join = some session) {event : Session.Event}
    (hstep : session.step s.maxFrameBytes event = some session') :
    Slots { s with sessions := s.sessions.set connection (some session') } := by
  have hget := mem_of_join hsession
  obtain ⟨hwaiting, live, hordered⟩ := h.sessions session (List.mem_of_getElem? hget)
  refine ⟨?_, h.bounded, h.exclusive, fun other hmem ↦ ?_⟩
  · have hcount := countP_set hget (some session')
    rw [Option.isSome_some, if_pos rfl] at hcount
    exact h.counted.trans (Nat.succ.inj hcount).symm
  · rcases List.mem_or_eq_of_mem_set hmem with hmem | heq
    · exact h.sessions other hmem
    · obtain rfl := Option.some.inj heq
      exact ⟨hwaiting.step hordered hstep, hordered.step hstep⟩

theorem Slots.destroyed (h : s.Slots) {connection : ℕ} {session : Session}
    (hsession : s.sessions[connection]?.join = some session) :
    Slots { s with
      sessions := s.sessions.set connection none
      activeSessions := s.activeSessions - 1 } := by
  have hcount := countP_set (mem_of_join hsession) none
  rw [Option.isSome_none, if_neg Bool.false_ne_true] at hcount
  refine ⟨?_, ?_, h.exclusive, fun other hmem ↦ ?_⟩
  · change s.activeSessions - 1 = (s.sessions.set connection none).countP Option.isSome
    rw [h.counted]
    omega
  · exact (Nat.add_le_add_right (Nat.sub_le _ _) _).trans h.bounded
  · rcases List.mem_or_eq_of_mem_set hmem with hmem | heq
    · exact h.sessions other hmem
    · cases heq

theorem Slots.step (h : s.Slots) {event : ServerEvent} (hstep : s.step event = some t) :
    t.Slots := by
  cases event with
  | accepted ok =>
      simp only [Server.step] at hstep
      split_ifs at hstep with haccepting
      exact Option.some.inj hstep ▸ h.accepted haccepting ok
  | admitted =>
      simp only [Server.step] at hstep
      split_ifs at hstep with hadmitting
      exact Option.some.inj hstep ▸ h.admitted hadmitting
  | session connection event =>
      obtain ⟨session, hsession, hstep⟩ := Option.bind_eq_some_iff.mp hstep
      obtain ⟨session', hevent, rfl⟩ := Option.map_eq_some_iff.mp hstep
      exact h.session hsession hevent
  | destroyed connection =>
      obtain ⟨session, hsession, hstep⟩ := Option.bind_eq_some_iff.mp hstep
      split_ifs at hstep with hreleased
      exact Option.some.inj hstep ▸ h.destroyed hsession

/-! ## Slots come back -/

/-- A session goes on by itself and reads nothing, or is destroyed. -/
def Draining (event : ServerEvent) : Prop :=
  (∃ connection event', event = .session connection event' ∧ Session.ReadsNothing event' ∧
      Session.OwnEvent event') ∨
    ∃ connection, event = .destroyed connection

def sessionWeight (session : Option Session) : ℕ := session.elim 0 fun session ↦ session.weight + 1

/-- How much the sessions can still do while nothing is read. -/
def weight (s : Server) : ℕ := (s.sessions.map sessionWeight).sum

theorem weight_set {sessions : List (Option Session)} {connection : ℕ} {session : Session}
    (h : sessions[connection]? = some (some session)) {other : Option Session}
    (hless : sessionWeight other < session.weight + 1) :
    ((sessions.set connection other).map sessionWeight).sum <
      (sessions.map sessionWeight).sum := by
  obtain ⟨front, back, hsplit, hset⟩ := set_split h
  rw [hset, hsplit]
  simp only [List.map_append, List.map_cons, List.sum_append, List.sum_cons]
  exact Nat.add_lt_add_left (Nat.add_lt_add_right hless _) _

theorem weight_draining {event : ServerEvent} (hdraining : Draining event)
    (hstep : s.step event = some t) : t.weight < s.weight := by
  rcases hdraining with ⟨connection, event', rfl, hreads, -⟩ | ⟨connection, rfl⟩
  · obtain ⟨session, hsession, hstep⟩ := Option.bind_eq_some_iff.mp hstep
    obtain ⟨session', hevent, rfl⟩ := Option.map_eq_some_iff.mp hstep
    apply weight_set (mem_of_join hsession)
    exact Nat.succ_lt_succ (Session.weight_step hreads hevent)
  · obtain ⟨session, hsession, hstep⟩ := Option.bind_eq_some_iff.mp hstep
    split_ifs at hstep with hreleased
    obtain rfl := Option.some.inj hstep
    exact weight_set (mem_of_join hsession) (Nat.succ_pos _)

/-- When nothing of its own is left to do, no slot is taken. -/
theorem Slots.drained (h : s.Slots) (hstuck : ∀ event, Draining event → s.step event = none) :
    s.activeSessions = 0 := by
  rw [h.counted, List.countP_eq_zero]
  rintro (_ | session) hmem
  · exact Bool.false_ne_true
  · obtain ⟨hwaiting, live, hordered⟩ := h.sessions session hmem
    obtain ⟨connection, hconnection⟩ := List.mem_iff_getElem?.mp hmem
    have hsession : s.sessions[connection]?.join = some session :=
      Option.join_eq_some_iff.mpr hconnection
    have hreleased : session.Released := by
      apply (hwaiting.endsAlone hordered).released
      intro event hreads hown
      have hnone := hstuck (.session connection event)
        (Or.inl ⟨connection, event, rfl, hreads, hown⟩)
      rw [Server.step, hsession, Option.bind_some] at hnone
      exact Option.map_eq_none_iff.mp hnone
    have hnone := hstuck (.destroyed connection) (Or.inr ⟨connection, rfl⟩)
    rw [Server.step, hsession, Option.bind_some, if_pos hreleased] at hnone
    cases hnone

/-! ## A failed accept -/

/-- The broker lets nobody in any more. -/
def Deaf (s : Server) : Prop := s.accepting = false ∧ s.admitting = false

/-- No accept is started after one that has failed. -/
theorem Deaf.step (h : s.Deaf) {event : ServerEvent} (hstep : s.step event = some t) :
    t.Deaf ∧ t.sessions.length = s.sessions.length ∧ t.rejected = s.rejected := by
  cases event with
  | accepted ok =>
      rw [Server.step, h.1, if_neg Bool.false_ne_true] at hstep
      cases hstep
  | admitted =>
      rw [Server.step, h.2, if_neg Bool.false_ne_true] at hstep
      cases hstep
  | session connection event =>
      obtain ⟨session, -, hstep⟩ := Option.bind_eq_some_iff.mp hstep
      obtain ⟨session', -, rfl⟩ := Option.map_eq_some_iff.mp hstep
      exact ⟨h, List.length_set, rfl⟩
  | destroyed connection =>
      obtain ⟨session, -, hstep⟩ := Option.bind_eq_some_iff.mp hstep
      split_ifs at hstep
      exact Option.some.inj hstep ▸ ⟨h, List.length_set, rfl⟩

theorem Deaf.run (h : s.Deaf) {events : List ServerEvent}
    (hrun : Lib.run Server.step s events = some t) :
    t.sessions.length = s.sessions.length ∧ t.rejected = s.rejected := by
  have hinvariant := run_invariant (fun _ _ ↦ True)
    (fun u ↦ u.Deaf ∧ u.sessions.length = s.sessions.length ∧ u.rejected = s.rejected)
    (fun u event v _ hstep ⟨hdeaf, hlength, hrejected⟩ ↦ by
      obtain ⟨hdeaf, hlength', hrejected'⟩ := hdeaf.step hstep
      exact ⟨hdeaf, hlength'.trans hlength, hrejected'.trans hrejected⟩)
    (along_of_forall (fun _ _ _ ↦ trivial) _) hrun ⟨h, rfl, rfl⟩
  exact hinvariant.2

/-! ## Runs -/

/-- What holds of the slots of the broker at any time. -/
structure SlotsKept (s : Server) : Prop where
  counted : s.activeSessions = s.sessions.countP Option.isSome
  bounded : s.activeSessions ≤ s.maxBrokerConnections
  /-- Without bytes to read there is only so much that the sessions still do. -/
  ends : ∀ events t, Along step (fun _ event ↦ Draining event) s events →
    run step s events = some t → events.length ≤ s.weight
  /-- And when they have done it, every slot is free. -/
  drained : (∀ event, Draining event → s.step event = none) → s.activeSessions = 0
  /-- An accept that fails is the last one. -/
  deaf : ∀ t u events, s.step (.accepted false) = some t → run step t events = some u →
    u.sessions.length = s.sessions.length ∧ u.rejected = s.rejected

/-- Whatever the connections do and in whatever order they end, no slot is lost and none
is given twice. -/
theorem run_slotsKept (maxBrokerConnections maxFrameBytes : ℕ) (authRequired : Bool)
    (events : List ServerEvent)
    (hrun : run step (listening maxBrokerConnections maxFrameBytes authRequired) events = some s) :
    s.SlotsKept := by
  have h : s.Slots := run_invariant (fun _ _ ↦ True) Slots (fun _ _ _ _ hstep h ↦ h.step hstep)
    (along_of_forall (fun _ _ _ ↦ trivial) _) hrun
    (slots_listening maxBrokerConnections maxFrameBytes authRequired)
  refine ⟨h.counted, (Nat.le_add_right _ _).trans h.bounded, fun events t hquiet hrun ↦ ?_,
    h.drained, fun t u events hfailed hrun ↦ ?_⟩
  · have hlength := length_le_of_decreasing (fun _ event ↦ Draining event) weight
      (fun _ _ _ hdraining hstep ↦ weight_draining hdraining hstep) hquiet hrun
    omega
  · simp only [Server.step] at hfailed
    split_ifs at hfailed with haccepting
    obtain rfl := Option.some.inj hfailed
    have hdeaf : (s.onAccept false).Deaf := by
      refine ⟨rfl, ?_⟩
      cases hadmitting : s.admitting with
      | false => exact hadmitting
      | true =>
          rw [h.exclusive hadmitting] at haccepting
          cases haccepting
    exact hdeaf.run hrun

/-- A second connection is refused while the first one lives, the slot is given to a third,
and then an accept fails. -/
def threeConnections : List ServerEvent :=
  [.accepted true, .admitted, .accepted true, .session 0 (.headerRead none), .destroyed 0,
    .accepted true, .admitted, .accepted false]

theorem run_slotsKept_threeConnections :
    ∃ s, run step (listening 1 1024 false) threeConnections = some s ∧ s.rejected = 1 ∧
      s.activeSessions = 1 ∧ s.sessions.length = 2 ∧ s.SlotsKept := by
  have hends : (run step (listening 1 1024 false) threeConnections).map (fun s ↦
      (s.rejected, s.activeSessions, s.sessions.length)) = some (1, 1, 2) := by
    decide
  obtain ⟨s, hrun, hends⟩ := Option.map_eq_some_iff.mp hends
  simp only [Prod.mk.injEq] at hends
  exact ⟨s, hrun, hends.1, hends.2.1, hends.2.2, run_slotsKept 1 1024 false _ hrun⟩

end Server

end BoltStream.Broker
