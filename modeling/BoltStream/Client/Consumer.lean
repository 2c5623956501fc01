import BoltStream.Broker.GroupTopic

/-!
# The coordinated consumer

`run_coordinated_consumer` as a machine.  In the phases that wait for a response
the request is a function of the consumer's state; the other phases stand for the
places of the loops between two requests.  Time points are nanoseconds of the
steady clock.
-/

namespace BoltStream.Client

open BoltStream.Lib BoltStream.Protocol BoltStream.Compression BoltStream.Broker

structure ConsumerOptions where
  sessionTimeoutMs : ℕ := 3000
  heartbeatMs : ℕ := 1000
  maxRecords : ℕ := 0
  idleExitMs : ℕ := 0
  compression : Codec := .none
  deriving DecidableEq, Repr

/-- Where the main loop goes on after `join_and_sync`. -/
inductive AfterJoin where
  | turn
  | settle
  deriving DecidableEq, Repr

inductive Phase where
  /-- `join_and_sync` waits for the response to its join request, or its sync
  request. -/
  | joining (attempt : ℕ) (after : AfterJoin)
  | syncing (attempt : ℕ) (after : AfterJoin)
  /-- The head of the main loop. -/
  | turning
  | heartbeating
  /-- The head of the loop over the assignment. -/
  | polling (rest : List ℕ)
  | fetching (partition : ℕ) (plain : Bool) (rest : List ℕ)
  /-- The head of the loop over the records of a response. -/
  | printing (partition : ℕ) (response : FetchResponse) (records : List FetchRecord)
      (commitNextOffset : ℕ) (rest : List ℕ)
  | committing (partition commitNextOffset : ℕ) (rest : List ℕ)
  /-- Behind the loop over the assignment, and before the idle check. -/
  | settling
  | idling
  | leaving
  /-- The function has returned, or the process is gone. -/
  | stopped (exitCode : Option ℕ)
  deriving DecidableEq, Repr

structure Consumer where
  options : ConsumerOptions
  memberId : Bytes := []
  generationId : ℕ := 0
  assignment : List ℕ := []
  recordsSeen : ℕ := 0
  lastActivity : ℤ
  lastHeartbeat : ℤ
  running : Bool := true
  sawRecords : Bool := false
  phase : Phase := .joining 0 .turn
  /-- The response that `request_once` is about to return. -/
  reply : Option GroupReply := none
  deriving DecidableEq, Repr

/-- What is seen of a run: the lines printed for records, where the broker's
fetches started, and the offsets that retention has removed. -/
inductive Event where
  | printed (memberId : Bytes) (generationId partition : ℕ) (record : FetchRecord)
  | fetched (partition start : ℕ)
  | removed (partition offset : ℕ)
  deriving DecidableEq, Repr

def isRetryableError (code : ErrorCode) : Bool := code = .overloaded ∨ code = .rebalanceRequired

/-- The exit code for an error frame. -/
def responseExitCode : Option ErrorCode → ℕ
  | none => 1
  | some code => if isRetryableError code then 5 else if code = .notImplemented then 3 else 1

def shouldRejoin : Option ErrorCode → Bool
  | none => false
  | some code => code = .rebalanceRequired ∨ code = .staleMember

/-- A duration of the options has passed. -/
def elapsed (since now : ℤ) (milliseconds : ℕ) : Bool :=
  decide (now - since ≥ (milliseconds : ℤ) * 10 ^ 6)

namespace Consumer

def start (options : ConsumerOptions) (now : ℤ) : Consumer :=
  { options := options, lastActivity := now, lastHeartbeat := now }

/-- The request whose response the consumer waits for. -/
def request (consumer : Consumer) : Option GroupRequest :=
  match consumer.phase with
  | .joining _ _ => some (.join consumer.memberId consumer.options.sessionTimeoutMs)
  | .syncing _ _ => some (.sync consumer.memberId consumer.generationId)
  | .heartbeating => some (.heartbeat consumer.memberId consumer.generationId)
  | .fetching partition plain _ => some (.fetch partition plain)
  | .committing partition commitNextOffset _ =>
      some (.commit consumer.memberId consumer.generationId partition commitNextOffset)
  | .leaving => some (.leave consumer.memberId consumer.generationId)
  | _ => none

def goto (consumer : Consumer) (phase : Phase) : Consumer :=
  { consumer with phase := phase, reply := none }

def exit (consumer : Consumer) (code : ℕ) : Consumer := consumer.goto (.stopped (some code))

def rejoin (consumer : Consumer) (after : AfterJoin) : Consumer := consumer.goto (.joining 0 after)

/-- What an error frame leads to where a rebalance is handled. -/
def rejoinOrExit (consumer : Consumer) (after : AfterJoin) (code : Option ErrorCode) : Consumer :=
  if shouldRejoin code then consumer.rejoin after else consumer.exit (responseExitCode code)

def startPolling (consumer : Consumer) : Consumer :=
  { consumer with sawRecords := false }.goto (.polling consumer.assignment)

/-- `join_and_sync` after its sync request, whose `attempt` counts from zero. -/
def afterSync (consumer : Consumer) (attempt : ℕ) (after : AfterJoin) (now : ℤ) :
    GroupReply → Consumer
  | .synced assignment =>
      { consumer with assignment := assignment, lastHeartbeat := now }.goto
        (match after with
        | .turn => .turning
        | .settle => .settling)
  | .error code =>
      if shouldRejoin code then
        if attempt + 1 < 8 then consumer.goto (.joining (attempt + 1) after) else consumer.exit 5
      else consumer.exit (responseExitCode code)
  | _ => consumer.exit 1

/-- The response of a fetch in the consumer's hands. -/
def afterFetch (Z : Zstd) (consumer : Consumer) (partition : ℕ) (rest : List ℕ) :
    GroupReply → Consumer
  | .fetched answer =>
      match openAnswer Z kDefaultMaxFrameBytes answer with
      | .error _ => consumer.exit 1
      | .ok response =>
          if response.records = [] then consumer.goto (.polling rest)
          else
            { consumer with sawRecords := true }.goto
              (.printing partition response response.records response.nextOffset rest)
  | .error code => consumer.exit (responseExitCode code)
  | _ => consumer.exit 1

/-- One turn of the loop over the records. -/
def printRecord (consumer : Consumer) (partition : ℕ) (response : FetchResponse)
    (record : FetchRecord) (records : List FetchRecord) (rest : List ℕ) : Consumer :=
  let seen := (consumer.recordsSeen + 1) % 2 ^ 32
  let next := (record.offset + 1) % 2 ^ 64
  if consumer.options.maxRecords ≠ 0 ∧ seen ≥ consumer.options.maxRecords then
    { consumer with recordsSeen := seen, running := false }.goto (.committing partition next rest)
  else
    { consumer with recordsSeen := seen }.goto (.printing partition response records next rest)

def afterCommit (consumer : Consumer) (rest : List ℕ) : GroupReply → Consumer
  | .committed _ _ => consumer.goto (if consumer.running then .polling rest else .settling)
  | .error code => consumer.rejoinOrExit .settle code
  | _ => consumer.exit 1

/-- The next step of a consumer that does not wait, or that has a response. -/
def resume (Z : Zstd) (consumer : Consumer) (now : ℤ) : Option (Consumer × List Event) :=
  match consumer.phase with
  | .joining attempt after =>
      consumer.reply.map fun reply ↦
        match reply with
        | .joined memberId generationId =>
            ({ consumer with memberId := memberId, generationId := generationId }.goto
              (.syncing attempt after), [])
        | .error code => (consumer.exit (responseExitCode code), [])
        | _ => (consumer.exit 1, [])
  | .syncing attempt after =>
      consumer.reply.map fun reply ↦ (consumer.afterSync attempt after now reply, [])
  | .turning =>
      if elapsed consumer.lastHeartbeat now consumer.options.heartbeatMs then
        some (consumer.goto .heartbeating, [])
      else some (consumer.startPolling, [])
  | .heartbeating =>
      consumer.reply.map fun reply ↦
        match reply with
        | .error code => (consumer.rejoinOrExit .turn code, [])
        | _ => ({ consumer with lastHeartbeat := now }.startPolling, [])
  | .polling [] => some (consumer.goto .settling, [])
  | .polling (partition :: rest) =>
      some (consumer.goto
        (.fetching partition (decide (consumer.options.compression ≠ .zstd)) rest), [])
  | .fetching partition _ rest =>
      consumer.reply.map fun reply ↦ (consumer.afterFetch Z partition rest reply, [])
  | .printing partition _ [] commitNextOffset rest =>
      some (consumer.goto (.committing partition commitNextOffset rest), [])
  | .printing partition response (record :: records) _ rest =>
      some (consumer.printRecord partition response record records rest,
        [.printed consumer.memberId consumer.generationId response.partition record])
  | .committing _ _ rest =>
      consumer.reply.map fun reply ↦ (consumer.afterCommit rest reply, [])
  | .settling =>
      let settled := if consumer.sawRecords then { consumer with lastActivity := now } else consumer
      some (settled.goto (if consumer.running then .idling else .leaving), [])
  | .idling =>
      if consumer.options.idleExitMs ≠ 0 ∧
          elapsed consumer.lastActivity now consumer.options.idleExitMs then
        some (consumer.goto .leaving, [])
      else some (consumer.goto .turning, [])
  | .leaving => consumer.reply.map fun _ ↦ (consumer.exit 0, [])
  | .stopped _ => none

/-- A request that fails on its way: `transport_failure_exit`.  A leave request
may fail. -/
def transportFailure (consumer : Consumer) (timedOut : Bool) : Consumer :=
  if consumer.phase = .leaving then consumer.exit 0
  else consumer.exit (if timedOut then 4 else 1)

end Consumer

end BoltStream.Client
