import BoltStream.Replication.CopiedLogs
import BoltStream.Storage.Oversized

/-!
# The follower is a prefix of the leader

In every run from empty directories the follower's entries are the first of the
leader's, up to their timestamps: each `replicate_once` copies the next one, and
nothing else moves the follower.  A leader that can be read holds no batch whose
byte count has wrapped; this is all that the copying asks of it.
-/

namespace BoltStream.Replication

open BoltStream.Lib BoltStream.Protocol BoltStream.Compression BoltStream.Storage
open BoltStream.Storage.PartitionLog

/-- `ZSTD_decompress` takes whole frames: nothing comes out of the front part of one. -/
def ExactFrames (Z : Zstd) : Prop :=
  ∀ level input frame, Z.compress level input = .ok frame →
    ∀ n < frame.length, ∀ capacity output,
      Z.decompress capacity (frame.take n) = .ok output → output = []

/-- A produced batch whose byte count wraps cannot be told from a front part. -/
theorem refused_of_compress {Z : Zstd} (hexact : ExactFrames Z) {codec : Codec}
    {records : List BatchRecord} {level : ℤ} {encoded : Bytes}
    (hcompress : compress Z codec (encodeRecordSet records) level = .ok encoded)
    (hsize : (encodeRecordSet records).length < 2 ^ 32) (hwraps : 2 ^ 32 ≤ encoded.length + 40)
    (baseOffset timestamp limit : ℕ) :
    (Entry.batch baseOffset timestamp codec encoded records).Refused Z limit := by
  have hpos : 0 < (encodeRecordSet records).length :=
    (Nat.zero_le _).trans_lt (length_lt_encodeRecordSet records)
  cases codec with
  | none =>
      obtain rfl : encodeRecordSet records = encoded := Except.ok.inj hcompress
      refine ⟨hwraps, rfl, hsize, fun n hn raw hraw ↦ ?_⟩
      unfold decompress at hraw
      split_ifs at hraw with hlimit hlength
      rw [ne_eq, not_not, List.length_take] at hlength
      omega
  | zstd =>
      refine ⟨hwraps, rfl, hsize, fun n hn raw hraw ↦ ?_⟩
      have hframe := compress_zstd_eq_ok hcompress
      have hlimit := decompress_le hraw
      unfold decompress at hraw
      rw [if_neg (by omega)] at hraw
      dsimp only at hraw
      cases hresult : Z.decompress (encodeRecordSet records).length (encoded.take n) with
      | error message =>
          rw [hresult] at hraw
          cases hraw
      | ok output =>
          rw [hresult, hexact level _ _ hframe n hn _ _ hresult] at hraw
          simp only [Except.mapError, ok_bind, List.length_nil] at hraw
          rw [if_pos (by omega)] at hraw
          cases hraw
  | other value => cases hcompress

namespace ReplicationSimulation

variable {Z : Zstd} {sim : ReplicationSimulation} {produced : List (List AppendRecord)}
  {L F : Layout}

/-- The leader holds the produced batches, and the follower the first of them. -/
structure Following (Z : Zstd) (sim : ReplicationSimulation) (produced : List (List AppendRecord))
    (L F : Layout) : Prop where
  valid : OpenOptions sim.options.logOptions
  leader : sim.leader.Grown Z sim.options.logOptions L
  follower : sim.follower.Grown Z sim.options.logOptions F
  batches : List.Forall₂ Entry.IsBatchOf L.entries produced
  copies : F.entries.map Entry.untimed <+: L.entries.map Entry.untimed

theorem exists_isBatchOf {es : List Entry} (h : List.Forall₂ Entry.IsBatchOf es produced)
    {e : Entry} (he : e ∈ es) : ∃ records, e.IsBatchOf records := by
  induction h with
  | nil => cases he
  | cons hbatch _ ih =>
      rcases List.mem_cons.mp he with rfl | he
      · exact ⟨_, hbatch⟩
      · exact ih he

/-- The leader's entries that the follower has, and those it has not. -/
theorem Following.split (h : Following Z sim produced L F) :
    ∃ old rest, L.entries = old ++ rest ∧ old.map Entry.untimed = F.entries.map Entry.untimed ∧
      Consecutive 0 old sim.follower.nextOffset ∧
      Consecutive sim.follower.nextOffset rest sim.leader.nextOffset := by
  obtain ⟨later, hlater⟩ := h.copies
  obtain ⟨old, rest, hentries, hold, -⟩ := List.map_eq_append_iff.mp hlater.symm
  have hconsecutive := h.leader.consecutive
  rw [hentries] at hconsecutive
  obtain ⟨middle, hfront, hback⟩ := hconsecutive.split
  have hsame : Consecutive 0 old sim.follower.nextOffset := by
    rw [← Consecutive.untimed_iff, hold, Consecutive.untimed_iff]
    exact h.follower.consecutive
  obtain rfl := hsame.unique hfront
  exact ⟨old, rest, hentries, hold, hsame, hback⟩

theorem Following.next_le (h : Following Z sim produced L F) :
    sim.follower.nextOffset ≤ sim.leader.nextOffset := by
  obtain ⟨old, rest, -, -, -, hback⟩ := h.split
  exact hback.le

theorem Following.leader_next (h : Following Z sim produced L F) :
    sim.leader.nextOffset = produced.flatten.length := by
  rw [(seen_of_batches h.batches h.leader.consecutive).2, Nat.zero_add]

/-! ## Copying -/

/-- A follower behind its leader copies the next batch. -/
theorem Following.copies_next (h : Following Z sim produced L F)
    (havailable : sim.followerAvailable = true)
    (hbehind : sim.follower.nextOffset < sim.leader.nextOffset) (clock : AppendClock) :
    ∃ follower F', sim.replicateOnce Z clock = ({ sim with follower := follower }, .ok true) ∧
      Following Z { sim with follower := follower } produced L F' ∧
      sim.follower.nextOffset < follower.nextOffset := by
  obtain ⟨old, rest, hentries, hold, hfront, hback⟩ := h.split
  cases rest with
  | nil => exact absurd (show sim.leader.nextOffset = sim.follower.nextOffset from hback) (by omega)
  | cons e rest =>
      have he : e ∈ L.entries := by rw [hentries]; exact List.mem_append_right _ List.mem_cons_self
      obtain ⟨records, baseOffset, timestamp, codec, encoded, rfl⟩ := exists_isBatchOf h.batches he
      obtain rfl : baseOffset = sim.follower.nextOffset := hback.1
      obtain ⟨hbatchRead, read, hread, hrecords⟩ := h.leader.readBatch hentries
      obtain ⟨follower, copied, F', happend, hgrown, hcopies, hbase, hnext⟩ :=
        h.follower.copy (h.leader.represents.written _ he) (h.leader.decodable _ he) rfl hrecords
          (clock.timestamp 0)
      have hmetadata : ¬ (copied.baseOffset ≠ sim.follower.nextOffset ∨
          copied.nextOffset ≠
            (sim.follower.nextOffset + (batchRecords records).length) % 2 ^ 64) := by
        rw [hbase, hnext]
        simp
      have hcopy : sim.replicateOnce Z clock = ({ sim with follower := follower }, .ok true) := by
        rw [replicateOnce, if_neg (by simp [havailable]),
          if_neg (by omega), if_neg (by omega), hbatchRead]
        dsimp only
        rw [copyBatch]
        simp only [storedBatchMetadata, hread, happend]
        exact congrArg (Prod.mk _) (if_neg hmetadata)
      have hfollowing : Following Z { sim with follower := follower } produced L F' := by
        refine ⟨h.valid, h.leader, hgrown, h.batches, ?_⟩
        rw [hcopies, ← hold, hentries, List.map_append, List.map_cons]
        exact ⟨rest.map Entry.untimed, by simp⟩
      refine ⟨follower, F', hcopy, hfollowing, ?_⟩
      have hpos : 0 < (batchRecords records).length := (h.leader.represents.written _ he).count_pos
      have hlast := hgrown.consecutive
      rw [← Consecutive.untimed_iff, hcopies, ← hold] at hlast
      obtain ⟨middle, hmiddle, hcopied⟩ := hlast.split
      rw [Consecutive.untimed_iff] at hmiddle
      obtain rfl := hfront.unique hmiddle
      have hstop : follower.nextOffset =
          sim.follower.nextOffset + (batchRecords records).length := hcopied.2
      omega

/-- What `replicate_once` does in a following simulation. -/
theorem Following.replicateOnce_cases (h : Following Z sim produced L F) (clock : AppendClock) :
    (sim.replicateOnce Z clock = (sim, .ok false) ∧
        (sim.followerAvailable = true → sim.follower.nextOffset = sim.leader.nextOffset)) ∨
      ∃ follower F', sim.replicateOnce Z clock = ({ sim with follower := follower }, .ok true) ∧
        Following Z { sim with follower := follower } produced L F' ∧
        sim.follower.nextOffset < follower.nextOffset := by
  have hle := h.next_le
  by_cases havailable : sim.followerAvailable = false
  · refine Or.inl ⟨?_, fun htrue ↦ ?_⟩
    · rw [replicateOnce, if_pos havailable]
    · rw [havailable] at htrue
      cases htrue
  · by_cases hequal : sim.follower.nextOffset = sim.leader.nextOffset
    · refine Or.inl ⟨?_, fun _ ↦ hequal⟩
      rw [replicateOnce, if_neg havailable, if_neg (by omega), if_pos hequal]
    · exact Or.inr (h.copies_next (Bool.not_eq_false _ ▸ havailable) (by omega) clock)

/-- Waiting for the follower fails only by the deadline. -/
theorem Following.awaitFollower (h : Following Z sim produced L F) (target : ℕ)
    (turns : List AppendClock) :
    ∃ follower F', awaitFollower Z target turns sim = ({ sim with follower := follower }, .ok ()) ∧
      Following Z { sim with follower := follower } produced L F' := by
  induction turns generalizing sim F with
  | nil => exact ⟨sim.follower, F, rfl, h⟩
  | cons clock turns ih =>
      rw [ReplicationSimulation.awaitFollower]
      by_cases hbehind : sim.follower.nextOffset < target
      · rw [if_pos hbehind]
        rcases h.replicateOnce_cases clock with ⟨hfalse, -⟩ | ⟨follower, F', htrue, hfollowing, -⟩
        · rw [hfalse]
          exact ih h
        · rw [htrue]
          exact ih hfollowing
      · rw [if_neg hbehind]
        exact ⟨sim.follower, F, rfl, h⟩

/-- `catch_up` ends, and when the follower is available it has caught up. -/
theorem Following.catchUpLoop (h : Following Z sim produced L F) (clocks : ℕ → AppendClock)
    (fuel fetches : ℕ) :
    ∃ follower F' result,
      catchUpLoop Z clocks fuel fetches sim = ({ sim with follower := follower }, result) ∧
      Following Z { sim with follower := follower } produced L F' ∧
      (sim.leader.nextOffset - sim.follower.nextOffset < fuel →
        (∃ count, result = some (.ok count)) ∧
          (sim.followerAvailable = true → follower.nextOffset = sim.leader.nextOffset)) := by
  induction fuel generalizing sim F fetches with
  | zero => exact ⟨sim.follower, F, none, rfl, h, fun hlag ↦ absurd hlag (Nat.not_lt_zero _)⟩
  | succ fuel ih =>
      rw [ReplicationSimulation.catchUpLoop]
      rcases h.replicateOnce_cases (clocks fetches) with
        ⟨hfalse, hequal⟩ | ⟨follower, F', htrue, hfollowing, hlt⟩
      · rw [hfalse]
        exact ⟨sim.follower, F, _, rfl, h, fun _ ↦ ⟨⟨fetches, rfl⟩, hequal⟩⟩
      · rw [htrue]
        obtain ⟨follower', F'', result, hloop, hfollowing', hresult⟩ := ih hfollowing (fetches + 1)
        refine ⟨follower', F'', result, hloop, hfollowing', fun hlag ↦ hresult ?_⟩
        have hle := hfollowing.next_le
        dsimp only at hle ⊢
        omega

theorem Following.reopenFollower (h : Following Z sim produced L F) :
    ∃ follower, sim.reopenFollower Z = ({ sim with follower := follower }, .ok ()) ∧
      Following Z { sim with follower := follower } produced L F := by
  obtain ⟨follower, hopened, hgrown, -⟩ := h.follower.reopen h.valid
  refine ⟨follower, ?_, h.valid, h.leader, hgrown, h.batches, h.copies⟩
  rw [ReplicationSimulation.reopenFollower, hopened]

/-! ## Producing -/

theorem log_of_appendEncodedBatch_error {log log' : PartitionLog} {codec : Codec}
    {encodedRecords : Bytes} {uncompressedBytes : UInt32} {decodedRecords : List AppendRecord}
    {timestamp : UInt64} {message : String}
    (h : appendEncodedBatch Z log codec encodedRecords uncompressedBytes decodedRecords timestamp
      none = (log', .error message)) : log' = log := by
  unfold appendEncodedBatch at h
  cases hvalid : validateEncodedBatch Z log.options codec encodedRecords uncompressedBytes
      decodedRecords with
  | error message' =>
      rw [hvalid] at h
      exact (Prod.mk.inj h).1.symm
  | ok =>
      rw [hvalid] at h
      cases (Prod.mk.inj h).2

theorem nextOffset_of_appendEncodedBatch {log log' : PartitionLog} {codec : Codec}
    {encodedRecords : Bytes} {uncompressedBytes : UInt32} {decodedRecords : List AppendRecord}
    {timestamp : UInt64} {metadata : BatchMetadata}
    (h : appendEncodedBatch Z log codec encodedRecords uncompressedBytes decodedRecords timestamp
      none = (log', .ok metadata)) : log'.nextOffset = metadata.nextOffset := by
  have hvalid := LogState.validate_of_appendEncodedBatch h
  unfold appendEncodedBatch at h
  rw [hvalid] at h
  obtain ⟨rfl, hmetadata⟩ := Prod.mk.inj h
  rw [← Except.ok.inj hmetadata]

/-- The two ways an append to the leader ends. -/
theorem appendToLeader_cases (Z : Zstd) (sim : ReplicationSimulation) (records : List AppendRecord)
    (codec : Codec) (timestamp : UInt64) :
    (∃ error, sim.appendToLeader Z records codec timestamp = (sim, .error error)) ∨
      ∃ encoded leader metadata,
        compress Z codec (encodeRecordSet (batchRecords records)) 3 = .ok encoded ∧
        appendEncodedBatch Z sim.leader codec encoded
            (UInt32.ofNat (encodeRecordSet (batchRecords records)).length) records timestamp none =
          (leader, .ok metadata) ∧
        sim.appendToLeader Z records codec timestamp =
          ({ sim with leader := leader }, .ok metadata) := by
  have hcanonical : (records.map fun record ↦ (⟨record.key, record.value⟩ : BatchRecord)) =
      batchRecords records := rfl
  rw [appendToLeader, hcanonical]
  cases hcompress : compress Z codec (encodeRecordSet (batchRecords records)) 3 with
  | error message => exact Or.inl ⟨.call message, rfl⟩
  | ok encoded =>
      dsimp only
      cases happend : appendEncodedBatch Z sim.leader codec encoded
          (UInt32.ofNat (encodeRecordSet (batchRecords records)).length) records timestamp none with
      | mk leader result =>
          cases result with
          | error message =>
              rw [log_of_appendEncodedBatch_error happend]
              exact Or.inl ⟨.call message, rfl⟩
          | ok metadata => exact Or.inr ⟨encoded, leader, metadata, rfl, happend, rfl⟩

/-- A produced batch that fits its byte count. -/
theorem Following.produce (h : Following Z sim produced L F) {records : List AppendRecord}
    {codec : Codec} {timestamp : UInt64} {encoded : Bytes} {uncompressedBytes : UInt32}
    {leader : PartitionLog} {metadata : BatchMetadata}
    (happend : appendEncodedBatch Z sim.leader codec encoded uncompressedBytes records timestamp
      none = (leader, .ok metadata)) (hvalues : ∀ record ∈ records, record.value ≠ [])
    (hbound : produced.flatten.length + records.length < 2 ^ 64)
    (hfits : encoded.length + 40 < 2 ^ 32) :
    ∃ L', Following Z { sim with leader := leader } (produced ++ [records]) L' F := by
  rw [← h.leader_next] at hbound
  obtain ⟨L', hgrown, hentries, hnext⟩ := h.leader.append hbound hfits hvalues happend
  refine ⟨L', h.valid, hgrown, h.follower, ?_, ?_⟩
  · rw [hentries]
    exact List.rel_append h.batches (.cons ⟨_, _, _, _, rfl⟩ .nil)
  · rw [hentries, List.map_append]
    exact h.copies.trans (List.prefix_append _ _)

end ReplicationSimulation

/-! ## Runs -/

open ReplicationSimulation

inductive SimulationOp where
  | produce (records : List AppendRecord) (codec : Codec) (acknowledgement : AcknowledgementMode)
      (timestamp : UInt64) (turns : List AppendClock)
  | replicateOnce (clock : AppendClock)
  | catchUp (clocks : ℕ → AppendClock) (fuel : ℕ)
  | setFollowerAvailable (available : Bool)
  | reopenFollower

/-- A produced batch without empty values. -/
def SimulationOp.ValuesPresent : SimulationOp → Prop
  | .produce records _ _ _ _ => ∀ record ∈ records, record.value ≠ []
  | _ => True

/-- The simulation, and the batches that its leader has taken. -/
structure Simulated where
  sim : ReplicationSimulation
  produced : List (List AppendRecord)

namespace Simulated

/-- One call, whether it returns or throws. -/
def step (Z : Zstd) (state : Simulated) : SimulationOp → Simulated
  | .produce records codec acknowledgement timestamp turns =>
      { sim := (state.sim.produce Z records codec acknowledgement timestamp turns).1
        produced :=
          match (state.sim.appendToLeader Z records codec timestamp).2 with
          | .ok _ => state.produced ++ [records]
          | .error _ => state.produced }
  | .replicateOnce clock => { state with sim := (state.sim.replicateOnce Z clock).1 }
  | .catchUp clocks fuel => { state with sim := (state.sim.catchUp Z clocks fuel).1 }
  | .setFollowerAvailable available =>
      { state with sim := state.sim.setFollowerAvailable available }
  | .reopenFollower => { state with sim := (state.sim.reopenFollower Z).1 }

def steps (Z : Zstd) (state : Simulated) (ops : List SimulationOp) : Simulated :=
  ops.foldl (step Z) state

/-- The follower follows, or the leader cannot be read any more. -/
def Sound (Z : Zstd) (state : Simulated) : Prop :=
  (∃ L F, Following Z state.sim state.produced L F) ∨
    (state.sim.leader.Stuck Z ∧ state.sim.leader.nextOffset = state.produced.flatten.length)

variable {Z : Zstd} {state : Simulated}

/-! The leader only changes when something is produced. -/

theorem leader_replicateOnce (Z : Zstd) (sim : ReplicationSimulation) (clock : AppendClock) :
    (sim.replicateOnce Z clock).1.leader = sim.leader := by
  rw [replicateOnce]
  split_ifs
  · rfl
  · rfl
  · rfl
  · split
    · rfl
    · rw [copyBatch]
      split
      · rfl
      · split <;> rfl
    · rw [copyRecord]
      split
      · rfl
      · rfl
      · split_ifs
        · rfl
        · split <;> rfl

theorem leader_awaitFollower (Z : Zstd) (target : ℕ) (turns : List AppendClock)
    (sim : ReplicationSimulation) :
    (awaitFollower Z target turns sim).1.leader = sim.leader := by
  induction turns generalizing sim with
  | nil => rfl
  | cons clock turns ih =>
      rw [awaitFollower]
      split_ifs with hbehind
      · have hleader := leader_replicateOnce Z sim clock
        split
        · next sim' error hresult => rwa [hresult] at hleader
        · next sim' moved hresult =>
            rw [hresult] at hleader
            exact (ih sim').trans hleader
      · rfl

theorem leader_catchUpLoop (clocks : ℕ → AppendClock) (fuel fetches : ℕ)
    (sim : ReplicationSimulation) :
    (catchUpLoop Z clocks fuel fetches sim).1.leader = sim.leader := by
  induction fuel generalizing fetches sim with
  | zero => rfl
  | succ fuel ih =>
      rw [catchUpLoop]
      have hleader := leader_replicateOnce Z sim (clocks fetches)
      split
      · next sim' error hresult => rwa [hresult] at hleader
      · next sim' hresult => rwa [hresult] at hleader
      · next sim' hresult =>
          rw [hresult] at hleader
          exact (ih (fetches + 1) sim').trans hleader

theorem leader_reopenFollower (sim : ReplicationSimulation) :
    (sim.reopenFollower Z).1.leader = sim.leader := by
  rw [reopenFollower]
  split <;> rfl

theorem leader_produce {sim sim' : ReplicationSimulation} {records : List AppendRecord}
    {codec : Codec} {timestamp : UInt64} {metadata : BatchMetadata}
    (h : sim.appendToLeader Z records codec timestamp = (sim', .ok metadata))
    (acknowledgement : AcknowledgementMode) (turns : List AppendClock) :
    (sim.produce Z records codec acknowledgement timestamp turns).1.leader = sim'.leader := by
  rw [ReplicationSimulation.produce, h]
  cases acknowledgement with
  | leader => rfl
  | all =>
      have hleader := leader_awaitFollower Z metadata.nextOffset turns sim'
      dsimp only
      split
      · next sim'' error hresult => rwa [hresult] at hleader
      · next sim'' hresult => rwa [hresult] at hleader

/-- A produced batch that the leader took, in a following simulation. -/
theorem following_produce {sim : ReplicationSimulation} {leader : PartitionLog}
    {produced : List (List AppendRecord)} {L F : Layout}
    (h : Following Z { sim with leader := leader } produced L F) {records : List AppendRecord}
    {codec : Codec} {timestamp : UInt64} {metadata : BatchMetadata}
    (happend : sim.appendToLeader Z records codec timestamp =
      ({ sim with leader := leader }, .ok metadata)) (acknowledgement : AcknowledgementMode)
    (turns : List AppendClock) :
    ∃ F', Following Z (sim.produce Z records codec acknowledgement timestamp turns).1 produced L
      F' := by
  rw [ReplicationSimulation.produce, happend]
  cases acknowledgement with
  | leader => exact ⟨F, h⟩
  | all =>
      obtain ⟨follower, F', hawait, hfollowing⟩ := h.awaitFollower metadata.nextOffset turns
      dsimp only
      rw [hawait]
      exact ⟨F', hfollowing⟩

/-- What one call keeps. -/
theorem Sound.step (hexact : ExactFrames Z) (h : state.Sound Z) {op : SimulationOp}
    (hvalues : op.ValuesPresent) (hbound : (state.step Z op).produced.flatten.length < 2 ^ 64) :
    (state.step Z op).Sound Z := by
  have hkept : ∀ sim : ReplicationSimulation, sim.leader = state.sim.leader →
      (state.sim.leader.Stuck Z ∧ state.sim.leader.nextOffset = state.produced.flatten.length) →
        Simulated.Sound Z { state with sim := sim } :=
    fun sim hleader hstuck ↦ Or.inr (by rw [hleader]; exact hstuck)
  cases op with
  | produce records codec acknowledgement timestamp turns =>
      rcases appendToLeader_cases Z state.sim records codec timestamp with
        ⟨error, hfailed⟩ | ⟨encoded, leader, metadata, hcompress, happend, hproduced⟩
      · have hstep : state.step Z (.produce records codec acknowledgement timestamp turns) =
            state := by
          simp only [Simulated.step, ReplicationSimulation.produce, hfailed]
        rwa [hstep]
      · have hstep : (state.step Z (.produce records codec acknowledgement timestamp
            turns)).produced = state.produced ++ [records] := by
          simp only [Simulated.step, hproduced]
        rw [hstep, List.flatten_append, List.length_append, List.flatten_singleton] at hbound
        obtain ⟨-, -, -, hnext⟩ := appendEncodedBatch_parts happend
        have hleader := leader_produce hproduced acknowledgement turns
        have hstuck : leader.Stuck Z →
            state.sim.leader.nextOffset = state.produced.flatten.length →
            (state.step Z (.produce records codec acknowledgement timestamp turns)).Sound Z := by
          intro hstuck hcount
          refine Or.inr ⟨hleader.symm ▸ hstuck, ?_⟩
          rw [hstep, List.flatten_append, List.length_append, List.flatten_singleton, ← hcount]
          refine (congrArg nextOffset hleader).trans (hnext.trans (Nat.mod_eq_of_lt ?_))
          rwa [hcount]
        rcases h with ⟨L, F, hfollowing⟩ | ⟨hfull, hcount⟩
        · by_cases hfits : encoded.length + 40 < 2 ^ 32
          · obtain ⟨L', hfollowing'⟩ := hfollowing.produce happend hvalues hbound hfits
            obtain ⟨F', hdone⟩ := following_produce hfollowing' hproduced acknowledgement turns
            exact Or.inl ⟨L', F', hstep ▸ hdone⟩
          · have hvalid := LogState.validate_of_appendEncodedBatch happend
            have hcount := hfollowing.leader_next
            have hindexed : state.sim.leader.index.map IndexEntry.offset =
                List.range state.sim.leader.nextOffset := hfollowing.leader.indexed
            obtain ⟨-, -, hsize, -⟩ := validateEncodedBatch_ok hvalid
            refine hstuck (hfollowing.leader.represents.stuck hindexed (by omega) ?_ happend) hcount
            exact refused_of_compress hexact hcompress (hsize ▸ UInt32.toNat_lt _) (by omega) _ _ _
        · exact hstuck (hfull.append (by omega) happend) hcount
  | replicateOnce clock =>
      rcases h with ⟨L, F, hfollowing⟩ | hstuck
      · rcases hfollowing.replicateOnce_cases clock with
          ⟨hresult, -⟩ | ⟨follower, F', hresult, hfollowing', -⟩
        · exact Or.inl ⟨L, F, by rw [Simulated.step, hresult]; exact hfollowing⟩
        · exact Or.inl ⟨L, F', by rw [Simulated.step, hresult]; exact hfollowing'⟩
      · exact hkept _ (leader_replicateOnce Z _ clock) hstuck
  | catchUp clocks fuel =>
      rcases h with ⟨L, F, hfollowing⟩ | hstuck
      · obtain ⟨follower, F', result, hresult, hfollowing', -⟩ :=
          hfollowing.catchUpLoop clocks fuel 0
        exact Or.inl ⟨L, F', by rw [Simulated.step, catchUp, hresult]; exact hfollowing'⟩
      · exact hkept _ (leader_catchUpLoop clocks fuel 0 _) hstuck
  | setFollowerAvailable available =>
      rcases h with ⟨L, F, hfollowing⟩ | hstuck
      · exact Or.inl ⟨L, F, hfollowing.valid, hfollowing.leader, hfollowing.follower,
          hfollowing.batches, hfollowing.copies⟩
      · exact hkept _ rfl hstuck
  | reopenFollower =>
      rcases h with ⟨L, F, hfollowing⟩ | hstuck
      · obtain ⟨follower, hresult, hfollowing'⟩ := hfollowing.reopenFollower
        exact Or.inl ⟨L, F, by rw [Simulated.step, hresult]; exact hfollowing'⟩
      · exact hkept _ (leader_reopenFollower _) hstuck

/-! ## What readers see -/

/-- The offsets, keys and values of records. -/
def seen (read : List Record) : List (ℕ × Bytes × Bytes) := read.map fun record ↦ record.stored.seen

/-- Reading a log that was only appended to. -/
theorem seen_readAll {options : PartitionLogOptions} {log : PartitionLog} {layout : Layout}
    (h : log.Grown Z options layout) :
    ∃ read, log.readFrom Z log.earliestOffset log.nextOffset 0 = .ok read ∧
      seen read = layout.records.map StoredRecord.seen := by
  have hread := h.readAll
  cases hresult : log.readFrom Z log.earliestOffset log.nextOffset 0 with
  | error message =>
      rw [hresult] at hread
      cases hread
  | ok read =>
      rw [hresult, ok_map] at hread
      refine ⟨read, rfl, ?_⟩
      rw [← Except.ok.inj hread, seen, List.map_map]
      rfl

/-- The follower's records are those of the first batches. -/
theorem following_reads {sim : ReplicationSimulation} {produced : List (List AppendRecord)}
    {L F : Layout} (h : Following Z sim produced L F) :
    (∃ read, sim.leaderRecords Z = .ok read ∧ seen read = numbered 0 produced.flatten) ∧
      ∃ n ≤ produced.length, sim.follower.nextOffset = (produced.take n).flatten.length ∧
        ∃ read, sim.followerRecords Z = .ok read ∧
          seen read = numbered 0 (produced.take n).flatten := by
  obtain ⟨leaderRead, hleaderRead, hleaderSeen⟩ := seen_readAll h.leader
  obtain ⟨followerRead, hfollowerRead, hfollowerSeen⟩ := seen_readAll h.follower
  obtain ⟨old, rest, hentries, hold, hfront, -⟩ := h.split
  have hbatches := List.forall₂_take old.length h.batches
  rw [hentries, List.take_left] at hbatches
  have hle : old.length ≤ produced.length := by
    rw [← h.batches.length_eq, hentries, List.length_append]
    exact Nat.le_add_right _ _
  obtain ⟨hseen, hnext⟩ := seen_of_batches hbatches hfront
  refine ⟨⟨leaderRead, hleaderRead, hleaderSeen.trans
    (seen_of_batches h.batches h.leader.consecutive).1⟩, old.length, hle, ?_, followerRead,
    hfollowerRead, ?_⟩
  · rw [hnext, Nat.zero_add]
  · rw [hfollowerSeen, ← hseen]
    exact (seen_of_untimed hold).symm

theorem steps_append (Z : Zstd) (state : Simulated) (ops : List SimulationOp) (op : SimulationOp) :
    state.steps Z (ops ++ [op]) = (state.steps Z ops).step Z op := by
  rw [steps, List.foldl_append]
  rfl

theorem produced_step (Z : Zstd) (state : Simulated) (op : SimulationOp) :
    state.produced.flatten.length ≤ (state.step Z op).produced.flatten.length := by
  cases op with
  | produce records codec acknowledgement timestamp turns =>
      rw [step]
      dsimp only
      split
      · rw [List.flatten_append, List.length_append]
        exact Nat.le_add_right _ _
      · exact le_rfl
  | _ => exact le_rfl

theorem following_opened {options : SimulationOptions} {start : ReplicationSimulation}
    (h : openSimulation Z options {} {} = .ok start) : ∃ L F, Following Z start [] L F := by
  rw [openSimulation] at h
  cases hopened : openLog Z options.logOptions {} with
  | error message =>
      rw [hopened] at h
      cases h
  | ok log =>
      rw [hopened] at h
      dsimp only at h
      split_ifs at h
      obtain ⟨layout, hgrown, hnil⟩ := grown_opened hopened
      rw [← Except.ok.inj h]
      refine ⟨layout, layout, LogState.openOptions_of_openLog hopened, hgrown, hgrown, ?_,
        List.prefix_rfl⟩
      rw [hnil]
      exact .nil

theorem sound_steps (hexact : ExactFrames Z) {options : SimulationOptions}
    {start : ReplicationSimulation} (hopened : openSimulation Z options {} {} = .ok start)
    {ops : List SimulationOp} (hvalues : ∀ op ∈ ops, op.ValuesPresent)
    (hcount : (steps Z ⟨start, []⟩ ops).produced.flatten.length < 2 ^ 64) :
    (steps Z ⟨start, []⟩ ops).Sound Z := by
  induction ops using List.reverseRecOn with
  | nil => exact Or.inl (following_opened hopened)
  | append_singleton ops op ih =>
      rw [steps_append] at hcount ⊢
      have hbefore := produced_step Z (steps Z ⟨start, []⟩ ops) op
      refine (ih (fun other hother ↦ hvalues other (List.mem_append_left _ hother))
        (by omega)).step hexact (hvalues op (List.mem_append_right _ List.mem_cons_self)) hcount

/-- A leader that can be read is followed. -/
theorem Sound.following (h : state.Sound Z) (hread : ∃ read, state.sim.leaderRecords Z = .ok read) :
    ∃ L F, Following Z state.sim state.produced L F := by
  refine h.resolve_right fun hstuck ↦ ?_
  obtain ⟨message, herror⟩ := hstuck.1.readAll
  obtain ⟨read, hread⟩ := hread
  rw [leaderRecords, herror] at hread
  cases hread

/-- A `produce` that waited for the follower and returned. -/
theorem produce_all_ok {sim : ReplicationSimulation} {records : List AppendRecord} {codec : Codec}
    {timestamp : UInt64} {turns : List AppendClock} {metadata : BatchMetadata}
    (h : (sim.produce Z records codec .all timestamp turns).2 = .ok metadata) :
    (sim.produce Z records codec .all timestamp turns).1.leader.nextOffset =
        metadata.nextOffset ∧
      metadata.nextOffset ≤
        (sim.produce Z records codec .all timestamp turns).1.follower.nextOffset := by
  rcases appendToLeader_cases Z sim records codec timestamp with
    ⟨error, hfailed⟩ | ⟨encoded, leader, metadata', -, happend, hproduced⟩
  · rw [ReplicationSimulation.produce, hfailed] at h
    cases h
  · have hleader := leader_produce hproduced .all turns
    have hnext := nextOffset_of_appendEncodedBatch happend
    rw [ReplicationSimulation.produce, hproduced] at h hleader ⊢
    dsimp only at h hleader ⊢
    cases hawait : awaitFollower Z metadata'.nextOffset turns { sim with leader := leader } with
    | mk sim' result =>
        rw [hawait] at h hleader
        cases result with
        | error error => cases h
        | ok _ =>
            dsimp only at h hleader ⊢
            split_ifs at h with hbehind
            obtain rfl := Except.ok.inj h
            exact ⟨by rw [hleader, hnext], Nat.not_lt.mp hbehind⟩

/-- Once all have acknowledged a batch, the follower has everything. -/
theorem acknowledged_by_all {records : List AppendRecord} {codec : Codec} {timestamp : UInt64}
    {turns : List AppendClock} {metadata : BatchMetadata}
    (hafter : (state.step Z (.produce records codec .all timestamp turns)).Sound Z)
    (hok : (state.sim.produce Z records codec .all timestamp turns).2 = .ok metadata)
    (hread : ∃ read, (state.step Z (.produce records codec .all timestamp
      turns)).sim.leaderRecords Z = .ok read) :
    ∃ read, (state.step Z (.produce records codec .all timestamp turns)).sim.followerRecords Z =
        .ok read ∧
      seen read = numbered 0 (state.step Z (.produce records codec .all timestamp
        turns)).produced.flatten := by
  obtain ⟨hleader, hreached⟩ := produce_all_ok hok
  obtain ⟨L, F, hfollowing⟩ := hafter.following hread
  set after := state.step Z (.produce records codec .all timestamp turns)
  have hcaught : after.sim.leader.nextOffset ≤ after.sim.follower.nextOffset :=
    hleader.le.trans hreached
  obtain ⟨-, n, -, hnext, read, hfollower, hseen⟩ := following_reads hfollowing
  refine ⟨read, hfollower, hseen.trans ?_⟩
  have htotal := hfollowing.leader_next
  have hfirst : (after.produced.take n).flatten <+: after.produced.flatten := by
    nth_rewrite 2 [← List.take_append_drop n after.produced]
    rw [List.flatten_append]
    exact List.prefix_append _ _
  rw [hfirst.eq_of_length (le_antisymm hfirst.length_le (by omega))]

/-- In every run from empty directories whose leader can be read, the follower is a
prefix of the leader up to the end of a batch, copying never fails, a batch
acknowledged by all is on the follower, and a follower that is available catches up. -/
theorem follower_prefix_of_leader (Z : Zstd) (hexact : ExactFrames Z) (options : SimulationOptions)
    (start : ReplicationSimulation) (hopened : openSimulation Z options {} {} = .ok start)
    (ops : List SimulationOp) (hvalues : ∀ op ∈ ops, op.ValuesPresent)
    (hcount : (steps Z ⟨start, []⟩ ops).produced.flatten.length < 2 ^ 64)
    (hread : ∃ read, (steps Z ⟨start, []⟩ ops).sim.leaderRecords Z = .ok read) :
    let state := steps Z ⟨start, []⟩ ops
    (∃ leaderRead followerRead, ∃ n ≤ state.produced.length,
      state.sim.leaderRecords Z = .ok leaderRead ∧
      state.sim.followerRecords Z = .ok followerRead ∧
      seen followerRead <+: seen leaderRead ∧
      seen leaderRead = numbered 0 state.produced.flatten ∧
      seen followerRead = numbered 0 (state.produced.take n).flatten) ∧
    (∀ clock, ∃ sim' moved, state.sim.replicateOnce Z clock = (sim', .ok moved)) ∧
    (∀ earlier records codec timestamp turns metadata,
      ops = earlier ++ [.produce records codec .all timestamp turns] →
      ((steps Z ⟨start, []⟩ earlier).sim.produce Z records codec .all timestamp turns).2 =
        .ok metadata →
      ∃ read, state.sim.followerRecords Z = .ok read ∧
        seen read = numbered 0 state.produced.flatten) ∧
    ∀ clocks fuel, state.sim.followerAvailable = true → state.sim.lagRecords < fuel →
      ∃ sim' fetches, state.sim.catchUp Z clocks fuel = (sim', some (.ok fetches)) ∧
        sim'.lagRecords = 0 := by
  intro state
  have hsound : state.Sound Z := sound_steps hexact hopened hvalues hcount
  obtain ⟨L, F, hfollowing⟩ := hsound.following hread
  refine ⟨?_, fun clock ↦ ?_, ?_, fun clocks fuel havailable hlag ↦ ?_⟩
  · obtain ⟨⟨leaderRead, hleaderRead, hleader⟩, n, hn, -, followerRead, hfollowerRead, hfollower⟩ :=
      following_reads hfollowing
    refine ⟨leaderRead, followerRead, n, hn, hleaderRead, hfollowerRead, ?_, hleader, hfollower⟩
    rw [hleader, hfollower]
    nth_rewrite 2 [← List.take_append_drop n state.produced]
    rw [List.flatten_append, numbered_append]
    exact List.prefix_append _ _
  · rcases hfollowing.replicateOnce_cases clock with ⟨hresult, -⟩ | ⟨follower, F', hresult, -, -⟩
    · exact ⟨_, _, hresult⟩
    · exact ⟨_, _, hresult⟩
  · intro earlier records codec timestamp turns metadata hops hok
    have hlast : state = (steps Z ⟨start, []⟩ earlier).step Z (.produce records codec .all timestamp
        turns) := by
      rw [show state = steps Z ⟨start, []⟩ ops from rfl, hops, steps_append]
    rw [hlast] at hsound ⊢
    exact acknowledged_by_all hsound hok (hlast ▸ hread)
  · obtain ⟨follower, F', result, hresult, hfollowing', hdone⟩ :=
      hfollowing.catchUpLoop clocks fuel 0
    have hle := hfollowing.next_le
    obtain ⟨⟨count, rfl⟩, hnext⟩ := hdone (by
      rw [lagRecords, if_pos hle] at hlag
      exact hlag)
    refine ⟨_, count, hresult, ?_⟩
    rw [lagRecords, hnext havailable]
    simp

/-! ## A short run -/

theorem exactFrames_rawBlockZstd : ExactFrames rawBlockZstd := by
  intro level input frame hcompress n hn capacity output hdecompress
  simp only [rawBlockZstd] at hcompress hdecompress
  split_ifs at hcompress with hsmall
  set header : Bytes := [40, 181, 47, 253, 32, UInt8.ofNat input.length,
    UInt8.ofNat (1 + 8 * input.length), UInt8.ofNat ((1 + 8 * input.length) / 256), 0] with hheader
  obtain rfl : header ++ input = frame := Except.ok.inj hcompress
  have hlength : (header ++ input).length = 9 + input.length := by
    rw [List.length_append, hheader]
    rfl
  split_ifs at hdecompress with hmagic hblock
  rw [not_or, not_not] at hblock
  obtain ⟨hne, hfields⟩ := hblock
  -- The block header still names the length of the whole input.
  have hlong : 9 < n := by
    by_contra hshort
    exact hne (List.drop_eq_nil_of_le (by rw [List.length_take]; omega))
  have hcut : ((header ++ input).take n).length = n := by
    rw [List.length_take]
    omega
  rw [hcut, List.take_take, min_eq_left hlong.le,
    List.take_append_of_le_length (by rw [hheader]; simp),
    List.take_of_length_le (by rw [hheader]; simp), hheader] at hfields
  have hbyte : UInt8.ofNat input.length = UInt8.ofNat (n - 9) := by
    simp only [List.cons.injEq] at hfields
    exact hfields.2.2.2.2.2.1
  have hnat := congrArg UInt8.toNat hbyte
  rw [UInt8.toNat_ofNat', UInt8.toNat_ofNat', Nat.mod_eq_of_lt (by omega),
    Nat.mod_eq_of_lt (by omega)] at hnat
  omega

/-- Two logs with small segments. -/
def smallSimulation : SimulationOptions :=
  { leaderDataDir := [108]
    followerDataDir := [102]
    topic := [116]
    partition := 0
    leaderId := [49]
    followerId := [50]
    maxSegmentBytes := 60
    maxUncompressedBatchBytes := 1048576 }

def smallStart : ReplicationSimulation :=
  { options := smallSimulation
    leader := emptyLog smallSimulation.logOptions
    follower := emptyLog smallSimulation.logOptions }

/-- A batch that the follower misses, one it gets, and a restart. -/
def restartedFollower : List SimulationOp :=
  [.setFollowerAvailable false, .produce [⟨[], [7]⟩, ⟨[1], [8]⟩] .zstd .all 3 [stillClock],
    .setFollowerAvailable true, .replicateOnce stillClock, .produce [⟨[2], [9]⟩] .none .leader 4 [],
    .reopenFollower]

theorem openSimulation_small :
    openSimulation rawBlockZstd smallSimulation {} {} = .ok smallStart := by
  have hoptions : OpenOptions smallSimulation.logOptions := ⟨by decide, by decide⟩
  have hopened := openLog_empty hoptions rawBlockZstd
  rw [openSimulation, hopened]
  rfl

theorem follower_prefix_of_leader_restarted :
    (steps rawBlockZstd ⟨smallStart, []⟩ restartedFollower).sim.follower.nextOffset = 2 ∧
    ∃ sim' fetches, (steps rawBlockZstd ⟨smallStart, []⟩ restartedFollower).sim.catchUp
      rawBlockZstd (fun _ ↦ stillClock) 2 = (sim', some (.ok fetches)) ∧ sim'.lagRecords = 0 := by
  refine ⟨by decide +kernel, ?_⟩
  refine (follower_prefix_of_leader rawBlockZstd exactFrames_rawBlockZstd smallSimulation smallStart
    openSimulation_small restartedFollower ?_ (by decide +kernel) ?_).2.2.2 _ 2
      (by decide +kernel) (by decide +kernel)
  · simp only [restartedFollower, List.mem_cons, List.not_mem_nil, or_false, forall_eq_or_imp,
      forall_eq, SimulationOp.ValuesPresent, true_and, and_true]
    decide
  · have hok : ((steps rawBlockZstd ⟨smallStart, []⟩ restartedFollower).sim.leaderRecords
        rawBlockZstd).toBool = true := by decide +kernel
    cases hread : (steps rawBlockZstd ⟨smallStart, []⟩ restartedFollower).sim.leaderRecords
        rawBlockZstd with
    | error message =>
        rw [hread] at hok
        cases hok
    | ok read => exact ⟨read, rfl⟩

end Simulated

end BoltStream.Replication
