/-
# Entries that are refused

A follower that does not store an entry answers with the end of its log, for the leader to send what
follows, and a leader that does not store a batch answers with an error.  Either should leave the log
as it was.

* `apply_log_entry` moves the cached end of the log to the entry, and notes the start of a term,
  before it reads the entry and queues it for the disk.  `rejection_intact_iff` says when a rejection
  does no harm: when there is no entry, or one that moves nothing.
* `write_batch` appends the entry before it queues the task for the disk, and does not take it back.
  A refusal does no harm exactly if the batch is empty (`refusal_intact_iff`).
-/
import Kraft.LogRepresentation

namespace Kraft

/-- The log is the same, and so is what is cached about it. -/
structure SameLog (s s' : SharedState) : Prop where
  replicationLog : s'.replicationLog = s.replicationLog
  lastLogIndex : s'.lastLogIndex = s.lastLogIndex
  lastLogTerm : s'.lastLogTerm = s.lastLogTerm
  termStarts : ∀ term, s'.replicationLogTermStarts.lookup term =
    s.replicationLogTermStarts.lookup term

/-! ## The follower -/

/-- The rejection of an entry, answered with a last term and a last index, has done no harm. -/
structure RejectionIntact (s s' : SharedState) (lastTerm lastIndex : ℕ) : Prop
    extends SameLog s s' where
  commitIndex : s'.commitIndex = s.commitIndex
  answer : (lastIndex, lastTerm) = logEnd s.replicationLog

/-- `apply_log_entry` answers `WantedPreviousEntry`. -/
def WantsPreviousEntry (request : LocalAppendEntries) (callback : Callback) (s : SharedState)
    (lastTerm lastIndex : ℕ) : Prop :=
  (Follower.applyLogEntry request callback s).callbackResponses =
    s.callbackResponses ++ [(callback, .appendEntries (.wantedPreviousEntry lastTerm lastIndex))]

/-- What a follower caches of the entry is cached already. -/
def CachedAlready (entry : LogEntry) (s : SharedState) : Prop :=
  (entry.index = s.lastLogIndex ∧ entry.term = s.lastLogTerm) ∧
    (entry.prevLogTerm ≠ entry.term →
      s.replicationLogTermStarts.lookup entry.term = some s.replicationLog.length)

/-- The entry of a request that is answered `WantedPreviousEntry` is cached, if there is one, and
nothing else happens. -/
theorem WantsPreviousEntry.eq {request : LocalAppendEntries} {callback : Callback} {s : SharedState}
    {lastTerm lastIndex : ℕ} (h : WantsPreviousEntry request callback s lastTerm lastIndex) :
    Follower.applyLogEntry request callback s =
      (Follower.note request s).answerWantedPreviousEntry callback := by
  by_cases hrefused : ∀ entry ∈ request.entry,
      OwnedLogEntry.fromBytes entry.data = none ∨ s.persistenceOpen = false
  · exact Follower.applyLogEntry_refused callback hrefused
  · -- an entry that is stored is answered later
    push Not at hrefused
    obtain ⟨entry, hentry, hdata, hopen⟩ := hrefused
    obtain ⟨owned, howned⟩ := Option.ne_none_iff_exists'.mp hdata
    unfold WantsPreviousEntry at h
    rw [Follower.applyLogEntry_stored callback hentry howned (by simpa using hopen)] at h
    simp at h

/-- The term starts that a follower caches. -/
theorem termStarts_cacheEntry_iff (entry : LogEntry) (s : SharedState) :
    (∀ term, (Follower.cacheEntry s entry).replicationLogTermStarts.lookup term =
        s.replicationLogTermStarts.lookup term) ↔
      (entry.prevLogTerm ≠ entry.term →
        s.replicationLogTermStarts.lookup entry.term = some s.replicationLog.length) := by
  unfold Follower.cacheEntry
  dsimp only
  by_cases hstart : entry.prevLogTerm ≠ entry.term
  · rw [if_pos hstart]
    constructor
    · intro h _
      rw [← h entry.term, AList.lookup_insert]
    · intro h term
      by_cases hterm : term = entry.term
      · rw [hterm, AList.lookup_insert, h hstart]
      · rw [AList.lookup_insert_ne hterm]
  · rw [if_neg hstart]
    exact iff_of_true (fun _ => rfl) fun h => absurd h hstart

/-- **When a rejected entry does no harm**, for requests that are consecutive and others. -/
theorem rejection_intact_iff {request : LocalAppendEntries} {callback : Callback} {s : SharedState}
    {lastTerm lastIndex : ℕ} (h : WantsPreviousEntry request callback s lastTerm lastIndex) :
    RejectionIntact s (Follower.applyLogEntry request callback s) lastTerm lastIndex ↔
      (∀ entry ∈ request.entry, CachedAlready entry s) ∧
        (s.lastLogIndex, s.lastLogTerm) = logEnd s.replicationLog := by
  have hanswer := h
  unfold WantsPreviousEntry at hanswer
  rw [h.eq] at hanswer ⊢
  unfold Follower.note at hanswer ⊢
  rcases hentry : request.entry with _ | entry
  · rw [hentry] at hanswer
    have hlast : s.lastLogTerm = lastTerm ∧ s.lastLogIndex = lastIndex := by simpa using hanswer
    obtain ⟨rfl, rfl⟩ := hlast
    constructor
    · exact fun hintact => ⟨by simp, hintact.answer⟩
    · exact fun hends => ⟨⟨rfl, rfl, rfl, fun _ => rfl⟩, rfl, hends.2⟩
  · rw [hentry] at hanswer
    have hlast : entry.term = lastTerm ∧ entry.index = lastIndex := by
      simpa [Follower.cacheEntry] using hanswer
    obtain ⟨rfl, rfl⟩ := hlast
    have hstarts := termStarts_cacheEntry_iff entry { s with nextMessageId := s.nextMessageId + 1 }
    constructor
    · rintro ⟨⟨-, hindex, hterm, htermStarts⟩, -, hends⟩
      have hindex : entry.index = s.lastLogIndex := hindex
      have hterm : entry.term = s.lastLogTerm := hterm
      refine ⟨?_, by rw [← hindex, ← hterm, hends]⟩
      intro entry' hentry'
      obtain rfl : entry = entry' := Option.mem_some_iff.mp hentry'
      exact ⟨⟨hindex, hterm⟩, hstarts.mp htermStarts⟩
    · rintro ⟨hcached, hends⟩
      obtain ⟨⟨hindex, hterm⟩, htermStarts⟩ := hcached entry rfl
      exact ⟨⟨rfl, hindex, hterm, hstarts.mpr htermStarts⟩, rfl, by rw [hindex, hterm, hends]⟩

/-- A follower with two entries gets the second one again, and cannot read it. -/
theorem rejection_intact_repeated : letI := sampleCapnp
    let s := (freshNode.run followNodeThree).shared
    s.replicationLog = [firstNoop, firstWrite] ∧
      RejectionIntact s (Follower.applyLogEntry
        ⟨1, 3, 0, 1, 3, some ⟨1, .malformed [0xFF], 0, 1, 1, 0, 3⟩, 0⟩ (.proxy 7) s) 1 1 := by
  intro s
  have hwants : WantsPreviousEntry ⟨1, 3, 0, 1, 3, some ⟨1, .malformed [0xFF], 0, 1, 1, 0, 3⟩, 0⟩
    (.proxy 7) s 1 1 := rfl
  refine ⟨rfl, (rejection_intact_iff hwants).mpr ⟨?_, rfl⟩⟩
  rintro _ ⟨⟩
  exact ⟨⟨rfl, rfl⟩, fun hstart => absurd rfl hstart⟩

/-- **A rejected entry is cached.**  The entry, consecutive and not a message, is rejected by a
follower with an empty log, which says that its log ends with this entry. -/
theorem rejected_entry_cached : ¬ ∀ (request : LocalAppendEntries) (callback : Callback)
    (s : SharedState) (lastTerm lastIndex : ℕ), ValidAppendEntries request s →
      WantsPreviousEntry request callback s lastTerm lastIndex →
        RejectionIntact s (Follower.applyLogEntry request callback s) lastTerm lastIndex := by
  intro h
  let _capnp := sampleCapnp
  have hintact := h
    ⟨1, 1, 0, 0, 1, some ⟨1, .malformed [0xFF, 0xFE, 0xFD, 0xFC], 0, 1, 0, 0, 1⟩, 0⟩ (.proxy 7)
    freshNode.shared 1 1 (by decide) rfl
  cases hintact.answer

/-! ## The leader -/

/-- `write_batch` answers with an error. -/
def RefusesBatch (clock : Clock) (batch : OwnedWriteBatch) (callback : Callback) (s : SharedState)
    (error : String) : Prop :=
  (Leader.writeBatch clock batch callback s).callbackResponses =
    s.callbackResponses ++ [(callback, .writeBatch ⟨.empty, some error⟩)]

/-- The refusal of a batch has done no harm. -/
structure RefusalIntact (s s' : SharedState) : Prop extends SameLog s s' where
  nextLogIndex : s'.nextLogIndex = s.nextLogIndex
  outstandingMessages : s'.outstandingMessages = s.outstandingMessages
  /-- no quorum worker has got a task -/
  quorumWorkerTasks : s'.quorumWorkerTasks = s.quorumWorkerTasks
  /-- a later batch goes where it would have gone -/
  nextWrite : ∀ clock batch callback, (Leader.writeBatch clock batch callback s').lastLogIndex =
    (Leader.writeBatch clock batch callback s).lastLogIndex
  /-- and the log is as it should be, if it was -/
  represented : LogRepresented s → LogRepresented s'

/-- The only batch that is refused while the persistence channel is open is the empty one. -/
theorem RefusesBatch.closed {clock : Clock} {batch : OwnedWriteBatch} {callback : Callback}
    {s : SharedState} {error : String} (h : RefusesBatch clock batch callback s error)
    (hbatch : batch.requests ≠ []) : s.persistenceOpen = false := by
  unfold RefusesBatch at h
  rcases Leader.writeBatch_cases clock batch callback s with
    ⟨hempty, -⟩ | ⟨-, -, heq⟩ | ⟨-, hclosed, -⟩
  · exact absurd hempty hbatch
  · simp [heq] at h
  · exact hclosed

/-- **When a refused batch does no harm.** -/
theorem refusal_intact_iff {clock : Clock} {batch : OwnedWriteBatch} {callback : Callback}
    {s : SharedState} {error : String} (h : RefusesBatch clock batch callback s error) :
    RefusalIntact s (Leader.writeBatch clock batch callback s) ↔ batch.requests = [] := by
  rcases Leader.writeBatch_cases clock batch callback s with
    ⟨hempty, heq⟩ | ⟨hbatch, hopen, -⟩ | ⟨hbatch, -, heq⟩
  · rw [heq]
    refine iff_of_true ⟨⟨rfl, rfl, rfl, fun _ => rfl⟩, rfl, rfl, rfl,
      fun clock' batch' callback' => ?_, id⟩ hempty
    simp [Leader.lastLogIndex_writeBatch]
  · simp [h.closed hbatch] at hopen
  · -- the entry was pushed before the task could not be queued
    rw [heq]
    refine iff_of_false (fun hintact => ?_) hbatch
    have hlog := hintact.replicationLog
    simp at hlog

/-- A leader with an entry in its log gets an empty batch. -/
theorem refusal_intact_empty : letI := sampleCapnp
    let s := (freshNode.run
      (standForTermOne ++ receiveVote ++ [.timeStep ⟨5002, 0⟩ .takeOffice])).shared
    s.replicationLog.length = 1 ∧
      RefusalIntact s (Leader.writeBatch ⟨5003, 0⟩ ⟨"b", []⟩ (.proxy 7) s) := by
  intro s
  have hrefuses : RefusesBatch ⟨5003, 0⟩ ⟨"b", []⟩ (.proxy 7) s "Empty write batch request" := rfl
  exact ⟨rfl, (refusal_intact_iff hrefuses).mpr rfl⟩

/-- **A refused batch stays in the log.**  The persistence worker of a leader is gone, and the client
gets an error, but the entry is in the log and the cached end of the log is not that of the entry. -/
theorem refused_batch_stays : ¬ ∀ (clock : Clock) (batch : OwnedWriteBatch) (callback : Callback)
    (s : SharedState) (error : String), LogRepresented s →
      RefusesBatch clock batch callback s error →
        RefusalIntact s (Leader.writeBatch clock batch callback s) := by
  intro h
  let _capnp := sampleCapnp
  have hintact := h ⟨1000, 0⟩ ⟨"b", [⟨"k", [1], 1⟩]⟩ (.proxy 7)
    { freshNode.shared with persistenceOpen := false, currentTerm := 1, leaderId := 1 }
    "Failed to queue persistence task" ⟨.nil, rfl⟩ rfl
  cases hintact.replicationLog

end Kraft
