/-
# Requests of stale leaders

A follower of term `C` can still receive requests that a leader of a lower term has sent.
The candidate and the leader refuse such a request by its term.  The follower refuses it
only if it comes from another node than the leader it follows (`append_entries` tests
`leader_id`), and a truncation reaches it without a term at all (`on_truncate_log_request`).

`stale_request_iff` says exactly which requests of a stale leader have no effect, and
`stale_heartbeat_takes_effect` is a run in which one does: a late heartbeat of an earlier
leadership of the same node is answered `Ok`.
-/
import Kraft.Node
import Kraft.QuorumWorker
import Kraft.Requests

namespace Kraft

/-! ## A follower receives a message -/

/-- The term of the leader that sent an AppendEntries or TruncateLog request. -/
def QuorumMessage.leaderTerm : QuorumMessage → Option ℕ
  | .appendEntriesRequest request => some request.term
  | .truncateLogRequest _ _ term _ _ => some term
  | _ => none

/-- What a follower does with a message of another member: the quorum worker passes it on
as a request or as a response, and the state machine handles that. -/
def Follower.receive (w : QuorumWorker) (message : QuorumMessage) (s : SharedState) :
    SharedState :=
  let output := (w.handleInboundMessage message).2
  let s := output.requests.foldl (fun s request =>
    match request.payload with
    | .appendEntries appendEntries => Follower.appendEntries appendEntries request.callback s
    | .requestVote vote => Follower.requestVote vote request.callback s
    | _ => s) s
  output.responses.foldl (fun s response => Follower.handleQuorum response s) s

/-- Log, cached end of log, commit index and the persistence worker's tasks are as
before. -/
structure Unaffected (s s' : SharedState) : Prop where
  replicationLog : s'.replicationLog = s.replicationLog
  lastLogIndex : s'.lastLogIndex = s.lastLogIndex
  lastLogTerm : s'.lastLogTerm = s.lastLogTerm
  commitIndex : s'.commitIndex = s.commitIndex
  persistenceWork : s'.persistenceWork = s.persistenceWork

/-- The answers given between two states. -/
def answersBetween (s s' : SharedState) : List (Callback × LocalRaftResponsePayload) :=
  s'.callbackResponses.drop s.callbackResponses.length

/-- An AppendEntries request is answered `Ok` between two states. -/
def AnsweredOk (s s' : SharedState) : Prop :=
  ∃ answer ∈ answersBetween s s', answer.2 = .appendEntries .ok

theorem answersBetween_answer (s s' : SharedState) (callback : Callback)
    (response : LocalAppendEntriesCallbackResponse)
    (h : s'.callbackResponses = s.callbackResponses) :
    answersBetween s (s'.answer callback response) = [(callback, .appendEntries response)] := by
  simp [answersBetween, h]

/-! ## The requests without effect -/

/-- A request of a stale leader that a follower in this state does not act on. -/
def StaleHarmless (s : SharedState) : QuorumMessage → Prop
  | .appendEntriesRequest request =>
    request.leaderId ≠ s.leaderId ∨ ¬ ValidAppendEntries request s ∨
      request.requestId ≠ 0 ∧ ∀ entry ∈ request.entry,
        (entry.index = s.lastLogIndex ∧ entry.term = s.lastLogTerm) ∧
          (OwnedLogEntry.fromBytes entry.data = none ∨ s.persistenceOpen = false)
  | .truncateLogRequest _ prevIndex _ _ _ => s.replicationLog.length ≤ prevIndex + 1
  | _ => True

/-- A request that is answered with a refusal alone has no effect. -/
theorem unaffected_answer (s : SharedState) (callback : Callback)
    (response : LocalAppendEntriesCallbackResponse) (hok : response ≠ .ok) :
    Unaffected s (s.answer callback response) ∧ ¬ AnsweredOk s (s.answer callback response) := by
  refine ⟨⟨rfl, rfl, rfl, rfl, rfl⟩, ?_⟩
  rintro ⟨answer, hmem, hans⟩
  rw [answersBetween_answer s s callback response rfl, List.mem_singleton] at hmem
  subst hmem
  injection hans with hans
  exact hok hans

/-- An entry that cannot be stored has no effect if it repeats the cached end of log. -/
theorem Follower.unaffected_note_iff (request : LocalAppendEntries) (callback : Callback)
    (s : SharedState) :
    (Unaffected s ((Follower.note request s).answerWantedPreviousEntry callback) ∧
        ¬ AnsweredOk s ((Follower.note request s).answerWantedPreviousEntry callback)) ↔
      ∀ entry ∈ request.entry, entry.index = s.lastLogIndex ∧ entry.term = s.lastLogTerm := by
  have hnot : ¬AnsweredOk s ((Follower.note request s).answerWantedPreviousEntry callback) := by
    rintro ⟨answer, hmem, hans⟩
    rw [SharedState.answerWantedPreviousEntry, answersBetween_answer _ _ _ _ (by simp),
      List.mem_singleton] at hmem
    subst hmem
    cases hans
  rw [and_iff_left hnot]
  constructor
  · intro h entry hentry
    have hindex := h.lastLogIndex
    have hterm := h.lastLogTerm
    simp only [Option.mem_def] at hentry
    simp only [SharedState.answerWantedPreviousEntry, SharedState.answer_lastLogIndex,
      SharedState.answer_lastLogTerm, Follower.note_fields, hentry, Option.elim_some]
      at hindex hterm
    exact ⟨hindex, hterm⟩
  · intro h
    refine ⟨by simp, ?_, ?_, by simp, by simp⟩
    · rcases hentry : request.entry with _ | entry
      · simp [hentry]
      · simp [hentry, (h entry hentry).1]
    · rcases hentry : request.entry with _ | entry
      · simp [hentry]
      · simp [hentry, (h entry hentry).2]

theorem Follower.stale_appendEntries_iff {request : LocalAppendEntries} {callback : Callback}
    {s : SharedState} (hstale : request.term < s.currentTerm) :
    (Unaffected s (Follower.appendEntries request callback s) ∧
        ¬ AnsweredOk s (Follower.appendEntries request callback s)) ↔
      StaleHarmless s (.appendEntriesRequest request) := by
  have hreceives := Follower.receives_appendEntries request callback s
  generalize Follower.appendEntries request callback s = s' at hreceives ⊢
  unfold StaleHarmless
  cases hreceives with
  | unrecognised hheard =>
    exact iff_of_true (unaffected_answer s callback _ (by simp))
      (Or.inl fun hleader => hheard (Or.inr hleader))
  | mismatched hheeds hvalid =>
    obtain rfl := hheeds.eq_of_le hstale.le
    exact iff_of_true (unaffected_answer _ callback _ (by simp)) (Or.inr (Or.inl hvalid))
  | acknowledged hheeds hvalid hquiet =>
    rcases hquiet rfl with ⟨hnew, -⟩ | ⟨-, hsame, -⟩ <;> omega
  | adopted _ _ hleader hid hvalid =>
    refine iff_of_false (fun h => h.2 ⟨(callback, .appendEntries .ok), ?_, rfl⟩)
      (by simp [hleader, hvalid, hid])
    rw [answersBetween_answer _ _ _ _ (by simp)]
    exact List.mem_singleton.mpr rfl
  | unstored _ hheeds hvalid hid hdata =>
    obtain rfl := hheeds.eq_of_le hstale.le
    have hid : request.requestId ≠ 0 := hid.resolve_left fun hnew => by omega
    have hleader := hheeds.heard.resolve_left (by omega)
    rw [Follower.unaffected_note_iff]
    simp only [hleader, ne_eq, not_true_eq_false, hvalid, hid, not_false_eq_true, true_and,
      false_or]
    exact forall₂_congr fun entry hentry => (and_iff_left (hdata entry hentry)).symm
  | stored _ hheeds hvalid hid hentry hdata hopen =>
    -- the log has grown
    obtain rfl := hheeds.eq_of_le hstale.le
    have hleader := hheeds.heard.resolve_left (by omega)
    refine iff_of_false (fun h => ?_) (by simp [hleader, hvalid, hentry, hdata, hopen])
    have hlength := congrArg List.length h.1.replicationLog
    simp at hlength

theorem Follower.stale_truncateLog_iff (prevTerm prevIndex member : ℕ) (s : SharedState) :
    (Unaffected s (Follower.handleQuorum (.truncateLog member prevTerm prevIndex) s) ∧
        ¬ AnsweredOk s (Follower.handleQuorum (.truncateLog member prevTerm prevIndex) s)) ↔
      s.replicationLog.length ≤ prevIndex + 1 := by
  have hanswers : ¬ AnsweredOk s
      (Follower.handleQuorum (.truncateLog member prevTerm prevIndex) s) := by
    rintro ⟨answer, hmem, -⟩
    simp [Follower.handleQuorum, answersBetween] at hmem
  rw [and_iff_left hanswers]
  dsimp only [Follower.handleQuorum]
  rcases Nat.lt_or_ge (prevIndex + 1) s.replicationLog.length with hlt | hle
  · refine iff_of_false (fun h => ?_) (Nat.not_le.mpr hlt)
    have hlength := congrArg List.length h.replicationLog
    simp [(Follower.truncateLog_of_lt prevTerm hlt).1] at hlength
    omega
  · rw [Follower.truncateLog_of_le prevTerm hle]
    exact iff_of_true ⟨rfl, rfl, rfl, rfl, rfl⟩ hle

/-- **Which requests of a stale leader have no effect.** -/
theorem stale_request_iff (w : QuorumWorker) (message : QuorumMessage) (s : SharedState)
    (term : ℕ) (hterm : message.leaderTerm = some term) (hstale : term < s.currentTerm) :
    (Unaffected s (Follower.receive w message s) ∧
        ¬ AnsweredOk s (Follower.receive w message s)) ↔
      StaleHarmless s message := by
  cases message with
  | appendEntriesRequest request =>
    obtain rfl := Option.some.inj hterm
    exact Follower.stale_appendEntries_iff hstale
  | truncateLogRequest prevTerm prevIndex term' leaderId requestId =>
    exact Follower.stale_truncateLog_iff prevTerm prevIndex w.memberId s
  | _ => cases hterm

/-! ## A stale heartbeat that takes effect -/

/-- The heartbeat node 3 sends as leader of term 1, before its first entry. -/
def staleHeartbeat : LocalAppendEntries := ⟨1, 3, 0, 0, 0, none, 0⟩

/-- Node 3 leads term 2 as well; its heartbeats now follow its entry of term 1, and node 1,
which lacks that entry, recognises it as leader of term 2. -/
def followThree : List NodeEvent :=
  [.accept ⟨1, 0⟩ ⟨.appendEntries ⟨2, 3, 0, 1, 0, none, 0⟩, .pending 3 0 (.appendEntries 0 0 0)⟩]

/-- A stale heartbeat from node 2 has no effect on that node. -/
theorem stale_request_of_two : letI := sampleCapnp
    Unaffected (freshNode.run followThree).shared (Follower.receive (.new 1 2)
      (.appendEntriesRequest ⟨1, 2, 0, 0, 0, none, 0⟩) (freshNode.run followThree).shared) :=
  letI := sampleCapnp
  ((stale_request_iff (.new 1 2) (.appendEntriesRequest ⟨1, 2, 0, 0, 0, none, 0⟩)
    (freshNode.run followThree).shared 1 rfl (by decide)).mpr (Or.inl (by decide))).1

/-- **A stale heartbeat takes effect**: the heartbeat that node 3 sent in term 1 arrives
late and is answered `Ok` in term 2. -/
theorem stale_heartbeat_takes_effect : ¬ ∀ (_ : Capnp) (events : List NodeEvent),
    (freshNode.run events).machine.delegate.nodeType = .follower →
    ∀ (w : QuorumWorker) (message : QuorumMessage) (term : ℕ), message.leaderTerm = some term →
      term < (freshNode.run events).shared.currentTerm →
      Unaffected (freshNode.run events).shared
          (Follower.receive w message (freshNode.run events).shared) ∧
        ¬ AnsweredOk (freshNode.run events).shared
          (Follower.receive w message (freshNode.run events).shared) := by
  intro h
  have heffect := h sampleCapnp followThree (by decide) (.new 1 3)
    (.appendEntriesRequest staleHeartbeat) 1 rfl (by decide)
  exact heffect.2 ⟨(.pending 3 0 (.appendEntries 0 0 0), .appendEntries .ok), by decide, rfl⟩

end Kraft
