/-
# The leader's count of acknowledgements

A write or a no-op entry is registered with the number of responses it waits for, and the two
handlers of `outstanding.rs` count them down.  Each message is a record of the `Countdown`
library (`handle_eq`), so the state after any of the responses is known from the responses alone
(`TallyInv`), and with it the whole course of the count, in whatever order the responses come:

* `replication_tally` : every message is completed exactly once, at the first moment its entry is on
  disk and a quorum has acknowledged it; its callback gets one answer; later acknowledgements
  change nothing; the commit index only rises, and ends as the maximum of its first value and the
  indices of the messages.
* `majority_commits_iff` : the leader does not count itself among the quorum, so the
  acknowledgements of a bare majority complete a message exactly if the number of nodes is even
  (`majority_does_not_commit`).
-/
import Kraft.Config
import Kraft.LogRepresentation
import Kraft.Replies
import Mathlib.Order.Bounds.Basic

namespace Kraft

/-! ## Messages and responses -/

/-- A message of the leader that is counted: a write with its callback, or a no-op. -/
structure Tracked where
  id : ℕ
  index : ℕ
  callback : Option Callback

namespace Tracked

/-- The message with what has been counted. -/
def messageType (m : Tracked) (persistenceDone : Bool) (quorumAcks : ℕ) : OutstandingMessageType :=
  match m.callback with
  | some callback => .writeBatch persistenceDone quorumAcks callback m.index
  | none => .noOp persistenceDone quorumAcks m.index

/-- `register_outstanding_message` and `register_noop_outstanding_message`. -/
def register (m : Tracked) (s : SharedState) : SharedState :=
  Leader.registerOutstanding m.id (m.messageType false 0) s

/-- `complete_write_batch` and `complete_noop`. -/
def complete (m : Tracked) (s : SharedState) : SharedState :=
  match m.callback with
  | some callback => Leader.completeWriteBatch m.index callback s
  | none => Leader.completeNoop m.index s

/-- The answer that a write waits for. -/
def answer (m : Tracked) : Option (Callback × LocalRaftResponsePayload) :=
  m.callback.map fun callback => (callback, .writeBatch ⟨.empty, none⟩)

/-- The message as it is registered. -/
def record (m : Tracked) : Countdown.Outcome → Option OutstandingMessage
  | .waiting r => some ⟨m.id, r.left, m.messageType r.stored r.grants⟩
  | _ => none

/-- The state once the message has come to an outcome. -/
def settle (m : Tracked) (s : SharedState) : Countdown.Outcome → SharedState
  | .waiting r => (s.removeOutstanding m.id).register m.id r.left (m.messageType r.stored r.grants)
  | .complete => m.complete (s.removeOutstanding m.id)
  | .dropped => s.removeOutstanding m.id

end Tracked

/-- A response that concerns a message: its entry is on disk, or a quorum worker has its
acknowledgement. -/
inductive TallyResponse
  | logPersisted (id : ℕ)
  | appendEntries (id : ℕ) (ok : Bool)
  deriving DecidableEq

namespace TallyResponse

/-- The message. -/
def id : TallyResponse → ℕ
  | .logPersisted id => id
  | .appendEntries id _ => id

/-- Whether it concerns message `id`. -/
def concerns (id : ℕ) : TallyResponse → Bool
  | .logPersisted id' => id' = id
  | .appendEntries id' _ => id' = id

theorem concerns_iff (id : ℕ) (r : TallyResponse) : r.concerns id ↔ r.id = id := by
  cases r <;> exact decide_eq_true_iff

/-- Whether it is an acknowledgement of message `id`. -/
def acks (id : ℕ) : TallyResponse → Bool
  | .logPersisted _ => false
  | .appendEntries id' _ => id' = id

/-- The response as the library sees it: the flag of an acknowledgement is not read. -/
def toResponse : TallyResponse → Countdown.Response
  | .logPersisted _ => .stored
  | .appendEntries .. => .answer true

/-- The leader handles the response. -/
def handle (s : SharedState) : TallyResponse → SharedState
  | .logPersisted id => Leader.handlePersistence (.logPersisted id) s
  | .appendEntries id ok => Leader.handleQuorum (.appendEntries id ok) s

end TallyResponse

variable {r : TallyResponse} {responses : List TallyResponse} {m : Tracked} {s : SharedState}

/-- The entry of message `id` is on disk and `quorum` acknowledgements have been handled. -/
def OnQuorum (quorum id : ℕ) (responses : List TallyResponse) : Prop :=
  .logPersisted id ∈ responses ∧ quorum ≤ responses.countP (·.acks id)

instance (quorum id : ℕ) (responses : List TallyResponse) :
    Decidable (OnQuorum quorum id responses) :=
  inferInstanceAs (Decidable (_ ∧ _))

/-- What the responses are to message `id`. -/
def responsesTo (id : ℕ) (responses : List TallyResponse) : List Countdown.Response :=
  (responses.filter (·.concerns id)).map TallyResponse.toResponse

theorem responsesTo_append (id : ℕ) (responses more : List TallyResponse) :
    responsesTo id (responses ++ more) = responsesTo id responses ++ responsesTo id more := by
  simp [responsesTo]

theorem responsesTo_singleton_self (r : TallyResponse) : responsesTo r.id [r] = [r.toResponse] := by
  simp [responsesTo, (r.concerns_iff r.id).mpr rfl]

/-- A response to another message does not count. -/
theorem responsesTo_singleton_of_ne {id : ℕ} (h : r.id ≠ id) : responsesTo id [r] = [] := by
  simp [responsesTo, mt (r.concerns_iff id).mp h]

/-- The disk answers once for its message. -/
theorem stored_mem_responsesTo (id : ℕ) (responses : List TallyResponse) :
    .stored ∈ responsesTo id responses ↔ .logPersisted id ∈ responses := by
  unfold responsesTo
  rw [List.mem_map]
  constructor
  · rintro ⟨r, hr, hstored⟩
    obtain ⟨hmem, hid⟩ := List.mem_filter.mp hr
    cases r with
    | logPersisted id' =>
      obtain rfl : id' = id := of_decide_eq_true hid
      exact hmem
    | appendEntries id' ok => cases hstored
  · exact fun h => ⟨_, List.mem_filter.mpr ⟨h, decide_eq_true rfl⟩, rfl⟩

theorem count_stored_responsesTo (id : ℕ) (responses : List TallyResponse) :
    (responsesTo id responses).count .stored = responses.count (.logPersisted id) := by
  unfold responsesTo List.count
  rw [List.countP_map, List.countP_filter]
  refine List.countP_congr fun r _ => ?_
  cases r <;> simp [TallyResponse.toResponse, TallyResponse.concerns]

theorem countP_isAnswer_responsesTo (id : ℕ) (responses : List TallyResponse) :
    (responsesTo id responses).countP Countdown.Response.isAnswer =
      responses.countP (·.acks id) := by
  unfold responsesTo
  rw [List.countP_map, List.countP_filter]
  refine List.countP_congr fun r _ => ?_
  cases r <;> simp [TallyResponse.toResponse, TallyResponse.concerns, TallyResponse.acks,
    Countdown.Response.isAnswer]

/-- Every acknowledgement is a grant, whatever its flag says. -/
theorem grants_responsesTo (id : ℕ) (responses : List TallyResponse) :
    Countdown.grants (responsesTo id responses) = responses.countP (·.acks id) := by
  unfold responsesTo Countdown.grants List.count
  rw [List.countP_map, List.countP_filter]
  refine List.countP_congr fun r _ => ?_
  cases r <;> simp [TallyResponse.toResponse, TallyResponse.concerns, TallyResponse.acks]

/-- No response is a refusal. -/
theorem refusal_notMem_responsesTo (id : ℕ) (responses : List TallyResponse) :
    .answer false ∉ responsesTo id responses := by
  unfold responsesTo
  intro h
  obtain ⟨r, -, hr⟩ := List.mem_map.mp h
  cases r <;> cases hr

/-- The condition of the library is the one of the handlers. -/
theorem met_iff_onQuorum (quorum id : ℕ) (responses : List TallyResponse) :
    Countdown.Met quorum 0 (responsesTo id responses) ↔ OnQuorum quorum id responses := by
  unfold Countdown.Met OnQuorum
  rw [stored_mem_responsesTo, grants_responsesTo, Nat.zero_add]

/-- A message that is replicated stays so. -/
theorem OnQuorum.append {quorum id : ℕ} (h : OnQuorum quorum id responses)
    (more : List TallyResponse) : OnQuorum quorum id (responses ++ more) := by
  rw [← met_iff_onQuorum, responsesTo_append] at *
  exact h.append _

/-! ## The handlers -/

/-- **A response to a registered message is a step of its record.** -/
theorem handle_eq {r : Countdown.Record} {response : TallyResponse} (hid : response.id = m.id)
    (hrecord : s.outstandingMessages.lookup m.id = m.record (.waiting r)) :
    response.handle s = m.settle s (r.respond s.quorumSize response.toResponse) := by
  have hpoll : s.Polls m.id .leader (.entry m.callback m.index) r := by
    refine ⟨rfl, m.id, hrecord.trans ?_⟩
    obtain ⟨id, index, _ | callback⟩ := m <;> rfl
  have hsettle : ∀ o, (Poll.entry m.callback m.index).settle m.id 0 s o = m.settle s o := by
    obtain ⟨id, index, _ | callback⟩ := m <;> rintro (_ | _ | _) <;> rfl
  rw [← hsettle]
  cases response with
  | logPersisted id =>
    obtain rfl : id = m.id := hid
    exact Leader.handleLogPersisted_of_polls hpoll
  | appendEntries id ok =>
    obtain rfl : id = m.id := hid
    exact Leader.handleAppendEntriesResponse_of_polls hpoll

/-- A response to a message that is not registered is ignored. -/
theorem handle_eq_self {response : TallyResponse}
    (h : s.outstandingMessages.lookup response.id = none) : response.handle s = s := by
  cases response with
  | logPersisted id =>
    show Leader.handleLogPersisted id s = s
    unfold Leader.handleLogPersisted
    rw [show s.outstandingMessages.lookup id = none from h]
  | appendEntries id ok =>
    show Leader.handleAppendEntriesResponse id s = s
    unfold Leader.handleAppendEntriesResponse
    rw [show s.outstandingMessages.lookup id = none from h]

namespace Tracked

variable (m : Tracked) (s : SharedState)

/-- What the completion of a message does. -/
theorem complete_fields :
    (m.complete s).quorumSize = s.quorumSize ∧
      (m.complete s).outstandingMessages = s.outstandingMessages ∧
      (m.complete s).commitIndex = max s.commitIndex m.index ∧
      (m.complete s).callbackResponses = s.callbackResponses ++ m.answer.toList := by
  obtain ⟨id, index, callback⟩ := m
  rcases callback with _ | callback
  · simp [complete, Leader.completeNoop, answer]
  · simp [complete, Leader.completeWriteBatch, answer]

@[simp] theorem quorumSize_settle (o : Countdown.Outcome) :
    (m.settle s o).quorumSize = s.quorumSize := by
  cases o with
  | waiting r => rfl
  | complete => exact (m.complete_fields _).1
  | dropped => rfl

/-- What is left of the message. -/
theorem lookup_settle_self (o : Countdown.Outcome) :
    (m.settle s o).outstandingMessages.lookup m.id = m.record o := by
  cases o with
  | waiting r => exact AList.lookup_insert _
  | complete =>
    rw [settle, (m.complete_fields _).2.1]
    exact AList.lookup_erase _ _
  | dropped => exact AList.lookup_erase _ _

/-- The other messages stay as they are. -/
theorem lookup_settle_of_ne {id : ℕ} (h : id ≠ m.id) (o : Countdown.Outcome) :
    (m.settle s o).outstandingMessages.lookup id = s.outstandingMessages.lookup id := by
  cases o with
  | waiting r => exact (AList.lookup_insert_ne h).trans (AList.lookup_erase_ne h)
  | complete =>
    rw [settle, (m.complete_fields _).2.1]
    exact AList.lookup_erase_ne h
  | dropped => exact AList.lookup_erase_ne h

end Tracked

/-! ## The state after some of the responses -/

/-- The messages are registered, one after another. -/
def registerAll (messages : List Tracked) (s : SharedState) : SharedState :=
  messages.foldl (fun s m => m.register s) s

/-- The state after the leader has handled some responses to the registered messages. -/
abbrev stateAfter (messages : List Tracked) (s₀ : SharedState) (responses : List TallyResponse) :
    SharedState :=
  Runs.run TallyResponse.handle (registerAll messages s₀) responses

/-- The outcome of message `id`, registered in `s₀`. -/
abbrev outcomeOf (s₀ : SharedState) (id : ℕ) (responses : List TallyResponse) : Countdown.Outcome :=
  Countdown.outcome s₀.quorumSize 0 s₀.quorumWorkerTasks.length (responsesTo id responses)

/-- What is registered of the messages is what the responses leave of them. -/
def TallyRecords (s₀ : SharedState) (messages : List Tracked) (responses : List TallyResponse)
    (s : SharedState) : Prop :=
  ∀ m ∈ messages, s.outstandingMessages.lookup m.id = m.record (outcomeOf s₀ m.id responses)

/-- The state `s` is the one that the responses give, of messages registered in `s₀`. -/
structure TallyInv (s₀ : SharedState) (messages : List Tracked) (before : List TallyResponse)
    (s : SharedState) : Prop where
  quorumSize : s.quorumSize = s₀.quorumSize
  records : TallyRecords s₀ messages before s
  answers : ∃ answers, s.callbackResponses = s₀.callbackResponses ++ answers ∧
    answers.Perm ((messages.filter fun m => OnQuorum s₀.quorumSize m.id before).filterMap
      Tracked.answer)
  commitIndex : IsGreatest (insert s₀.commitIndex
    {i | ∃ m ∈ messages, OnQuorum s₀.quorumSize m.id before ∧ m.index = i}) s.commitIndex

/-- The responses are such as the messages wait for. -/
structure Expected (s₀ : SharedState) (messages : List Tracked) (responses : List TallyResponse) :
    Prop where
  ids : (messages.map Tracked.id).Nodup
  quorum : s₀.quorumSize ≤ s₀.quorumWorkerTasks.length
  concerns : ∀ r ∈ responses, ∃ m ∈ messages, m.id = r.id
  stored : ∀ m ∈ messages, responses.count (.logPersisted m.id) ≤ 1
  acks : ∀ m ∈ messages, responses.countP (·.acks m.id) ≤ s₀.quorumWorkerTasks.length

section Inv

variable {s₀ s : SharedState} {messages : List Tracked} {responses before : List TallyResponse}

theorem Expected.of_append {more : List TallyResponse}
    (h : Expected s₀ messages (before ++ more)) : Expected s₀ messages before where
  ids := h.ids
  quorum := h.quorum
  concerns r hr := h.concerns r (List.mem_append_left more hr)
  stored m hm := by
    have := h.stored m hm
    rw [List.count_append] at this
    omega
  acks m hm := by
    have := h.acks m hm
    rw [List.countP_append] at this
    omega

/-- A message that is not replicated is still registered, with what has been counted. -/
theorem Expected.waiting (h : Expected s₀ messages before) (hm : m ∈ messages)
    (hnot : ¬OnQuorum s₀.quorumSize m.id before) :
    outcomeOf s₀ m.id before =
      .waiting ⟨decide (.stored ∈ responsesTo m.id before),
        0 + Countdown.grants (responsesTo m.id before),
        s₀.quorumWorkerTasks.length + 1 - (responsesTo m.id before).length⟩ := by
  refine Countdown.waiting_of_grants (by simpa using h.quorum) ?_ ?_
    (refusal_notMem_responsesTo m.id before) (mt (met_iff_onQuorum ..).mp hnot)
  · rw [count_stored_responsesTo]
    exact h.stored m hm
  · rw [countP_isAnswer_responsesTo]
    exact h.acks m hm

/-- A message is complete once it is replicated. -/
theorem Expected.outcome_eq_complete_iff (h : Expected s₀ messages before) (hm : m ∈ messages) :
    outcomeOf s₀ m.id before = .complete ↔ OnQuorum s₀.quorumSize m.id before := by
  rw [← met_iff_onQuorum]
  refine Countdown.outcome_eq_complete_iff ?_ ?_
  · rw [count_stored_responsesTo]
    exact h.stored m hm
  · rw [countP_isAnswer_responsesTo]
    exact h.acks m hm

/-- To register messages answers nothing and commits nothing. -/
theorem registerAll_fields (messages : List Tracked) (s : SharedState) :
    (registerAll messages s).quorumSize = s.quorumSize ∧
      (registerAll messages s).commitIndex = s.commitIndex ∧
      (registerAll messages s).callbackResponses = s.callbackResponses := by
  induction messages generalizing s with
  | nil => exact ⟨rfl, rfl, rfl⟩
  | cons m rest ih => exact ih (m.register s)

theorem lookup_registerAll_of_notMem {id : ℕ} (h : id ∉ messages.map Tracked.id)
    (s : SharedState) :
    (registerAll messages s).outstandingMessages.lookup id = s.outstandingMessages.lookup id := by
  induction messages generalizing s with
  | nil => rfl
  | cons m rest ih =>
    obtain ⟨hne, hrest⟩ := List.ne_and_not_mem_of_not_mem_cons h
    exact (ih hrest (m.register s)).trans (AList.lookup_insert_ne hne)

/-- Each message is registered with all its responses outstanding. -/
theorem lookup_registerAll (hids : (messages.map Tracked.id).Nodup) (hm : m ∈ messages)
    (s : SharedState) :
    (registerAll messages s).outstandingMessages.lookup m.id =
      some ⟨m.id, 1 + s.quorumWorkerTasks.length, m.messageType false 0⟩ := by
  induction messages generalizing s with
  | nil => cases hm
  | cons first rest ih =>
    obtain ⟨hfirst, hrest⟩ := List.nodup_cons.mp hids
    rcases List.mem_cons.mp hm with rfl | hm
    · exact (lookup_registerAll_of_notMem hfirst (m.register s)).trans (AList.lookup_insert _)
    · exact ih hrest hm (first.register s)

/-- Before the first response. -/
theorem TallyInv.start (hids : (messages.map Tracked.id).Nodup) :
    TallyInv s₀ messages [] (registerAll messages s₀) := by
  obtain ⟨hquorum, hcommit, hanswers⟩ := registerAll_fields messages s₀
  have hnone : ∀ m : Tracked, ¬OnQuorum s₀.quorumSize m.id [] := fun m h => nomatch h.1
  refine ⟨hquorum, fun m hm => ?_, ⟨[], ?_, ?_⟩, ?_⟩
  · rw [lookup_registerAll hids hm]
    simp [Tracked.record, outcomeOf, Countdown.outcome, Countdown.start, responsesTo, add_comm]
  · rw [hanswers, List.append_nil]
  · simp [hnone]
  · rw [hcommit]
    refine ⟨Set.mem_insert _ _, ?_⟩
    rintro i (rfl | ⟨m, -, hm, -⟩)
    · exact le_rfl
    · exact absurd hm (hnone m)

/-- A response only bears on its own message. -/
theorem onQuorum_append_of_ne {quorum id : ℕ} (h : r.id ≠ id) :
    OnQuorum quorum id (before ++ [r]) ↔ OnQuorum quorum id before := by
  rw [← met_iff_onQuorum, ← met_iff_onQuorum, responsesTo_append,
    responsesTo_singleton_of_ne h, List.append_nil]

/-- A response to one of the messages is not to another one. -/
theorem id_ne_of_ne (hids : (messages.map Tracked.id).Nodup) {x : Tracked} (hm : m ∈ messages)
    (hx : x ∈ messages) (hid : m.id = r.id) (hxm : x ≠ m) : r.id ≠ x.id :=
  fun heq => hxm (List.inj_on_of_nodup_map hids hx hm (heq.symm.trans hid.symm))

/-- A response that completes nothing leaves the completed messages as they are. -/
theorem TallyInv.of_same {s' : SharedState} (h : TallyInv s₀ messages before s)
    (hids : (messages.map Tracked.id).Nodup) (hm : m ∈ messages) (hid : m.id = r.id)
    (hquorum : s'.quorumSize = s.quorumSize)
    (hrecords : TallyRecords s₀ messages (before ++ [r]) s')
    (hanswers : s'.callbackResponses = s.callbackResponses)
    (hcommit : s'.commitIndex = s.commitIndex)
    (hself : OnQuorum s₀.quorumSize m.id (before ++ [r]) ↔ OnQuorum s₀.quorumSize m.id before) :
    TallyInv s₀ messages (before ++ [r]) s' := by
  have hsame : ∀ x ∈ messages, OnQuorum s₀.quorumSize x.id (before ++ [r]) ↔
      OnQuorum s₀.quorumSize x.id before := by
    intro x hx
    by_cases hxm : x = m
    · exact hxm ▸ hself
    · exact onQuorum_append_of_ne (id_ne_of_ne hids hm hx hid hxm)
  refine ⟨hquorum.trans h.quorumSize, hrecords, ?_, ?_⟩
  · obtain ⟨answers, heq, hperm⟩ := h.answers
    refine ⟨answers, hanswers.trans heq, ?_⟩
    rwa [List.filter_congr fun m hm => decide_eq_decide.mpr (hsame m hm)]
  · have hset : {i | ∃ m ∈ messages, OnQuorum s₀.quorumSize m.id (before ++ [r]) ∧ m.index = i} =
        {i | ∃ m ∈ messages, OnQuorum s₀.quorumSize m.id before ∧ m.index = i} := by
      ext i
      exact exists_congr fun m => and_congr_right fun hm => and_congr_left fun _ => hsame m hm
    rw [hcommit, hset]
    exact h.commitIndex

/-- A response that completes its message completes no other one. -/
theorem onQuorum_append_iff {quorum : ℕ} (hids : (messages.map Tracked.id).Nodup)
    (hm : m ∈ messages) (hid : m.id = r.id) (hthen : OnQuorum quorum m.id (before ++ [r]))
    {x : Tracked} (hx : x ∈ messages) :
    OnQuorum quorum x.id (before ++ [r]) ↔ x = m ∨ OnQuorum quorum x.id before := by
  by_cases hxm : x = m
  · subst hxm
    simp [hthen]
  · rw [onQuorum_append_of_ne (id_ne_of_ne hids hm hx hid hxm)]
    simp [hxm]

/-- One more element meets the condition of a filter. -/
theorem perm_filter_cons {α : Type*} {l : List α} (hnodup : l.Nodup) {p q : α → Bool} {m : α}
    (hm : m ∈ l) (hnot : p m = false) (hiff : ∀ x ∈ l, q x = true ↔ x = m ∨ p x = true) :
    (l.filter q).Perm (m :: l.filter p) := by
  have hnotMem : m ∉ l.filter p := fun hmem => by simp [hnot] at hmem
  refine (List.perm_ext_iff_of_nodup (hnodup.filter _)
    (List.nodup_cons.mpr ⟨hnotMem, hnodup.filter _⟩)).mpr fun x => ?_
  rw [List.mem_filter, List.mem_cons, List.mem_filter]
  constructor
  · rintro ⟨hx, hq⟩
    exact ((hiff x hx).mp hq).imp_right fun hp => ⟨hx, hp⟩
  · rintro (rfl | ⟨hx, hp⟩)
    · exact ⟨hm, (hiff x hm).mpr (Or.inl rfl)⟩
    · exact ⟨hx, (hiff x hx).mpr (Or.inr hp)⟩

/-- A response that completes its message. -/
theorem TallyInv.of_complete {s' : SharedState} (h : TallyInv s₀ messages before s)
    (hids : (messages.map Tracked.id).Nodup) (hm : m ∈ messages) (hid : m.id = r.id)
    (hquorum : s'.quorumSize = s.quorumSize)
    (hrecords : TallyRecords s₀ messages (before ++ [r]) s')
    (hanswers : s'.callbackResponses = s.callbackResponses ++ m.answer.toList)
    (hcommit : s'.commitIndex = max s.commitIndex m.index)
    (hnot : ¬OnQuorum s₀.quorumSize m.id before)
    (hthen : OnQuorum s₀.quorumSize m.id (before ++ [r])) :
    TallyInv s₀ messages (before ++ [r]) s' := by
  have hiff := fun x (hx : x ∈ messages) => onQuorum_append_iff hids hm hid hthen hx
  refine ⟨hquorum.trans h.quorumSize, hrecords, ?_, ?_⟩
  · obtain ⟨answers, heq, hperm⟩ := h.answers
    refine ⟨answers ++ m.answer.toList, by rw [hanswers, heq, List.append_assoc], ?_⟩
    have hfilter := perm_filter_cons (List.Nodup.of_map _ hids)
      (p := fun x => OnQuorum s₀.quorumSize x.id before)
      (q := fun x => OnQuorum s₀.quorumSize x.id (before ++ [r])) hm (decide_eq_false hnot)
      fun x hx => by simpa using hiff x hx
    have hcons : (m :: messages.filter fun x => OnQuorum s₀.quorumSize x.id before).filterMap
        Tracked.answer = m.answer.toList ++
          (messages.filter fun x => OnQuorum s₀.quorumSize x.id before).filterMap
            Tracked.answer := by
      rw [List.filterMap_cons]
      rcases m.answer with _ | a <;> rfl
    refine ((hperm.append_right _).trans List.perm_append_comm).trans ?_
    rw [← hcons]
    exact (hfilter.filterMap _).symm
  · have hset : insert s₀.commitIndex
        {i | ∃ x ∈ messages, OnQuorum s₀.quorumSize x.id (before ++ [r]) ∧ x.index = i} =
        insert m.index (insert s₀.commitIndex
          {i | ∃ x ∈ messages, OnQuorum s₀.quorumSize x.id before ∧ x.index = i}) := by
      rw [Set.insert_comm]
      congr 1
      ext i
      constructor
      · rintro ⟨x, hx, hrep, rfl⟩
        exact ((hiff x hx).mp hrep).imp (congrArg Tracked.index) fun hrep => ⟨x, hx, hrep, rfl⟩
      · rintro (rfl | ⟨x, hx, hrep, rfl⟩)
        · exact ⟨m, hm, hthen, rfl⟩
        · exact ⟨x, hx, (hiff x hx).mpr (Or.inr hrep), rfl⟩
    rw [hset, hcommit, max_comm]
    exact h.commitIndex.insert m.index

/-- The outcome of a message after one more response to it. -/
theorem outcomeOf_append_self (s₀ : SharedState) (before : List TallyResponse) (r : TallyResponse) :
    outcomeOf s₀ r.id (before ++ [r]) =
      Countdown.step s₀.quorumSize (outcomeOf s₀ r.id before) r.toResponse := by
  rw [outcomeOf, responsesTo_append, responsesTo_singleton_self, Countdown.outcome, Runs.run_append]
  rfl

/-- The records after a response that changes the one of its message. -/
theorem TallyInv.records_append {s' : SharedState} (h : TallyInv s₀ messages before s)
    (hids : (messages.map Tracked.id).Nodup) (hm : m ∈ messages) (hid : m.id = r.id)
    (hself : s'.outstandingMessages.lookup m.id = m.record (outcomeOf s₀ m.id (before ++ [r])))
    (hne : ∀ id, id ≠ m.id →
      s'.outstandingMessages.lookup id = s.outstandingMessages.lookup id) :
    TallyRecords s₀ messages (before ++ [r]) s' := by
  intro x hx
  by_cases hxm : x = m
  · exact hxm ▸ hself
  · have hrx := id_ne_of_ne hids hm hx hid hxm
    rw [hne x.id fun heq => hrx (hid.symm.trans heq.symm), h.records x hx, outcomeOf,
      outcomeOf, responsesTo_append, responsesTo_singleton_of_ne hrx, List.append_nil]

/-- **One response.** -/
theorem TallyInv.step (h : TallyInv s₀ messages before s)
    (hexpected : Expected s₀ messages (before ++ [r])) :
    TallyInv s₀ messages (before ++ [r]) (r.handle s) := by
  obtain ⟨m, hm, hid⟩ := hexpected.concerns r (by simp)
  have hbefore := hexpected.of_append
  by_cases hdone : OnQuorum s₀.quorumSize m.id before
  · -- the message is complete, and the response is ignored
    have hcomplete := (hbefore.outcome_eq_complete_iff hm).mpr hdone
    have hnone : s.outstandingMessages.lookup m.id = none := by
      rw [h.records m hm, hcomplete]
      rfl
    rw [handle_eq_self (hid ▸ hnone)]
    refine h.of_same hexpected.ids hm hid rfl
      (h.records_append hexpected.ids hm hid ?_ fun _ _ => rfl) rfl rfl
      (by simp [hdone, hdone.append])
    rw [hnone, hid, outcomeOf_append_self, ← hid, hcomplete]
    rfl
  · have hwaiting := hbefore.waiting hm hdone
    have hrecord := h.records m hm
    rw [hwaiting] at hrecord
    have hnext := outcomeOf_append_self s₀ before r
    rw [← hid, hwaiting] at hnext
    have hself := m.lookup_settle_self s (outcomeOf s₀ m.id (before ++ [r]))
    have hhandle : r.handle s = m.settle s (outcomeOf s₀ m.id (before ++ [r])) := by
      rw [handle_eq hid.symm hrecord, hnext, h.quorumSize]
      rfl
    rw [hhandle]
    have hall := h.records_append hexpected.ids hm hid hself fun id hne =>
      m.lookup_settle_of_ne s hne _
    have hiff := hexpected.outcome_eq_complete_iff hm
    by_cases hthen : OnQuorum s₀.quorumSize m.id (before ++ [r])
    · -- with this response the message is complete
      obtain ⟨-, -, hcommit, hanswers⟩ := m.complete_fields (s.removeOutstanding m.id)
      have hcomplete := hiff.mpr hthen
      refine h.of_complete hexpected.ids hm hid (m.quorumSize_settle s _) hall ?_ ?_ hdone hthen
      · rw [hcomplete]
        exact hanswers
      · rw [hcomplete]
        exact hcommit
    · -- the message waits for more
      have hstays := hexpected.waiting hm hthen
      exact h.of_same hexpected.ids hm hid (m.quorumSize_settle s _) hall (by rw [hstays]; rfl)
        (by rw [hstays]; rfl) (by simp [hdone, hthen])

/-- **The state after any of the responses.** -/
theorem tallyInv_run (hexpected : Expected s₀ messages responses) :
    TallyInv s₀ messages responses (stateAfter messages s₀ responses) := by
  induction responses using List.reverseRecOn with
  | nil => exact TallyInv.start hexpected.ids
  | append_singleton front r ih =>
    rw [stateAfter, Runs.run_append]
    exact (ih hexpected.of_append).step hexpected

/-! ## The count from beginning to end -/

/-- The response completes the message: the message is registered, and the handler runs
`complete_write_batch` or `complete_noop` for it. -/
def CompletedBy (s : SharedState) (r : TallyResponse) (m : Tracked) : Prop :=
  (s.outstandingMessages.lookup m.id).isSome ∧
    r.handle s = m.complete (s.removeOutstanding m.id)

/-- What becomes of messages registered in `s₀` in the course of the responses. -/
structure ExactTally (s₀ : SharedState) (messages : List Tracked)
    (responses : List TallyResponse) : Prop where
  /-- every message is completed exactly once -/
  once : ∀ m ∈ messages, ∃! before, ∃ r after, responses = before ++ r :: after ∧
    CompletedBy (stateAfter messages s₀ before) r m
  /-- namely when its entry is on disk and a quorum has acknowledged it for the first time -/
  moment : ∀ m ∈ messages, ∀ before r after, responses = before ++ r :: after →
    (CompletedBy (stateAfter messages s₀ before) r m ↔
      ¬OnQuorum s₀.quorumSize m.id before ∧ OnQuorum s₀.quorumSize m.id (before ++ [r]))
  /-- what comes later has no effect -/
  later : ∀ before r after, responses = before ++ r :: after →
    OnQuorum s₀.quorumSize r.id before →
      stateAfter messages s₀ (before ++ [r]) = stateAfter messages s₀ before
  /-- every callback gets one answer -/
  answered : ∃ answers, (stateAfter messages s₀ responses).callbackResponses =
    s₀.callbackResponses ++ answers ∧ answers.Perm (messages.filterMap Tracked.answer)
  /-- the commit index only rises -/
  rises : ∀ before between after, responses = before ++ between ++ after →
    (stateAfter messages s₀ before).commitIndex ≤
      (stateAfter messages s₀ (before ++ between)).commitIndex
  /-- and ends as the maximum of its first value and the indices of the messages -/
  commitIndex : IsGreatest (insert s₀.commitIndex {i | ∃ m ∈ messages, m.index = i})
    (stateAfter messages s₀ responses).commitIndex

/-- When a message is completed. -/
theorem completedBy_iff (hexpected : Expected s₀ messages (before ++ [r])) (hm : m ∈ messages) :
    CompletedBy (stateAfter messages s₀ before) r m ↔
      ¬OnQuorum s₀.quorumSize m.id before ∧ OnQuorum s₀.quorumSize m.id (before ++ [r]) := by
  have hinv := tallyInv_run hexpected.of_append
  have hnext := tallyInv_run hexpected
  have hrun : stateAfter messages s₀ (before ++ [r]) = r.handle (stateAfter messages s₀ before) :=
    Runs.run_append ..
  constructor
  · rintro ⟨hsome, hcomplete⟩
    constructor
    · intro hdone
      rw [hinv.records m hm, (hexpected.of_append.outcome_eq_complete_iff hm).mpr hdone] at hsome
      cases hsome
    · -- a message that waits further would still be registered
      by_contra hnot
      have hrecord := hnext.records m hm
      rw [hexpected.waiting hm hnot, hrun, hcomplete, (m.complete_fields _).2.1] at hrecord
      cases (AList.lookup_erase _ _).symm.trans hrecord
  · rintro ⟨hnot, hthen⟩
    have hrecord := hinv.records m hm
    rw [hexpected.of_append.waiting hm hnot] at hrecord
    have hid : r.id = m.id := by
      by_contra hne
      exact hnot ((onQuorum_append_of_ne hne).mp hthen)
    refine ⟨by rw [hrecord]; rfl, ?_⟩
    have hcomplete := (hexpected.outcome_eq_complete_iff hm).mpr hthen
    rw [← hid, outcomeOf_append_self, hid, hexpected.of_append.waiting hm hnot] at hcomplete
    rw [handle_eq hid hrecord, hinv.quorumSize]
    exact congrArg (m.settle _) hcomplete

/-- **The count of acknowledgements is exact and does not depend on the order of the responses.** -/
theorem replication_tally (hids : (messages.map Tracked.id).Nodup)
    (hquorum : s₀.quorumSize ≤ s₀.quorumWorkerTasks.length)
    (hconcerns : ∀ r ∈ responses, ∃ m ∈ messages, m.id = r.id)
    (hstored : ∀ m ∈ messages, responses.count (.logPersisted m.id) = 1)
    (hacks : ∀ m ∈ messages, responses.countP (·.acks m.id) = s₀.quorumWorkerTasks.length) :
    ExactTally s₀ messages responses := by
  have hexpected : Expected s₀ messages responses :=
    ⟨hids, hquorum, hconcerns, fun m hm => (hstored m hm).le, fun m hm => (hacks m hm).le⟩
  have hall : ∀ m ∈ messages, OnQuorum s₀.quorumSize m.id responses := fun m hm =>
    ⟨List.count_pos_iff.mp (by rw [hstored m hm]; exact Nat.one_pos), by rw [hacks m hm]; exact hquorum⟩
  have hmoment : ∀ m ∈ messages, ∀ before r after, responses = before ++ r :: after →
      (CompletedBy (stateAfter messages s₀ before) r m ↔
        ¬OnQuorum s₀.quorumSize m.id before ∧ OnQuorum s₀.quorumSize m.id (before ++ [r])) := by
    intro m hm before r after hsplit
    refine completedBy_iff ?_ hm
    have hexpected' := hexpected
    rw [hsplit, List.append_cons] at hexpected'
    exact hexpected'.of_append
  have hend := tallyInv_run hexpected
  refine ⟨fun m hm => ?_, hmoment, ?_, ?_, ?_, ?_⟩
  · obtain ⟨before, ⟨r, after, hsplit, hfirst⟩, hunique⟩ := Countdown.exists_first
      (OnQuorum s₀.quorumSize m.id) (fun _ more h => h.append more) (fun h => nomatch h.1) (hall m hm)
    refine ⟨before, ⟨r, after, hsplit, (hmoment m hm before r after hsplit).mpr hfirst⟩, ?_⟩
    rintro other ⟨r', after', hsplit', hcompleted⟩
    exact hunique other ⟨r', after', hsplit', (hmoment m hm other r' after' hsplit').mp hcompleted⟩
  · intro before r after hsplit hdone
    rw [hsplit, List.append_cons] at hexpected
    have hbefore := hexpected.of_append.of_append
    obtain ⟨m, hm, hid⟩ := hexpected.concerns r (by simp)
    rw [stateAfter, Runs.run_append]
    refine handle_eq_self ?_
    rw [← hid] at hdone ⊢
    rw [(tallyInv_run hbefore).records m hm, (hbefore.outcome_eq_complete_iff hm).mpr hdone]
    rfl
  · obtain ⟨answers, heq, hperm⟩ := hend.answers
    refine ⟨answers, heq, ?_⟩
    rwa [List.filter_eq_self.mpr fun m hm => decide_eq_true (hall m hm)] at hperm
  · intro before between after hsplit
    rw [hsplit] at hexpected
    refine (tallyInv_run hexpected.of_append).commitIndex.2 ?_
    rcases (tallyInv_run hexpected.of_append.of_append).commitIndex.1 with hfirst | hindex
    · exact Or.inl hfirst
    · obtain ⟨m, hm, hrep, hindex⟩ := hindex
      exact Or.inr ⟨m, hm, hrep.append between, hindex⟩
  · have hset : {i | ∃ m ∈ messages, OnQuorum s₀.quorumSize m.id responses ∧ m.index = i} =
        {i | ∃ m ∈ messages, m.index = i} := by
      ext i
      exact exists_congr fun m => and_congr_right fun hm => and_iff_right (hall m hm)
    rw [← hset]
    exact hend.commitIndex

end Inv

/-- A no-op entry and a write in a cluster of three, with their responses mixed. -/
theorem replication_tally_two : letI := digitCapnp
    ExactTally freshNode.shared [⟨2, 0, none⟩, ⟨3, 1, some (.proxy 7)⟩]
      [.appendEntries 3 true, .logPersisted 2, .appendEntries 2 true, .appendEntries 3 true,
        .logPersisted 3, .appendEntries 2 true] :=
  replication_tally (by decide) (by decide) (by decide) (by decide) (by decide)

/-! ## Majorities -/

/-- The message is completed: it is no longer outstanding, the commit index has reached its index,
and its callback has its answer. -/
def Tracked.Completed (m : Tracked) (s₀ s : SharedState) : Prop :=
  s.outstandingMessages.lookup m.id = none ∧ m.index ≤ s.commitIndex ∧
    s.callbackResponses = s₀.callbackResponses ++ m.answer.toList

/-- The responses of a leader's disk and of some followers. -/
def Tracked.responsesOf (m : Tracked) (followers : List ℕ) : List TallyResponse :=
  .logPersisted m.id :: followers.map fun _ => .appendEntries m.id true

/-- A quorum is that many followers. -/
theorem onQuorum_responsesOf {followers : List ℕ} (h : responses.Perm (m.responsesOf followers))
    (quorum : ℕ) : OnQuorum quorum m.id responses ↔ quorum ≤ followers.length := by
  have hstored : .logPersisted m.id ∈ responses := h.mem_iff.mpr (List.mem_cons_self ..)
  have hcount : responses.countP (·.acks m.id) = followers.length := by
    rw [h.countP_eq, Tracked.responsesOf, List.countP_cons, List.countP_map]
    simp [TallyResponse.acks, Function.comp_def]
  unfold OnQuorum
  rw [hcount]
  exact and_iff_right hstored

/-- The responses of a disk and of followers are such as a message waits for. -/
theorem expected_responsesOf {followers : List ℕ} (h : responses.Perm (m.responsesOf followers))
    (hquorum : s.quorumSize ≤ s.quorumWorkerTasks.length)
    (hlength : followers.length ≤ s.quorumWorkerTasks.length) : Expected s [m] responses := by
  refine ⟨List.nodup_singleton _, hquorum, fun r hr => ⟨m, List.mem_singleton_self m, ?_⟩, ?_, ?_⟩
  · rcases List.mem_cons.mp (h.mem_iff.mp hr) with rfl | hr
    · rfl
    · obtain ⟨follower, -, rfl⟩ := List.mem_map.mp hr
      rfl
  · intro x hx
    obtain rfl := List.mem_singleton.mp hx
    rw [h.count_eq, Tracked.responsesOf, List.count_cons_self, List.count_eq_zero.mpr (by simp)]
  · intro x hx
    obtain rfl := List.mem_singleton.mp hx
    rw [h.countP_eq, Tracked.responsesOf, List.countP_cons, List.countP_map]
    simpa [TallyResponse.acks, Function.comp_def] using hlength

/-- A message is completed exactly if as many followers have acknowledged it as the quorum size
asks for. -/
theorem completed_iff (hexpected : Expected s [m] responses) :
    m.Completed s (stateAfter [m] s responses) ↔ OnQuorum s.quorumSize m.id responses := by
  have hinv := tallyInv_run hexpected
  have hm := List.mem_singleton_self m
  constructor
  · rintro ⟨hnone, -⟩
    by_contra hnot
    rw [hinv.records m hm, hexpected.waiting hm hnot] at hnone
    cases hnone
  · intro hrep
    refine ⟨?_, hinv.commitIndex.2 (Or.inr ⟨m, hm, hrep, rfl⟩), ?_⟩
    · rw [hinv.records m hm, (hexpected.outcome_eq_complete_iff hm).mpr hrep]
      rfl
    · obtain ⟨answers, heq, hperm⟩ := hinv.answers
      rw [heq]
      rw [List.filter_eq_self.mpr (by simpa using hrep)] at hperm
      rcases hanswer : m.answer with _ | answer
      · rw [List.filterMap_cons, hanswer] at hperm
        rw [List.Perm.eq_nil hperm]
        rfl
      · rw [List.filterMap_cons, hanswer] at hperm
        rw [List.perm_singleton.mp hperm]
        rfl

/-- **When a majority suffices.**  The leader of a cluster of `n` nodes, which all are listed, has an
entry on disk, and followers that make a majority with it acknowledge the entry: the message is
completed exactly if `n` is even, or the followers alone are a majority. -/
theorem majority_commits_iff [ParsesSocketAddr] {cfg : AppConfig} (hvalid : cfg.validate = [])
    (hself : cfg.nodeId ∈ cfg.clusterNodes.map (·.nodeId)) {s : SharedState}
    (hquorum : s.quorumSize = cfg.quorumSize)
    (hworkers : s.quorumWorkerTasks.length = cfg.clusterNodes.length - 1) (m : Tracked)
    {followers : List ℕ} (hnodup : followers.Nodup)
    (hfollowers : ∀ f ∈ followers, f ∈ cfg.members ∧ f ≠ cfg.nodeId)
    (hmajority : cfg.clusterNodes.length < 2 * (1 + followers.length))
    {responses : List TallyResponse} (hresponses : responses.Perm (m.responsesOf followers)) :
    m.Completed s (stateAfter [m] s responses) ↔
      cfg.clusterNodes.length % 2 = 0 ∨ cfg.clusterNodes.length < 2 * followers.length := by
  have hcard := AppConfig.card_members hvalid
  rw [if_pos hself] at hcard
  have hpos : 0 < cfg.clusterNodes.length := by
    obtain ⟨node, hnode, -⟩ := List.mem_map.mp hself
    exact List.length_pos_of_mem hnode
  have hlength : followers.length ≤ cfg.clusterNodes.length - 1 := by
    have hsub : followers.toFinset ⊆ cfg.members.erase cfg.nodeId := by
      intro f hf
      obtain ⟨hmem, hne⟩ := hfollowers f (List.mem_toFinset.mp hf)
      exact Finset.mem_erase.mpr ⟨hne, hmem⟩
    have hmem : cfg.nodeId ∈ cfg.members := Finset.mem_insert_self ..
    have hle := Finset.card_le_card hsub
    rw [List.toFinset_card_of_nodup hnodup, Finset.card_erase_of_mem hmem, hcard] at hle
    exact hle
  unfold AppConfig.quorumSize at hquorum
  by_cases hone : cfg.clusterNodes.length = 1
  · -- the only node waits for the acknowledgement of another one
    obtain rfl : followers = [] := List.length_eq_zero_iff.mp (by omega)
    obtain rfl : responses = [.logPersisted m.id] := List.perm_singleton.mp hresponses
    have hrecord : (m.register s).outstandingMessages.lookup m.id =
        m.record (.waiting ⟨false, 0, 1 + s.quorumWorkerTasks.length⟩) := AList.lookup_insert _
    have hwaits : stateAfter [m] s [.logPersisted m.id] =
        m.settle (m.register s) (.waiting ⟨true, 0, 1 + s.quorumWorkerTasks.length - 1⟩) := by
      have hhandle : stateAfter [m] s [.logPersisted m.id] = _ :=
        handle_eq (show (TallyResponse.logPersisted m.id).id = m.id from rfl) hrecord
      have hquorum' : ¬(m.register s).quorumSize ≤ 0 := by
        show ¬s.quorumSize ≤ 0
        omega
      rw [hhandle]
      exact congrArg (m.settle _) (if_neg hquorum')
    constructor
    · rintro ⟨hnone, -⟩
      rw [hwaits, m.lookup_settle_self] at hnone
      cases hnone
    · simp only [List.length_nil]
      omega
  · rw [completed_iff (expected_responsesOf hresponses (by omega) (by omega)),
      onQuorum_responsesOf hresponses]
    omega

/-- In a cluster of two the other node suffices. -/
theorem majority_commits_pair : letI := sampleAddresses
    letI := digitCapnp
    Tracked.Completed ⟨2, 1, some (.proxy 7)⟩
      (Node.start ⟨0, 0⟩ [] [] 1 1 1 fun _ => true).shared
      (stateAfter [⟨2, 1, some (.proxy 7)⟩] (Node.start ⟨0, 0⟩ [] [] 1 1 1 fun _ => true).shared
        [.appendEntries 2 true, .logPersisted 2]) :=
  (@majority_commits_iff sampleAddresses (sampleConfig [1, 2] 1) (by decide) (by decide)
    (@Node.start digitCapnp ⟨0, 0⟩ [] [] 1 1 1 fun _ => true).shared (by decide) (by decide)
    ⟨2, 1, some (.proxy 7)⟩ [2] (by decide) (by decide) (by decide)
    [.appendEntries 2 true, .logPersisted 2] (by decide)).mpr (Or.inl (by decide))

/-- All three nodes hold the no-op entry; then a client writes to node 1, and the entry is stored by
node 1 and node 2, which acknowledges it. -/
def writeOnTwoOfThree : List Label :=
  noopEverywhere ++ [.act 1 (.write ⟨"batch", [⟨"put", [7], 1⟩]⟩ 0), .act 1 (.accept ⟨1020, 0⟩)] ++
    storeAtLeader 1021 ++ [.act 1 (.workerTask 0 1022)] ++ storeAt 2 1023

/-- **A majority that does not commit.**  Two of three nodes have the entry on disk, and the leader
has counted the acknowledgement of the other one, but the message waits for the third node: nothing
is committed and the client has no answer. -/
theorem majority_does_not_commit : letI := digitCapnp
    letI := sampleAddresses
    let w := Runs.run (World.step clusterOfThree)
      (World.start clusterOfThree (fun _ => ⟨0, 0⟩) fun _ _ => true) writeOnTwoOfThree
    (w.process 1).node.machine.delegate = .leader true ∧
      (w.shared 1).replicationLog.length = 2 ∧
      (w.shared 2).replicationLog = (w.shared 1).replicationLog ∧
      (w.shared 1).outstandingMessages.lookup 3 =
        some ⟨3, 1, .writeBatch true 1 (.proxy 0) 1⟩ ∧
      (w.shared 1).commitIndex = 0 ∧ (w.shared 1).callbackResponses = [] := by
  decide +kernel

end Kraft
