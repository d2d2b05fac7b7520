/-
# Acknowledgements

A node that answers `Ok` to an AppendEntries request with an entry tells the leader that
the entry is in its log and on its disk.  The follower keeps the answer back until the
persistence worker has written the entry, but

* a candidate and a leader that step down answer `Ok` to a consecutive request without
  storing its entry (`candidate_acks_unstored`), and so does the heartbeat branch of the
  follower;
* the entry goes to the end of the log, whatever its index;
* a truncation may remove an entry whose answer is still outstanding.

`ack_sound` says that these are the only ways: in a run in which none of them happens, and
no restart leaves a torn entry behind, every entry that is answered `Ok` is in the log at
its index and in the log file.
-/
import Kraft.LogSteps

namespace Kraft

open SharedState StateMachine Storage

/-! ## Requests and answers -/

/-- The callbacks answered with `Ok` between two states. -/
def newOks (s s' : SharedState) : List Callback :=
  (okAnswers s').drop (okAnswers s).length

theorem newOks_of_eq {s s' : SharedState} {new : List Callback}
    (h : okAnswers s' = okAnswers s ++ new) : newOks s s' = new := by
  rw [newOks, h, List.drop_left]

theorem newOks_of_same {s s' : SharedState} (h : okAnswers s' = okAnswers s) : newOks s s' = [] :=
  newOks_of_eq (h.trans (List.append_nil _).symm)

/-- A message that waits for an entry is among the outstanding ones. -/
theorem mem_entries_of_appendLogOf {messages : HashMap OutstandingMessage} {id : ℕ}
    {callback : Callback} (h : appendLogOf messages id = some callback) :
    ∃ msg ∈ messages.entries, msg.2.messageType = .appendLog callback := by
  unfold appendLogOf at h
  split at h
  · next msg hlookup =>
    obtain rfl := Option.some.inj h
    exact ⟨_, AList.mem_lookup_iff.mp hlookup, rfl⟩
  · cases h

/-- The entry of an AppendEntries request, with the callback that waits for its answer. -/
def NodeEvent.carried : NodeEvent → List (Callback × LogEntry)
  | .accept _ ⟨.appendEntries request, callback⟩ =>
    request.entry.toList.map fun entry => (callback, entry)
  | _ => []

/-- The callback of a request. -/
def NodeEvent.callback : NodeEvent → List Callback
  | .accept _ message => [message.callback]
  | _ => []

/-- The callbacks of a run of requests. -/
def callbacksOf (events : List NodeEvent) : List Callback := events.flatMap NodeEvent.callback

/-- The entry of a request comes with the request's callback. -/
theorem NodeEvent.carried_sublist (e : NodeEvent) : (e.carried.map Prod.fst).Sublist e.callback := by
  cases e with
  | accept clock message =>
    obtain ⟨payload, answerTo⟩ := message
    cases payload with
    | appendEntries request =>
      cases hentry : request.entry <;> simp [NodeEvent.carried, NodeEvent.callback, hentry]
    | _ => exact List.nil_sublist _
  | _ => exact List.nil_sublist _

section Traced

variable [Capnp]

/-! ## What an acknowledgement promises -/

/-- The entry is in the log at its index, and the log file up to the end of that position
ends with its bytes. -/
def Node.HoldsDurably (n : Node) (entry : LogEntry) : Prop :=
  (∃ owned, entry.data = .message owned ∧ n.shared.replicationLog[entry.index]? = some owned) ∧
    ∃ finish, n.storage.entryEndOffsets[entry.index]? = some finish ∧
      finish ≤ n.storage.logFile.length ∧ entry.data.bytes <:+ n.storage.logFile.take finish

/-- A node with the entries that requests have brought it. -/
structure TracedNode where
  node : Node
  carried : List (Callback × LogEntry)

/-- One event. -/
def TracedNode.step (t : TracedNode) (e : NodeEvent) : TracedNode :=
  ⟨t.node.step e, t.carried ++ e.carried⟩

/-! ## The condition on a step -/

/-- An entry that a follower stores has the length of its log as index. -/
def StoredAtIndex (sm : StateMachine) (request : LocalAppendEntries) : Prop :=
  sm.delegate.nodeType = .follower → ValidAppendEntries request sm.shared →
    Follower.Recognises request sm.shared → ∀ entry ∈ request.entry,
      (OwnedLogEntry.fromBytes entry.data).isSome → entry.index = sm.shared.replicationLog.length

/-- A truncation that a follower carries out removes no entry whose answer is
outstanding. -/
def KeepsUnanswered (t : TracedNode) : Prop :=
  match t.node.machine.delegate, t.node.shared.quorumResponse with
  | .follower _, .truncateLog _ _ prevIndex :: _ =>
    prevIndex + 1 < t.node.shared.replicationLog.length → ∀ c ∈ t.carried,
      (∃ msg ∈ t.node.shared.outstandingMessages.entries, msg.2.messageType = .appendLog c.1) →
        c.2.index ≤ prevIndex
  | _, _ => True

/-- The condition under which acknowledgements stay sound. -/
def AcksSoundly (t : TracedNode) : NodeEvent → Prop
  | .accept _ ⟨.appendEntries request, _⟩ =>
    AcksOnlyStored t.node.machine request ∧ StoredAtIndex t.node.machine request
  | .timeStep _ .popQuorum => KeepsUnanswered t
  | .restart _ written _ => ReadToEnd (t.node.storage.logFile ++ t.node.storage.logBuffer.take written)
  | _ => True

instance (sm : StateMachine) (request : LocalAppendEntries) :
    Decidable (AcksOnlyStored sm request) := by
  unfold AcksOnlyStored
  split <;> infer_instance

instance (sm : StateMachine) (request : LocalAppendEntries) :
    Decidable (StoredAtIndex sm request) :=
  inferInstanceAs (Decidable (_ → _ → _ → _))

instance (t : TracedNode) : Decidable (KeepsUnanswered t) := by
  unfold KeepsUnanswered
  split <;> infer_instance

instance (t : TracedNode) (e : NodeEvent) : Decidable (AcksSoundly t e) := by
  delta AcksSoundly
  rcases e with ⟨_, _ | _ | _ | _, _⟩ | ⟨_, _ | _ | _ | _⟩ | _ | _ | _ | _ <;> infer_instance

/-! ## The invariant -/

/-- The entry of an outstanding answer is in the log. -/
def Waits (carried : List (Callback × LogEntry)) (s : SharedState) (callback : Callback)
    (entry : LogEntry) (owned : OwnedLogEntry) : Prop :=
  (callback, entry) ∈ carried ∧ entry.data = .message owned ∧
    s.replicationLog[entry.index]? = some owned

/-- The entry of an outstanding answer is a record of the log file, and no waiting
truncation removes it. -/
def OnRecord (carried : List (Callback × LogEntry)) (n : Node) (records : List (List UInt8))
    (callback : Callback) (entry : LogEntry) : Prop :=
  (∃ owned, Waits carried n.shared callback entry owned) ∧
    records[entry.index]? = some entry.data.bytes ∧
    ∀ target, .truncateLog target ∈ n.shared.persistenceWork → entry.index < target

/-- The entries of outstanding answers are on their way to the disk.  `records` are the
records of the log file. -/
structure AckInv (carried : List (Callback × LogEntry)) (n : Node)
    (records : List (List UInt8)) : Prop where
  file : Records records n.storage
  isOpen : n.shared.persistenceOpen = true
  length : (replay records n.shared.persistenceWork).length = n.shared.replicationLog.length
  within : ∀ before target after,
    n.shared.persistenceWork = before ++ .truncateLog target :: after →
      target ≤ (replay records before).length
  -- message ids in use are below the next one
  waitingIds : ∀ id callback, appendLogOf n.shared.outstandingMessages id = some callback →
    id < n.shared.nextMessageId
  queuedIds : ∀ id data requestId, .appendLog id data requestId ∈ n.shared.persistenceWork →
    id < n.shared.nextMessageId
  persistedIds : ∀ id, .logPersisted id ∈ n.storage.pendingLogResponses ++
    n.shared.persistenceResponse → id < n.shared.nextMessageId
  -- where the entry of an outstanding answer is: in the channel, in the buffer, in the file
  queued : ∀ before id data requestId after callback,
    n.shared.persistenceWork = before ++ .appendLog id data requestId :: after →
      appendLogOf n.shared.outstandingMessages id = some callback →
        ∃ entry owned, Waits carried n.shared callback entry owned ∧ data = .message owned ∧
          (replay records before).length = entry.index ∧
          ∀ target, .truncateLog target ∈ after → entry.index < target
  buffered : ∀ id callback, .logPersisted id ∈ n.storage.pendingLogResponses →
    appendLogOf n.shared.outstandingMessages id = some callback →
      ∃ entry, OnRecord carried n records callback entry
  persisted : ∀ id callback, .logPersisted id ∈ n.shared.persistenceResponse →
    appendLogOf n.shared.outstandingMessages id = some callback →
      ∃ entry, OnRecord carried n records callback entry ∧
        (records.take (entry.index + 1)).flatten.length ≤ n.storage.logFile.length

namespace AckInv

variable {carried carried' : List (Callback × LogEntry)} {n n' : Node} {records : List (List UInt8)}

/-- **The frame rule**: the state machine adds tasks to the channel of the persistence
worker and leaves the entries of outstanding answers where they are. -/
theorem extend (h : AckInv carried n records)
    (hcarried : ∀ c ∈ carried, c ∈ carried') (new : List PersistenceTaskType)
    (hstorage : n'.storage = n.storage)
    (hopen : n'.shared.persistenceOpen = n.shared.persistenceOpen)
    (hresponse : ∀ response ∈ n'.shared.persistenceResponse,
      response ∈ n.shared.persistenceResponse)
    (hnext : n.shared.nextMessageId ≤ n'.shared.nextMessageId)
    (hwork : n'.shared.persistenceWork = n.shared.persistenceWork ++ new)
    (hlength : (replay (replay records n.shared.persistenceWork) new).length =
      n'.shared.replicationLog.length)
    (hwithin : ∀ before target after, new = before ++ .truncateLog target :: after →
      target ≤ (replay (replay records n.shared.persistenceWork) before).length)
    (hids : ∀ id callback, appendLogOf n'.shared.outstandingMessages id = some callback →
      id < n'.shared.nextMessageId)
    (hwaiting : ∀ id callback, id < n.shared.nextMessageId →
      appendLogOf n'.shared.outstandingMessages id = some callback →
        appendLogOf n.shared.outstandingMessages id = some callback)
    (hkept : ∀ id callback entry owned, appendLogOf n.shared.outstandingMessages id = some callback →
      Waits carried n.shared callback entry owned →
        n'.shared.replicationLog[entry.index]? = some owned ∧
          ∀ target, .truncateLog target ∈ new → entry.index < target)
    (hnewIds : ∀ id data requestId, .appendLog id data requestId ∈ new →
      n.shared.nextMessageId ≤ id ∧ id < n'.shared.nextMessageId)
    (hqueued : ∀ before id data requestId after callback,
      new = before ++ .appendLog id data requestId :: after →
        appendLogOf n'.shared.outstandingMessages id = some callback →
          ∃ entry owned, Waits carried' n'.shared callback entry owned ∧ data = .message owned ∧
            (replay (replay records n.shared.persistenceWork) before).length = entry.index ∧
            ∀ target, .truncateLog target ∈ after → entry.index < target) :
    AckInv carried' n' records := by
  -- an entry of an old outstanding answer is still where it was
  have hrecord : ∀ id callback entry, id < n.shared.nextMessageId →
      appendLogOf n'.shared.outstandingMessages id = some callback →
      OnRecord carried n records callback entry → OnRecord carried' n' records callback entry := by
    rintro id callback entry hid hwait ⟨⟨owned, hwaits⟩, hrec, htrunc⟩
    obtain ⟨hlog, hnew⟩ := hkept id callback entry owned (hwaiting id callback hid hwait) hwaits
    refine ⟨⟨owned, hcarried _ hwaits.1, hwaits.2.1, hlog⟩, hrec, fun target hmem => ?_⟩
    rw [hwork] at hmem
    rcases List.mem_append.mp hmem with hmem | hmem
    · exact htrunc target hmem
    · exact hnew target hmem
  refine ⟨hstorage ▸ h.file, hopen.trans h.isOpen, ?_, ?_, hids, ?_, ?_, ?_, ?_, ?_⟩
  · rw [hwork, replay_append, hlength]
  · intro before target after heq
    rw [hwork] at heq
    rcases RecordFile.split_append heq with ⟨after', hleft, -⟩ | ⟨before', rfl, hright⟩
    · exact h.within before target after' hleft
    · rw [replay_append]
      exact hwithin before' target after hright
  · intro id data requestId hmem
    rw [hwork] at hmem
    rcases List.mem_append.mp hmem with hmem | hmem
    · exact (h.queuedIds id data requestId hmem).trans_le hnext
    · exact (hnewIds id data requestId hmem).2
  · intro id hmem
    refine (h.persistedIds id ?_).trans_le hnext
    rw [hstorage] at hmem
    rcases List.mem_append.mp hmem with hmem | hmem
    · exact List.mem_append_left _ hmem
    · exact List.mem_append_right _ (hresponse _ hmem)
  · intro before id data requestId after callback heq hwait
    rw [hwork] at heq
    rcases RecordFile.split_append heq with ⟨after', hleft, rfl⟩ | ⟨before', rfl, hright⟩
    · have hid := h.queuedIds id data requestId (by rw [hleft]; simp)
      have hold := hwaiting id callback hid hwait
      obtain ⟨entry, owned, hwaits, hdata, hindex, htrunc⟩ :=
        h.queued before id data requestId after' callback hleft hold
      obtain ⟨hlog, hnew⟩ := hkept id callback entry owned hold hwaits
      refine ⟨entry, owned, ⟨hcarried _ hwaits.1, hwaits.2.1, hlog⟩, hdata, hindex,
        fun target hmem => ?_⟩
      rcases List.mem_append.mp hmem with hmem | hmem
      · exact htrunc target hmem
      · exact hnew target hmem
    · rw [replay_append]
      exact hqueued before' id data requestId after callback hright hwait
  · intro id callback hmem hwait
    rw [hstorage] at hmem
    have hid := h.persistedIds id (List.mem_append_left _ hmem)
    obtain ⟨entry, hentry⟩ := h.buffered id callback hmem (hwaiting id callback hid hwait)
    exact ⟨entry, hrecord id callback entry hid hwait hentry⟩
  · intro id callback hmem hwait
    have hmem' := hresponse _ hmem
    have hid := h.persistedIds id (List.mem_append_right _ hmem')
    obtain ⟨entry, hentry, hflushed⟩ :=
      h.persisted id callback hmem' (hwaiting id callback hid hwait)
    exact ⟨entry, hrecord id callback entry hid hwait hentry, hstorage ▸ hflushed⟩

/-! ### The state machine -/

theorem keeps (h : AckInv carried n records)
    (hcarried : ∀ c ∈ carried, c ∈ carried') (hstorage : n'.storage = n.storage)
    (hkeep : KeepsEntries n.shared n'.shared) : AckInv carried' n' records := by
  obtain ⟨votes, hwork, hvotes⟩ := hkeep.tasks
  have hnot : ∀ task ∈ votes, task.isVote = false → False := fun task hmem hfalse => by
    rw [hvotes task hmem] at hfalse
    cases hfalse
  refine h.extend hcarried votes hstorage hkeep.persistenceOpen
    (fun response hmem => hkeep.persistenceResponse ▸ hmem) hkeep.nextMessageId hwork ?_ ?_ ?_ ?_
    ?_ ?_ ?_
  · rw [replay_votes hvotes, h.length, hkeep.log]
  · intro before target after heq
    exact (hnot (.truncateLog target) (by rw [heq]; simp) rfl).elim
  · intro id callback hwait
    exact (h.waitingIds id callback (hkeep.waiting id callback hwait)).trans_le hkeep.nextMessageId
  · exact fun id callback _ hwait => hkeep.waiting id callback hwait
  · intro id callback entry owned _ hwaits
    exact ⟨by rw [hkeep.log]; exact hwaits.2.2,
      fun target hmem => (hnot (.truncateLog target) hmem rfl).elim⟩
  · exact fun id data requestId hmem => (hnot (.appendLog id data requestId) hmem rfl).elim
  · intro before id data requestId after callback heq
    exact (hnot (.appendLog id data requestId) (by rw [heq]; simp) rfl).elim

theorem stores {request : LocalAppendEntries} {callback : Callback}
    {entry : LogEntry} {owned : OwnedLogEntry} (h : AckInv carried n records)
    (hcarried : ∀ c ∈ carried, c ∈ carried') (hstorage : n'.storage = n.storage)
    (hstore : StoresEntry request callback entry owned n.shared n'.shared)
    (hmem : (callback, entry) ∈ carried') (hindex : entry.index = n.shared.replicationLog.length) :
    AckInv carried' n' records := by
  refine h.extend hcarried [.appendLog n.shared.nextMessageId (.message owned) request.requestId]
    hstorage hstore.persistenceOpen (fun response hmem => hstore.persistenceResponse ▸ hmem)
    hstore.nextMessageId hstore.tasks ?_ ?_ ?_ ?_ ?_ ?_ ?_
  · rw [hstore.log, replay_cons, replay_nil, replayTask, List.length_append, h.length]
    simp
  · intro before target after heq
    cases (RecordFile.split_singleton heq).2.1
  · intro id callback' hwait
    rw [hstore.waiting] at hwait
    split_ifs at hwait with hid
    · rw [hid]
      exact hstore.next
    · exact (h.waitingIds id callback' hwait).trans hstore.next
  · intro id callback' hid hwait
    rw [hstore.waiting, if_neg hid.ne] at hwait
    exact hwait
  · intro id callback' entry' owned' _ hwaits
    refine ⟨?_, fun target hmem => ?_⟩
    · rw [hstore.log]
      exact RecordFile.getElem?_append_some hwaits.2.2 _
    · simp at hmem
  · intro id data requestId hmem
    rw [List.mem_singleton] at hmem
    injection hmem with hid
    subst hid
    exact ⟨le_rfl, hstore.next⟩
  · intro before id data requestId after callback' heq hwait
    obtain ⟨rfl, htask, rfl⟩ := RecordFile.split_singleton heq
    injection htask with hid hdata
    rw [hstore.waiting, if_pos hid.symm] at hwait
    obtain rfl := Option.some.inj hwait
    refine ⟨entry, owned, ⟨hmem, hstore.data, ?_⟩, hdata.symm, ?_, by simp⟩
    · rw [hstore.log, hindex, List.getElem?_concat_length]
    · rw [replay_nil, h.length, hindex]

theorem appendsOwn {owned : OwnedLogEntry} (h : AckInv carried n records)
    (hcarried : ∀ c ∈ carried, c ∈ carried') (hstorage : n'.storage = n.storage)
    (hown : AppendsOwn owned n.shared n'.shared) : AckInv carried' n' records := by
  obtain ⟨id, hid, hlt, hwork⟩ := hown.tasks
  refine h.extend hcarried [.appendLog id (.message owned) id] hstorage hown.persistenceOpen
    (fun response hmem => hown.persistenceResponse ▸ hmem) hown.nextMessageId hwork ?_ ?_ ?_ ?_ ?_
    ?_ ?_
  · rw [hown.log, replay_cons, replay_nil, replayTask, List.length_append, h.length]
    simp
  · intro before target after heq
    cases (RecordFile.split_singleton heq).2.1
  · intro id' callback hwait
    exact (h.waitingIds id' callback (hown.waiting id' callback hwait)).trans_le hown.nextMessageId
  · exact fun id' callback _ hwait => hown.waiting id' callback hwait
  · intro id' callback entry owned' _ hwaits
    refine ⟨?_, fun target hmem => ?_⟩
    · rw [hown.log]
      exact RecordFile.getElem?_append_some hwaits.2.2 _
    · simp at hmem
  · intro id' data requestId hmem
    rw [List.mem_singleton] at hmem
    injection hmem with hid'
    subst hid'
    exact ⟨hid, hlt⟩
  · -- the id is new, so no answer waits under it
    intro before id' data requestId after callback heq hwait
    obtain ⟨-, htask, -⟩ := RecordFile.split_singleton heq
    injection htask with hid'
    have := h.waitingIds id' callback (hown.waiting id' callback hwait)
    omega

theorem truncates {target : ℕ} (h : AckInv carried n records)
    (hstorage : n'.storage = n.storage) (htruncate : Truncates target n.shared n'.shared)
    (hunanswered : ∀ id callback entry, appendLogOf n.shared.outstandingMessages id = some callback →
      (callback, entry) ∈ carried → entry.index < target) : AckInv carried n' records := by
  refine h.extend (fun c hc => hc) [.truncateLog target] hstorage htruncate.persistenceOpen
    (fun response hmem => htruncate.persistenceResponse ▸ hmem) htruncate.nextMessageId
    htruncate.tasks ?_ ?_ ?_ ?_ ?_ ?_ ?_
  · rw [htruncate.log, replay_cons, replay_nil, replayTask, List.length_take, List.length_take,
      h.length]
  · intro before target' after heq
    obtain ⟨rfl, htask, -⟩ := RecordFile.split_singleton heq
    injection htask with htarget
    rw [replay_nil, h.length, ← htarget]
    exact htruncate.shorter.le
  · intro id callback hwait
    exact (h.waitingIds id callback (htruncate.waiting id callback hwait)).trans_le
      htruncate.nextMessageId
  · exact fun id callback _ hwait => htruncate.waiting id callback hwait
  · intro id callback entry owned hwait hwaits
    have hlt := hunanswered id callback entry hwait hwaits.1
    refine ⟨?_, fun target' hmem => ?_⟩
    · rw [htruncate.log, List.getElem?_take_of_lt hlt, hwaits.2.2]
    · rw [List.mem_singleton] at hmem
      injection hmem with htarget
      rw [htarget]
      exact hlt
  · intro id data requestId hmem
    simp at hmem
  · intro before id data requestId after callback heq
    cases (RecordFile.split_singleton heq).2.1

/-! ### The persistence worker -/

/-- A task keeps the records of the entries it does not remove. -/
theorem getElem?_replayTask {records : List (List UInt8)} {i : ℕ} {record : List UInt8}
    (h : records[i]? = some record) {task : PersistenceTaskType}
    (hkept : ∀ target, task = .truncateLog target → i < target) :
    (replayTask records task)[i]? = some record ∧
      (replayTask records task).take (i + 1) = records.take (i + 1) := by
  obtain ⟨hi, -⟩ := List.getElem?_eq_some_iff.mp h
  cases task with
  | appendVote id term candidateId => exact ⟨h, rfl⟩
  | appendLog id data requestId =>
    exact ⟨RecordFile.getElem?_append_some h _, List.take_append_of_le_length hi⟩
  | truncateLog target =>
    have hlt := hkept target rfl
    refine ⟨(List.getElem?_take_of_lt hlt).trans h, ?_⟩
    rw [replayTask, List.take_take, Nat.min_eq_left hlt]

/-- The entry of a waiting task becomes the last record. -/
theorem first (h : AckInv carried n records) {id : ℕ} {data : EntryData}
    {requestId : ℕ} {rest : List PersistenceTaskType} {callback : Callback}
    (hwork : n.shared.persistenceWork = .appendLog id data requestId :: rest)
    (hwait : appendLogOf n.shared.outstandingMessages id = some callback) :
    ∃ entry owned, Waits carried n.shared callback entry owned ∧
      (records ++ [data.bytes])[entry.index]? = some entry.data.bytes ∧
      ∀ target, .truncateLog target ∈ rest → entry.index < target := by
  obtain ⟨entry, owned, hwaits, hdata, hindex, htrunc⟩ :=
    h.queued [] id data requestId rest callback hwork hwait
  refine ⟨entry, owned, hwaits, ?_, htrunc⟩
  rw [← hindex, replay_nil, List.getElem?_concat_length, hdata, hwaits.2.1]

theorem processTask (h : AckInv carried n records) :
    ∃ records', AckInv carried n.processTask records' := by
  rcases hwork : n.shared.persistenceWork with _ | ⟨task, rest⟩
  · refine ⟨records, ?_⟩
    rwa [show n.processTask = n by simp [Node.processTask, h.isOpen, hwork]]
  · obtain ⟨st, responses, htask, hfile⟩ := h.file.processTask task (by
      rintro target rfl
      exact h.within [] target rest hwork)
    rw [Node.processTask_of_some h.isOpen hwork htask]
    -- an old record stays one
    have hold : ∀ callback entry, OnRecord carried n records callback entry →
        (∃ owned, Waits carried n.shared callback entry owned) ∧
          ((replayTask records task)[entry.index]? = some entry.data.bytes ∧
            (replayTask records task).take (entry.index + 1) =
              records.take (entry.index + 1)) ∧
          ∀ target, .truncateLog target ∈ rest → entry.index < target := by
      rintro callback entry ⟨hwaits, hrec, htrunc⟩
      refine ⟨hwaits, getElem?_replayTask hrec ?_, fun target hmem => ?_⟩
      · rintro target rfl
        exact htrunc target (by rw [hwork]; simp)
      · exact htrunc target (by rw [hwork]; simp [hmem])
    -- an answer that waits for a reported entry has it on record
    have hreported : ∀ id callback, .logPersisted id ∈ st.pendingLogResponses ++ responses →
        appendLogOf n.shared.outstandingMessages id = some callback →
          ∃ entry, (∃ owned, Waits carried n.shared callback entry owned) ∧
            (replayTask records task)[entry.index]? = some entry.data.bytes ∧
            ∀ target, .truncateLog target ∈ rest → entry.index < target := by
      intro id callback hmem hwait
      rcases Records.mem_responses_processTask htask hmem with hmem | ⟨data, requestId, rfl⟩
      · obtain ⟨entry, hentry⟩ := h.buffered id callback hmem hwait
        obtain ⟨hwaits, ⟨hrec, -⟩, htrunc⟩ := hold callback entry hentry
        exact ⟨entry, hwaits, hrec, htrunc⟩
      · obtain ⟨entry, owned, hwaits, hrec, htrunc⟩ := h.first hwork hwait
        exact ⟨entry, ⟨owned, hwaits⟩, hrec, htrunc⟩
    have hreportedIds : ∀ id, .logPersisted id ∈ st.pendingLogResponses ++ responses →
        id < n.shared.nextMessageId := by
      intro id hmem
      rcases Records.mem_responses_processTask htask hmem with hmem | ⟨data, requestId, rfl⟩
      · exact h.persistedIds id (List.mem_append_left _ hmem)
      · exact h.queuedIds id data requestId (by rw [hwork]; simp)
    refine ⟨replayTask records task, hfile, h.isOpen, ?_, ?_, h.waitingIds, ?_, ?_, ?_, ?_, ?_⟩
    · have := h.length
      rwa [hwork, replay_cons] at this
    · intro before target after heq
      exact h.within (task :: before) target after (by rw [hwork, List.cons_append, ← heq]; rfl)
    · intro id data requestId hmem
      exact h.queuedIds id data requestId (by rw [hwork]; exact List.mem_cons_of_mem _ hmem)
    · intro id hmem
      rcases List.mem_append.mp hmem with hmem | hmem
      · exact hreportedIds id (List.mem_append_left _ hmem)
      · rcases List.mem_append.mp hmem with hmem | hmem
        · exact h.persistedIds id (List.mem_append_right _ hmem)
        · exact hreportedIds id (List.mem_append_right _ hmem)
    · intro before id data requestId after callback heq hwait
      exact h.queued (task :: before) id data requestId after callback
        (by rw [hwork, List.cons_append, ← heq]; rfl) hwait
    · intro id callback hmem hwait
      exact hreported id callback (List.mem_append_left _ hmem) hwait
    · intro id callback hmem hwait
      rcases h.file.logBuffer_processTask htask with hbuffer | ⟨hlogFile, hnone⟩
      · -- everything is in the file
        rcases List.mem_append.mp hmem with hmem | hmem
        · obtain ⟨entry, hentry, -⟩ := h.persisted id callback hmem hwait
          obtain ⟨hwaits, ⟨hrec, -⟩, htrunc⟩ := hold callback entry hentry
          exact ⟨entry, ⟨hwaits, hrec, htrunc⟩, hfile.flatten_take_le hbuffer _⟩
        · obtain ⟨entry, hentry⟩ := hreported id callback (List.mem_append_right _ hmem) hwait
          exact ⟨entry, hentry, hfile.flatten_take_le hbuffer _⟩
      · -- the file is as it was, and nothing new is reported
        rw [hnone, List.append_nil] at hmem
        obtain ⟨entry, hentry, hflushed⟩ := h.persisted id callback hmem hwait
        obtain ⟨hwaits, ⟨hrec, htake⟩, htrunc⟩ := hold callback entry hentry
        refine ⟨entry, ⟨hwaits, hrec, htrunc⟩, ?_⟩
        rw [htake]
        exact hlogFile ▸ hflushed

theorem flush (h : AckInv carried n records) :
    AckInv carried n.flush records := by
  have hnode : n.flush =
      { n.withShared { n.shared with
          persistenceResponse := n.shared.persistenceResponse ++ n.storage.pendingLogResponses } with
        storage := n.storage.flushPendingLogs.1 } := by
    simp [Node.flush, h.isOpen]
  rw [hnode]
  refine ⟨h.file.flushPendingLogs, h.isOpen, h.length, h.within, h.waitingIds, h.queuedIds, ?_,
    h.queued, ?_, ?_⟩
  · intro id hmem
    refine h.persistedIds id ?_
    rw [pendingLogResponses_flushPendingLogs, List.nil_append] at hmem
    exact List.mem_append.mpr (List.mem_append.mp hmem).symm
  · intro id callback hmem
    rw [pendingLogResponses_flushPendingLogs] at hmem
    cases hmem
  · intro id callback hmem hwait
    have hflushed := h.file.flushPendingLogs.flatten_take_le h.file.logBuffer_flushPendingLogs
    rcases List.mem_append.mp hmem with hmem | hmem
    · obtain ⟨entry, hentry, -⟩ := h.persisted id callback hmem hwait
      exact ⟨entry, hentry, hflushed _⟩
    · obtain ⟨entry, hentry⟩ := h.buffered id callback hmem hwait
      exact ⟨entry, hentry, hflushed _⟩

/-- A node that starts on a file it can read to its end. -/
theorem start (carried : List (Callback × LogEntry)) (clock : Clock)
    {logFile : List UInt8} (hfile : ReadToEnd logFile) (voteRows : List VoteRow)
    (identity quorumSize workers : ℕ) (accepts : ℕ → Bool) :
    ∃ records, AckInv carried
      (Node.start clock logFile voteRows identity quorumSize workers accepts) records := by
  obtain ⟨records, hends, hbytes, hlength⟩ := exists_records_of_readToEnd hfile voteRows
  refine ⟨records, ⟨hends, ?_, fun _ => rfl⟩, rfl, hlength, ?_, ?_, ?_, ?_, ?_, ?_, ?_⟩
  · show logFile ++ [] = records.flatten
    rw [List.append_nil, hbytes]
  · intro before target after heq
    simp [Node.start, createSharedState] at heq
  · intro id callback hwait
    cases hwait
  · intro id data requestId hmem
    cases hmem
  · intro id hmem
    cases hmem
  · intro before id data requestId after callback heq
    simp [Node.start, createSharedState] at heq
  · intro id callback hmem
    cases hmem
  · intro id callback hmem
    cases hmem

/-! ### One event -/

/-- A request. -/
theorem accept (h : AckInv carried n records) (clock : Clock)
    (message : LocalRaftMessage)
    (hgood : AcksSoundly ⟨n, carried⟩ (.accept clock message)) :
    AckInv (carried ++ (NodeEvent.accept clock message).carried) (n.step (.accept clock message))
      records := by
  have hcarried : ∀ c ∈ carried, c ∈ carried ++ (NodeEvent.accept clock message).carried :=
    fun c hc => List.mem_append_left _ hc
  obtain ⟨payload, callback⟩ := message
  cases payload with
  | requestVote request =>
    refine h.keeps hcarried rfl ?_
    show KeepsEntries n.shared (n.machine.acceptRequestVote request callback).shared
    exact (asked_acceptRequestVote request callback n.machine).idle.keep
  | appendEntries request =>
    by_cases hrole : n.machine.delegate.nodeType = .follower
    · cases handlesEntry_acceptAppendEntries clock request callback n.machine hgood.1 with
      | keeps keep answers => exact h.keeps hcarried rfl keep
      | acknowledges keep answers empty => exact h.keeps hcarried rfl keep
      | stores entry owned store answers hentry valid recognised =>
        have hmem : (callback, entry) ∈
            carried ++ (NodeEvent.accept clock ⟨.appendEntries request, callback⟩).carried :=
          List.mem_append_right _ (by simp [NodeEvent.carried, hentry])
        exact h.stores hcarried rfl store hmem (hgood.2 hrole valid recognised entry hentry
          (by simp [store.data, OwnedLogEntry.fromBytes]))
    · exact h.keeps hcarried rfl
        (keepsEntries_acceptAppendEntries clock request callback n.machine hrole)
  | getRaftState =>
    exact h.keeps hcarried rfl (.of_eq (.of_eq rfl rfl rfl) rfl rfl (.of_eq rfl))
  | writeBatch batch =>
    rcases (acceptWriteBatch_log clock batch callback n.machine h.isOpen).2 with
      hkeep | ⟨owned, hown⟩
    · exact h.keeps hcarried rfl hkeep
    · exact h.appendsOwn hcarried rfl hown

/-- The machine handles responses: some are taken from the queue of the persistence worker,
and the other fields concerned stay. -/
theorem pop (h : AckInv carried n records)
    (hstorage : n'.storage = n.storage)
    (hresponse : ∀ response ∈ n'.shared.persistenceResponse,
      response ∈ n.shared.persistenceResponse)
    (hopen : n'.shared.persistenceOpen = n.shared.persistenceOpen)
    (hlog : n'.shared.replicationLog = n.shared.replicationLog)
    (hwork : n'.shared.persistenceWork = n.shared.persistenceWork)
    (hnext : n'.shared.nextMessageId = n.shared.nextMessageId)
    (hmessages : n'.shared.outstandingMessages = n.shared.outstandingMessages) :
    AckInv carried n' records := by
  refine h.extend (fun c hc => hc) [] hstorage hopen hresponse hnext.ge
    (by rw [hwork, List.append_nil]) ?_ (by simp) ?_ ?_ ?_ (by simp) (by simp)
  · rw [replay_nil, h.length, hlog]
  · rw [hnext, hmessages]
    exact h.waitingIds
  · intro id callback _ hwait
    rwa [hmessages] at hwait
  · intro id callback entry owned _ hwaits
    exact ⟨by rw [hlog]; exact hwaits.2.2, by simp⟩

/-- A part of `time_step`. -/
theorem timeStep (h : AckInv carried n records) (clock : Clock)
    (part : TimeStepPart) (hgood : AcksSoundly ⟨n, carried⟩ (.timeStep clock part)) :
    AckInv carried (n.step (.timeStep clock part)) records := by
  cases part with
  | takeOffice =>
    show AckInv carried { n with machine := n.machine.takeOffice clock } records
    rcases (takeOffice_log clock n.machine h.isOpen).2 with hkeep | ⟨owned, hown⟩
    · exact h.keeps (fun c hc => hc) rfl hkeep
    · exact h.appendsOwn (fun c hc => hc) rfl hown
  | popPersistence =>
    show AckInv carried { n with machine := n.machine.popPersistence } records
    rcases popPersistence_cases n.machine with heq | ⟨response, rest, hqueue, heq⟩
    · rwa [heq]
    · rw [heq]
      have hpop : AckInv carried { n with machine := n.machine.dropPersistence rest } records := by
        refine h.pop rfl (fun r hr => ?_) rfl rfl rfl rfl rfl
        rw [hqueue]
        exact List.mem_cons_of_mem _ hr
      rcases handlePersistence_log response (n.machine.dropPersistence rest) with
        hidle | ⟨_, _, _, _, hkeep, _⟩
      · exact hpop.keeps (fun c hc => hc) rfl hidle.keep
      · exact hpop.keeps (fun c hc => hc) rfl hkeep
  | popQuorum =>
    show AckInv carried { n with machine := n.machine.popQuorum } records
    rcases popQuorum_cases n.machine with heq | ⟨response, rest, hqueue, heq⟩
    · rwa [heq]
    · rw [heq]
      have hpop : AckInv carried { n with machine := n.machine.dropQuorum rest } records :=
        h.pop rfl (fun r hr => hr) rfl rfl rfl rfl rfl
      rcases handleQuorum_log response (n.machine.dropQuorum rest) h.isOpen with
        hidle | ⟨node, prevTerm, prevIndex, rfl, hrole, htruncate, -⟩
      · exact hpop.keeps (fun c hc => hc) rfl hidle.keep
      · refine hpop.truncates rfl htruncate fun id callback entry hwait hmem => ?_
        have hkeeps : KeepsUnanswered ⟨n, carried⟩ := hgood
        unfold KeepsUnanswered at hkeeps
        rcases hdelegate : n.machine.delegate with timer | timeout | initialized
        · simp only [hdelegate, hqueue] at hkeeps
          exact Nat.lt_succ_of_le (hkeeps htruncate.shorter _ hmem (mem_entries_of_appendLogOf hwait))
        all_goals simp [hdelegate] at hrole
  | finish => exact h.keeps (fun c hc => hc) rfl (idle_finish clock n.machine).keep

/-- **One event.** -/
theorem step {t : TracedNode} (h : AckInv t.carried t.node records) (e : NodeEvent) (hgood : AcksSoundly t e) :
    ∃ records', AckInv (t.step e).carried (t.step e).node records' := by
  obtain ⟨n, carried⟩ := t
  -- only requests carry entries
  have hsame : e.carried = [] → (∃ records', AckInv carried (n.step e) records') →
      ∃ records', AckInv (carried ++ e.carried) (n.step e) records' := fun hnone h' => by
    rwa [hnone, List.append_nil]
  cases e with
  | accept clock message => exact ⟨records, h.accept clock message hgood⟩
  | timeStep clock part => exact hsame rfl ⟨records, h.timeStep clock part hgood⟩
  | respond response =>
    exact hsame rfl ⟨records, h.pop rfl (fun r hr => hr) rfl rfl rfl rfl rfl⟩
  | processTask => exact hsame rfl h.processTask
  | flush => exact hsame rfl ⟨records, h.flush⟩
  | restart clock written accepts => exact start _ clock hgood _ _ _ _ accepts

end AckInv

/-! ## The answers -/

/-- A persisted entry is answered: its message was registered, and the log and the files
stay. -/
def AnswersEntry (n n' : Node) (callback : Callback) : Prop :=
  ∃ id, .logPersisted id ∈ n.shared.persistenceResponse ∧
    appendLogOf n.shared.outstandingMessages id = some callback ∧
    n'.storage = n.storage ∧ n'.shared.replicationLog = n.shared.replicationLog

/-- **Where `Ok` comes from**: from a request without an entry, or from an entry that is
reported persisted. -/
theorem newOks_step (n : Node) (hopen : n.shared.persistenceOpen = true) (e : NodeEvent)
    {carried : List (Callback × LogEntry)} (hgood : AcksSoundly ⟨n, carried⟩ e)
    {callback : Callback} (hok : callback ∈ newOks n.shared (n.step e).shared) :
    (callback ∈ e.callback ∧ e.carried = []) ∨ AnswersEntry n (n.step e) callback := by
  have hnone : okAnswers (n.step e).shared = okAnswers n.shared →
      (callback ∈ e.callback ∧ e.carried = []) ∨ AnswersEntry n (n.step e) callback := by
    intro hsame
    rw [newOks_of_same hsame] at hok
    cases hok
  have hone : ∀ answered, okAnswers (n.step e).shared = okAnswers n.shared ++ [answered] →
      callback = answered := by
    intro answered hadded
    rw [newOks_of_eq hadded] at hok
    exact List.mem_singleton.mp hok
  cases e with
  | accept clock message =>
    obtain ⟨payload, answerTo⟩ := message
    cases payload with
    | requestVote request =>
      exact hnone (asked_acceptRequestVote request answerTo n.machine).idle.answers
    | appendEntries request =>
      cases handlesEntry_acceptAppendEntries clock request answerTo n.machine hgood.1 with
      | keeps keep answers => exact hnone answers
      | acknowledges keep answers empty =>
        have hcallback := hone answerTo answers
        exact Or.inl ⟨by simp [NodeEvent.callback, hcallback], by simp [NodeEvent.carried, empty]⟩
      | stores entry owned store answers hentry valid recognised => exact hnone answers
    | getRaftState => exact hnone (okAnswers_send n.shared answerTo (by simp))
    | writeBatch batch =>
      exact hnone (acceptWriteBatch_log clock batch answerTo n.machine hopen).1
  | timeStep clock part =>
    cases part with
    | takeOffice => exact hnone (takeOffice_log clock n.machine hopen).1
    | popPersistence =>
      have hstep : (n.step (.timeStep clock .popPersistence)).machine = n.machine.popPersistence :=
        rfl
      rcases popPersistence_cases n.machine with heq | ⟨response, rest, hqueue, heq⟩
      · exact hnone (by rw [Node.shared, hstep, heq])
      · rcases handlePersistence_log response (n.machine.dropPersistence rest) with
          hidle | ⟨id, answered, rfl, hwait, hkeep, hanswers, -⟩
        · exact hnone (by rw [Node.shared, hstep, heq]; exact hidle.answers)
        · have hcallback := hone answered (by rw [Node.shared, hstep, heq]; exact hanswers)
          refine Or.inr ⟨id, by rw [hqueue]; simp, hcallback ▸ hwait, rfl, ?_⟩
          rw [Node.shared, hstep, heq]
          exact hkeep.log
    | popQuorum =>
      refine hnone ?_
      show okAnswers n.machine.popQuorum.shared = _
      rcases popQuorum_cases n.machine with heq | ⟨response, rest, hqueue, heq⟩
      · rw [heq]
      · rw [heq]
        rcases handleQuorum_log response (n.machine.dropQuorum rest) hopen with
          hidle | ⟨_, _, _, _, _, _, hanswers⟩
        · exact hidle.answers
        · exact hanswers
    | finish => exact hnone (idle_finish clock n.machine).answers
  | respond response => exact hnone rfl
  | processTask => exact hnone (okAnswers_congr n.serves_processTask.unchanged.2.1)
  | flush => exact hnone (okAnswers_congr n.serves_flush.unchanged.2.1)
  | restart clock written accepts =>
    have hempty : newOks n.shared (n.step (.restart clock written accepts)).shared = [] :=
      List.drop_nil
    rw [hempty] at hok
    cases hok

/-- **An answered entry is held durably.** -/
theorem AckInv.holdsDurably {t : TracedNode} {records : List (List UInt8)}
    (h : AckInv t.carried t.node records) (e : NodeEvent) (hgood : AcksSoundly t e)
    (hdistinct : (t.carried.map Prod.fst ++ e.callback).Nodup)
    {callback : Callback} {entry : LogEntry}
    (hcarried : (callback, entry) ∈ t.carried ++ e.carried)
    (hok : callback ∈ newOks t.node.shared (t.node.step e).shared) :
    (t.node.step e).HoldsDurably entry := by
  obtain ⟨n, carried⟩ := t
  rcases newOks_step n h.isOpen e hgood hok with ⟨hown, hempty⟩ | ⟨id, hreported, hwait, hfiles, hlog⟩
  · -- the callback would have been used before
    rw [hempty, List.append_nil] at hcarried
    exact absurd hown (List.disjoint_of_nodup_append hdistinct (List.mem_map_of_mem hcarried))
  · obtain ⟨entry', ⟨⟨owned, hmem, hdata, hentry⟩, hrecord, -⟩, hflushed⟩ :=
      h.persisted id callback hreported hwait
    have hsame : entry = entry' := by
      have hmem' : (callback, entry) ∈ carried := by
        rcases List.mem_append.mp hcarried with hmem' | hmem'
        · exact hmem'
        · exact absurd (e.carried_sublist.subset (List.mem_map_of_mem hmem'))
            (List.disjoint_of_nodup_append hdistinct (List.mem_map.mpr ⟨_, hmem, rfl⟩))
      exact congrArg Prod.snd (List.inj_on_of_nodup_map (List.Nodup.of_append_left hdistinct)
        hmem' hmem rfl)
    subst hsame
    refine ⟨⟨owned, hdata, by rw [hlog, hentry]⟩, ?_⟩
    rw [hfiles]
    exact h.file.holds hrecord hflushed

/-! ## Runs -/

/-- What the requests of a run have brought. -/
theorem carried_run (events : List NodeEvent) : ∀ t : TracedNode,
    ((Runs.run TracedNode.step t events).carried.map Prod.fst).Sublist
      (t.carried.map Prod.fst ++ callbacksOf events) := by
  induction events with
  | nil =>
    intro t
    simp [callbacksOf]
  | cons e rest ih =>
    intro t
    refine (ih (t.step e)).trans ?_
    rw [TracedNode.step, List.map_append, List.append_assoc,
      show callbacksOf (e :: rest) = e.callback ++ callbacksOf rest from List.flatMap_cons]
    exact (List.Sublist.refl _).append (e.carried_sublist.append (List.Sublist.refl _))

/-- The invariant along a run. -/
theorem AckInv.run {t : TracedNode} (h : ∃ records, AckInv t.carried t.node records)
    {events : List NodeEvent} (hgood : Runs.AllSteps TracedNode.step AcksSoundly t events) :
    ∃ records, AckInv (Runs.run TracedNode.step t events).carried
      (Runs.run TracedNode.step t events).node records :=
  Runs.AllSteps.invariant (fun t => ∃ records, AckInv t.carried t.node records)
    (fun _ e ⟨_, hinv⟩ hok => hinv.step e hok) h hgood

/-- The node as it starts, before any request. -/
def TracedNode.start (clock : Clock) (logFile : List UInt8) (voteRows : List VoteRow)
    (identity quorumSize workers : ℕ) (accepts : ℕ → Bool) : TracedNode :=
  ⟨Node.start clock logFile voteRows identity quorumSize workers accepts, []⟩

/-- **Acknowledgements are sound** in every run, restarts included, in which no branch
answers `Ok` at once to a request with an entry, entries are stored at their index, no
truncation removes an entry whose answer is outstanding, and a restart finds no torn
entry.  Every request has its own callback. -/
theorem ack_sound (clock : Clock) (logFile : List UInt8) (voteRows : List VoteRow)
    (identity quorumSize workers : ℕ) (accepts : ℕ → Bool) (hfile : ReadToEnd logFile)
    (events : List NodeEvent) (e : NodeEvent) (hdistinct : (callbacksOf (events ++ [e])).Nodup)
    (hgood : Runs.AllSteps TracedNode.step AcksSoundly
      (.start clock logFile voteRows identity quorumSize workers accepts) (events ++ [e]))
    (callback : Callback) (entry : LogEntry) :
    let t := Runs.run TracedNode.step
      (.start clock logFile voteRows identity quorumSize workers accepts) events
    (callback, entry) ∈ (t.step e).carried →
      callback ∈ newOks t.node.shared (t.step e).node.shared →
        (t.step e).node.HoldsDurably entry := by
  intro t hcarried hok
  obtain ⟨hrun, hlast, -⟩ := (Runs.allSteps_append _ _ _).mp hgood
  obtain ⟨records, hinv⟩ := AckInv.run
    (AckInv.start [] clock hfile voteRows identity quorumSize workers accepts) hrun
  refine hinv.holdsDurably e hlast ?_ hcarried hok
  rw [callbacksOf, List.flatMap_append, List.flatMap_singleton] at hdistinct
  exact hdistinct.sublist
    ((carried_run events (.start clock logFile voteRows identity quorumSize workers accepts)).append
      (List.Sublist.refl _))

end Traced

/-! ## Runs on a concrete node -/

/-- The follower stores the entry, the persistence worker writes and flushes it, and then
it is answered. -/
theorem ack_sound_first_noop : letI := sampleCapnp
    ((freshNode.run [.accept ⟨1, 0⟩ appendFirstNoop, .processTask, .flush]).step
      (.timeStep ⟨2, 0⟩ .popPersistence)).HoldsDurably
        ⟨0, firstNoop.asBytes, 0, 1, 0, 0, 2⟩ :=
  letI := sampleCapnp
  ack_sound ⟨0, 0⟩ [] [] 1 2 2 (fun _ => true) (by decide)
    [.accept ⟨1, 0⟩ appendFirstNoop, .processTask, .flush] (.timeStep ⟨2, 0⟩ .popPersistence)
    (by decide) (by decide) (.pending 3 0 (.appendEntries 2 0 1)) _ (by decide) (by decide)

/-- **A candidate acknowledges an entry it does not store**: node 1 stands for election when
the request of node 3 arrives. -/
theorem candidate_acks_unstored : ¬ ∀ (_ : Capnp) (events : List NodeEvent) (e : NodeEvent)
    (callback : Callback) (entry : LogEntry), (callbacksOf (events ++ [e])).Nodup →
    (callback, entry) ∈ (events ++ [e]).flatMap NodeEvent.carried →
      callback ∈ newOks (freshNode.run events).shared (freshNode.run (events ++ [e])).shared →
        (freshNode.run (events ++ [e])).HoldsDurably entry := by
  intro h
  obtain ⟨⟨owned, -, hlog⟩, -⟩ := h sampleCapnp [.timeStep ⟨1000, 0⟩ .finish]
    (.accept ⟨1001, 0⟩ appendFirstNoop) (.pending 3 0 (.appendEntries 2 0 1))
    ⟨0, firstNoop.asBytes, 0, 1, 0, 0, 2⟩ (by decide) (by decide) (by decide)
  cases hlog

end Kraft
