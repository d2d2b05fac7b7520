/-
# Proper logs, and their entries on the way

* `ProperLog` : a well-formed log whose entries have the terms of elections; its end tells its
  length.
* `ProperEntry` : an entry at the end of such a log, whichever node holds it.  `ProperLog.store`
  says that such an entry is stored where it belongs if it continues the cached end of log.
* `entryFlow` : that the entries in tasks and messages have a property is a flow, and `properFlow`
  says that they are proper.
-/
import Kraft.Flow
import Kraft.LogShape
import Kraft.ReplicationSteps

namespace Kraft

/-! ## Proper logs and entries -/

/-- A well-formed log whose entries have the terms of elections. -/
structure ProperLog (log : List OwnedLogEntry) : Prop extends WellFormed log where
  positive : ∀ entry ∈ log, 1 ≤ entry.term

/-- An entry at the end of such a log. -/
def ProperEntry (entry : OwnedLogEntry) : Prop := ∃ log, ProperLog (log ++ [entry])

namespace ProperLog

variable {log log' : List OwnedLogEntry} {entry : OwnedLogEntry}

theorem nil : ProperLog [] := ⟨.nil, by simp⟩

theorem take (h : ProperLog log) (k : ℕ) : ProperLog (log.take k) :=
  ⟨h.toWellFormed.take k, fun entry hentry => h.positive entry (List.mem_of_mem_take hentry)⟩

theorem concat (h : ProperLog log) (hindex : entry.index = log.length)
    (hprev : (entry.prevLogIndex, entry.prevLogTerm) = logEnd log)
    (hterm : (logEnd log).2 ≤ entry.term) (hpos : 1 ≤ entry.term) : ProperLog (log ++ [entry]) := by
  refine ⟨h.toWellFormed.concat hindex hprev hterm, fun e he => ?_⟩
  rcases List.mem_append.mp he with he | he
  · exact h.positive e he
  · obtain rfl := List.mem_singleton.mp he
    exact hpos

/-- The end of a log tells its length. -/
theorem length_eq (h : ProperLog log) (h' : ProperLog log') (hend : logEnd log = logEnd log') :
    log.length = log'.length := by
  rcases hlast : log.getLast? with _ | last <;> rcases hlast' : log'.getLast? with _ | last'
  · rw [List.getLast?_eq_none_iff.mp hlast, List.getLast?_eq_none_iff.mp hlast']
  · rw [List.getLast?_eq_none_iff.mp hlast, logEnd_of_getLast? hlast'] at hend
    have := h'.positive last' (List.mem_of_getLast? hlast')
    have hzero : 0 = last'.term := congrArg Prod.snd hend
    omega
  · rw [List.getLast?_eq_none_iff.mp hlast', logEnd_of_getLast? hlast] at hend
    have := h.positive last (List.mem_of_getLast? hlast)
    have hzero : last.term = 0 := congrArg Prod.snd hend
    omega
  · rw [logEnd_of_getLast? hlast, logEnd_of_getLast? hlast'] at hend
    have hlength : log.length - 1 = log'.length - 1 := congrArg Prod.fst hend
    have hpos := List.length_pos_of_mem (List.mem_of_getLast? hlast)
    have hpos' := List.length_pos_of_mem (List.mem_of_getLast? hlast')
    omega

theorem properEntry (h : ProperLog log) (hentry : entry ∈ log) : ProperEntry entry := by
  obtain ⟨i, hi⟩ := List.getElem?_of_mem hentry
  refine ⟨log.take i, ?_⟩
  have htake := h.take (i + 1)
  rwa [List.take_add_one, hi, Option.toList_some] at htake

/-- **An entry is stored where it continues the cached end.** -/
theorem store (h : ProperLog log) (hentry : ProperEntry entry)
    (hprev : (entry.prevLogIndex, entry.prevLogTerm) = logEnd log) : ProperLog (log ++ [entry]) := by
  obtain ⟨other, hother⟩ := hentry
  have hbefore : ProperLog other := by
    have htake := hother.take other.length
    rwa [List.take_left] at htake
  have hat : (other ++ [entry])[other.length]? = some entry := List.getElem?_concat_length
  have hend : logEnd log = logEnd other := by
    rw [← hprev, hother.toWellFormed.prev hat, List.take_left]
  refine h.concat ?_ hprev ?_ (hother.positive entry (by simp))
  · rw [hother.index other.length entry hat, h.length_eq hbefore hend]
  · rw [hend]
    rcases hlast : other.getLast? with _ | last
    · rw [List.getLast?_eq_none_iff.mp hlast]
      exact Nat.zero_le _
    · rw [logEnd_of_getLast? hlast]
      have hlastAt : (other ++ [entry])[other.length - 1]? = some last := by
        have hpos := List.length_pos_of_mem (List.mem_of_getLast? hlast)
        rw [List.getElem?_append_left (by omega), ← List.getLast?_eq_getElem?, hlast]
      exact hother.toWellFormed.term_le (by omega) hlastAt hat

end ProperLog

/-! ## Entries on their way -/

section Entries

variable (P : OwnedLogEntry → Prop)

/-- The entry of a request has the property, and the request says of it what it says itself. -/
def RequestOf (request : LocalAppendEntries) : Prop :=
  ∀ entry ∈ request.entry, ∃ owned, entry.data = .message owned ∧ entry.index = owned.index ∧
    entry.term = owned.term ∧ request.prevIndex = owned.prevLogIndex ∧
    request.prevTerm = owned.prevLogTerm ∧ request.requestId = owned.messageId ∧ P owned

/-- Tasks that send such entries, and ask for votes in a real term. -/
def TaskOf : LocalQuorumWorkerTaskType → Prop
  | .appendEntries id entry _ => id = entry.messageId ∧ P entry
  | .backfillLog data => ∀ entry ∈ data, P entry
  | .requestVote _ term _ _ => 1 ≤ term
  | _ => True

/-- Messages with such entries and votes in a real term. -/
def MessageOf : QuorumMessage → Prop
  | .appendEntriesRequest request => RequestOf P request
  | .voteRequest term _ _ _ _ => 1 ≤ term
  | .voteResponse _ _ term => 1 ≤ term
  | _ => True

variable {P}

theorem messageOf_appendEntriesMessage (w : QuorumWorker) (commitIndex : ℕ)
    {entry : OwnedLogEntry} (hentry : P entry) :
    MessageOf P (w.appendEntriesMessage entry.messageId commitIndex entry) := by
  intro e he
  obtain rfl := Option.some.inj he
  exact ⟨entry, rfl, rfl, rfl, rfl, rfl, rfl, hentry⟩

theorem messageOf_processTask (utf8Lossy : List UInt8 → List UInt8) (now : ℕ)
    {task : LocalQuorumWorkerTaskType} (htask : TaskOf P task) (w : QuorumWorker) :
    ∀ m ∈ (w.processTask utf8Lossy now task).2.messages, MessageOf P m := by
  intro m hm
  cases (w.processTask_sends utf8Lossy now task).2 m hm with
  | entry id commitIndex entry =>
    obtain ⟨rfl, hentry⟩ := htask
    exact messageOf_appendEntriesMessage w commitIndex hentry
  | backfill hentry => exact messageOf_appendEntriesMessage w _ (htask _ hentry)
  | vote => exact htask
  | _ => trivial

/-- A larger class of entries. -/
theorem TaskOf.mono {Q : OwnedLogEntry → Prop} (hle : ∀ entry, P entry → Q entry)
    {task : LocalQuorumWorkerTaskType} (h : TaskOf P task) : TaskOf Q task := by
  cases task with
  | appendEntries id entry commitIndex => exact ⟨h.1, hle entry h.2⟩
  | backfillLog data => exact fun entry hentry => hle entry (h entry hentry)
  | _ => exact h

theorem RequestOf.mono {Q : OwnedLogEntry → Prop} (hle : ∀ entry, P entry → Q entry)
    {request : LocalAppendEntries} (h : RequestOf P request) : RequestOf Q request := by
  intro entry hentry
  obtain ⟨owned, hdata, hindex, hterm, hprevIndex, hprevTerm, hid, howned⟩ := h entry hentry
  exact ⟨owned, hdata, hindex, hterm, hprevIndex, hprevTerm, hid, hle owned howned⟩

theorem MessageOf.mono {Q : OwnedLogEntry → Prop} (hle : ∀ entry, P entry → Q entry)
    {message : QuorumMessage} (h : MessageOf P message) : MessageOf Q message := by
  cases message with
  | appendEntriesRequest request => exact RequestOf.mono hle h
  | _ => exact h

variable (P)

/-- Entries with the property travel. -/
def entryFlow : Flow where
  channel _ tasks := ∀ task ∈ tasks, TaskOf P task
  message := MessageOf P
  fresh _ _ := by simp
  view _ h := h
  forward batchId batch callback h task htask := by
    rcases List.mem_append.mp htask with htask | htask
    · exact h task htask
    · obtain rfl := List.mem_singleton.mp htask
      trivial
  sends utf8Lossy now h :=
    ⟨fun task htask => h task (.tail _ htask),
      messageOf_processTask utf8Lossy now (h _ (.head _)) _⟩
  heartbeat _ := by rintro entry ⟨⟩
  vote _ h := h
  reply {m} h := by cases m <;> trivial

end Entries

/-- The entry of a request is proper. -/
abbrev ProperRequest : LocalAppendEntries → Prop := RequestOf ProperEntry

/-- Tasks that send proper entries. -/
abbrev ProperTask : LocalQuorumWorkerTaskType → Prop := TaskOf ProperEntry

/-- Messages with proper entries. -/
abbrev ProperMessage : QuorumMessage → Prop := MessageOf ProperEntry

/-- Proper entries travel. -/
abbrev properFlow : Flow := entryFlow ProperEntry

/-- The queue of a worker after a step; a worker that is not there has none. -/
theorem Queued.queue {n n' : Node} {new : ℕ → List LocalQuorumWorkerTaskType}
    (h : Queued n.shared n'.shared new) (k : ℕ) :
    n'.queue k = n.queue k ++ new k ∨ n.queue k = [] ∧ n'.queue k = [] := by
  unfold Node.queue
  rw [h k]
  rcases n.shared.quorumWorkerTasks[k]? with _ | tasks
  · exact Or.inr ⟨rfl, rfl⟩
  · exact Or.inl rfl

/-- Its tasks have a property that the old and the new ones have. -/
theorem Queued.forall_queue {n n' : Node} {new : ℕ → List LocalQuorumWorkerTaskType}
    (h : Queued n.shared n'.shared new) {k : ℕ} {P : LocalQuorumWorkerTaskType → Prop}
    (hqueue : ∀ task ∈ n.queue k, P task) (hnew : ∀ task ∈ new k, P task) :
    ∀ task ∈ n'.queue k, P task := by
  rcases h.queue k with heq | ⟨-, hempty⟩
  · rw [heq]
    exact List.forall_mem_append.mpr ⟨hqueue, hnew⟩
  · simp [hempty]

/-- The new tasks of a step send entries with the property. -/
def Hands (P : OwnedLogEntry → Prop) (s s' : SharedState) : Prop :=
  ∃ new, Queued s s' new ∧ ∀ k, ∀ task ∈ new k, TaskOf P task

/-- They join such tasks in the queues. -/
theorem Hands.queue {P : OwnedLogEntry → Prop} {n n' : Node} (h : Hands P n.shared n'.shared)
    {k : ℕ} (hqueue : ∀ task ∈ n.queue k, TaskOf P task) : ∀ task ∈ n'.queue k, TaskOf P task := by
  obtain ⟨new, hqueued, hnew⟩ := h
  exact hqueued.forall_queue hqueue (hnew k)

/-- A node that stays sends entries of its log only. -/
theorem Stays.hands {P : OwnedLogEntry → Prop} {starts : Bool} {sm sm' : StateMachine}
    (h : Stays starts sm sm') (hnext : 1 ≤ sm.shared.nextTerm)
    (hlog : ∀ entry ∈ sm.shared.replicationLog, P entry) : Hands P sm.shared sm'.shared := by
  obtain ⟨new, hqueued, htasks⟩ := h.queues
  refine ⟨new, hqueued, fun k task htask => ?_⟩
  have hroutine := htasks k task htask
  cases task with
  | appendEntries id entry commitIndex => exact hroutine.elim
  | requestVote id term lastTerm lastIndex =>
    rw [TaskOf, hroutine.2.1]
    exact hnext
  | backfillLog data => exact fun entry hentry => hlog entry (hroutine.2 entry hentry)
  | _ => trivial

/-- The new tasks of a step are proper. -/
abbrev HandsProper : SharedState → SharedState → Prop := Hands ProperEntry

end Kraft
