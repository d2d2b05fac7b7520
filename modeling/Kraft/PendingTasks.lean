/-
# Answers to peers

`process_pending_task_responses` of the quorum worker.  A first pass over the pending tasks polls
the callback of each, answers the peer if the response is there and notes the positions of the tasks
that are done; a second pass removes these positions from the list, the last one first.

`pending_answered_once` : whatever the callbacks give, each task whose response is there and is of
the task's kind is answered by one message, in the order of the list, the others by none; no removal
is out of range, and the tasks that are left are those that still wait.
-/
import Kraft.QuorumWorker
import Mathlib.Data.List.Induction

namespace Kraft

/-! ## Removing positions -/

/-- `Vec::remove`, which panics if there is no such position. -/
def removeAt {α : Type*} (items : List α) (i : ℕ) : Option (List α) :=
  if i < items.length then some (items.eraseIdx i) else none

/-- The positions of a list are removed, the last one first. -/
def removeReversed {α : Type*} (items : List α) (positions : List ℕ) : Option (List α) :=
  positions.reverse.foldlM removeAt items

section Removal

variable {α : Type*} {items front : List α}

/-- What follows the list is not touched. -/
theorem foldlM_removeAt_append {positions : List ℕ} (rest : List α)
    (h : positions.foldlM removeAt items = some front) :
    positions.foldlM removeAt (items ++ rest) = some (front ++ rest) := by
  induction positions generalizing items with
  | nil =>
    obtain rfl : items = front := Option.some.inj h
    rfl
  | cons i positions ih =>
    rw [List.foldlM_cons] at h
    obtain ⟨items', hremove, hrest⟩ := Option.bind_eq_some_iff.mp h
    unfold removeAt at hremove
    split_ifs at hremove with hi
    obtain rfl := Option.some.inj hremove
    have hi' : i < (items ++ rest).length := by
      rw [List.length_append]
      omega
    rw [List.foldlM_cons, removeAt, if_pos hi', List.eraseIdx_append_of_lt_length hi]
    exact ih hrest

/-- The positions that meet a condition are removed, and the others are left in order. -/
theorem removeReversed_filter (p : ℕ → Bool) (items : List α) :
    removeReversed items ((List.range items.length).filter p) =
      some ((items.zipIdx.filter fun x => !p x.2).map (·.1)) := by
  induction items using List.reverseRecOn with
  | nil => rfl
  | append_singleton items last ih =>
    unfold removeReversed at ih ⊢
    rw [List.length_append, List.length_singleton, List.range_succ, List.filter_append,
      List.reverse_append, List.zipIdx_append, List.filter_append, List.map_append]
    by_cases hlast : p items.length = true
    · -- the last position goes first
      have hremove : removeAt (items ++ [last]) items.length = some items := by
        simp [removeAt, List.eraseIdx_append_of_length_le]
      simpa [hlast, hremove] using ih
    · simpa [hlast] using foldlM_removeAt_append [last] ih

end Removal

/-! ## The two passes -/

/-- What `try_recv` gives on the callback of a task. -/
inductive TryRecv
  | ready (payload : LocalRaftResponsePayload)
  | empty
  | closed
  deriving DecidableEq

/-- `send_message`: without a connection the message is dropped. -/
def sendMessage (outbound : Option (List QuorumMessage)) (msg : QuorumMessage) :
    Option (List QuorumMessage) :=
  outbound.map (· ++ [msg])

/-- The variables of the first pass. -/
structure PendingPass where
  outbound : Option (List QuorumMessage)
  responses : List LocalQuorumTaskResponseType
  toRemove : List ℕ

namespace QuorumWorker

/-- One task of the first pass. -/
def pollTask (w : QuorumWorker) (received : ℕ → TryRecv) (pass : PendingPass)
    (pt : (ℕ × PendingQuorumTask) × ℕ) : PendingPass :=
  match received pt.2 with
  | .ready payload =>
    let output := w.handlePendingTaskResponse pt.1.2 payload
    ⟨output.messages.foldl sendMessage pass.outbound, pass.responses ++ output.responses,
      pass.toRemove ++ [pt.2]⟩
  | .empty => pass
  | .closed => { pass with toRemove := pass.toRemove ++ [pt.2] }

/-- The first pass; `received i` is what the callback of task `i` gives. -/
def pollTasks (w : QuorumWorker) (received : ℕ → TryRecv)
    (outbound : Option (List QuorumMessage)) (tasks : List (ℕ × PendingQuorumTask)) : PendingPass :=
  tasks.zipIdx.foldl (w.pollTask received) ⟨outbound, [], []⟩

/-- `process_pending_task_responses`: the worker, the channel to the peer, and what is pushed on
`response_queue`; `none` is a panic. -/
def processPendingTaskResponses (w : QuorumWorker) (received : ℕ → TryRecv)
    (outbound : Option (List QuorumMessage)) :
    Option (QuorumWorker × Option (List QuorumMessage) × List LocalQuorumTaskResponseType) :=
  let pass := w.pollTasks received outbound w.pendingTasks
  (removeReversed w.pendingTasks pass.toRemove).map fun tasks =>
    ({ w with pendingTasks := tasks }, pass.outbound, pass.responses)

/-! ## The answer to a task -/

end QuorumWorker

/-- The message to the peer for the response to a task of its kind, with the request id or the batch
id of the task. -/
inductive Answer : PendingQuorumTask → LocalRaftResponsePayload → QuorumMessage → Prop
  | vote (requestId term : ℕ) (granted : Bool) :
      Answer (.vote requestId term) (.requestVote granted) (.voteResponse granted requestId term)
  | appendEntries (requestId logIndex term : ℕ) (response : LocalAppendEntriesCallbackResponse)
      (lastLogTerm lastLogIndex : ℕ) (ok : Bool) (hok : ok = true ↔ response = .ok) :
      Answer (.appendEntries requestId logIndex term) (.appendEntries response)
        (.appendEntriesAcknowledge lastLogTerm lastLogIndex requestId ok)
  | putBatch (batchId : String) (response : LocalRaftWriteBatchResponse) :
      Answer (.putBatch batchId) (.writeBatch response)
        (.putBatchResponse ⟨response.message.responses, batchId⟩)

/-- The response is of the kind of the task. -/
def PendingQuorumTask.Matches : PendingQuorumTask → LocalRaftResponsePayload → Bool
  | .vote .., .requestVote _ => true
  | .appendEntries .., .appendEntries _ => true
  | .putBatch _, .writeBatch _ => true
  | _, _ => false

/-- A truncation is also noted for the state machine. -/
def LocalRaftResponsePayload.truncation (memberId : ℕ) :
    LocalRaftResponsePayload → Option LocalQuorumTaskResponseType
  | .appendEntries (.truncateLog prevTerm prevIndex) => some (.truncateLog memberId prevTerm prevIndex)
  | _ => Option.none

namespace QuorumWorker

/-- One message for a response of the task's kind, nothing for another. -/
theorem handlePendingTaskResponse_spec (w : QuorumWorker) (task : PendingQuorumTask)
    (payload : LocalRaftResponsePayload) :
    if task.Matches payload then
      ∃ msg, w.handlePendingTaskResponse task payload =
        { messages := [msg], responses := (payload.truncation w.memberId).toList } ∧
          Answer task payload msg
    else w.handlePendingTaskResponse task payload = {} := by
  cases payload with
  | requestVote granted =>
    cases task with
    | vote requestId term => exact ⟨_, rfl, .vote requestId term granted⟩
    | _ => rfl
  | appendEntries response =>
    cases task with
    | appendEntries requestId logIndex term =>
      cases response <;> exact ⟨_, rfl, .appendEntries _ _ _ _ _ _ _ (by simp)⟩
    | _ => rfl
  | writeBatch response =>
    cases task with
    | putBatch batchId => exact ⟨_, rfl, .putBatch batchId response⟩
    | _ => rfl
  | _ => cases task <;> rfl

/-- The tasks whose response is there and is of their kind, in the order of the list. -/
def answered (received : ℕ → TryRecv) (tasks : List (ℕ × PendingQuorumTask)) :
    List (PendingQuorumTask × LocalRaftResponsePayload) :=
  tasks.zipIdx.filterMap fun pt =>
    match received pt.2 with
    | .ready payload => if pt.1.2.Matches payload then some (pt.1.2, payload) else none
    | _ => none

/-- The tasks whose response is not there yet. -/
def waiting (received : ℕ → TryRecv) (tasks : List (ℕ × PendingQuorumTask)) :
    List (ℕ × PendingQuorumTask) :=
  (tasks.zipIdx.filter fun pt => received pt.2 = .empty).map (·.1)

theorem answered_concat (received : ℕ → TryRecv) (tasks : List (ℕ × PendingQuorumTask))
    (last : ℕ × PendingQuorumTask) :
    answered received (tasks ++ [last]) = answered received tasks ++
      match received tasks.length with
      | .ready payload => if last.2.Matches payload then [(last.2, payload)] else []
      | _ => [] := by
  unfold answered
  rw [List.zipIdx_append, List.filterMap_append]
  rcases hpoll : received tasks.length with payload | _ | _
  · by_cases hkind : last.2.Matches payload = true <;> simp [hpoll, hkind]
  · simp [hpoll]
  · simp [hpoll]

/-- What the first pass sends and collects. -/
theorem pollTasks_spec (w : QuorumWorker) (received : ℕ → TryRecv)
    (outbound : Option (List QuorumMessage)) (tasks : List (ℕ × PendingQuorumTask)) :
    ∃ messages, w.pollTasks received outbound tasks = ⟨outbound.map (· ++ messages),
        (answered received tasks).filterMap (·.2.truncation w.memberId),
        (List.range tasks.length).filter fun i => received i ≠ .empty⟩ ∧
      List.Forall₂ (fun r msg => Answer r.1 r.2 msg) (answered received tasks) messages := by
  induction tasks using List.reverseRecOn with
  | nil => exact ⟨[], by simp [pollTasks, answered], .nil⟩
  | append_singleton tasks last ih =>
    -- the loop runs forward and only appends, so the last task is the last to be polled
    obtain ⟨messages, hpass, hanswers⟩ := ih
    have hlast : w.pollTasks received outbound (tasks ++ [last]) =
        w.pollTask received (w.pollTasks received outbound tasks) (last, tasks.length) := by
      simp [pollTasks, List.zipIdx_append]
    rw [hlast, hpass, answered_concat, List.length_append, List.length_singleton, List.range_succ,
      List.filter_append]
    unfold pollTask
    rcases hpoll : received tasks.length with payload | _ | _ <;> dsimp only
    · have hspec := w.handlePendingTaskResponse_spec last.2 payload
      by_cases hkind : last.2.Matches payload = true
      · rw [if_pos hkind] at hspec ⊢
        obtain ⟨msg, houtput, hanswer⟩ := hspec
        refine ⟨messages ++ [msg], ?_, List.rel_append hanswers (.cons hanswer .nil)⟩
        rw [houtput]
        have htruncation : ([(last.2, payload)] : List _).filterMap
            (fun r : PendingQuorumTask × LocalRaftResponsePayload => r.2.truncation w.memberId) =
              (payload.truncation w.memberId).toList := by
          cases htr : payload.truncation w.memberId <;> simp [htr]
        rw [List.filterMap_append, htruncation]
        cases outbound <;> simp [sendMessage, hpoll]
      · -- a response of another kind is dropped, and the task with it
        rw [if_neg hkind] at hspec ⊢
        exact ⟨messages, by simp [hspec, hpoll], by rwa [List.append_nil]⟩
    · exact ⟨messages, by simp [hpoll], by rwa [List.append_nil]⟩
    · exact ⟨messages, by simp [hpoll], by rwa [List.append_nil]⟩

/-- **Pending tasks are answered once.**  For every list of pending tasks and whatever their
callbacks give: no removal is out of range; the peer is sent, over its connection if there is one, one
message for each task whose response is there and is of its kind, in the order of the list; and the
tasks that are left are those without a response, in the order of the list. -/
theorem pending_answered_once (w : QuorumWorker) (received : ℕ → TryRecv)
    (outbound : Option (List QuorumMessage)) :
    ∃ messages, w.processPendingTaskResponses received outbound =
        some ({ w with pendingTasks := waiting received w.pendingTasks },
          outbound.map (· ++ messages),
          (answered received w.pendingTasks).filterMap (·.2.truncation w.memberId)) ∧
      List.Forall₂ (fun r msg => Answer r.1 r.2 msg) (answered received w.pendingTasks)
        messages := by
  obtain ⟨messages, hpass, hanswers⟩ := w.pollTasks_spec received outbound w.pendingTasks
  refine ⟨messages, ?_, hanswers⟩
  unfold processPendingTaskResponses
  rw [hpass]
  dsimp only
  rw [removeReversed_filter, Option.map_some, waiting]
  simp

end QuorumWorker

end Kraft
