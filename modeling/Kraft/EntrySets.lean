/-
# Sets of entries

Entries are made by leaders and otherwise only copied: from the log to the quorum workers, over
the wire, into the log of a follower, to the disk and back after a restart.  So a set that holds
the entries of a cluster, and those that its leaders append, holds all entries at all times.

* `Spreads E` : after a step of the state machine the log and the new tasks have entries of `E`.
* `NodeWithin E` : the entries of a node, in its log and on its disk, are among `E`.
* `NodeWithin.step` : an event keeps this if the state machine spreads `E`, and a restart reads
  its log file to the end.
-/
import Kraft.LogRepresentation

namespace Kraft

open SharedState StateMachine Storage

/-- The entries of the log are among `E`. -/
def Within (E : OwnedLogEntry → Prop) (log : List OwnedLogEntry) : Prop := ∀ entry ∈ log, E entry

theorem within_nil (E : OwnedLogEntry → Prop) : Within E [] := by rintro entry ⟨⟩

theorem Within.mono {E E' : OwnedLogEntry → Prop} {log : List OwnedLogEntry} (h : Within E log)
    (hle : ∀ entry, E entry → E' entry) : Within E' log :=
  fun entry hentry => hle entry (h entry hentry)

theorem Within.concat {E : OwnedLogEntry → Prop} {log : List OwnedLogEntry} {entry : OwnedLogEntry}
    (h : Within E log) (hentry : E entry) : Within E (log ++ [entry]) := by
  intro e he
  rcases List.mem_append.mp he with he | he
  · exact h e he
  · exact List.mem_singleton.mp he ▸ hentry

/-! ## A step of the state machine -/

/-- After the step the log and the new tasks have entries of `E`. -/
structure Spreads (E : OwnedLogEntry → Prop) (sm sm' : StateMachine) : Prop where
  within : Within E sm'.shared.replicationLog
  hands : Hands E sm.shared sm'.shared

namespace Spreads

variable {E : OwnedLogEntry → Prop} {sm sm' : StateMachine}

theorem mono {E' : OwnedLogEntry → Prop} (h : Spreads E sm sm')
    (hle : ∀ entry, E entry → E' entry) : Spreads E' sm sm' := by
  obtain ⟨new, hqueued, htasks⟩ := h.hands
  exact ⟨h.within.mono hle, new, hqueued, fun k task htask => (htasks k task htask).mono hle⟩

/-- The log stays: what is sent is in the log. -/
theorem stays {starts : Bool} (hwithin : Within E sm.shared.replicationLog)
    (hnext : 1 ≤ sm.shared.nextTerm) (hstays : Stays starts sm sm') : Spreads E sm sm' :=
  ⟨hstays.same.log ▸ hwithin, hstays.hands hnext hwithin⟩

/-- A follower stores the entry of a request. -/
theorem stores {request : LocalAppendEntries} {entry : LogEntry} {owned : OwnedLogEntry}
    (hwithin : Within E sm.shared.replicationLog) (hrequest : RequestOf E request)
    (hstores : Stores request entry owned sm sm') : Spreads E sm sm' := by
  obtain ⟨owned', hdata, -, -, -, -, -, howned⟩ := hrequest entry hstores.carried
  obtain rfl : owned = owned' := EntryData.message.inj (hstores.data.symm.trans hdata)
  exact ⟨hstores.log ▸ hwithin.concat howned, _, .of_eq hstores.queues, by simp⟩

/-- A leader appends an entry. -/
theorem appends {first : List LocalQuorumWorkerTaskType} {entry : OwnedLogEntry} {commitIndex : ℕ}
    (hwithin : Within E sm.shared.replicationLog) (hentry : E entry)
    (hlog : sm'.shared.replicationLog = sm.shared.replicationLog ++ [entry])
    (hqueued : Queued sm.shared sm'.shared fun _ =>
      first ++ [.appendEntries entry.messageId entry commitIndex])
    (hfirst : ∀ task ∈ first, TaskOf E task) : Spreads E sm sm' := by
  refine ⟨hlog ▸ hwithin.concat hentry, _, hqueued, fun k task htask => ?_⟩
  rcases List.mem_append.mp htask with htask | htask
  · exact hfirst task htask
  · obtain rfl := List.mem_singleton.mp htask
    exact ⟨rfl, hentry⟩

/-- A candidate wins. -/
theorem wins {term : ℕ} (hwithin : Within E sm.shared.replicationLog) (hwins : Wins term sm sm') :
    Spreads E sm sm' :=
  ⟨hwins.same.log ▸ hwithin, _, .of_eq hwins.queues, by simp⟩

/-- A follower truncates its log. -/
theorem cuts {prevTerm prevIndex : ℕ} (hwithin : Within E sm.shared.replicationLog)
    (hcuts : Cuts prevTerm prevIndex sm sm') : Spreads E sm sm' := by
  refine ⟨fun entry hentry => hwithin entry ?_, _, .of_eq hcuts.queues, by simp⟩
  rw [hcuts.log] at hentry
  exact List.mem_of_mem_take hentry

end Spreads

/-- The persistence worker does not touch the log. -/
theorem Stays.of_serves {sm sm' : StateMachine} (h : Node.Serves sm sm') : Stays false sm sm' := by
  obtain ⟨work, isOpen, responses, rfl⟩ := h
  exact .of_eq ⟨rfl, rfl, rfl⟩ rfl rfl rfl rfl

/-- The request that a node accepts. -/
theorem RequestOf.of_payload {E : OwnedLogEntry → Prop} {message : LocalRaftMessage}
    (h : (entryFlow E).request message.payload) (request : LocalAppendEntries)
    (hpayload : message.payload = .appendEntries request) : RequestOf E request := by
  rw [hpayload] at h
  exact h

/-! ## One event of a node -/

section Node

variable [Capnp]

/-- The entries of a node, in its log and on its disk, are among `E`. -/
structure NodeWithin (E : OwnedLogEntry → Prop) (n : Node) : Prop where
  log : Within E n.shared.replicationLog
  disk : ∃ disk, DiskKeeps (Within E) n disk

/-- In the event the state machine spreads `E`, and a restart reads its file to the end. -/
def Node.SpreadsIn (E : OwnedLogEntry → Prop) (n : Node) : NodeEvent → Prop
  | .accept clock message => Spreads E n.machine (n.machine.accept clock message)
  | .timeStep clock part => Spreads E n.machine (n.machine.runPart clock part)
  | .restart _ written _ => ReadToEnd (n.storage.logFile ++ n.storage.logBuffer.take written)
  | _ => True

namespace NodeWithin

variable {E E' : OwnedLogEntry → Prop} {n : Node}

theorem isOpen (h : NodeWithin E n) : n.shared.persistenceOpen = true :=
  let ⟨_, hdisk⟩ := h.disk
  hdisk.inv.isOpen

theorem mono (h : NodeWithin E n) (hle : ∀ entry, E entry → E' entry) : NodeWithin E' n := by
  obtain ⟨disk, hdisk⟩ := h.disk
  exact ⟨h.log.mono hle, disk, hdisk.mono fun log hlog => hlog.mono hle⟩

/-- A node that starts on a file of entries. -/
theorem start [LawfulCapnp] {entries : List OwnedLogEntry} (hentries : Within E entries)
    (clock : Clock) (voteRows : List VoteRow) (identity quorumSize workers : ℕ)
    (accepts : ℕ → Bool) :
    NodeWithin E (Node.start clock (encodeAll entries) voteRows identity quorumSize workers
      accepts) := by
  refine ⟨?_, entries, .start hentries ..⟩
  show Within E (recoverPersistedData (encodeAll entries) voteRows).replicationLog
  have happend := (recoverPersistedData_append entries (Or.inl rfl) voteRows).1
  rw [List.append_nil] at happend
  rw [happend]
  exact hentries

theorem exchanges (h : NodeWithin E n) {n' : Node} (hexchanges : Exchanges n n') :
    NodeWithin E n' := by
  obtain ⟨disk, hdisk⟩ := h.disk
  have hdisk' := hdisk.exchanges hexchanges
  obtain ⟨responses, answers, tasks, rfl, -⟩ := hexchanges
  exact ⟨h.log, disk, hdisk'⟩

/-- The state machine has made a step. -/
theorem machine (h : NodeWithin E n) {sm : StateMachine} (hspreads : Spreads E n.machine sm)
    (hthrough : WritesThrough n.shared sm.shared) : NodeWithin E { n with machine := sm } := by
  obtain ⟨disk, hdisk⟩ := h.disk
  exact ⟨hspreads.within, disk, hdisk.machine hthrough h.log hspreads.within⟩

/-- **One event of the node.** -/
theorem step [LawfulCapnp] (h : NodeWithin E n) (hnext : 1 ≤ n.shared.nextTerm) {e : NodeEvent}
    (hspreads : n.SpreadsIn E e) : NodeWithin E (n.step e) ∧
      (e.isRestart = false → Hands E n.shared (n.step e).shared) := by
  obtain ⟨disk, hdisk⟩ := h.disk
  have hopen := hdisk.inv.isOpen
  cases e with
  | accept clock message =>
    exact ⟨h.machine hspreads (writesThrough_accept clock message n.machine hopen),
      fun _ => hspreads.hands⟩
  | timeStep clock part =>
    exact ⟨h.machine hspreads (writesThrough_runPart clock part n.machine hopen),
      fun _ => hspreads.hands⟩
  | respond response =>
    exact ⟨h.exchanges ⟨_, _, n.shared.quorumWorkerTasks, rfl, .refl _⟩,
      fun _ => ⟨_, .of_eq rfl, by simp⟩⟩
  | processTask =>
    have hstays := Spreads.stays h.log hnext (.of_serves (Node.serves_processTask n))
    exact ⟨⟨hstays.within, hdisk.processTask⟩, fun _ => hstays.hands⟩
  | flush =>
    have hstays := Spreads.stays h.log hnext (.of_serves (Node.serves_flush n))
    exact ⟨⟨hstays.within, disk, hdisk.flush⟩, fun _ => hstays.hands⟩
  | restart clock written accepts =>
    obtain ⟨k, hfile⟩ := hdisk.recovered hspreads
    refine ⟨?_, fun hrestart => by cases hrestart⟩
    show NodeWithin E (Node.start clock (n.storage.logFile ++ n.storage.logBuffer.take written)
      n.storage.voteRows n.shared.identity n.shared.quorumSize n.shared.quorumWorkerTasks.length
      accepts)
    rw [hfile]
    exact .start (fun entry hentry => hdisk.holds entry (List.mem_of_mem_take hentry)) ..

end NodeWithin

end Node

end Kraft
