/-
# Backfill of a follower that holds a front of the log

A follower whose log is a front of the leader's log asks for what follows, naming the end of its own
log.  The leader puts one task with the rest of its log on the queue of the follower's worker, the
worker sends the entries one by one, and the follower stores them.

`backfill_completes_iff` says that this ends with the leader's log, with no entry refused on the way,
if the follower has its persistence worker.  A follower whose persistence worker is gone stores
nothing and asks again (`backfill_without_disk`).
-/
import Kraft.RepairExchange

namespace Kraft

namespace RepairParties

/-- The follower after the entries from position `k` on, each with its own answer channel. -/
def backfilled (c : RepairParties) (k now : ℕ) (callback : QuorumMessage → Callback) : SharedState :=
  (c.worker.sendBackfillEntries now (c.leader.replicationLog.drop k)).2.messages.foldl
    (fun s message => deliverToFollower (callback message) s message) c.follower

/-- The follower, which holds the first `k` entries, gets the others. -/
structure Completes (c : RepairParties) (k now : ℕ) (callback : QuorumMessage → Callback) :
    Prop where
  /-- the leader answers the end of the follower's log with the rest of its own, and nothing else -/
  task : (Leader.handleBackfillRequest c.worker.memberId c.follower.lastLogTerm
      c.follower.lastLogIndex c.leader).quorumWorkerTasks =
    c.leader.quorumWorkerTasks.modify c.queue (· ++ [.backfillLog (c.leader.replicationLog.drop k)])
  /-- which starts within the log -/
  slice : (if c.follower.lastLogTerm = 0 then 0 else c.follower.lastLogIndex + 1) = k ∧
    k ≤ c.leader.replicationLog.length
  /-- the follower then has all of it -/
  log : (c.backfilled k now callback).replicationLog = c.leader.replicationLog
  /-- and has refused nothing -/
  answers : (c.backfilled k now callback).callbackResponses = c.follower.callbackResponses

end RepairParties

/-! ## The leader -/

/-- The position from which the leader sends its log to a follower that holds the first `k`
entries of it. -/
theorem backfill_start {log : List OwnedLogEntry} (hne : log ≠ [])
    (hterms : ∀ entry ∈ log, 1 ≤ entry.term) {k i t : ℕ} (hk : k ≤ log.length)
    (hend : (i, t) = logEnd (log.take k)) :
    (∃ entry, log[i]? = some entry ∧ ¬(entry.term ≠ t ∧ t ≠ 0)) ∧
      (if t = 0 then 0 else i + 1) = k := by
  cases k with
  | zero =>
    -- an empty log has end (0, 0)
    obtain ⟨rfl, rfl⟩ := Prod.mk.inj hend
    have hpos := List.length_pos_iff.mpr hne
    exact ⟨⟨_, List.getElem?_eq_getElem hpos, fun h => h.2 rfl⟩, rfl⟩
  | succ j =>
    have hentry := List.getElem?_eq_getElem (show j < log.length by omega)
    rw [logEnd_take hentry] at hend
    obtain ⟨rfl, rfl⟩ := Prod.mk.inj hend
    have hterm := hterms _ (List.getElem_mem (show i < log.length by omega))
    exact ⟨⟨_, hentry, fun h => h.1 rfl⟩, if_neg (by omega)⟩

/-- The leader's answer to such a follower. -/
theorem quorumWorkerTasks_backfill {s : SharedState} (hne : s.replicationLog ≠ [])
    (hterms : ∀ entry ∈ s.replicationLog, 1 ≤ entry.term) {k i t : ℕ}
    (hk : k ≤ s.replicationLog.length) (hend : (i, t) = logEnd (s.replicationLog.take k))
    {member : ℕ} (hrange : Leader.getQuorumWorkerIndex member s.identity < s.quorumWorkerTasks.length) :
    (Leader.handleBackfillRequest member t i s).quorumWorkerTasks =
      s.quorumWorkerTasks.modify (Leader.getQuorumWorkerIndex member s.identity)
        (· ++ [.backfillLog (s.replicationLog.drop k)]) := by
  obtain ⟨⟨entry, hentry, hmatch⟩, hstart⟩ := backfill_start hne hterms hk hend
  unfold Leader.handleBackfillRequest
  rw [hentry]
  dsimp only
  rw [if_neg hmatch]
  unfold Leader.sendBackfillData
  dsimp only
  rw [if_pos hrange, hstart]
  rfl

/-! ## The follower -/

namespace Follower

variable {w : QuorumWorker} {s : SharedState}

/-- **An entry of the backfill is stored**, and not answered yet. -/
theorem backfill_stores {entry : OwnedLogEntry} (hterm : s.currentTerm = w.term)
    (hleader : s.leaderId = w.selfId) (hopen : s.persistenceOpen = true) (hid : entry.messageId ≠ 0)
    (hprev : (entry.prevLogIndex, entry.prevLogTerm) = (s.lastLogIndex, s.lastLogTerm))
    (callback : Callback) {s' : SharedState}
    (hs' : deliverToFollower callback s
      (w.appendEntriesMessage entry.messageId w.commitIndex entry) = s') :
    (s'.currentTerm = w.term ∧ s'.leaderId = w.selfId ∧ s'.persistenceOpen = true) ∧
      s'.repairLog = ⟨s.replicationLog ++ [entry], entry.index, entry.term⟩ ∧
      s'.callbackResponses = s.callbackResponses := by
  obtain ⟨hlog, -, hleader', hopen', hanswers, hterm'⟩ := @appendEntries_entry
    ⟨w.term, w.selfId, entry.prevLogIndex, entry.prevLogTerm, entry.messageId,
      some ⟨entry.index, entry.asBytes, entry.index, entry.term, entry.prevLogTerm,
        entry.prevLogIndex, entry.messageId⟩, w.commitIndex⟩ s _ entry (Or.inr hleader) hopen
    (Prod.mk.inj hprev) rfl entry.fromBytes_asBytes (Or.inr hid) callback
  subst hs'
  exact ⟨⟨hterm'.trans (by simp [hterm]), hleader', hopen'⟩, hlog, hanswers⟩

/-- The rest of a well-formed log, sent to a follower that holds the entries before it. -/
theorem backfill_rest {log : List OwnedLogEntry} (hlog : WellFormed log)
    (hids : ∀ entry ∈ log, entry.messageId ≠ 0) (callback : QuorumMessage → Callback) (n : ℕ) :
    ∀ {k : ℕ} {s : SharedState}, log.length - k = n → s.currentTerm = w.term →
      s.leaderId = w.selfId → s.persistenceOpen = true → s.replicationLog = log.take k →
      (s.lastLogIndex, s.lastLogTerm) = logEnd (log.take k) → ∀ {s' : SharedState},
        ((log.drop k).map fun entry =>
          w.appendEntriesMessage entry.messageId w.commitIndex entry).foldl
            (fun s message => deliverToFollower (callback message) s message) s = s' →
        s'.replicationLog = log ∧ s'.callbackResponses = s.callbackResponses := by
  induction n with
  | zero =>
    intro k s hn _ _ _ hfront _ s' hs'
    have hk : log.length ≤ k := by omega
    rw [List.drop_of_length_le hk] at hs'
    rw [List.take_of_length_le hk] at hfront
    exact hs' ▸ ⟨hfront, rfl⟩
  | succ n ih =>
    intro k s hn hterm hleader hopen hfront hend s' hs'
    have hk : k < log.length := by omega
    have hentry := List.getElem?_eq_getElem hk
    rw [List.drop_eq_getElem_cons hk, List.map_cons, List.foldl_cons] at hs'
    generalize hs₁ : deliverToFollower (callback _) s _ = s₁ at hs'
    obtain ⟨⟨hterm₁, hleader₁, hopen₁⟩, hstored, hanswers⟩ := backfill_stores hterm hleader hopen
      (hids _ (List.getElem_mem hk)) ((hlog.prev hentry).trans hend.symm) (callback _) hs₁
    have hfront₁ : s₁.replicationLog = log.take (k + 1) := by
      refine (congrArg RepairLog.log hstored).trans ?_
      simp [hfront]
    have hend₁ : (s₁.lastLogIndex, s₁.lastLogTerm) = logEnd (log.take (k + 1)) := by
      rw [logEnd_take hentry]
      exact Prod.ext ((congrArg RepairLog.lastLogIndex hstored).trans (hlog.index k _ hentry))
        (congrArg RepairLog.lastLogTerm hstored)
    obtain ⟨hlast, hrest⟩ := ih (by omega) hterm₁ hleader₁ hopen₁ hfront₁ hend₁ hs'
    exact ⟨hlast, hrest.trans hanswers⟩

/-- Without a persistence worker a follower stores nothing. -/
theorem replicationLog_appendEntries_of_closed (hclosed : s.persistenceOpen = false)
    (request : LocalAppendEntries) (callback : Callback) :
    (appendEntries request callback s).replicationLog = s.replicationLog ∧
      (appendEntries request callback s).persistenceOpen = false := by
  have hreceives := receives_appendEntries request callback s
  generalize appendEntries request callback s = s' at hreceives ⊢
  have hheeded : ∀ {s₁ : SharedState}, Heeds .follower request s s₁ →
      s₁.replicationLog = s.replicationLog ∧ s₁.persistenceOpen = false := fun h =>
    ⟨h.unchanged.1.1.2.2.2.2, h.unchanged.1.1.1.2.2.1.trans hclosed⟩
  cases hreceives with
  | unrecognised => exact ⟨rfl, hclosed⟩
  | mismatched hheeds | acknowledged hheeds => exact (hheeded hheeds).imp id id
  | adopted => exact ⟨by simp, by simpa using hclosed⟩
  | unstored _ hheeds => simpa using hheeded hheeds
  | stored _ _ _ _ _ _ hopen => simp [hclosed] at hopen

theorem replicationLog_backfill_of_closed (callback : QuorumMessage → Callback)
    (entries : List OwnedLogEntry) : ∀ {s : SharedState}, s.persistenceOpen = false →
      ((entries.map fun entry => w.appendEntriesMessage entry.messageId w.commitIndex entry).foldl
        (fun s message => deliverToFollower (callback message) s message) s).replicationLog =
          s.replicationLog := by
  induction entries with
  | nil => exact fun _ => rfl
  | cons entry rest ih =>
    intro s hclosed
    obtain ⟨hlog, hclosed'⟩ := replicationLog_appendEntries_of_closed hclosed _ (callback _)
    rw [List.map_cons, List.foldl_cons]
    exact (ih hclosed').trans hlog

end Follower

/-! ## The exchange -/

theorem QuorumWorker.messages_sendBackfillEntries (w : QuorumWorker) (now : ℕ)
    (entries : List OwnedLogEntry) : (w.sendBackfillEntries now entries).2.messages =
      entries.map fun entry => w.appendEntriesMessage entry.messageId w.commitIndex entry := by
  unfold sendBackfillEntries
  split_ifs with hnil
  · rw [hnil]
    rfl
  · rfl

/-- **When a backfill completes the log of a follower** that recognises the leader and holds the first
`k` entries of its log. -/
theorem backfill_completes_iff {c : RepairParties} (hne : c.leader.replicationLog ≠ [])
    (hleader : WellFormed c.leader.replicationLog)
    (hentries : ∀ entry ∈ c.leader.replicationLog, 1 ≤ entry.term ∧ 1 ≤ entry.messageId)
    (hrange : c.queue < c.leader.quorumWorkerTasks.length) {k : ℕ}
    (hk : k ≤ c.leader.replicationLog.length) (hterm : c.follower.currentTerm = c.worker.term)
    (hrecognised : c.follower.leaderId = c.worker.selfId)
    (hfront : c.follower.replicationLog = c.leader.replicationLog.take k)
    (hend : (c.follower.lastLogIndex, c.follower.lastLogTerm) =
      logEnd (c.leader.replicationLog.take k))
    (now : ℕ) (callback : QuorumMessage → Callback) :
    c.Completes k now callback ↔
      k = c.leader.replicationLog.length ∨ c.follower.persistenceOpen = true := by
  have hterms := fun entry hentry => (hentries entry hentry).1
  have hids : ∀ entry ∈ c.leader.replicationLog, entry.messageId ≠ 0 := fun entry hentry =>
    Nat.one_le_iff_ne_zero.mp (hentries entry hentry).2
  have htask := quorumWorkerTasks_backfill hne hterms hk hend hrange
  have hslice := (backfill_start hne hterms hk hend).2
  constructor
  · intro hcompletes
    by_contra hnot
    -- entries are missing, and without its persistence worker the follower stores none of them
    obtain ⟨hlt, hclosed⟩ := not_or.mp hnot
    have hlog := hcompletes.log
    unfold RepairParties.backfilled at hlog
    rw [QuorumWorker.messages_sendBackfillEntries,
      Follower.replicationLog_backfill_of_closed _ _ (by simpa using hclosed), hfront] at hlog
    exact hlt (by simpa [hk] using congrArg List.length hlog)
  · intro hfull
    have hrest : (c.backfilled k now callback).replicationLog = c.leader.replicationLog ∧
        (c.backfilled k now callback).callbackResponses = c.follower.callbackResponses := by
      unfold RepairParties.backfilled
      rw [QuorumWorker.messages_sendBackfillEntries]
      rcases hfull with rfl | hopen
      · rw [List.drop_length]
        exact ⟨hfront.trans List.take_length, rfl⟩
      · exact Follower.backfill_rest hleader hids callback _ rfl hterm hrecognised hopen hfront hend
          rfl
    exact ⟨htask, ⟨hslice, hk⟩, hrest.1, hrest.2⟩

/-- The parties of `partiesOn`, with a follower that has recognised the leader. -/
def recognisedOn (leader follower : List OwnedLogEntry) : RepairParties :=
  { partiesOn leader follower with
    follower := (partiesOn leader follower).follower.recogniseLeader 3 1 }

/-- A follower that misses the leader's last entry gets it. -/
theorem backfill_completes_missing_entry :
    (recognisedOn [sharedNoop, thirdNoop] [sharedNoop]).Completes 1 100 fun _ => .proxy 7 :=
  (@backfill_completes_iff (recognisedOn [sharedNoop, thirdNoop] [sharedNoop]) (by decide)
    wellFormed_thirdNoop (by decide) (by decide) 1 (by decide) rfl rfl rfl rfl 100
    fun _ => .proxy 7).mpr (Or.inr rfl)

/-- **A follower without its persistence worker**, which misses the leader's last entry, does not get
it. -/
theorem backfill_without_disk :
    ¬ ∀ (c : RepairParties) (k now : ℕ) (callback : QuorumMessage → Callback),
      c.leader.replicationLog ≠ [] → WellFormed c.leader.replicationLog →
      (∀ entry ∈ c.leader.replicationLog, 1 ≤ entry.term ∧ 1 ≤ entry.messageId) →
      c.queue < c.leader.quorumWorkerTasks.length → k ≤ c.leader.replicationLog.length →
      c.follower.currentTerm = c.worker.term → c.follower.leaderId = c.worker.selfId →
      c.follower.replicationLog = c.leader.replicationLog.take k →
      (c.follower.lastLogIndex, c.follower.lastLogTerm) = logEnd (c.leader.replicationLog.take k) →
        c.Completes k now callback := by
  intro h
  let c := recognisedOn [sharedNoop, thirdNoop] [sharedNoop]
  have hcompletes := h { c with follower := { c.follower with persistenceOpen := false } } 1 100
    (fun _ => .proxy 7) (by decide) wellFormed_thirdNoop (by decide) (by decide) (by decide) rfl rfl
    rfl rfl
  exact absurd hcompletes.log (by decide)

end Kraft
