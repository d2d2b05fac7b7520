/-
# The registry of outbound connections

The quorum worker of a member keeps the sending end of a channel, `outbound_tx`, and starts each
round of its loop with `ensure_connections`: it drops the channel if `outbound_senders` has none for
the member, and then calls `get_or_connect`, which starts a task with `MessageSender::run`, waits
until the task has connected, and puts the channel into `outbound_senders`.  The task removes the
entry of its member when it ends.

The worker and the tasks of one member use only the entry of this member, so the model is that of
one member.  A connection is named by its task.  The accesses to the map are atomic; the worker and
the tasks interleave between any two of them.  In contrast to the registry of inbound connections
(`Inbound`), this one heals (`outbound_recovers`): an entry is always the channel of the worker, and
its task has not removed it.  For a task cannot end between its report and the insertion, when its
channel is empty and its sending end in use.  A task that failed to connect can still remove the
entry of its successor; the worker then opens a new connection without need.
-/
import Kraft.Runs
import Mathlib.Data.List.Basic

namespace Kraft

/-- Where the task of a connection stands. -/
inductive SenderPhase
  /-- before the report to `get_or_connect` -/
  | connecting
  /-- in the loop of `MessageSender::run` -/
  | running
  /-- before the removal from `outbound_senders` -/
  | ended
  | removed

/-- The task of a connection, with the number of messages in its channel. -/
structure SenderTask where
  phase : SenderPhase
  queued : ℕ

/-- Where the worker stands in `get_or_connect`. -/
inductive ConnectPhase
  | idle
  /-- waits for the report of a task -/
  | waiting (c : ℕ)
  /-- before `outbound_senders.insert` -/
  | reported (c : ℕ)
  deriving DecidableEq

/-- The worker of a member, its tasks and its entry in `outbound_senders`. -/
structure Outbound where
  tasks : List SenderTask
  outboundSender : Option ℕ
  outboundTx : Option ℕ
  worker : ConnectPhase

inductive OutboundEvent
  /-- `ensure_connections`, up to `get_or_connect` -/
  | check
  /-- `get_or_connect`, up to where it waits -/
  | lookup
  /-- A task has connected and reports it. -/
  | connected (c : ℕ)
  /-- A task has failed to connect and reports it. -/
  | refused (c : ℕ)
  /-- `outbound_senders.insert`, and the end of `ensure_connections` -/
  | insert
  /-- `send_message` -/
  | send
  /-- A task writes the next message of its channel. -/
  | write (c : ℕ)
  /-- Writing it fails. -/
  | writeError (c : ℕ)
  /-- A task finds its channel empty and without a sender. -/
  | disconnected (c : ℕ)
  /-- A task removes the entry of its member. -/
  | remove (c : ℕ)

namespace Outbound

/-- The state at startup. -/
def start : Outbound := ⟨[], none, none, .idle⟩

def setTask (s : Outbound) (c : ℕ) (phase : SenderPhase) (queued : ℕ) : Outbound :=
  { s with tasks := s.tasks.set c ⟨phase, queued⟩ }

/-- Someone holds the sending end of the channel. -/
def Attached (s : Outbound) (c : ℕ) : Prop :=
  s.outboundSender = some c ∨ s.outboundTx = some c ∨ s.worker = .waiting c ∨
    s.worker = .reported c

instance (s : Outbound) (c : ℕ) : Decidable (s.Attached c) := by
  unfold Attached
  infer_instance

/-- One step, where `known` says that the member is in `cluster_nodes` and its endpoint is an
address. -/
def step (known : Bool) (s : Outbound) : OutboundEvent → Outbound
  | .check =>
    if s.worker = .idle ∧ s.outboundSender = none then { s with outboundTx := none } else s
  | .lookup =>
    if s.worker = .idle ∧ s.outboundTx = none then
      match s.outboundSender with
      | some c => { s with outboundTx := some c }
      | none =>
        if known then
          { s with tasks := s.tasks ++ [⟨.connecting, 0⟩], worker := .waiting s.tasks.length }
        else s
    else s
  | .connected c =>
    match s.tasks[c]? with
    | some ⟨.connecting, queued⟩ => { s.setTask c .running queued with worker := .reported c }
    | _ => s
  | .refused c =>
    match s.tasks[c]? with
    | some ⟨.connecting, queued⟩ => { s.setTask c .ended queued with worker := .idle }
    | _ => s
  | .insert =>
    match s.worker with
    | .reported c => { s with outboundSender := some c, outboundTx := some c, worker := .idle }
    | _ => s
  | .send =>
    match s.outboundTx with
    | some c =>
      match s.tasks[c]? with
      | some ⟨.running, queued⟩ => s.setTask c .running (queued + 1)
      | _ => s
    | none => s
  | .write c =>
    match s.tasks[c]? with
    | some ⟨.running, queued + 1⟩ => s.setTask c .running queued
    | _ => s
  | .writeError c =>
    match s.tasks[c]? with
    | some ⟨.running, _ + 1⟩ => s.setTask c .ended 0
    | _ => s
  | .disconnected c =>
    match s.tasks[c]? with
    | some ⟨.running, 0⟩ => if s.Attached c then s else s.setTask c .ended 0
    | _ => s
  | .remove c =>
    match s.tasks[c]? with
    | some ⟨.ended, queued⟩ => { s.setTask c .removed queued with outboundSender := none }
    | _ => s

/-- `ensure_connections`, up to where it waits. -/
def ensureConnections (known : Bool) (s : Outbound) : Outbound :=
  (s.step known .check).step known .lookup

/-- The task of the connection has connected and has not removed its entry. -/
def Serves (s : Outbound) (c : ℕ) : Prop :=
  ∃ phase queued, s.tasks[c]? = some ⟨phase, queued⟩ ∧ (phase = .running ∨ phase = .ended)

/-- The invariant. -/
structure Inv (s : Outbound) : Prop where
  /-- An entry is the channel of the worker. -/
  entry : ∀ c, s.outboundSender = some c →
    s.outboundTx = some c ∧ s.worker = .idle ∧ s.Serves c
  /-- The worker connects only without a channel. -/
  free : s.worker ≠ .idle → s.outboundTx = none
  waiting : ∀ c, s.worker = .waiting c → s.tasks[c]? = some ⟨.connecting, 0⟩
  reported : ∀ c, s.worker = .reported c → s.tasks[c]? = some ⟨.running, 0⟩
  /-- The worker waits for a task that connects. -/
  connecting : ∀ c queued, s.tasks[c]? = some ⟨.connecting, queued⟩ → s.worker = .waiting c

variable {s : Outbound}

theorem getElem?_setTask {c : ℕ} {old : SenderTask} (h : s.tasks[c]? = some old)
    (phase : SenderPhase) (queued d : ℕ) :
    (s.setTask c phase queued).tasks[d]? =
      if d = c then some ⟨phase, queued⟩ else s.tasks[d]? := by
  have hc : c < s.tasks.length := (List.getElem?_eq_some_iff.mp h).1
  show (s.tasks.set c _)[d]? = _
  rw [List.getElem?_set]
  by_cases hd : c = d
  · subst hd
    simp [hc]
  · rw [if_neg hd, if_neg (Ne.symm hd)]

namespace Inv

theorem start : Inv start where
  entry _ h := nomatch h
  free h := absurd rfl h
  waiting _ h := nomatch h
  reported _ h := nomatch h
  connecting _ _ h := nomatch h

/-- A task that has connected goes on.  The worker is not about to insert its channel. -/
theorem change (h : Inv s) {c queued : ℕ} {phase : SenderPhase}
    (hold : s.tasks[c]? = some ⟨phase, queued⟩) (hphase : phase ≠ .connecting)
    (hreported : s.worker ≠ .reported c) {phase' : SenderPhase} (queued' : ℕ)
    (hphase' : phase' ≠ .connecting)
    (hserves : s.outboundSender = some c → phase' = .running ∨ phase' = .ended) :
    Inv (s.setTask c phase' queued') := by
  have hget := getElem?_setTask hold phase' queued'
  obtain ⟨hentry, hfree, hwaiting, hrep, hconnecting⟩ := h
  constructor
  · intro d hd
    -- the entry may be that of the task itself
    obtain ⟨htx, hidle, ph, q, hd', hph⟩ := hentry d hd
    refine ⟨htx, hidle, ?_⟩
    unfold Serves
    rw [hget]
    grind [setTask]
  all_goals grind [setTask]

/-- The worker opens a connection. -/
theorem connect (h : Inv s) (hidle : s.worker = .idle) (hentry : s.outboundSender = none)
    (htx : s.outboundTx = none) :
    Inv { s with tasks := s.tasks ++ [⟨.connecting, 0⟩], worker := .waiting s.tasks.length } where
  entry c hc := by cases hentry.symm.trans hc
  free _ := htx
  waiting c hc := by
    cases hc
    simp
  reported c hc := by cases hc
  connecting c queued hc := by
    -- no task was connecting before
    have hnone := h.connecting c queued
    grind

/-- A task reports to the worker, which waits for it. -/
theorem report (h : Inv s) {c queued : ℕ} (hold : s.tasks[c]? = some ⟨.connecting, queued⟩)
    {phase : SenderPhase} (hphase : phase ≠ .connecting) {worker : ConnectPhase}
    (hworker : worker = .idle ∨ worker = .reported c ∧ phase = .running) :
    Inv { s.setTask c phase queued with worker := worker } := by
  have hget := getElem?_setTask hold phase queued
  have hwaits := h.connecting c queued hold
  have hempty := h.waiting c hwaits
  obtain ⟨hentry, hfree, -, -, hconnecting⟩ := h
  constructor <;> grind [setTask]

/-- The worker inserts the channel of the task that has reported to it. -/
theorem insert (h : Inv s) {c : ℕ} (hreported : s.worker = .reported c) :
    Inv { s with outboundSender := some c, outboundTx := some c, worker := .idle } where
  entry d hd := by
    cases hd
    exact ⟨rfl, rfl, .running, 0, h.reported c hreported, Or.inl rfl⟩
  free hbusy := absurd rfl hbusy
  waiting d hd := by cases hd
  reported d hd := by cases hd
  connecting d q hd := by cases hreported.symm.trans (h.connecting d q hd)

/-- Before the insertion the channel is empty. -/
theorem not_reported (h : Inv s) {c queued : ℕ} {phase : SenderPhase}
    (hold : s.tasks[c]? = some ⟨phase, queued⟩) (hne : ¬ (phase = .running ∧ queued = 0)) :
    s.worker ≠ .reported c := by
  have hempty := h.reported c
  grind

/-- One step keeps the invariant. -/
theorem step (h : Inv s) (known : Bool) (e : OutboundEvent) : Inv (s.step known e) := by
  unfold Outbound.step
  cases e with
  | check =>
    dsimp only
    split_ifs with hlost
    · exact { h with
        entry := fun c hentry => by cases hlost.2.symm.trans hentry
        free := fun _ => rfl }
    · exact h
  | lookup =>
    dsimp only
    by_cases hidle : s.worker = .idle ∧ s.outboundTx = none
    · rw [if_pos hidle]
      split
      · next c hentry => cases hidle.2.symm.trans (h.entry c hentry).1
      · next hentry =>
        split_ifs
        · exact h.connect hidle.1 hentry hidle.2
        · exact h
    · rw [if_neg hidle]
      exact h
  | connected c =>
    dsimp only
    split
    · next queued hold => exact h.report hold (by simp) (Or.inr ⟨rfl, rfl⟩)
    · exact h
  | refused c =>
    dsimp only
    split
    · next queued hold => exact h.report hold (by simp) (Or.inl rfl)
    · exact h
  | insert =>
    dsimp only
    split
    · next c hreported => exact h.insert hreported
    · exact h
  | send =>
    dsimp only
    split
    · next c htx =>
      split
      · next queued hold =>
        refine h.change hold (by simp) (fun hreported => ?_) _ (by simp) fun _ => Or.inl rfl
        -- a worker that is about to insert a channel has none to send to
        cases htx.symm.trans (h.free (by simp [hreported]))
      · exact h
    · exact h
  | write c =>
    dsimp only
    split
    · next queued hold =>
      exact h.change hold (by simp) (h.not_reported hold (by simp)) _ (by simp) fun _ => Or.inl rfl
    · exact h
  | writeError c =>
    dsimp only
    split
    · next queued hold =>
      exact h.change hold (by simp) (h.not_reported hold (by simp)) _ (by simp) fun _ => Or.inr rfl
    · exact h
  | disconnected c =>
    dsimp only
    split
    · next hold =>
      split_ifs with hattached
      · exact h
      · exact h.change hold (by simp) (fun hreported => hattached (.inr (.inr (.inr hreported)))) _
          (by simp) fun _ => Or.inr rfl
    · exact h
  | remove c =>
    dsimp only
    split
    · next queued hold =>
      -- the entry goes first, so that none is left to a task that has removed it
      have hgone : Inv { s with outboundSender := none } :=
        { h with entry := fun d hd => by cases hd }
      exact hgone.change hold (by simp) (h.not_reported hold (by simp)) queued (by simp)
        fun hentry => by cases hentry
    · exact h

theorem run (known : Bool) (events : List OutboundEvent) :
    Inv (Runs.run (Outbound.step known) Outbound.start events) :=
  (Runs.allSteps_true Outbound.start events).invariant Inv (fun _ e h _ => h.step known e) start

end Inv

/-- **Lost connections are opened again**: in every reachable state, a worker at the start of
`ensure_connections` either keeps its channel, which is the registered one and whose task has not
yet removed it, or it opens a new connection if it knows the address of its member; a worker that
waits for a connection waits for a task that has yet to report; and the channel a worker inserts
is that of a running task. -/
theorem outbound_recovers (known : Bool) (events : List OutboundEvent) :
    let s := Runs.run (step known) start events
    match s.worker with
    | .idle =>
      let s' := s.ensureConnections known
      (∃ c, s.outboundTx = some c ∧ s.outboundSender = some c ∧ s.Serves c ∧ s' = s) ∨
      (known = true ∧ s'.tasks = s.tasks ++ [⟨.connecting, 0⟩] ∧
        s'.worker = .waiting s.tasks.length) ∨
      (known = false ∧ s'.outboundTx = none)
    | .waiting c => s.tasks[c]? = some ⟨.connecting, 0⟩
    | .reported c => s.tasks[c]? = some ⟨.running, 0⟩ := by
  intro s
  have h : Inv s := Inv.run known events
  cases hworker : s.worker with
  | idle =>
    dsimp only
    cases hentry : s.outboundSender with
    | some c =>
      obtain ⟨htx, -, hserves⟩ := h.entry c hentry
      -- the worker has the channel of the entry, so that neither test succeeds
      exact Or.inl ⟨c, htx, rfl, hserves, by simp [ensureConnections, step, hentry, htx]⟩
    | none =>
      cases known <;> simp [ensureConnections, step, hworker, hentry]
  | waiting c => exact h.waiting c hworker
  | reported c => exact h.reported c hworker

end Outbound

end Kraft
