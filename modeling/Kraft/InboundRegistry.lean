/-
# The registry of inbound connections

Every accepted connection is served by a task of its own, `handle_connection`: it reads the
id of the peer, puts the two ends of a new channel into `inbound_queues` and
`inbound_receivers` under that id, passes messages on until reading or sending fails, and
removes both entries.  A quorum worker finds the messages of its member through
`inbound_receivers`.  Each access to one of the two maps is atomic, and the tasks interleave
between any two of them.

A channel is named by the connection that made it.  `registry_follows_iff` says in which
runs the registry always holds the channel of the live connection that registered last.
-/
import Kraft.Runs
import Mathlib.Data.List.Basic
import Mathlib.Logic.Function.Basic

namespace Kraft

/-- Where the task of one connection stands in `handle_connection`. -/
inductive ConnectionPhase
  /-- waits for the `ConnectRequest` -/
  | accepted
  /-- before `inbound_queues.insert` -/
  | connected (nodeId : ℕ)
  /-- before `inbound_receivers.insert` -/
  | queued (nodeId : ℕ)
  /-- in the loop -/
  | reading (nodeId : ℕ)
  /-- left the loop, before `inbound_queues.remove` -/
  | failed (nodeId : ℕ)
  /-- before `inbound_receivers.remove` -/
  | unqueued (nodeId : ℕ)
  | closed
  deriving DecidableEq

/-- The listener with its two maps, the tasks of the accepted connections, and the receivers
that the quorum workers hold.  `latest` is no variable of the source: it keeps, for every node
id, the connection that was put into `inbound_receivers` last. -/
structure Inbound where
  inboundQueues : ℕ → Option ℕ
  inboundReceivers : ℕ → Option ℕ
  connections : List ConnectionPhase
  inboundRx : ℕ → Option ℕ
  latest : ℕ → Option ℕ

inductive InboundEvent
  | accept
  /-- The first message is a `ConnectRequest` of node `nodeId`. -/
  | connectRequest (c nodeId : ℕ)
  /-- The task of connection `c` makes the access to a map it stands before. -/
  | mapAccess (c : ℕ)
  /-- `read_message` returns a message, which is sent into the channel. -/
  | message (c : ℕ)
  /-- `read_message` fails, or the first message is no `ConnectRequest`. -/
  | readError (c : ℕ)
  /-- `ensure_connections` of the worker for `memberId`. -/
  | ensureConnections (memberId : ℕ)
  /-- The worker for `memberId` finds its channel empty and without a sender. -/
  | disconnected (memberId : ℕ)

namespace Inbound

/-- `MessageReceiver::new`, before any connection. -/
def new : Inbound :=
  ⟨fun _ => none, fun _ => none, [], fun _ => none, fun _ => none⟩

def setPhase (s : Inbound) (c : ℕ) (phase : ConnectionPhase) : Inbound :=
  { s with connections := s.connections.set c phase }

/-- The access to one of the maps that follows a phase. -/
def mapAccess (s : Inbound) (c : ℕ) : Inbound :=
  match s.connections[c]? with
  | some (.connected nodeId) =>
    { s with inboundQueues := Function.update s.inboundQueues nodeId (some c) }.setPhase c
      (.queued nodeId)
  | some (.queued nodeId) =>
    { s with
        inboundReceivers := Function.update s.inboundReceivers nodeId (some c)
        latest := Function.update s.latest nodeId (some c) }.setPhase c (.reading nodeId)
  | some (.failed nodeId) =>
    { s with inboundQueues := Function.update s.inboundQueues nodeId none }.setPhase c
      (.unqueued nodeId)
  | some (.unqueued nodeId) =>
    { s with inboundReceivers := Function.update s.inboundReceivers nodeId none }.setPhase c
      .closed
  | _ => s

/-- `tx.send(msg)`: it fails when nobody holds a receiver of the channel any more. -/
def message (s : Inbound) (c : ℕ) : Inbound :=
  match s.connections[c]? with
  | some (.reading nodeId) =>
    if s.inboundReceivers nodeId = some c ∨ s.inboundRx nodeId = some c then s
    else s.setPhase c (.failed nodeId)
  | _ => s

def readError (s : Inbound) (c : ℕ) : Inbound :=
  match s.connections[c]? with
  | some .accepted => s.setPhase c .closed
  | some (.reading nodeId) => s.setPhase c (.failed nodeId)
  | _ => s

def step (s : Inbound) : InboundEvent → Inbound
  | .accept => { s with connections := s.connections ++ [.accepted] }
  | .connectRequest c nodeId =>
    if s.connections[c]? = some .accepted then s.setPhase c (.connected nodeId) else s
  | .mapAccess c => s.mapAccess c
  | .message c => s.message c
  | .readError c => s.readError c
  | .ensureConnections memberId =>
    if s.inboundRx memberId = none then
      { s with inboundRx := Function.update s.inboundRx memberId (s.inboundReceivers memberId) }
    else s
  | .disconnected memberId =>
    match s.inboundRx memberId with
    -- the channel has two senders, that of the task and that in `inbound_queues`
    | some c =>
      if s.connections[c]? = some .closed ∧ s.inboundQueues memberId ≠ some c then
        { s with inboundRx := Function.update s.inboundRx memberId none }
      else s
    | none => s

/-- The connection of node `nodeId` that registered last is still reading. -/
def Live (s : Inbound) (nodeId c : ℕ) : Prop :=
  s.latest nodeId = some c ∧ s.connections[c]? = some (.reading nodeId)

/-- The registry holds the channel of every such connection. -/
def Follows (s : Inbound) : Prop :=
  ∀ nodeId c, s.Live nodeId c → s.inboundReceivers nodeId = some c

/-- A task removes a receiver only while the connection of its node that registered last is
not reading. -/
def CleansUpInTime (s : Inbound) : InboundEvent → Prop
  | .mapAccess c => ∀ nodeId, s.connections[c]? = some (.unqueued nodeId) → ∀ d, ¬s.Live nodeId d
  | _ => True

/-! ## One step -/

theorem getElem?_setPhase {s : Inbound} {c d : ℕ} {phase phase' : ConnectionPhase}
    (h : (s.setPhase c phase).connections[d]? = some phase') :
    (d = c ∧ phase' = phase) ∨ (d ≠ c ∧ s.connections[d]? = some phase') := by
  rw [setPhase, List.getElem?_set] at h
  split_ifs at h with heq hlt
  · exact Or.inl ⟨heq.symm, (Option.some.inj h).symm⟩
  · exact Or.inr ⟨Ne.symm heq, h⟩

/-- Nothing changes for the worse while no entry is touched and no connection starts to
read. -/
theorem Follows.of_quiet {s t : Inbound} (h : s.Follows)
    (hreceivers : t.inboundReceivers = s.inboundReceivers) (hlatest : t.latest = s.latest)
    (hreading : ∀ c nodeId : ℕ, t.connections[c]? = some (.reading nodeId) →
      s.connections[c]? = some (.reading nodeId)) : t.Follows := by
  rintro nodeId c ⟨hlast, hphase⟩
  rw [hreceivers]
  exact h nodeId c ⟨hlatest ▸ hlast, hreading c nodeId hphase⟩

theorem Follows.setPhase {s : Inbound} (h : s.Follows) (c : ℕ) {phase : ConnectionPhase}
    (hphase : ∀ nodeId, phase ≠ .reading nodeId) : (s.setPhase c phase).Follows := by
  refine h.of_quiet rfl rfl fun d nodeId hd => ?_
  rcases getElem?_setPhase hd with ⟨-, heq⟩ | ⟨-, hd⟩
  · exact absurd heq.symm (hphase nodeId)
  · exact hd

/-- A registration makes its own connection the live one. -/
theorem follows_register {s : Inbound} (h : s.Follows) {c nodeId : ℕ} :
    ({ s with
        inboundReceivers := Function.update s.inboundReceivers nodeId (some c)
        latest := Function.update s.latest nodeId (some c) }.setPhase c
          (.reading nodeId)).Follows := by
  rintro n d ⟨hlast, hphase⟩
  by_cases hn : n = nodeId
  · subst hn
    simp_all [Inbound.setPhase]
  · have hlast : s.latest n = some d := by simpa [Inbound.setPhase, hn] using hlast
    rcases getElem?_setPhase hphase with ⟨-, heq⟩ | ⟨-, hd⟩
    · exact absurd (ConnectionPhase.reading.inj heq) hn
    · simpa [Inbound.setPhase, hn] using h n d ⟨hlast, hd⟩

/-- A removal is harmless exactly if no live connection of the node is left without its
entry. -/
theorem follows_deregister {s : Inbound} (h : s.Follows) {c nodeId : ℕ}
    (hc : s.connections[c]? = some (.unqueued nodeId)) :
    ({ s with inboundReceivers := Function.update s.inboundReceivers nodeId none }.setPhase c
        .closed).Follows ↔ ∀ d, ¬s.Live nodeId d := by
  constructor
  · rintro hfollows d ⟨hlast, hd⟩
    have hne : c ≠ d := by
      rintro rfl
      simp [hc] at hd
    have hd' : (s.connections.set c .closed)[d]? = some (.reading nodeId) := by
      rw [List.getElem?_set_ne hne, hd]
    simpa [Inbound.setPhase] using hfollows nodeId d ⟨hlast, hd'⟩
  · rintro hlive n d ⟨hlast, hphase⟩
    rcases getElem?_setPhase hphase with ⟨-, heq⟩ | ⟨-, hd⟩
    · cases heq
    · by_cases hn : n = nodeId
      · subst hn
        exact absurd ⟨hlast, hd⟩ (hlive d)
      · simpa [Inbound.setPhase, hn] using h n d ⟨hlast, hd⟩

theorem follows_mapAccess_iff {s : Inbound} (h : s.Follows) (c : ℕ) :
    (s.mapAccess c).Follows ↔
      ∀ nodeId, s.connections[c]? = some (.unqueued nodeId) → ∀ d, ¬s.Live nodeId d := by
  by_cases hc : ∃ nodeId, s.connections[c]? = some (.unqueued nodeId)
  · obtain ⟨nodeId, hc⟩ := hc
    simp only [mapAccess, hc, Option.some.injEq, ConnectionPhase.unqueued.injEq, forall_eq']
    exact follows_deregister h hc
  · have hfollows : (s.mapAccess c).Follows := by
      unfold mapAccess
      split
      case h_1 nodeId _ =>
        exact Follows.setPhase (h.of_quiet rfl rfl fun _ _ hd => hd) c (by simp)
      case h_2 => exact follows_register h
      case h_3 => exact Follows.setPhase (h.of_quiet rfl rfl fun _ _ hd => hd) c (by simp)
      case h_4 nodeId heq => exact absurd ⟨nodeId, heq⟩ hc
      case h_5 => exact h
    exact ⟨fun _ nodeId heq => absurd ⟨nodeId, heq⟩ hc, fun _ => hfollows⟩

theorem follows_step_iff {s : Inbound} (h : s.Follows) (e : InboundEvent) :
    (s.step e).Follows ↔ s.CleansUpInTime e := by
  cases e with
  | mapAccess c => exact follows_mapAccess_iff h c
  | accept =>
    refine iff_of_true (h.of_quiet rfl rfl fun c nodeId hc => ?_) trivial
    simp only [step, List.getElem?_append] at hc
    split_ifs at hc with hlt
    · exact hc
    · simp [List.getElem?_singleton] at hc
  | connectRequest c nodeId =>
    refine iff_of_true ?_ trivial
    rw [step]
    split_ifs
    · exact h.setPhase c (by simp)
    · exact h
  | message c =>
    refine iff_of_true ?_ trivial
    rw [step, message]
    split
    · split_ifs
      · exact h
      · exact h.setPhase c (by simp)
    · exact h
  | readError c =>
    refine iff_of_true ?_ trivial
    rw [step, readError]
    split
    · exact h.setPhase c (by simp)
    · exact h.setPhase c (by simp)
    · exact h
  | ensureConnections memberId =>
    refine iff_of_true ?_ trivial
    rw [step]
    split_ifs
    · exact h.of_quiet rfl rfl fun _ _ hd => hd
    · exact h
  | disconnected memberId =>
    refine iff_of_true ?_ trivial
    rw [step]
    split
    · split_ifs
      · exact h.of_quiet rfl rfl fun _ _ hd => hd
      · exact h
    · exact h

theorem follows_new : new.Follows := by
  rintro nodeId c ⟨hlast, -⟩
  cases hlast

/-- **When the registry follows the live connection.**  It does so all along a run exactly
if in every step of the run a receiver is removed only while the connection of its node that
registered last is not reading. -/
theorem registry_follows_iff (events : List InboundEvent) :
    (∀ before after, events = before ++ after → (Runs.run step new before).Follows) ↔
      Runs.AllSteps step CleansUpInTime new events :=
  Runs.AllSteps.always_iff (fun _ => True) Follows (fun _ _ _ _ _ => trivial)
    (fun _ e _ h _ => follows_step_iff h e) trivial follows_new (Runs.allSteps_true new events)

/-- Node 2 connects, its connection fails, and it connects again; then the first task cleans
up. -/
def lateCleanUp : List InboundEvent :=
  [.accept, .connectRequest 0 2, .mapAccess 0, .mapAccess 0, .readError 0,
    .accept, .connectRequest 1 2, .mapAccess 1, .mapAccess 1, .mapAccess 0, .mapAccess 0]

/-- **A late clean-up removes the entry of the new connection.** -/
theorem lateCleanUp_loses_connection :
    ¬ ∀ events, (Runs.run step new events).Follows := by
  intro h
  have hlive : (Runs.run step new lateCleanUp).Live 2 1 := ⟨by decide, by decide⟩
  exact absurd (h lateCleanUp 2 1 hlive) (by decide)

end Inbound

end Kraft
