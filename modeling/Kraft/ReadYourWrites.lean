/-
# Reading one's own writes

`transport/datastore/connection.rs`: a client sends `PUT` and `GET` requests to one node.  A `PUT`
is confirmed when the leader has committed its entry; a `GET` waits until the node's own query
worker has applied the entries up to the node's own commit index.

* `Service` is the cluster together with the query worker of every node, the `PUT`s that the write
  proxies have handed in, and the `GET`s that were asked.
* `Service.step` lets the cluster take a step, a state machine make an access to what it shares
  with its query worker, or the query worker go on, in any order.  Only the order of
  `complete_write_batch` is kept: a state machine stores its commit index before it broadcasts, and
  before it answers its own write proxy.
* `read_your_writes` : a `GET` is answered from a state that includes the client's own `PUT`s if,
  at the time it is asked, the entry of each of them is committed at the node.  Of a `PUT` that the
  node has committed itself only the entry has to be there still.
* `own_write_not_read` : nothing in the code waits for that.
-/
import Kraft.CommittedPrefix
import Kraft.Flow
import Kraft.LogRepresentation
import Kraft.QueryWorker
import Kraft.Recovery
import Kraft.WriteRoute

namespace Kraft

open SharedState StateMachine

/-! ## Clients -/

/-- A `PUT` of a client, with the id of its batch and the callback that its handler awaits. -/
structure ClientPut where
  client : ℕ
  key : String
  value : List UInt8
  batchId : String
  callback : ℕ
  deriving DecidableEq

/-- The command of a `PUT`. -/
def ClientPut.request (put : ClientPut) : PutRequest := ⟨put.key, put.value, 0⟩

/-- The batch that `handle_put_record` pushes on the queue of the write proxy. -/
def ClientPut.batch (put : ClientPut) : WriteBatch :=
  ⟨put.batchId, ⟨put.batchId, [put.request]⟩, put.callback⟩

/-- `PUT`s that the write proxy of a node has joined to one batch. -/
structure Submission where
  node : ℕ
  batchId : String
  puts : List ClientPut

/-- The batch with its callbacks. -/
def Submission.prepared (submission : Submission) : OwnedWriteBatch × BatchCallbacks :=
  prepareBatchAndCallbacks submission.batchId (submission.puts.map ClientPut.batch)

/-- A `GET` of a client, with the `PUT`s the node had confirmed to the client before, each with the
id of the batch it was joined to. -/
structure ClientGet where
  node : ℕ
  client : ℕ
  query : QueryRequest
  confirmed : List (String × ClientPut)
  deriving DecidableEq

/-! ## The service -/

/-- The cluster, its query workers, and what has passed between it and its clients. -/
structure Service where
  world : World
  reader : ℕ → ReadSystem
  /-- the batches of the write proxies; a batch's place is the number of the proxy's callback -/
  submissions : List Submission
  /-- the callbacks of clients that were told `Ok` -/
  succeeded : List ℕ
  /-- the log entries that leaders have made, with the ids of their batches -/
  stored : List (String × OwnedLogEntry)
  /-- the `GET`s that were asked and not lost with their node -/
  asked : List ClientGet
  queries : ℕ
  /-- the batches that a state machine has told its write proxy to be written -/
  told : ℕ → List ℕ

/-- An access of the state machine to what it shares with the query worker, or a step of the
query worker. -/
inductive ReadAccess
  | storeCommitIndex
  | bumpVersion
  | broadcast
  | work
  deriving DecidableEq

/-- What can happen. -/
inductive ServiceEvent
  /-- The write proxy of node `a` joins `PUT`s to a batch, and hands it to the state machine or, if
  it takes another node for the leader, to the quorum worker `k` for that node. -/
  | submit (a : ℕ) (route : Option ℕ) (batchId : String) (puts : List ClientPut)
  /-- The cluster takes a step. -/
  | cluster (label : Label)
  /-- A thread of node `a` makes an access. -/
  | read (a : ℕ) (access : ReadAccess)
  /-- The write proxies of node `a` receive the answers of its state machine. -/
  | confirm (a : ℕ)
  /-- A client asks node `a`. -/
  | get (a client : ℕ) (key : String)

namespace Service

/-- The callbacks of a batch that a write proxy waits for. -/
def callbacks (s : Service) (proxy : ℕ) : BatchCallbacks :=
  ((s.submissions[proxy]?).map (·.prepared.2)).getD ∅

/-- The answers of the state machine of node `a` to its write proxies. -/
def answers (s : Service) (a : ℕ) : List (ℕ × LocalRaftResponsePayload) :=
  (s.world.shared a).callbackResponses.filterMap fun answer =>
    match answer.1 with
    | .proxy proxy => some (proxy, answer.2)
    | .pending .. => none

/-- The answers that come back through a quorum worker when a message is delivered, as the write
proxies pass them on to clients. -/
def passedOn (s : Service) : Label → List (ℕ × WriteResponse)
  | .deliver i =>
    match s.world.net[i]? with
    | some packet =>
      match (s.world.process packet.dst).workers.find? (·.memberId = packet.src) with
      | some worker => (worker.handleInboundMessage packet.message).2.writeResponses.flatMap
          fun response => handleQuorumPutBatchResponse (some response.2) (s.callbacks response.1)
      | none => []
    | none => []
  | _ => []

/-- The entry that is appended when a state machine accepts a batch. -/
def appended (s : Service) (w' : World) : Label → List (String × OwnedLogEntry)
  | .act a (.accept _) =>
    match (s.world.process a).inbox.head? with
    | some ⟨.writeBatch batch, _⟩ =>
      ((w'.shared a).replicationLog.drop (s.world.shared a).replicationLog.length).map
        fun entry => (batch.batchId, entry)
    | _ => []
  | _ => []

end Service

/-- The clients that are told `Ok`. -/
def toldOk (responses : List (ℕ × WriteResponse)) : List ℕ :=
  (responses.filter (·.2.status = .ok)).map Prod.fst

/-- Batches are handed in by a write proxy. -/
def Label.handsIn : Label → Bool
  | .act _ (.write ..) | .act _ (.forward ..) => true
  | _ => false

/-- The node that a step restarts. -/
def Label.restarted : Label → Option ℕ
  | .act a (.restart ..) => some a
  | _ => none

namespace Service

section Steps

variable [Capnp] [ParsesSocketAddr]

/-- All nodes start on empty files. -/
def start (C : Cluster) (clock : ℕ → Clock) (accepts : ℕ → ℕ → Bool) : Service where
  world := .start C clock accepts
  reader _ := .start
  submissions := []
  succeeded := []
  stored := []
  asked := []
  queries := 0
  told _ := []

/-- A step of the cluster.  A node that restarts has a new query worker. -/
def advance (C : Cluster) (s : Service) (label : Label) : Service :=
  let w' := s.world.step C label
  { s with
    world := w'
    reader a := if label.restarted = some a then .start else s.reader a
    succeeded := s.succeeded ++ toldOk (s.passedOn label)
    stored := s.stored ++ s.appended w' label
    asked := s.asked.filter fun get => label.restarted ≠ some get.node
    told a := if label.restarted = some a then [] else s.told a }

end Steps

/-- The entry at the next place of the bus, with its position. -/
def nextOnBus (s : Service) (a : ℕ) : Option (ℕ × OwnedLogEntry) :=
  (s.world.shared a).logEntryBus.sent[(s.reader a).sent.length]?

/-- An access by a thread of node `a`.  The state machine stores the commit index before it
broadcasts. -/
def access (s : Service) (a : ℕ) : ReadAccess → ReadSystem
  | .storeCommitIndex => (s.reader a).step (.raise (s.world.shared a).publishedCommitIndex)
  | .bumpVersion => (s.reader a).step .bumpVersion
  | .broadcast =>
    match s.nextOnBus a with
    | some next =>
      if (s.reader a).memory.commitIndex = (s.world.shared a).publishedCommitIndex then
        (s.reader a).step (.put next.2)
      else s.reader a
    | none => s.reader a
  | .work => (s.reader a).step .work

/-- The `PUT`s of a client that node `a` has confirmed. -/
def confirmed (s : Service) (a client : ℕ) : List (String × ClientPut) :=
  s.submissions.flatMap fun submission =>
    if submission.node = a then
      (submission.puts.filter fun put => put.client = client ∧ put.callback ∈ s.succeeded).map
        fun put => (submission.batchId, put)
    else []

/-- `handle_insert_completed`: the write proxies of node `a` pass on what the state machine answers,
which it does when it has stored the commit index. -/
def confirm (s : Service) (a : ℕ) : Service :=
  if (s.reader a).memory.commitIndex = (s.world.shared a).publishedCommitIndex then
    { s with
      succeeded := s.succeeded ++ toldOk ((s.answers a).flatMap fun answer =>
        handleInsertCompleted answer.2 (s.callbacks answer.1))
      told := Function.update s.told a (((s.answers a).filter (·.2.isWritten)).map Prod.fst) }
  else s

/-- `handle_get_record`: the query is asked at the commit index that the node has at the time. -/
def handleGetRecord (s : Service) (a client : ℕ) (key : String) : Service :=
  let query : QueryRequest := ⟨key, (s.reader a).memory.commitIndex, s.queries⟩
  { s with
    reader := Function.update s.reader a ((s.reader a).step (.ask query))
    asked := s.asked ++ [⟨a, client, query, s.confirmed a client⟩]
    queries := s.queries + 1 }

/-- One event. -/
def step [Capnp] [ParsesSocketAddr] (C : Cluster) (s : Service) : ServiceEvent → Service
  | .submit a route batchId puts =>
    let submission : Submission := ⟨a, batchId, puts⟩
    let event : ProcessEvent := match route with
      | none => .write submission.prepared.1 s.submissions.length
      | some k => .forward k batchId submission.prepared.1 s.submissions.length
    { s with submissions := s.submissions ++ [submission] }.advance C (.act a event)
  | .cluster label => if label.handsIn then s else s.advance C label
  | .confirm a => s.confirm a
  | .read a access => { s with reader := Function.update s.reader a (s.access a access) }
  | .get a client key => s.handleGetRecord a client key

/-! ## The condition -/

/-- The entry of a `PUT` is in the log of node `a`, behind the first position and not behind
`index`. -/
def Reached (s : Service) (a index : ℕ) (put : String × ClientPut) : Prop :=
  ∃ record ∈ s.stored, record.1 = put.1 ∧ put.2.request ∈ record.2.commands ∧
    1 ≤ record.2.index ∧ record.2.index ≤ index ∧
    (s.world.shared a).replicationLog[record.2.index]? = some record.2

/-- The state machine of node `a` has told that the batch of a `PUT` is written. -/
def CommittedHere (s : Service) (a : ℕ) (put : String × ClientPut) : Prop :=
  ∃ proxy ∈ s.told a, ∃ submission ∈ s.submissions[proxy]?,
    submission.batchId = put.1 ∧ put.2 ∈ submission.puts

/-- What leaders have made of a batch is in the log of node `a`, behind the first position. -/
def Kept (s : Service) (a : ℕ) (batchId : String) : Prop :=
  ∀ record ∈ s.stored, record.1 = batchId → 1 ≤ record.2.index ∧
    (s.world.shared a).replicationLog[record.2.index]? = some record.2

/-- The condition on an event, as far as it concerns node `a`: its commit index does not fall and
its committed entries stay, its bus carries the log in order, and a `GET` finds the entries of the
client's confirmed `PUT`s to its key committed at the node, or, if the node has committed them
itself, in its log. -/
def Propagates (a : ℕ) (s : Service) : ServiceEvent → Prop
  | .cluster (.act b event) => b = a → ∀ e ∈ (s.world.process a).nodeEvent event,
      (s.world.process a).node.CommitsStably e
  | .read b .broadcast => b = a → ∀ next ∈ s.nextOnBus a,
      next.1 = (s.reader a).sent.length ∧ next.2.index = next.1 ∧ next.2.term ≠ truncateSignalTerm
  | .get b client key => b = a → ∀ put ∈ s.confirmed a client, put.2.key = key →
      s.Reached a (s.reader a).memory.commitIndex put ∨ s.CommittedHere a put ∧ s.Kept a put.1
  | _ => True

instance (s : Service) (a index : ℕ) (put : String × ClientPut) :
    Decidable (s.Reached a index put) :=
  inferInstanceAs (Decidable (∃ record ∈ s.stored, _))

instance (s : Service) (a : ℕ) (put : String × ClientPut) : Decidable (s.CommittedHere a put) :=
  inferInstanceAs (Decidable (∃ proxy ∈ s.told a, _))

instance (s : Service) (a : ℕ) (batchId : String) : Decidable (s.Kept a batchId) :=
  inferInstanceAs (Decidable (∀ record ∈ s.stored, _))

instance (a : ℕ) (s : Service) (event : ServiceEvent) : Decidable (s.Propagates a event) := by
  delta Propagates
  rcases event with _ | ⟨_ | _ | _⟩ | ⟨_, _ | _ | _ | _⟩ | _ | _ <;> infer_instance

end Service

/-! ## The answer to a read -/

/-- The value of a key after a list of commands, if it was `value` before them. -/
def lastWrite (key : String) (value : List UInt8) (commands : List PutRequest) : List UInt8 :=
  commands.foldl (fun value command => if command.id = key then command.payload else value) value

theorem lookup_insertRequests {key : String} (commands : List PutRequest) :
    ∀ {map : QueryMap} {value : List UInt8}, map.lookup key = some value →
      (commands.foldl (fun map command => map.insert command.id command.payload) map).lookup key =
        some (lastWrite key value commands) := by
  induction commands with
  | nil => exact fun h => h
  | cons command rest ih =>
    intro map value h
    refine ih ?_
    dsimp only
    by_cases hkey : command.id = key
    · rw [if_pos hkey, hkey, AList.lookup_insert]
    · rw [if_neg hkey, AList.lookup_insert_ne (Ne.symm hkey), h]

/-- Entries are applied command by command. -/
theorem replayEntries_eq (entries : List OwnedLogEntry) :
    replayEntries entries = (entries.flatMap (·.commands)).foldl
      (fun map command => map.insert command.id command.payload) ∅ := by
  rw [List.foldl_flatMap]
  rfl

/-- A command that was applied is read, or one that wrote its key later. -/
theorem lookup_replayEntries (earlier later : List OwnedLogEntry) {entry : OwnedLogEntry}
    {before after : List PutRequest} {request : PutRequest}
    (hcommands : entry.commands = before ++ request :: after) :
    (replayEntries (earlier ++ entry :: later)).lookup request.id =
      some (lastWrite request.id request.payload (after ++ later.flatMap (·.commands))) := by
  have hall : (earlier ++ entry :: later).flatMap (·.commands) =
      earlier.flatMap (·.commands) ++ before ++ request :: (after ++ later.flatMap (·.commands)) := by
    simp [hcommands]
  rw [replayEntries_eq, hall, List.foldl_append, List.foldl_cons]
  exact lookup_insertRequests _ (AList.lookup_insert _)

/-- The answer to a read includes a `PUT`: it comes from entries at the front of the log, one of
them made of the batch of the `PUT`, and is its value or the last one written behind it. -/
def Service.Includes (s : Service) (a : ℕ) (put : String × ClientPut)
    (answer : Option (List UInt8)) : Prop :=
  ∃ earlier entry later before after,
    earlier ++ entry :: later <+: (s.world.shared a).replicationLog ∧
    (put.1, entry) ∈ s.stored ∧ entry.commands = before ++ put.2.request :: after ∧
    answer = some (lastWrite put.2.key put.2.value (after ++ later.flatMap (·.commands)))

/-! ## The bus and the log of a node -/

/-- What is on the bus are entries of the log at committed positions. -/
def BusFollows (s : SharedState) : Prop :=
  ∀ p ∈ s.logEntryBus.sent, p.1 ≤ s.commitIndex ∧ s.replicationLog[p.1]? = some p.2

/-- It stays so while committed entries stay. -/
theorem BusFollows.step {s s' : SharedState} (h : BusFollows s) (hkeeps : KeepsCommitted s s')
    (hgrows : BusGrows s s') : BusFollows s' := by
  obtain ⟨new, hsent, hnew⟩ := hgrows
  intro p hp
  rw [hsent] at hp
  rcases List.mem_append.mp hp with hp | hp
  · obtain ⟨hle, hentry⟩ := h p hp
    exact ⟨hle.trans hkeeps.commit, hkeeps.positions p.1 p.2 hle hentry⟩
  · exact hnew p hp

/-- **An event of a node** puts committed entries of its log on the bus. -/
theorem busGrows_step [Capnp] (n : Node) {event : NodeEvent} (hsame : event.isRestart = false) :
    BusGrows n.shared (n.step event).shared := by
  cases event with
  | accept clock message =>
    rcases accept_commit clock message n.machine with ⟨-, h⟩ | ⟨request, -, -, -, h⟩
    · exact h.advances.bus
    · exact h.bus
  | timeStep clock part =>
    rcases runPart_commit clock n.machine part with ⟨-, h⟩ | ⟨prevIndex, -, -, h, -⟩
    · exact h.advances.bus
    · exact .of_eq h.sent
  | respond response => exact .of_eq rfl
  | processTask => exact (Moves.of_serves n.serves_processTask).advances.bus
  | flush => exact (Moves.of_serves n.serves_flush).advances.bus
  | restart clock written accepts => cases hsame

/-! ## The invariant -/

/-- A node and its query worker: the query worker has been sent the front of the log. -/
structure ReaderInv (s : SharedState) (r : ReadSystem) : Prop where
  published : s.publishedCommitIndex = s.commitIndex
  follows : BusFollows s
  linked : r.sent <+: s.logEntryBus.sent.map Prod.snd
  inOrder : ∀ (i : ℕ) (p : ℕ × OwnedLogEntry), i < r.sent.length →
    s.logEntryBus.sent[i]? = some p → p.1 = i
  lags : r.memory.commitIndex ≤ s.commitIndex
  query : ∃ applied, ReadSystem.QueryInv applied r

namespace ReaderInv

variable {s s' : SharedState} {r : ReadSystem}

/-- A query worker that has just been started. -/
theorem start (hpublished : s.publishedCommitIndex = s.commitIndex) (hfollows : BusFollows s) :
    ReaderInv s .start where
  published := hpublished
  follows := hfollows
  linked := List.nil_prefix
  inOrder _ _ hi := absurd hi (Nat.not_lt_zero _)
  lags := Nat.zero_le _
  query := ⟨[], ReadSystem.queryInv_start⟩

/-- What was sent are the first entries of the log. -/
theorem sent_isPrefix (h : ReaderInv s r) : r.sent <+: s.replicationLog := by
  refine List.prefix_iff_getElem?.mpr fun i hi => ?_
  obtain ⟨more, hmore⟩ := h.linked
  have hsent : (s.logEntryBus.sent.map Prod.snd)[i]? = some r.sent[i] := by
    rw [← hmore, List.getElem?_append_left hi, List.getElem?_eq_getElem hi]
  obtain ⟨p, hp, hentry⟩ := Option.map_eq_some_iff.mp (List.getElem?_map ▸ hsent)
  have hlog := (h.follows p (List.mem_of_getElem? hp)).2
  rw [h.inOrder i p hi hp, hentry] at hlog
  exact hlog

/-- The state machine goes on. -/
theorem keeps (h : ReaderInv s r) (hkeeps : KeepsCommitted s s') (hgrows : BusGrows s s')
    (hpublished : s'.publishedCommitIndex = s'.commitIndex) : ReaderInv s' r := by
  have hfollows := h.follows.step hkeeps hgrows
  obtain ⟨new, hsent, -⟩ := hgrows
  refine ⟨hpublished, hfollows, ?_, fun i p hi hp => ?_, h.lags.trans hkeeps.commit, h.query⟩
  · rw [hsent, List.map_append]
    exact h.linked.trans (List.prefix_append ..)
  · have hlength : r.sent.length ≤ s.logEntryBus.sent.length := by
      simpa using h.linked.length_le
    rw [hsent, List.getElem?_append_left (by omega)] at hp
    exact h.inOrder i p hi hp

/-- The query worker goes on, or something happens that concerns neither the bus nor the commit
index. -/
theorem reads (h : ReaderInv s r) {event : ReadEvent} (hok : r.Committed event)
    (hsent : (r.step event).sent = r.sent)
    (hlags : (r.step event).memory.commitIndex ≤ s.commitIndex) : ReaderInv s (r.step event) := by
  obtain ⟨applied, hquery⟩ := h.query
  exact ⟨h.published, h.follows, hsent ▸ h.linked, hsent ▸ h.inOrder, hlags, hquery.step event hok⟩

/-- The state machine puts the next entry on the bus. -/
theorem broadcast (h : ReaderInv s r) {next : ℕ × OwnedLogEntry}
    (hnext : s.logEntryBus.sent[r.sent.length]? = some next)
    (hstored : r.memory.commitIndex = s.publishedCommitIndex)
    (hplace : next.1 = r.sent.length) (hindex : next.2.index = next.1)
    (hterm : next.2.term ≠ truncateSignalTerm) : ReaderInv s (r.step (.put next.2)) := by
  obtain ⟨applied, hquery⟩ := h.query
  have hcommitted : next.2.index ≤ r.memory.commitIndex := by
    rw [hindex, hstored, h.published]
    exact (h.follows next (List.mem_of_getElem? hnext)).1
  have hlinked : r.sent ++ [next.2] <+: s.logEntryBus.sent.map Prod.snd := by
    obtain ⟨more, hmore⟩ := h.linked
    have hhead : (r.sent ++ more)[r.sent.length]? = some next.2 := by
      rw [hmore, List.getElem?_map, hnext]
      rfl
    rw [List.getElem?_append_right le_rfl, Nat.sub_self] at hhead
    cases more with
    | nil => cases hhead
    | cons entry rest =>
      obtain rfl : entry = next.2 := Option.some.inj hhead
      exact ⟨rest, by rw [← hmore, List.append_assoc]; rfl⟩
  refine ⟨h.published, h.follows, hlinked, fun i p hi hp => ?_, h.lags,
    hquery.step (.put next.2) ⟨hindex.trans hplace, hcommitted, hterm⟩⟩
  have hi : i < (r.sent ++ [next.2]).length := hi
  rw [List.length_append, List.length_singleton] at hi
  by_cases hlast : i = r.sent.length
  · subst hlast
    obtain rfl := Option.some.inj (hnext.symm.trans hp)
    exact hplace
  · exact h.inOrder i p (by omega) hp

end ReaderInv

/-- A step of the cluster in which node `a` is not restarted. -/
theorem World.keepsCommitted_step [Capnp] [ParsesSocketAddr] {C : Cluster} {w : World}
    {label : Label} {a : ℕ} (hrunning : label.restarted ≠ some a)
    (hstable : ∀ e, w.NodeStep label a e → (w.process a).node.CommitsStably e)
    (hpublished : (w.shared a).publishedCommitIndex = (w.shared a).commitIndex) :
    KeepsCommitted (w.shared a) ((w.step C label).shared a) ∧
      BusGrows (w.shared a) ((w.step C label).shared a) ∧
      ((w.step C label).shared a).publishedCommitIndex = ((w.step C label).shared a).commitIndex := by
  unfold World.shared at hpublished ⊢
  rcases World.node_step (C := C) w label a with ⟨e, he, -, hnode⟩ | ⟨_, _, _, hnode, -⟩
  · rw [hnode]
    have hsame : e.isRestart = false := by
      obtain ⟨event, rfl, hevent⟩ := he
      cases event with
      | restart clock written accepts => exact absurd rfl hrunning
      | accept clock =>
        obtain ⟨message, -, rfl⟩ := Option.map_eq_some_iff.mp hevent
        rfl
      | timeStep clock part => cases hevent; rfl
      | processTask => cases hevent; rfl
      | flush => cases hevent; rfl
      | _ => cases hevent
    obtain ⟨hkeeps, hpublished'⟩ := keepsCommitted_step_iff (w.process a).node e hsame hpublished
    exact ⟨hkeeps.mpr (hstable e he), busGrows_step _ hsame, hpublished'⟩
  · rw [hnode]
    exact ⟨⟨le_rfl, le_rfl, fun _ _ _ h => h⟩, .of_eq rfl, hpublished⟩

/-- A step in which it is. -/
theorem World.busFollows_restart [Capnp] [ParsesSocketAddr] {C : Cluster} {w : World}
    {label : Label} {a : ℕ} (hrestarted : label.restarted = some a)
    (hpublished : (w.shared a).publishedCommitIndex = (w.shared a).commitIndex)
    (hfollows : BusFollows (w.shared a)) :
    ((w.step C label).shared a).publishedCommitIndex = ((w.step C label).shared a).commitIndex ∧
      BusFollows ((w.step C label).shared a) ∧
      (((w.step C label).shared a).callbackResponses = [] ∨
        (w.shared a).commitIndex ≤ ((w.step C label).shared a).commitIndex) := by
  obtain ⟨clock, written, accepts, rfl⟩ :
      ∃ clock written accepts, label = .act a (.restart clock written accepts) := by
    unfold Label.restarted at hrestarted
    split at hrestarted
    · obtain rfl := Option.some.inj hrestarted
      exact ⟨_, _, _, rfl⟩
    · cases hrestarted
  by_cases ha : a ∈ C.members
  · unfold World.shared
    rw [World.step_act ha, World.process_update_self]
    exact ⟨rfl, (fun _ hp => nomatch hp), Or.inl rfl⟩
  · rw [World.step_act_of_notMem ha]
    exact ⟨hpublished, hfollows, Or.inr le_rfl⟩

/-! ## Writes that a node commits itself -/

/-- A leader has made an entry at `index` of the batch that write proxy `proxy` has handed in. -/
def Service.Made (s : Service) (proxy index : ℕ) : Prop :=
  ∃ submission entry, s.submissions[proxy]? = some submission ∧
    (submission.batchId, entry) ∈ s.stored ∧ entry.index = index ∧
    entry.commands = submission.prepared.1.requests

/-- The writes of node `a` on their way: those that wait at its state machine, those that wait for
acknowledgements, those that it has answered, and those that its write proxies have passed on. -/
structure WriteInv (a : ℕ) (s : Service) : Prop where
  inbox : ∀ m ∈ (s.world.process a).inbox, ∀ batch proxy, m.payload = .writeBatch batch →
    m.callback = .proxy proxy → ∃ submission ∈ s.submissions[proxy]?, batch = submission.prepared.1
  waits : ∀ id msg, (s.world.shared a).outstandingMessages.lookup id = some msg →
    ∀ proxy index, msg.messageType.write? = some (.proxy proxy, index) → s.Made proxy index
  answers : ∀ proxy payload, (.proxy proxy, payload) ∈ (s.world.shared a).callbackResponses →
    payload.isWritten = true → ∃ index ≤ (s.world.shared a).commitIndex, s.Made proxy index
  told : ∀ proxy ∈ s.told a, ∃ index ≤ (s.reader a).memory.commitIndex, s.Made proxy index

namespace WriteInv

variable {a : ℕ} {s : Service}

/-- A `PUT` that the node has committed itself is committed as far as its clients see. -/
theorem reached (h : WriteInv a s) {put : String × ClientPut} (hhere : s.CommittedHere a put)
    (hkept : s.Kept a put.1) : s.Reached a (s.reader a).memory.commitIndex put := by
  obtain ⟨proxy, hproxy, submission, hsubmission, hbatch, hput⟩ := hhere
  obtain ⟨index, hindex, other, entry, hother, hentry, rfl, hcommands⟩ := h.told proxy hproxy
  obtain rfl : other = submission := Option.some.inj (hother.symm.trans hsubmission)
  obtain ⟨hone, hlog⟩ := hkept _ hentry hbatch
  refine ⟨_, hentry, hbatch, ?_, hone, hindex, hlog⟩
  rw [hcommands]
  exact List.mem_flatMap.mpr ⟨put.2.batch, List.mem_map_of_mem hput, List.mem_singleton.mpr rfl⟩

section Steps

variable [Capnp] [ParsesSocketAddr] {C : Cluster} {label : Label} {proxy index : ℕ}

theorem made_advance (h : s.Made proxy index) : (s.advance C label).Made proxy index := by
  obtain ⟨submission, entry, hsubmission, hentry, hmade⟩ := h
  exact ⟨submission, entry, hsubmission, List.mem_append_left _ hentry, hmade⟩

/-- The node accepts a write of a write proxy: the entry that it appends is noted. -/
theorem made_of_appends (h : WriteInv a s) {e : NodeEvent} {message : LocalRaftMessage}
    (he : s.world.NodeStep label a e) (hmessage : message ∈ e.message?) (hproxy : message.callback = .proxy proxy)
    (happends : AppendsWrite message index (s.world.shared a) ((s.advance C label).world.shared a)) :
    (s.advance C label).Made proxy index := by
  obtain ⟨batch, entry, hpayload, hlog, hindex, hcommands⟩ := happends
  obtain ⟨event, rfl, hevent⟩ := he
  cases event with
  | accept clock =>
    obtain ⟨head, hhead, rfl⟩ := Option.map_eq_some_iff.mp hevent
    obtain rfl := Option.some.inj hmessage
    obtain ⟨submission, hsubmission, rfl⟩ := h.inbox head (List.mem_of_mem_head? hhead) batch proxy
      hpayload hproxy
    refine ⟨submission, entry, hsubmission, List.mem_append_right _ ?_, hindex, hcommands⟩
    obtain ⟨payload, callback⟩ := head
    obtain rfl : payload = .writeBatch submission.prepared.1 := hpayload
    simp only [Service.appended, hhead]
    show _ ∈ (((s.advance C _).world.shared a).replicationLog.drop _).map _
    rw [hlog, List.drop_left]
    exact List.mem_singleton.mpr rfl
  | timeStep clock part => cases hevent; cases hmessage
  | processTask => cases hevent; cases hmessage
  | flush => cases hevent; cases hmessage
  | restart clock written accepts => cases hevent; cases hmessage
  | _ => cases hevent

/-- What waits for acknowledgements after a step waited before, or is accepted in it. -/
theorem waits_advance (h : WriteInv a s) {id : ℕ} {msg : OutstandingMessage}
    (hmsg : ((s.advance C label).world.shared a).outstandingMessages.lookup id = some msg)
    (hwrite : msg.messageType.write? = some (.proxy proxy, index)) :
    (s.advance C label).Made proxy index := by
  change ((s.world.step C label).process a).node.shared.outstandingMessages.lookup id = _ at hmsg
  rcases World.node_step (C := C) s.world label a with ⟨e, he, -, hnode⟩ | ⟨_, _, _, hnode, -⟩
  · rw [hnode] at hmsg
    have hcallback := OutstandingMessageType.callback?_of_write hwrite
    rcases (accounts_step (s.world.process a).node e).waits id msg hmsg with
      ⟨old, hold, -, hsame⟩ | hnone | ⟨message, hmessage, hnew, happends⟩
    · exact made_advance (h.waits id old hold proxy index (hsame ▸ hwrite))
    · rw [hcallback] at hnone
      cases hnone
    · refine h.made_of_appends he hmessage (Option.some.inj (hnew.symm.trans hcallback)) ?_
      show AppendsWrite message index _ ((s.world.step C label).process a).node.shared
      rw [hnode]
      exact happends _ hwrite
  · rw [hnode] at hmsg
    exact made_advance (h.waits id msg hmsg proxy index hwrite)

/-- What is answered after a step was answered before, or has waited and is committed now. -/
theorem answers_advance (h : WriteInv a s)
    (hcommit : (s.world.shared a).commitIndex ≤ ((s.advance C label).world.shared a).commitIndex)
    {payload : LocalRaftResponsePayload}
    (hanswer : (.proxy proxy, payload) ∈ ((s.advance C label).world.shared a).callbackResponses)
    (hwritten : payload.isWritten = true) :
    ∃ index ≤ ((s.advance C label).world.shared a).commitIndex,
      (s.advance C label).Made proxy index := by
  have hold : (.proxy proxy, payload) ∈ (s.world.shared a).callbackResponses →
      ∃ index ≤ ((s.advance C label).world.shared a).commitIndex,
        (s.advance C label).Made proxy index := by
    intro hold
    obtain ⟨index, hindex, hmade⟩ := h.answers proxy payload hold hwritten
    exact ⟨index, hindex.trans hcommit, made_advance hmade⟩
  change _ ∈ ((s.world.step C label).process a).node.shared.callbackResponses at hanswer
  rcases World.node_step (C := C) s.world label a with
    ⟨e, -, -, hnode⟩ | ⟨_, answers, _, hnode, hfewer⟩
  · rw [hnode] at hanswer
    rcases (accounts_step (s.world.process a).node e).answers _ hanswer with
      hmem | ⟨_, -, -, hrefused⟩ | ⟨id, msg, hmsg, hcallback, hwrite, hle⟩
    · exact hold hmem
    · rw [hwritten] at hrefused
      cases hrefused
    · rw [hwritten] at hwrite
      obtain ⟨⟨callback, index⟩, hindex⟩ := Option.isSome_iff_exists.mp hwrite.symm
      obtain rfl := Option.some.inj
        (hcallback.symm.trans (OutstandingMessageType.callback?_of_write hindex))
      refine ⟨index, ?_, made_advance (h.waits id msg hmsg proxy index hindex)⟩
      show index ≤ ((s.world.step C label).process a).node.shared.commitIndex
      rw [hnode]
      exact hle _ hindex
  · rw [hnode] at hanswer
    exact hold (hfewer.subset hanswer)

/-- **A step of the cluster.** -/
theorem advance (h : WriteInv a s)
    (hwrite : ∀ batch proxy, label = .act a (.write batch proxy) →
      ∃ submission ∈ s.submissions[proxy]?, batch = submission.prepared.1)
    (hcommit : ((s.advance C label).world.shared a).callbackResponses = [] ∨
      (s.world.shared a).commitIndex ≤ ((s.advance C label).world.shared a).commitIndex) :
    WriteInv a (s.advance C label) := by
  refine ⟨fun m hm batch proxy hpayload hproxy => ?_, fun id msg hmsg proxy index hwrite =>
    h.waits_advance hmsg hwrite, fun proxy payload hanswer hwritten => ?_, fun proxy hproxy => ?_⟩
  · show ∃ submission ∈ s.submissions[proxy]?, _
    change m ∈ ((s.world.step C label).process a).inbox at hm
    rcases World.process_step C s.world label a with ⟨event, hlabel, -, hstep⟩ |
      ⟨i, packet, -, -, -, hstep⟩ | hsame
    · rw [hstep] at hm
      rcases Process.inbox_step hm hproxy with hold | hstate | ⟨batch', rfl, hpayload'⟩
      · exact h.inbox m hold batch proxy hpayload hproxy
      · rw [hstate] at hpayload
        cases hpayload
      · rw [hpayload] at hpayload'
        cases hpayload'
        exact hwrite batch proxy hlabel
    · rw [hstep] at hm
      exact h.inbox m (Process.inbox_receive hm hproxy) batch proxy hpayload hproxy
    · rw [hsame] at hm
      exact h.inbox m hm batch proxy hpayload hproxy
  · rcases hcommit with hnone | hcommit
    · rw [hnone] at hanswer
      cases hanswer
    · exact h.answers_advance hcommit hanswer hwritten
  · have htold : proxy ∈ if label.restarted = some a then [] else s.told a := hproxy
    split_ifs at htold with hrestarted
    · cases htold
    · obtain ⟨index, hindex, hmade⟩ := h.told proxy htold
      have hreader : (s.advance C label).reader a = s.reader a := if_neg hrestarted
      exact ⟨index, hreader ▸ hindex, made_advance hmade⟩

end Steps

/-- A write proxy hands in a batch. -/
theorem submit (h : WriteInv a s) (submission : Submission) :
    WriteInv a { s with submissions := s.submissions ++ [submission] } := by
  have hgrows : ∀ {proxy : ℕ} {old : Submission}, s.submissions[proxy]? = some old →
      (s.submissions ++ [submission])[proxy]? = some old := fun hold => by
    rw [List.getElem?_append_left (List.getElem?_eq_some_iff.mp hold).1, hold]
  have hmade : ∀ {proxy index : ℕ}, s.Made proxy index →
      Service.Made { s with submissions := s.submissions ++ [submission] } proxy index :=
    fun ⟨old, entry, hold, hentry⟩ => ⟨old, entry, hgrows hold, hentry⟩
  refine ⟨fun m hm batch proxy hpayload hproxy => ?_,
    fun id msg hmsg proxy index hwrite => hmade (h.waits id msg hmsg proxy index hwrite),
    fun proxy payload hanswer hwritten => ?_, fun proxy hproxy => ?_⟩
  · obtain ⟨old, hold, heq⟩ := h.inbox m hm batch proxy hpayload hproxy
    exact ⟨old, hgrows hold, heq⟩
  · obtain ⟨index, hindex, hold⟩ := h.answers proxy payload hanswer hwritten
    exact ⟨index, hindex, hmade hold⟩
  · obtain ⟨index, hindex, hold⟩ := h.told proxy hproxy
    exact ⟨index, hindex, hmade hold⟩

/-- The commit index that the clients of the node see does not fall. -/
theorem told_of_le (h : WriteInv a s) {r : ReadSystem}
    (hle : (s.reader a).memory.commitIndex ≤ r.memory.commitIndex) :
    ∀ proxy ∈ s.told a, ∃ index ≤ r.memory.commitIndex, s.Made proxy index := fun proxy hproxy => by
  obtain ⟨index, hindex, hmade⟩ := h.told proxy hproxy
  exact ⟨index, hindex.trans hle, hmade⟩

/-- The write proxies of a node pass on what it has answered. -/
theorem confirm (h : WriteInv a s)
    (hpublished : (s.world.shared a).publishedCommitIndex = (s.world.shared a).commitIndex) (b : ℕ) :
    WriteInv a (s.confirm b) := by
  unfold Service.confirm
  split_ifs with hstored
  · refine ⟨h.inbox, h.waits, h.answers, fun proxy hproxy => ?_⟩
    change proxy ∈ Function.update s.told b _ a at hproxy
    by_cases hab : a = b
    · subst hab
      rw [Function.update_self] at hproxy
      obtain ⟨answer, hanswer, rfl⟩ := List.mem_map.mp hproxy
      obtain ⟨hmem, hwritten⟩ := List.mem_filter.mp hanswer
      obtain ⟨⟨callback, payload⟩, hresponse, heq⟩ := List.mem_filterMap.mp hmem
      cases callback with
      | pending => cases heq
      | proxy number =>
        obtain rfl := Option.some.inj heq
        show ∃ index ≤ (s.reader a).memory.commitIndex, _
        rw [hstored, hpublished]
        exact h.answers number payload hresponse hwritten
    · rw [Function.update_of_ne hab] at hproxy
      exact h.told proxy hproxy
  · exact h

end WriteInv

/-- The invariant of a node and of the `GET`s it was asked. -/
structure SessionInv (a : ℕ) (s : Service) : Prop where
  reader : ReaderInv (s.world.shared a) (s.reader a)
  writes : WriteInv a s
  asked : ∀ get ∈ s.asked, get.node = a →
    get.query.index ≤ (s.world.shared a).commitIndex ∧
      ∀ put ∈ get.confirmed, put.2.key = get.query.id → s.Reached a get.query.index put

namespace SessionInv

variable [Capnp] [ParsesSocketAddr] {C : Cluster} {a : ℕ} {s : Service}

theorem start (clock : ℕ → Clock) (accepts : ℕ → ℕ → Bool) :
    SessionInv a (.start C clock accepts) :=
  ⟨.start rfl (fun _ hp => nomatch hp), ⟨nofun, nofun, nofun, nofun⟩, (fun _ hget => nomatch hget)⟩

/-- **A step of the cluster.** -/
theorem advance (h : SessionInv a s) {label : Label}
    (hwrite : ∀ batch proxy, label = .act a (.write batch proxy) →
      ∃ submission ∈ s.submissions[proxy]?, batch = submission.prepared.1)
    (hstable : ∀ e, s.world.NodeStep label a e → (s.world.process a).node.CommitsStably e) :
    SessionInv a (s.advance C label) := by
  by_cases hrestarted : label.restarted = some a
  · obtain ⟨hpublished, hfollows, hcommit⟩ := World.busFollows_restart (C := C) hrestarted
      h.reader.published h.reader.follows
    refine ⟨?_, h.writes.advance hwrite hcommit, fun get hget hnode => ?_⟩
    · have hreader : (s.advance C label).reader a = .start := if_pos hrestarted
      rw [hreader]
      exact .start hpublished hfollows
    · -- what was asked is lost with the process
      have hlost := of_decide_eq_true (List.mem_filter.mp hget).2
      exact absurd (hrestarted.trans (congrArg some hnode.symm)) hlost
  · obtain ⟨hkeeps, hgrows, hpublished⟩ := World.keepsCommitted_step (C := C) hrestarted hstable
      h.reader.published
    refine ⟨?_, h.writes.advance hwrite (Or.inr hkeeps.commit), fun get hget hnode => ?_⟩
    · have hreader : (s.advance C label).reader a = s.reader a := if_neg hrestarted
      rw [hreader]
      exact h.reader.keeps hkeeps hgrows hpublished
    · obtain ⟨hindex, hputs⟩ := h.asked get (List.mem_filter.mp hget).1 hnode
      refine ⟨hindex.trans hkeeps.commit, fun put hput hkey => ?_⟩
      obtain ⟨record, hrecord, hbatch, hcommand, hone, hle, hlog⟩ := hputs put hput hkey
      exact ⟨record, List.mem_append_left _ hrecord, hbatch, hcommand, hone, hle,
        hkeeps.positions _ _ (hle.trans hindex) hlog⟩

omit [Capnp] [ParsesSocketAddr] in
/-- **An access** by a thread of the node. -/
theorem access (h : SessionInv a s) (access : ReadAccess)
    (hok : s.Propagates a (.read a access)) :
    ReaderInv (s.world.shared a) (s.access a access) := by
  cases access with
  | storeCommitIndex =>
    show ReaderInv _ ((s.reader a).step (.raise (s.world.shared a).publishedCommitIndex))
    refine h.reader.reads ?_ rfl h.reader.published.le
    show (s.reader a).memory.commitIndex ≤ _
    rw [h.reader.published]
    exact h.reader.lags
  | bumpVersion =>
    show ReaderInv _ ((s.reader a).step .bumpVersion)
    exact h.reader.reads trivial rfl h.reader.lags
  | broadcast =>
    rcases hnext : s.nextOnBus a with _ | next
    · simp only [Service.access, hnext]
      exact h.reader
    · obtain ⟨hplace, hindex, hterm⟩ := hok rfl next hnext
      simp only [Service.access, hnext]
      split_ifs with hstored
      · exact h.reader.broadcast hnext hstored hplace hindex hterm
      · exact h.reader
  | work =>
    show ReaderInv _ ((s.reader a).step .work)
    refine h.reader.reads trivial rfl ?_
    show ((s.reader a).worker.step (s.reader a).memory).1.commitIndex ≤ _
    rw [((s.reader a).worker.memory_step (s.reader a).memory).2.1]
    exact h.reader.lags

omit [Capnp] [ParsesSocketAddr] in
/-- It never lowers the commit index. -/
theorem commitIndex_le_access (h : SessionInv a s) (access : ReadAccess) :
    (s.reader a).memory.commitIndex ≤ (s.access a access).memory.commitIndex := by
  cases access with
  | storeCommitIndex =>
    show _ ≤ (s.world.shared a).publishedCommitIndex
    rw [h.reader.published]
    exact h.reader.lags
  | bumpVersion => exact le_rfl
  | broadcast =>
    unfold Service.access
    dsimp only
    split
    · split_ifs <;> exact le_rfl
    · exact le_rfl
  | work => exact ((s.reader a).worker.memory_step (s.reader a).memory).2.1.ge

/-- A write proxy hands in a batch, which is no event of the node itself. -/
theorem submit (h : SessionInv a s) (b : ℕ) (route : Option ℕ) (batchId : String)
    (puts : List ClientPut) : SessionInv a (s.step C (.submit b route batchId puts)) := by
  refine SessionInv.advance (s := { s with submissions := s.submissions ++ [⟨b, batchId, puts⟩] })
    ⟨h.reader, h.writes.submit _, h.asked⟩ (fun batch proxy heq => ?_) ?_
  · obtain ⟨rfl, hevent⟩ := Label.act.inj heq
    cases route with
    | none =>
      obtain ⟨rfl, rfl⟩ := ProcessEvent.write.inj hevent
      exact ⟨_, List.getElem?_concat_length, rfl⟩
    | some k => cases hevent
  · rintro e ⟨event, heq, he⟩
    obtain ⟨-, rfl⟩ := Label.act.inj heq
    cases route <;> cases he

omit [Capnp] [ParsesSocketAddr] in
/-- A thread goes on with `r` at node `b`. -/
theorem update (h : SessionInv a s) {b : ℕ} {r : ReadSystem}
    (hreader : b = a → ReaderInv (s.world.shared a) r)
    (hle : b = a → (s.reader a).memory.commitIndex ≤ r.memory.commitIndex) :
    SessionInv a { s with reader := Function.update s.reader b r } := by
  by_cases hab : b = a
  · subst hab
    refine ⟨?_, ⟨h.writes.inbox, h.writes.waits, h.writes.answers, ?_⟩, h.asked⟩ <;>
      dsimp only <;> rw [Function.update_self]
    · exact hreader rfl
    · exact h.writes.told_of_le (hle rfl)
  · refine ⟨?_, ⟨h.writes.inbox, h.writes.waits, h.writes.answers, ?_⟩, h.asked⟩ <;>
      dsimp only <;> rw [Function.update_of_ne (Ne.symm hab)]
    · exact h.reader
    · exact h.writes.told

/-- **One event.** -/
theorem step (h : SessionInv a s) {event : ServiceEvent} (hok : s.Propagates a event) :
    SessionInv a (s.step C event) := by
  cases event with
  | submit b route batchId puts => exact h.submit b route batchId puts
  | cluster label =>
    show SessionInv a (if label.handsIn then s else s.advance C label)
    split_ifs with hhands
    · exact h
    · refine h.advance (fun batch proxy heq => ?_) fun e he => ?_
      · subst heq
        exact absurd rfl hhands
      · obtain ⟨event, rfl, he⟩ := he
        exact hok rfl e he
  | confirm b =>
    have hwrites := h.writes.confirm h.reader.published b
    show SessionInv a (s.confirm b)
    unfold Service.confirm at hwrites ⊢
    split_ifs at hwrites ⊢
    · exact ⟨h.reader, hwrites, h.asked⟩
    · exact h
  | read b access =>
    refine h.update (fun hb => ?_) (fun hb => ?_) <;> subst hb
    · exact h.access access hok
    · exact h.commitIndex_le_access access
  | get b client key =>
    have hupdate := h.update (b := b)
      (r := (s.reader b).step (.ask ⟨key, (s.reader b).memory.commitIndex, s.queries⟩))
      (fun hb => by subst hb; exact h.reader.reads trivial rfl h.reader.lags)
      (fun hb => by subst hb; exact le_rfl)
    obtain ⟨hreader, hwrites, hasked⟩ := hupdate
    refine ⟨hreader, ⟨hwrites.inbox, hwrites.waits, hwrites.answers, hwrites.told⟩,
      fun get hget hnode => ?_⟩
    rcases List.mem_append.mp hget with hget | hget
    · exact h.asked get hget hnode
    · obtain rfl := List.mem_singleton.mp hget
      obtain rfl : b = a := hnode
      exact ⟨h.reader.lags, fun put hput hkey => (hok rfl put hput hkey).elim id
        fun hhere => h.writes.reached hhere.1 hhere.2⟩

omit [Capnp] [ParsesSocketAddr] in
/-- An answer of the query worker includes the `PUT`s that had reached the node. -/
theorem includes (h : SessionInv a s) {get : ClientGet} (hget : get ∈ s.asked)
    (hnode : get.node = a) {answer : Option (List UInt8)}
    (hanswer : (get.query, answer) ∈ (s.reader a).memory.answers) {put : String × ClientPut}
    (hput : put ∈ get.confirmed) (hkey : put.2.key = get.query.id) : s.Includes a put answer := by
  obtain ⟨record, hrecord, hbatch, hcommand, hone, hle, hlog⟩ :=
    (h.asked get hget hnode).2 put hput hkey
  obtain ⟨applied, hquery⟩ := h.reader.query
  obtain ⟨k, hlt, hk, rfl⟩ := hquery.answered get.query answer hanswer (hone.trans hle)
  obtain ⟨before, after, hcommands⟩ := List.append_of_mem hcommand
  -- the entry stands among those that were applied
  have hentry : ((s.reader a).sent.take k)[record.2.index]? = some record.2 := by
    obtain ⟨more, hmore⟩ := h.reader.sent_isPrefix
    rw [← hmore, List.getElem?_append_left (by omega)] at hlog
    rw [List.getElem?_take_of_lt (by omega), hlog]
  obtain ⟨hi, hrecordAt⟩ := List.getElem?_eq_some_iff.mp hentry
  have hsplit := List.take_append_drop record.2.index ((s.reader a).sent.take k)
  rw [List.drop_eq_getElem_cons hi, hrecordAt] at hsplit
  refine ⟨((s.reader a).sent.take k).take record.2.index, record.2,
    ((s.reader a).sent.take k).drop (record.2.index + 1), before, after, ?_, hbatch ▸ hrecord,
    hcommands, ?_⟩
  · rw [hsplit]
    exact (List.take_prefix k _).trans h.reader.sent_isPrefix
  · have hlookup := lookup_replayEntries (((s.reader a).sent.take k).take record.2.index)
      (((s.reader a).sent.take k).drop (record.2.index + 1)) hcommands
    rw [hsplit] at hlookup
    rw [← hkey]
    exact hlookup

end SessionInv

/-! ## The result -/

/-- **Reading one's own writes.**  In every run of the service, a `GET` that node `a` answers is
answered from a state that includes the `PUT`s to its key that the node had confirmed to the client
before: if the commit index of the node does not fall and its committed entries stay, its bus carries
its log in order, and the entries of those `PUT`s are committed at the node when the `GET` is asked.
Of a `PUT` that the node has committed itself it is enough that its entry is in the log. -/
theorem read_your_writes [Capnp] [ParsesSocketAddr] (C : Cluster) (clock : ℕ → Clock)
    (accepts : ℕ → ℕ → Bool) (a : ℕ) (events : List ServiceEvent)
    (hrun : Runs.AllSteps (Service.step C) (Service.Propagates a) (.start C clock accepts) events) :
    let s := Runs.run (Service.step C) (Service.start C clock accepts) events
    ∀ get ∈ s.asked, get.node = a → ∀ answer, (get.query, answer) ∈ (s.reader a).memory.answers →
      ∀ put ∈ get.confirmed, put.2.key = get.query.id → s.Includes a put answer := by
  intro s get hget hnode answer hanswer put hput hkey
  have hinv : SessionInv a s := hrun.invariant (SessionInv a)
    (fun _ _ h hok => h.step hok) (.start clock accepts)
  exact hinv.includes hget hnode hanswer hput hkey

/-! ## A client of node 3 -/

/-- A client's `PUT`. -/
def ownPut : ClientPut := ⟨1, "key", [7], "put", 0⟩

/-- The leader accepts a batch, and all nodes store its entry. -/
def commitBatch : List Label :=
  .act 1 (.accept ⟨1021, 0⟩) :: storeAtLeader 1022 ++ [.act 1 (.workerTask 0 1022)] ++
    storeAt 2 1023 ++ [.act 1 (.workerTask 1 1024)] ++ storeAt 3 1025

/-- Node 3 forwards a batch to the leader, which commits it and answers. -/
def commitForwarded : List Label :=
  [.act 3 (.workerTask 0 1020), .deliver 0] ++ commitBatch ++ [.act 1 (.answer 1 0), .deliver 0]

/-- The `PUT` is sent to node 3, and node 3 confirms it to the client. -/
def confirmedPut : List ServiceEvent :=
  noopEverywhere.map .cluster ++ [.submit 3 (some 0) "batch" [ownPut]] ++
    commitForwarded.map .cluster

/-- The leader's heartbeat tells node 3 what is committed. -/
def heartbeatToThree : List Label :=
  [.act 1 (.workerTask 1 1200), .act 1 (.heartbeat 1 1200), .deliver 0, .act 3 (.accept ⟨1201, 0⟩)]

/-- The accesses of a state machine that has committed the first two entries. -/
def publish (a : ℕ) : List ServiceEvent :=
  [.read a .storeCommitIndex, .read a .bumpVersion, .read a .broadcast, .read a .broadcast,
    .read a .bumpVersion]

/-- Node 3 learns that the entry is committed, and makes its accesses. -/
def commitAtThree : List ServiceEvent := heartbeatToThree.map .cluster ++ publish 3

/-- The client asks node 3 for the key, and the query worker goes on until it has answered. -/
def askThree (steps : ℕ) : List ServiceEvent :=
  .get 3 1 "key" :: List.replicate steps (.read 3 .work)

/-- A run of the service with three nodes. -/
def serviceOfThree (events : List ServiceEvent) : Service :=
  letI := digitCapnp
  letI := sampleAddresses
  Runs.run (Service.step clusterOfThree)
    (Service.start clusterOfThree (fun _ => ⟨0, 0⟩) fun _ _ => true) events

/-- What the client has asked, when node 3 has learnt that the entry is committed. -/
def askedInTime : ClientGet := ⟨3, 1, ⟨"key", 1, 0⟩, [("batch", ownPut)]⟩

theorem read_your_writes_at_three :
    (askedInTime.query, some [7]) ∈
        ((serviceOfThree (confirmedPut ++ commitAtThree ++ askThree 7)).reader 3).memory.answers ∧
      (serviceOfThree (confirmedPut ++ commitAtThree ++ askThree 7)).Includes 3 ("batch", ownPut)
        (some [7]) := by
  have hanswer : (askedInTime.query, some [7]) ∈
      ((serviceOfThree (confirmedPut ++ commitAtThree ++ askThree 7)).reader 3).memory.answers := by
    decide +kernel
  have hreads := @read_your_writes digitCapnp sampleAddresses clusterOfThree (fun _ => ⟨0, 0⟩)
    (fun _ _ => true) 3 (confirmedPut ++ commitAtThree ++ askThree 7) (by decide +kernel)
    askedInTime (by decide +kernel) rfl (some [7]) hanswer ("batch", ownPut) (by decide +kernel) rfl
  exact ⟨hanswer, hreads⟩

-- a client of the leader: its state machine has stored the commit index when it answers
example : let s := serviceOfThree (noopEverywhere.map .cluster ++
      [.submit 1 none "batch" [ownPut]] ++ commitBatch.map .cluster ++ publish 1 ++
      [.confirm 1, .get 1 1 "key"] ++ List.replicate 7 (.read 1 .work))
    s.CommittedHere 1 ("batch", ownPut) ∧
      (⟨"key", 1, 0⟩, some [7]) ∈ (s.reader 1).memory.answers := by
  decide +kernel

/-- The same `GET` before the next heartbeat of the leader. -/
def askedEarly : ClientGet := ⟨3, 1, ⟨"key", 0, 0⟩, [("batch", ownPut)]⟩

/-- **A client does not read its own write.**  Node 3 has confirmed the `PUT`, and answers the `GET`
from an empty map. -/
theorem own_write_not_read :
    ¬ ∀ (_ : Capnp) (_ : LawfulCapnp) (_ : ParsesSocketAddr) (C : Cluster) (clock : ℕ → Clock)
      (accepts : ℕ → ℕ → Bool) (a : ℕ) (events : List ServiceEvent),
      let s := Runs.run (Service.step C) (Service.start C clock accepts) events
      ∀ get ∈ s.asked, get.node = a → ∀ answer, (get.query, answer) ∈ (s.reader a).memory.answers →
        ∀ put ∈ get.confirmed, put.2.key = get.query.id → s.Includes a put answer := by
  intro h
  obtain ⟨_, _, _, _, _, -, -, -, hnone⟩ := h digitCapnp lawful_digitCapnp sampleAddresses
    clusterOfThree (fun _ => ⟨0, 0⟩) (fun _ _ => true) 3 (confirmedPut ++ askThree 3) askedEarly
    (by decide +kernel) rfl none (by decide +kernel) ("batch", ownPut) (by decide +kernel) rfl
  cases hnone

end Kraft
