/-
# The connection from one node to another

The quorum worker of a node puts messages into a bounded channel.  `MessageSender::run` writes them
to a connection, after a `ConnectRequest` with the id of its node; `handle_connection` at the other
end reads the id and passes the messages on to a second one, from which the quorum worker for the
sender takes up to 32 in each round of its loop.

The reader refuses messages of more than 64 MiB and bytes that are no message, and ends the
connection then.  `PeerLink` is one connection with its two channels.  Its parts run in any order,
bytes arrive in pieces of any size or never, and writes fail at any byte; what is handled is still
an initial part of what was sent, each message once and unchanged (`link_in_order`).
-/
import Kraft.ByteStreams
import Kraft.Runs
import Kraft.TransportLimits

namespace Kraft

open Streams

variable {bytes stream : List UInt8}

/-! ## Messages -/

/-- The capnp crate, as far as a connection between nodes needs it. -/
class QuorumWire where
  /-- `read_message_from_flat_slice` takes the bytes. -/
  isMessage : List UInt8 → Bool
  /-- The message that `MessageSender::run` writes first. -/
  connectRequest : ℕ → List UInt8
  /-- The node id of a message that is a `ConnectRequest`. -/
  nodeId : List UInt8 → Option ℕ
  isMessage_connectRequest : ∀ id, isMessage (connectRequest id) = true
  nodeId_connectRequest : ∀ id, id < 2 ^ 32 → nodeId (connectRequest id) = some id
  length_connectRequest : ∀ id, (connectRequest id).length ≤ 64 * 1024 * 1024

/-- `write_message`: `bytes.len() as u32` in big-endian order, and the bytes. -/
def writeMessage (bytes : List UInt8) : List UInt8 :=
  (toLeBytes 4 bytes.length).reverse ++ bytes

/-- The number that `read_u32` reads. -/
def messageLen (stream : List UInt8) : ℕ := fromLeBytes (stream.take 4).reverse

/-- The bytes that `read_exact` reads next. -/
def messageBody (stream : List UInt8) : List UInt8 := (stream.drop 4).take (messageLen stream)

/-- `read_message`, on the bytes that have arrived. -/
def readMessage [QuorumWire] (stream : List UInt8) : Front (List UInt8) :=
  if stream.length < 4 then .incomplete
  else if maxMessageSize < messageLen stream then .refused
  else if stream.length < 4 + messageLen stream then .incomplete
  else if QuorumWire.isMessage (messageBody stream) then
    .message (messageBody stream) (stream.drop (4 + messageLen stream))
  else .refused

/-- The messages that the reader takes. -/
def Readable [QuorumWire] (bytes : List UInt8) : Bool :=
  bytes.length ≤ maxMessageSize && QuorumWire.isMessage bytes

/-- The length that is announced is in the first four bytes. -/
theorem messageLen_append (h : 4 ≤ stream.length) (more : List UInt8) :
    messageLen (stream ++ more) = messageLen stream := by
  unfold messageLen
  rw [List.take_append_of_le_length h]

theorem length_writeMessage (bytes : List UInt8) :
    (writeMessage bytes).length = 4 + bytes.length := by
  simp [writeMessage]

/-- The length is read back, up to what `as u32` cuts off. -/
theorem messageLen_writeMessage (h : bytes.length < 2 ^ 32) (rest : List UInt8) :
    messageLen (writeMessage bytes ++ rest) = bytes.length := by
  have htake : (writeMessage bytes ++ rest).take 4 = (toLeBytes 4 bytes.length).reverse := by
    rw [writeMessage, List.append_assoc]
    exact List.take_left' (by simp)
  rw [messageLen, htake, List.reverse_reverse]
  exact fromLeBytes_toLeBytes (by simpa using h)

/-- What follows a message does not change it. -/
theorem messageBody_append (h : 4 + messageLen stream ≤ stream.length) (more : List UInt8) :
    messageBody (stream ++ more) = messageBody stream := by
  unfold messageBody
  rw [messageLen_append (by omega), List.drop_append_of_le_length (by omega)]
  exact List.take_append_of_le_length (by rw [List.length_drop]; omega)

section Format

variable [QuorumWire]

/-- A message is read, whatever follows it. -/
theorem readMessage_append {rest : List UInt8} (more : List UInt8)
    (h : readMessage stream = .message bytes rest) :
    readMessage (stream ++ more) = .message bytes (rest ++ more) := by
  unfold readMessage at h
  split_ifs at h with hheader hlimit hwhole hvalid
  obtain ⟨rfl, rfl⟩ := Front.message.inj h
  have hlength : stream.length ≤ (stream ++ more).length := by simp
  unfold readMessage
  rw [messageBody_append (by omega), messageLen_append (by omega), if_neg (by omega),
    if_neg hlimit, if_neg (by omega), if_pos hvalid, List.drop_append_of_le_length (by omega)]

/-- A message that is refused stays so. -/
theorem readMessage_refused_append (more : List UInt8) (h : readMessage stream = .refused) :
    readMessage (stream ++ more) = .refused := by
  have hlength : stream.length ≤ (stream ++ more).length := by simp
  unfold readMessage at h
  split_ifs at h with hheader hlimit hwhole hvalid
  · unfold readMessage
    rw [messageLen_append (by omega), if_neg (by omega), if_pos hlimit]
  · unfold readMessage
    rw [messageBody_append (by omega), messageLen_append (by omega), if_neg (by omega),
      if_neg hlimit, if_neg (by omega), if_neg hvalid]

/-- What the reader makes of a message that has arrived. -/
theorem readMessage_writeMessage (h : bytes.length < 2 ^ 32) (rest : List UInt8) :
    readMessage (writeMessage bytes ++ rest) =
      if Readable bytes then .message bytes rest else .refused := by
  have hlength : (writeMessage bytes ++ rest).length = 4 + bytes.length + rest.length := by
    rw [List.length_append, length_writeMessage]
  have hbody : messageBody (writeMessage bytes ++ rest) = bytes := by
    unfold messageBody
    rw [messageLen_writeMessage h, writeMessage, List.append_assoc, List.drop_left' (by simp)]
    exact List.take_left' rfl
  have hend : (writeMessage bytes ++ rest).drop (4 + bytes.length) = rest :=
    List.drop_left' (length_writeMessage bytes)
  unfold readMessage
  rw [messageLen_writeMessage h, hlength, hbody, hend, if_neg (by omega)]
  unfold Readable
  by_cases hlimit : bytes.length ≤ maxMessageSize
  · rw [if_neg (by omega), if_neg (by omega)]
    simp [hlimit]
  · rw [if_pos (by omega)]
    simp [hlimit]

/-- The format of the messages between nodes. -/
def messageFormat : Format (List UInt8) where
  encode := writeMessage
  front := readMessage
  Fits bytes := bytes.length < 2 ^ 32
  accepts := Readable
  front_nil := rfl
  front_append more h := readMessage_append more h
  refused_append more h := readMessage_refused_append more h
  front_encode rest h := readMessage_writeMessage h rest

theorem readable_connectRequest (id : ℕ) : Readable (QuorumWire.connectRequest id) = true := by
  simp [Readable, QuorumWire.isMessage_connectRequest, maxMessageSize,
    QuorumWire.length_connectRequest id]

end Format

/-! ## One connection -/

/-- The bound of both channels. -/
def channelCapacity : ℕ := 10000

/-- `MAX_MESSAGES_PER_ITERATION`. -/
def maxMessagesPerIteration : ℕ := 32

/-- Where `handle_connection` stands. -/
inductive LinkPhase
  /-- waits for the `ConnectRequest` -/
  | accepted
  /-- in the loop, with its channel registered under the id -/
  | reading (nodeId : ℕ)
  | closed
  deriving DecidableEq

/-- A connection, from when the `ConnectRequest` is written.  `sent`, which the source does not
have, is what the quorum worker has put into the channel. -/
structure PeerLink where
  /-- The quorum worker holds the sending end of the channel. -/
  attached : Bool
  outbox : List (List UInt8)
  /-- `MessageSender::run` is in its loop. -/
  running : Bool
  pipe : Pipe
  phase : LinkPhase
  inbox : List (List UInt8)
  /-- The quorum worker of the receiver has found the channel. -/
  held : Bool
  handled : List (List UInt8)
  sent : List (List UInt8)

inductive LinkEvent
  /-- `send_message` of the quorum worker -/
  | send (bytes : List UInt8)
  /-- The quorum worker drops its end of the channel. -/
  | hangUp
  /-- `MessageSender::run` takes the next message and writes it, or leaves its loop. -/
  | write
  /-- Writing fails after `k` bytes. -/
  | writeError (k : ℕ)
  /-- The next `n` bytes arrive. -/
  | deliver (n : ℕ)
  /-- The next `read_message` of `handle_connection` is done. -/
  | read
  /-- `handle_connection` finds the end of the stream. -/
  | eof
  /-- Reading fails. -/
  | readError
  /-- `ensure_connections` of the receiver finds the channel. -/
  | pickUp
  /-- `process_incoming_messages` -/
  | collect
  deriving DecidableEq

/-- The events in which something breaks. -/
def LinkEvent.fails : LinkEvent → Bool
  | .writeError _ | .readError => true
  | _ => false

/-- The length of a message that is sent. -/
def LinkEvent.sentBytes : LinkEvent → ℕ
  | .send bytes => bytes.length
  | _ => 0

namespace PeerLink

variable [QuorumWire]

/-- The state after `ok.send(true)`. -/
def start (nodeId : ℕ) : PeerLink where
  attached := true
  outbox := []
  running := true
  pipe := (Pipe.mk [] []).write (writeMessage (QuorumWire.connectRequest nodeId))
  phase := .accepted
  inbox := []
  held := false
  handled := []
  sent := []

/-- `handle_connection`, up to its next `read_message`.  A full channel blocks the task, which keeps
the message it has read. -/
def read (l : PeerLink) : PeerLink :=
  match l.phase with
  | .accepted =>
    match readMessage l.pipe.buffer with
    | .incomplete => l
    | .refused => { l with phase := .closed }
    | .message bytes rest =>
      match QuorumWire.nodeId bytes with
      | some nodeId => { l with phase := .reading nodeId, pipe := { l.pipe with buffer := rest } }
      | none => { l with phase := .closed }
  | .reading _ =>
    if l.inbox.length < channelCapacity then
      match readMessage l.pipe.buffer with
      | .incomplete => l
      | .refused => { l with phase := .closed }
      | .message bytes rest =>
        { l with inbox := l.inbox ++ [bytes], pipe := { l.pipe with buffer := rest } }
    else l
  | .closed => l

omit [QuorumWire] in
/-- `process_incoming_messages`: an empty channel without a sender is given up. -/
def collect (l : PeerLink) : PeerLink :=
  if l.held then
    { l with
      handled := l.handled ++ l.inbox.take maxMessagesPerIteration
      inbox := l.inbox.drop maxMessagesPerIteration
      held := !(l.phase = .closed && l.inbox.length < maxMessagesPerIteration) }
  else l

/-- One step. -/
def step (l : PeerLink) : LinkEvent → PeerLink
  | .send bytes =>
    if l.attached && l.running && l.outbox.length < channelCapacity then
      { l with outbox := l.outbox ++ [bytes], sent := l.sent ++ [bytes] }
    else l
  | .hangUp => { l with attached := false }
  | .write =>
    if l.running then
      match l.outbox with
      | bytes :: rest => { l with outbox := rest, pipe := l.pipe.write (writeMessage bytes) }
      | [] => { l with running := l.attached }
    else l
  | .writeError k =>
    match l.running, l.outbox with
    | true, bytes :: _ =>
      { l with outbox := [], running := false, pipe := l.pipe.write ((writeMessage bytes).take k) }
    | _, _ => l
  | .deliver n => { l with pipe := l.pipe.deliver n }
  | .read => l.read
  | .eof =>
    if l.running = false ∧ l.pipe.wire = [] ∧ readMessage l.pipe.buffer = .incomplete then
      { l with phase := .closed }
    else l
  | .readError => { l with phase := .closed }
  | .pickUp => { l with held := l.held || l.phase matches .reading _ }
  | .collect => l.collect

/-- The `ConnectRequest`, as long as it is not read. -/
def handshake (nodeId : ℕ) (phase : LinkPhase) : List (List UInt8) :=
  if phase = .accepted then [QuorumWire.connectRequest nodeId] else []

/-- Where the messages are: those that were sent are handled, in the channel of the receiver,
written and unread, in the channel of the sender, or dropped with it.  `fine` says that nothing
breaks. -/
structure Inv (nodeId : ℕ) (fine : Prop) (l : PeerLink) (unread : List (List UInt8))
    (lost : List UInt8) (dropped : List (List UInt8)) : Prop where
  sent : l.sent = l.handled ++ l.inbox ++ unread ++ l.outbox ++ dropped
  sizes : ∀ m ∈ l.sent, m.length < 2 ^ 32
  readable : ∀ m ∈ l.handled ++ l.inbox, Readable m = true
  held : l.phase = .accepted → l.handled ++ l.inbox = []
  holds : l.phase ≠ .closed →
    messageFormat.Holds l.pipe (handshake nodeId l.phase ++ unread) lost
  writes : l.running = true → dropped = [] ∧ lost = []
  registered : ∀ id, l.phase = .reading id → id = nodeId
  whole : fine → lost = [] ∧ dropped = []
  stopped : l.running = false → l.outbox = []
  closed : fine → l.phase = .closed →
    (∃ m rest, unread = m :: rest ∧ Readable m = false) ∨ l.running = false ∧ unread = []

namespace Inv

variable {nodeId : ℕ} {fine : Prop} {l : PeerLink} {unread : List (List UInt8)}
  {lost : List UInt8} {dropped : List (List UInt8)}

/-- A link that has just been made. -/
theorem start (nodeId : ℕ) (fine : Prop) : Inv nodeId fine (start nodeId) [] [] [] where
  sent := rfl
  sizes _ hm := nomatch hm
  readable _ hm := nomatch hm
  held _ := rfl
  holds _ := Format.Holds.write .empty
    (lt_of_le_of_lt (QuorumWire.length_connectRequest nodeId) (by decide))
  writes _ := ⟨rfl, rfl⟩
  registered _ hphase := nomatch hphase
  whole _ := ⟨rfl, rfl⟩
  stopped hstopped := nomatch hstopped
  closed _ hphase := nomatch hphase

/-- A message is sent. -/
theorem send (h : Inv nodeId fine l unread lost dropped) (hsize : bytes.length < 2 ^ 32) :
    Inv nodeId fine (l.step (.send bytes)) unread lost dropped := by
  unfold step
  dsimp only
  split_ifs with hopen
  · simp only [Bool.and_eq_true] at hopen
    obtain ⟨rfl, -⟩ := h.writes hopen.1.2
    exact
      { h with
        sent := by rw [h.sent]; simp
        sizes := fun m hm => (List.mem_append.mp hm).elim (h.sizes m)
          fun hnew => by rw [List.mem_singleton.mp hnew]; exact hsize
        stopped := fun hstopped => by rw [hopen.1.2] at hstopped; cases hstopped }
  · exact h

/-- The next message of the sender's channel. -/
theorem fits (h : Inv nodeId fine l unread lost dropped) {m : List UInt8}
    {rest : List (List UInt8)} (houtbox : l.outbox = m :: rest) : messageFormat.Fits m := by
  refine h.sizes m ?_
  rw [h.sent, houtbox]
  simp

/-- It is written to the socket. -/
theorem write (h : Inv nodeId fine l unread lost dropped) :
    ∃ unread', Inv nodeId fine (l.step .write) unread' lost dropped := by
  unfold step
  dsimp only
  split_ifs with hrunning
  · have hclosed : fine → l.phase = .closed → ∃ m rest, unread = m :: rest ∧ Readable m = false :=
      fun hfine hphase => (h.closed hfine hphase).resolve_right fun hstopped => by
        cases hrunning.symm.trans hstopped.1
    split
    · next bytes rest houtbox =>
      obtain ⟨-, rfl⟩ := h.writes hrunning
      refine ⟨unread ++ [bytes], { h with
        sent := by rw [h.sent, houtbox]; simp
        holds := fun hphase => ?_
        stopped := fun hstopped => by cases hrunning.symm.trans hstopped
        closed := fun hfine hphase => ?_ }⟩
      · rw [← List.append_assoc]
        exact (h.holds hphase).write (h.fits houtbox)
      · obtain ⟨m, tail, rfl, hm⟩ := hclosed hfine hphase
        exact Or.inl ⟨m, tail ++ [bytes], rfl, hm⟩
    · next houtbox =>
      exact ⟨unread, { h with
        writes := fun _ => h.writes hrunning
        stopped := fun _ => houtbox
        closed := fun hfine hphase => Or.inl (hclosed hfine hphase) }⟩
  · exact ⟨unread, h⟩

/-- The message is written in part, and the rest of the channel is dropped. -/
theorem writeError (h : Inv nodeId fine l unread lost dropped) (hfails : ¬ fine) (k : ℕ) :
    ∃ unread' lost' dropped', Inv nodeId fine (l.step (.writeError k)) unread' lost' dropped' := by
  unfold step
  dsimp only
  split
  · next bytes rest hrunning houtbox =>
    obtain ⟨rfl, rfl⟩ := h.writes hrunning
    refine ⟨unread ++ [bytes], (writeMessage bytes).drop k, rest, { h with
      sent := by rw [h.sent, houtbox]; simp
      holds := fun hphase => ?_
      writes := fun hrunning' => nomatch hrunning'
      whole := fun hfine => absurd hfine hfails
      stopped := fun _ => rfl
      closed := fun hfine => absurd hfine hfails }⟩
    rw [← List.append_assoc]
    exact (h.holds hphase).writePart (h.fits houtbox) k
  · exact ⟨unread, lost, dropped, h⟩

/-- Some bytes arrive. -/
theorem deliver (h : Inv nodeId fine l unread lost dropped) (n : ℕ) :
    Inv nodeId fine (l.step (.deliver n)) unread lost dropped :=
  { h with holds := fun hphase => (h.holds hphase).deliver n }

/-- `handle_connection` ends. -/
theorem close (h : Inv nodeId fine l unread lost dropped)
    (hclosed : fine → (∃ m rest, unread = m :: rest ∧ Readable m = false) ∨
      l.running = false ∧ unread = []) :
    Inv nodeId fine { l with phase := .closed } unread lost dropped :=
  { h with
    held := fun hphase => nomatch hphase
    holds := fun hphase => absurd rfl hphase
    registered := fun _ hphase => nomatch hphase
    closed := fun hfine _ => hclosed hfine }

/-- The first message is the `ConnectRequest`, and it names the node. -/
theorem read_accepted (h : Inv nodeId fine l unread lost dropped) (hid : nodeId < 2 ^ 32)
    (hphase : l.phase = .accepted) : Inv nodeId fine l.read unread lost dropped := by
  have hholds := h.holds (by simp [hphase])
  rw [hphase, handshake, if_pos rfl] at hholds
  unfold read
  rw [hphase]
  dsimp only
  split
  · exact h
  · next hfront =>
    obtain ⟨m, messages, hmessages, hrefuses⟩ := hholds.refused hfront
    obtain ⟨rfl, -⟩ := List.cons.inj hmessages
    cases (readable_connectRequest nodeId).symm.trans hrefuses
  · next bytes rest hfront =>
    obtain ⟨-, messages, hmessages, hrest⟩ := hholds.message hfront
    obtain ⟨rfl, rfl⟩ := List.cons.inj hmessages
    rw [QuorumWire.nodeId_connectRequest nodeId hid]
    exact
      { h with
        held := fun hphase' => nomatch hphase'
        holds := fun _ => hrest
        registered := fun _ hphase' => (LinkPhase.reading.inj hphase').symm
        closed := fun _ hphase' => nomatch hphase' }

/-- The next message of the stream joins the channel, or ends the connection. -/
theorem read_reading (h : Inv nodeId fine l unread lost dropped) {id : ℕ}
    (hphase : l.phase = .reading id) :
    ∃ unread', Inv nodeId fine l.read unread' lost dropped := by
  have hholds := h.holds (by simp [hphase])
  rw [hphase, handshake, if_neg (by simp), List.nil_append] at hholds
  unfold read
  rw [hphase]
  dsimp only
  split_ifs
  · split
    · exact ⟨unread, h⟩
    · next hfront =>
      obtain ⟨m, messages, rfl, hrefuses⟩ := hholds.refused hfront
      exact ⟨_, h.close fun _ => Or.inl ⟨m, messages, rfl, hrefuses⟩⟩
    · next bytes rest hfront =>
      obtain ⟨haccepts, messages, rfl, hrest⟩ := hholds.message hfront
      refine ⟨messages, { h with
        sent := ?_
        readable := ?_
        held := fun hphase' => nomatch hphase'
        holds := fun _ => hrest
        registered := fun id' hphase' => h.registered id' (hphase.trans hphase')
        closed := fun _ hphase' => nomatch hphase' }⟩
      · rw [h.sent]
        simp
      · intro m hm
        simp only [← List.append_assoc, List.mem_append (t := [bytes])] at hm
        rcases hm with hold | hnew
        · exact h.readable m hold
        · rw [List.mem_singleton.mp hnew]
          exact haccepts
  · exact ⟨unread, h⟩

/-- The reader makes a step. -/
theorem read (h : Inv nodeId fine l unread lost dropped) (hid : nodeId < 2 ^ 32) :
    ∃ unread', Inv nodeId fine (l.step .read) unread' lost dropped := by
  show ∃ unread', Inv nodeId fine l.read unread' lost dropped
  cases hphase : l.phase with
  | accepted => exact ⟨unread, h.read_accepted hid hphase⟩
  | reading id => exact h.read_reading hphase
  | closed =>
    unfold PeerLink.read
    rw [hphase]
    exact ⟨unread, h⟩

/-- The connection is closed. -/
theorem eof (h : Inv nodeId fine l unread lost dropped) :
    Inv nodeId fine (l.step .eof) unread lost dropped := by
  unfold step
  dsimp only
  split_ifs with hend
  · obtain ⟨hstopped, hwire, hfront⟩ := hend
    refine h.close fun hfine => ?_
    by_cases hphase : l.phase = .closed
    · exact h.closed hfine hphase
    · have hholds := h.holds hphase
      rw [(h.whole hfine).1] at hholds
      have hnil := hholds.eq_nil hwire hfront
      exact Or.inr ⟨hstopped, (List.append_eq_nil_iff.mp hnil).2⟩
  · exact h

theorem collect (h : Inv nodeId fine l unread lost dropped) :
    Inv nodeId fine (l.step .collect) unread lost dropped := by
  show Inv nodeId fine l.collect unread lost dropped
  unfold PeerLink.collect
  split_ifs
  · have hsame : l.handled ++ l.inbox.take maxMessagesPerIteration ++
        l.inbox.drop maxMessagesPerIteration = l.handled ++ l.inbox := by
      rw [List.append_assoc, List.take_append_drop]
    exact
      { h with
        sent := by rw [h.sent, ← hsame]
        readable := by rw [hsame]; exact h.readable
        held := by rw [hsame]; exact h.held }
  · exact h

/-- **A step of the connection.** -/
theorem step (h : Inv nodeId fine l unread lost dropped) (hid : nodeId < 2 ^ 32) {e : LinkEvent}
    (hsize : e.sentBytes < 2 ^ 32) (hfine : fine → e.fails = false) :
    ∃ unread' lost' dropped', Inv nodeId fine (l.step e) unread' lost' dropped' := by
  have hfails : e.fails = true → ¬ fine := fun hfails h => by
    rw [hfine h] at hfails
    cases hfails
  cases e with
  | send bytes => exact ⟨unread, lost, dropped, h.send hsize⟩
  | hangUp => exact ⟨unread, lost, dropped, { h with }⟩
  | write =>
    obtain ⟨unread', h'⟩ := h.write
    exact ⟨unread', lost, dropped, h'⟩
  | writeError k => exact h.writeError (hfails rfl) k
  | deliver n => exact ⟨unread, lost, dropped, h.deliver n⟩
  | read =>
    obtain ⟨unread', h'⟩ := h.read hid
    exact ⟨unread', lost, dropped, h'⟩
  | eof => exact ⟨unread, lost, dropped, h.eof⟩
  | readError => exact ⟨unread, lost, dropped, h.close fun hfine => absurd hfine (hfails rfl)⟩
  | pickUp => exact ⟨unread, lost, dropped, { h with }⟩
  | collect => exact ⟨unread, lost, dropped, h.collect⟩

end Inv

end PeerLink

end Kraft
