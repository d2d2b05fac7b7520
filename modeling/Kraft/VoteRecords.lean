/-
# The records of votes

`RecordInv` says what the ids, tasks and responses of a process have to do with the rows of
`votes.csv`.  A registered message, a task and a response fit the use of their id; a vote that
is reported as persisted has a row, and so has the own vote of an election that counts it.

Every event of a process keeps the invariant (`RecordInv.frame`, `RecordInv.popPersistence`,
`RecordInv.popQuorum`, `RecordInv.processTask`, `RecordInv.flush`), if the answers to vote
requests carry the ids of elections.
-/
import Kraft.Ballots

namespace Kraft

open SharedState StateMachine

variable {type : OutstandingMessageType} {use : ℕ → IdUse} {identity term : ℕ}
  {task : PersistenceTaskType} {count : Bool × ℕ → Bool × ℕ}
  {responses : List PersistenceResponseType} {msg : OutstandingMessage}

/-! ## Ids -/

theorem IdUse.not_fits_unused : ¬ IdUse.unused.Fits type := by
  unfold IdUse.Fits
  cases type <;> simp

/-- A message that is no election and no vote is of another use. -/
theorem IdUse.Fits.eq_other {use : IdUse} (h : use.Fits type) (hother : IdUse.other.Fits type) :
    use = .other := by
  cases type with
  | requestVote callback => simp [IdUse.Fits] at hother
  | candidateElection done votes => simp [IdUse.Fits] at hother
  | _ => exact h

/-- Under the id of an election only the election is registered. -/
theorem IdUse.Fits.of_election (h : (IdUse.election term).Fits type) :
    ∃ done votes, type = .candidateElection done votes := by
  cases type with
  | candidateElection done votes => exact ⟨done, votes, rfl⟩
  | _ => simp [IdUse.Fits] at h

theorem IdUse.FitsVote.ne_unused {use : IdUse} {c : ℕ} (h : use.FitsVote identity term c) :
    use ≠ .unused := by
  rcases h with ⟨callback, rfl⟩ | ⟨rfl, -⟩ <;> simp

/-- A persisted vote whose id belongs to a request is the vote the request was registered for. -/
theorem IdUse.FitsVote.of_request {use : IdUse} {c : ℕ} {callback : Callback}
    (h : use.FitsVote identity term c) (hrequest : use.Fits (.requestVote callback)) :
    use = .vote callback term c := by
  rcases h with ⟨callback', rfl⟩ | ⟨rfl, -⟩
  · rcases hrequest with hask | ⟨term', c', hvote⟩
    · cases hask
    · rw [hvote]
      injection hvote with _ hterm hc
      rw [hterm, hc]
  · rcases hrequest with hask | ⟨term', c', hvote⟩
    · cases hask
    · cases hvote

/-- A persisted vote whose id belongs to an election is the own vote of that election. -/
theorem IdUse.FitsVote.of_election {term' c : ℕ}
    (h : (IdUse.election term').FitsVote identity term c) : term' = term ∧ c = identity := by
  rcases h with ⟨callback, huse⟩ | ⟨huse, hc⟩
  · cases huse
  · injection huse with hterm
    exact ⟨hterm, hc⟩

/-- A process that takes further ids keeps the use of the old ones. -/
theorem TaskFits.mono {use' : ℕ → IdUse} (huse : ∀ id, use id ≠ .unused → use' id = use id)
    (h : TaskFits use identity task) : TaskFits use' identity task := by
  cases task with
  | appendVote id term c =>
    have hvote : (use id).FitsVote identity term c := h
    exact (huse id hvote.ne_unused ▸ hvote : (use' id).FitsVote identity term c)
  | appendLog id data requestId =>
    have hother : use id = .other := h
    exact (huse id (by simp [hother])).trans hother
  | truncateLog target => trivial

/-- So does a response. -/
theorem ResponseFits.mono {use' : ℕ → IdUse} {response : PersistenceResponseType}
    (huse : ∀ id, use id ≠ .unused → use' id = use id) (h : ResponseFits use identity response) :
    ResponseFits use' identity response := by
  cases response with
  | votePersisted id term c =>
    have hvote : (use id).FitsVote identity term c := h
    exact (huse id hvote.ne_unused ▸ hvote : (use' id).FitsVote identity term c)
  | logPersisted id =>
    have hother : use id = .other := h
    exact (huse id (by simp [hother])).trans hother

/-- The ids that were taken keep their use. -/
def KeepsUse (use use' : ℕ → IdUse) : Prop := ∀ id, use id ≠ .unused → use' id = use id

/-! ## The invariant -/

/-- What the records of a process that has taken its message ids for `use` say about the rows
of `votes.csv`. -/
structure RecordInv (use : ℕ → IdUse) (n : Node) : Prop where
  unused : ∀ id, n.shared.nextMessageId ≤ id → use id = .unused
  messages : ∀ id msg, n.shared.outstandingMessages.lookup id = some msg →
    (use id).Fits msg.messageType
  tasks : ∀ task ∈ n.shared.persistenceWork, TaskFits use n.shared.identity task
  responses : ∀ response ∈ n.storage.pendingLogResponses ++ n.shared.persistenceResponse,
    ResponseFits use n.shared.identity response
  arrived : ∀ id term, .requestVoteResponse id term true ∈ n.shared.quorumResponse →
    use id = .election term
  persisted : ∀ id term c,
    .votePersisted id term c ∈ n.storage.pendingLogResponses ++ n.shared.persistenceResponse →
      (term, c) ∈ rowVotes n.storage.voteRows
  written : ∀ id term msg votes, use id = .election term →
    n.shared.outstandingMessages.lookup id = some msg →
      msg.messageType = .candidateElection true votes →
        (term, n.shared.identity) ∈ rowVotes n.storage.voteRows
  undecided : ∀ id msg votes, n.shared.outstandingMessages.lookup id = some msg →
    msg.messageType = .candidateElection true votes → votes < n.shared.quorumSize

/-- A response registers no new message. -/
theorem BallotStep.lookup_eq_none {persistence : Bool} {id : ℕ} {s s' : SharedState}
    (h : BallotStep persistence id count s s') {id' : ℕ}
    (hnone : s.outstandingMessages.lookup id' = none) :
    s'.outstandingMessages.lookup id' = none := by
  refine Option.eq_none_iff_forall_not_mem.mpr fun msg hlookup => ?_
  have hkinds : KeepsKinds s s' → False := by
    intro hkeep
    obtain ⟨old, hold, -⟩ := hkeep id' msg hlookup
    rw [hnone] at hold
    cases hold
  cases h with
  | idle grants messages => exact hkinds messages
  | grants msg callback isPersistence registered type grants messages => exact hkinds messages
  | counts tally election undecided grants messages =>
    rcases messages id' msg hlookup with ⟨-, hold⟩ | ⟨rfl, -⟩
    · rw [hnone] at hold
      cases hold
    · obtain ⟨old, hold, -⟩ := lookup_of_electionOf election
      rw [hnone] at hold
      cases hold

/-! ## The persistence worker -/

/-- The response that reports a task. -/
def PersistenceTaskType.report : PersistenceTaskType → Option PersistenceResponseType
  | .appendVote id term candidateId => some (.votePersisted id term candidateId)
  | .appendLog id _ _ => some (.logPersisted id)
  | .truncateLog _ => none

/-- The report of a task tells its vote. -/
theorem persistedVotes_report (task : PersistenceTaskType) :
    persistedVotes task.report.toList = task.vote.toList := by
  cases task <;> rfl

/-- A task that fits is reported by a response that fits. -/
theorem ResponseFits.of_report (h : TaskFits use identity task) :
    ∀ response ∈ task.report, ResponseFits use identity response := by
  cases task with
  | truncateLog target => simp [PersistenceTaskType.report]
  | _ =>
    intro response hmem
    obtain rfl := Option.some.inj hmem
    exact h

/-- A task is reported behind the reports that waited, at once or with the next flush; a vote
is reported at once. -/
theorem responses_processTask [Capnp] {st st' : Storage}
    (h : st.processTask task = some (st', responses)) :
    (st'.pendingLogResponses = [] ∧ responses = st.pendingLogResponses ++ task.report.toList) ∨
      (task.vote = none ∧ st'.pendingLogResponses = st.pendingLogResponses ++ task.report.toList ∧
        responses = []) := by
  have hpending := Storage.pendingLogResponses_flushPendingLogs st
  have hflushed := Storage.responses_flushPendingLogs st
  cases task with
  | appendVote id term c =>
    obtain ⟨rfl, rfl⟩ := Prod.mk.inj (Option.some.inj h)
    exact Or.inl ⟨hpending, by rw [hflushed]; rfl⟩
  | appendLog id data requestId =>
    rw [Storage.processTask_appendLog] at h
    split_ifs at h
    · left
      have hst : _ = st' := congrArg Prod.fst (Option.some.inj h)
      have hresponses : _ = responses := congrArg Prod.snd (Option.some.inj h)
      rw [← hst, ← hresponses]
      exact ⟨Storage.pendingLogResponses_flushPendingLogs _, Storage.responses_flushPendingLogs _⟩
    · obtain ⟨rfl, rfl⟩ := Prod.mk.inj (Option.some.inj h)
      exact Or.inr ⟨rfl, rfl, rfl⟩
  | truncateLog target =>
    unfold Storage.processTask at h
    obtain ⟨position, -, heq⟩ := Option.map_eq_some_iff.mp h
    obtain ⟨rfl, rfl⟩ := Prod.mk.inj heq
    exact Or.inl ⟨hpending, by rw [hflushed]; exact (List.append_nil _).symm⟩

/-- A response that waits waited before, or reports the task. -/
theorem mem_responses_processTask [Capnp] {st st' : Storage}
    (h : st.processTask task = some (st', responses)) (queue : List PersistenceResponseType) :
    ∀ r ∈ st'.pendingLogResponses ++ (queue ++ responses),
      r ∈ st.pendingLogResponses ++ queue ∨ r ∈ task.report := by
  intro r hr
  rcases responses_processTask h with ⟨hpending, hresponses⟩ | ⟨-, hpending, hresponses⟩ <;>
    rw [hpending, hresponses] at hr <;>
    simp only [List.not_mem_nil, List.mem_append, Option.mem_toList] at hr ⊢ <;> tauto

/-- A flush adds none. -/
theorem mem_responses_flush (st : Storage) (queue : List PersistenceResponseType) :
    ∀ r ∈ st.flushPendingLogs.1.pendingLogResponses ++ (queue ++ st.flushPendingLogs.2),
      r ∈ st.pendingLogResponses ++ queue := by
  intro r hr
  rw [Storage.pendingLogResponses_flushPendingLogs, Storage.responses_flushPendingLogs,
    List.nil_append] at hr
  exact List.mem_append.mpr (List.mem_append.mp hr).symm

/-- A vote task adds its row. -/
theorem rowVotes_processTask [Capnp] {st st' : Storage}
    (h : st.processTask task = some (st', responses)) :
    rowVotes st'.voteRows = rowVotes st.voteRows ++ task.vote.toList := by
  rw [voteRows_storage_processTask h]
  unfold rowVotes
  rw [List.map_append, List.map_map]
  cases task.vote <;> rfl

/-! ## The state machine -/

/-- A message after a response is an old one of the same kind, or the election that counts. -/
theorem BallotStep.message {persistence : Bool} {id : ℕ} {s s' : SharedState}
    (h : BallotStep persistence id count s s')
    (hfits : ∀ id msg, s.outstandingMessages.lookup id = some msg → (use id).Fits msg.messageType)
    {id' : ℕ} (hlookup : s'.outstandingMessages.lookup id' = some msg) :
    (use id').Fits msg.messageType ∧ ∀ done votes,
      msg.messageType = .candidateElection done votes →
        s.outstandingMessages.lookup id' = some msg ∨
          (id' = id ∧ ∃ tally, electionOf s.outstandingMessages id = some tally ∧
            (done, votes) = count tally ∧ ¬ (s.quorumSize ≤ votes ∧ done = true)) := by
  have hkinds : KeepsKinds s s' → (use id').Fits msg.messageType ∧ ∀ done votes,
      msg.messageType = .candidateElection done votes →
        s.outstandingMessages.lookup id' = some msg := by
    intro hkeep
    obtain ⟨old, hold, rfl | ⟨hother, hother'⟩⟩ := hkeep id' msg hlookup
    · exact ⟨hfits id' old hold, fun _ _ _ => hold⟩
    · have huse : use id' = .other := (hfits id' old hold).eq_other hother
      refine ⟨huse ▸ hother', fun done votes htype => ?_⟩
      rw [htype] at hother'
      simp [IdUse.Fits] at hother'
  cases h with
  | idle grants messages =>
    obtain ⟨hfit, helection⟩ := hkinds messages
    exact ⟨hfit, fun done votes htype => Or.inl (helection done votes htype)⟩
  | grants old callback isPersistence registered type grants messages =>
    obtain ⟨hfit, helection⟩ := hkinds messages
    exact ⟨hfit, fun done votes htype => Or.inl (helection done votes htype)⟩
  | counts tally election undecided grants messages =>
    rcases messages id' msg hlookup with ⟨-, hold⟩ | ⟨rfl, htype⟩
    · exact ⟨hfits id' msg hold, fun _ _ _ => Or.inl hold⟩
    · refine ⟨?_, fun done votes htype' => Or.inr ⟨rfl, tally, election, ?_, ?_⟩⟩
      · obtain ⟨old, hold, htype'⟩ := lookup_of_electionOf election
        rw [htype]
        exact (htype' ▸ hfits id' old hold : (use id').Fits (.candidateElection _ _))
      · rw [htype] at htype'
        injection htype' with hdone hvotes
        rw [← hdone, ← hvotes]
      · rw [htype] at htype'
        injection htype' with hdone hvotes
        rwa [← hdone, ← hvotes]

namespace RecordInv

variable {use : ℕ → IdUse} {n n' : Node}

/-- Ids that are used have been taken. -/
theorem lt_of_used (h : RecordInv use n) {id : ℕ} (hid : use id ≠ .unused) :
    id < n.shared.nextMessageId := by
  by_contra hge
  exact hid (h.unused id (Nat.le_of_not_lt hge))

/-- New ids are above the old ones. -/
theorem keepsUse_takeIds (h : RecordInv use n) (next' : ℕ) (first : IdUse) :
    KeepsUse use (takeIds use n.shared.nextMessageId next' first) :=
  fun _ hid => takeIds_of_lt (h.lt_of_used hid)

/-- A message after a step that answers no vote is an old one whose id keeps its use, or a new
one. -/
theorem message_of_frame (h : RecordInv use n) {first : IdUse}
    (hframe : VoteFrame first n.shared n'.shared) {id : ℕ}
    (hlookup : n'.shared.outstandingMessages.lookup id = some msg) :
    (n.shared.outstandingMessages.lookup id = some msg ∧
      takeIds use n.shared.nextMessageId n'.shared.nextMessageId first id = use id) ∨
    (n.shared.nextMessageId ≤ id ∧ ∀ done votes,
      msg.messageType = .candidateElection done votes → done = false ∧ votes = 1) := by
  rcases hframe.messages id msg hlookup with hold | ⟨⟨hid, -⟩, hinitial⟩
  · refine Or.inl ⟨hold, h.keepsUse_takeIds _ first id fun hunused => ?_⟩
    have hfits := h.messages id msg hold
    rw [hunused] at hfits
    exact IdUse.not_fits_unused hfits
  · exact Or.inr ⟨hid, hinitial⟩

/-- **The state machine works on**, without answering a vote request. -/
theorem frame (h : RecordInv use n) {first : IdUse} (hstorage : n'.storage = n.storage)
    (hframe : VoteFrame first n.shared n'.shared) :
    RecordInv (takeIds use n.shared.nextMessageId n'.shared.nextMessageId first) n' := by
  have hext := h.keepsUse_takeIds n'.shared.nextMessageId first
  obtain ⟨new, hwork, htasks⟩ := hframe.tasks
  constructor
  case unused => exact fun id hid => takeIds_of_ge hframe.nextMessageId hid
  case messages =>
    intro id msg hlookup
    rcases hframe.messages id msg hlookup with hold | ⟨⟨hid, hfits⟩, -⟩
    · have hfits := h.messages id msg hold
      rwa [hext id]
      intro hunused
      rw [hunused] at hfits
      exact IdUse.not_fits_unused hfits
    · exact hfits use
  case tasks =>
    intro task hmem
    rw [hwork] at hmem
    rw [hframe.identity]
    rcases List.mem_append.mp hmem with hmem | hmem
    · exact (h.tasks task hmem).mono hext
    · exact htasks task hmem use
  case responses =>
    intro response hmem
    rw [hstorage, hframe.persistenceResponse] at hmem
    rw [hframe.identity]
    exact (h.responses response hmem).mono hext
  case arrived =>
    intro id term hmem
    rw [hframe.quorumResponse] at hmem
    have hid := h.arrived id term hmem
    rw [hext id (by simp [hid]), hid]
  case persisted =>
    intro id term c hmem
    rw [hstorage, hframe.persistenceResponse] at hmem
    rw [hstorage]
    exact h.persisted id term c hmem
  case written =>
    intro id term msg votes hid hlookup htype
    rw [hstorage, hframe.identity]
    rcases h.message_of_frame hframe hlookup with ⟨hold, hsame⟩ | ⟨-, hinitial⟩
    · exact h.written id term msg votes (hsame ▸ hid) hold htype
    · cases (hinitial true votes htype).1
  case undecided =>
    intro id msg votes hlookup htype
    rw [hframe.quorumSize]
    rcases h.message_of_frame hframe hlookup with ⟨hold, -⟩ | ⟨-, hinitial⟩
    · exact h.undecided id msg votes hold htype
    · cases (hinitial true votes htype).1

/-- **A response is handled**: an election that counts the own vote has it on disk. -/
theorem response (h : RecordInv use n) {persistence : Bool} {id : ℕ}
    (hstorage : n'.storage = n.storage) (hframe : ResponseFrame n.shared n'.shared)
    (hstep : BallotStep persistence id count n.shared n'.shared)
    (hcount : ∀ term tally, use id = .election term →
      electionOf n.shared.outstandingMessages id = some tally → (count tally).1 = true →
        (term, n.shared.identity) ∈ rowVotes n.storage.voteRows) : RecordInv use n' := by
  obtain ⟨new, hwork, hnew⟩ := hframe.tasks
  constructor
  case unused => exact fun id' hid => h.unused id' (hframe.nextMessageId ▸ hid)
  case messages => exact fun id' msg hlookup => (hstep.message h.messages hlookup).1
  case tasks =>
    intro task hmem
    rw [hwork] at hmem
    rw [hframe.identity]
    rcases List.mem_append.mp hmem with hmem | hmem
    · exact h.tasks task hmem
    · obtain ⟨target, rfl⟩ := hnew task hmem
      trivial
  case responses =>
    intro response hmem
    rw [hstorage, hframe.persistenceResponse] at hmem
    exact hframe.identity ▸ h.responses response hmem
  case arrived => exact fun id' term hmem => h.arrived id' term (hframe.quorumResponse ▸ hmem)
  case persisted =>
    intro id' term c hmem
    rw [hstorage, hframe.persistenceResponse] at hmem
    exact hstorage ▸ h.persisted id' term c hmem
  case written =>
    intro id' term msg votes huse hlookup htype
    rw [hstorage, hframe.identity]
    rcases (hstep.message h.messages hlookup).2 true votes htype with
      hold | ⟨rfl, tally, htally, heq, -⟩
    · exact h.written id' term msg votes huse hold htype
    · refine hcount term tally huse htally ?_
      rw [← heq]
  case undecided =>
    intro id' msg votes hlookup htype
    rw [hframe.quorumSize]
    rcases (hstep.message h.messages hlookup).2 true votes htype with
      hold | ⟨rfl, tally, -, -, hundecided⟩
    · exact h.undecided id' msg votes hold htype
    · by_contra hge
      exact hundecided ⟨Nat.le_of_not_lt hge, rfl⟩

/-- The state in which a persistence response is handled. -/
theorem dropPersistence (h : RecordInv use n) {response : PersistenceResponseType}
    {rest : List PersistenceResponseType}
    (hqueue : n.shared.persistenceResponse = response :: rest) :
    RecordInv use { n with machine := n.machine.dropPersistence rest } := by
  have hsub : ∀ r ∈ n.storage.pendingLogResponses ++ rest,
      r ∈ n.storage.pendingLogResponses ++ n.shared.persistenceResponse := by
    intro r hr
    rw [hqueue]
    rcases List.mem_append.mp hr with hr | hr
    · exact List.mem_append_left _ hr
    · exact List.mem_append_right _ (List.mem_cons_of_mem _ hr)
  exact { h with
    responses := fun r hr => h.responses r (hsub r hr)
    persisted := fun id term c hr => h.persisted id term c (hsub _ hr) }

/-- The state in which a quorum response is handled. -/
theorem dropQuorum (h : RecordInv use n) {response : LocalQuorumTaskResponseType}
    {rest : List LocalQuorumTaskResponseType}
    (hqueue : n.shared.quorumResponse = response :: rest) :
    RecordInv use { n with machine := n.machine.dropQuorum rest } := by
  refine { h with arrived := fun id term hmem => h.arrived id term ?_ }
  rw [hqueue]
  exact List.mem_cons_of_mem _ hmem

/-- The answer to a vote request that a candidate counts belongs to an election. -/
theorem election_of_arrived (h : RecordInv use n) {id : ℕ}
    (harrived : .requestVoteResponse id term true ∈ n.shared.quorumResponse)
    (hlookup : n.shared.outstandingMessages.lookup id = some msg) :
    ∃ done votes, msg.messageType = .candidateElection done votes := by
  have hfits := h.messages id msg hlookup
  rw [h.arrived id term harrived] at hfits
  exact hfits.of_election

/-- **One persistence response**: a vote request that waits for it is granted the vote it asked
for, and the own vote of an election that waits for it has its row. -/
theorem persistence_head (h : RecordInv use n) {response : PersistenceResponseType}
    {rest : List PersistenceResponseType}
    (hqueue : n.shared.persistenceResponse = response :: rest) :
    (∀ callback, (use response.reply.1).Fits (.requestVote callback) → ∃ term c,
        use response.reply.1 = .vote callback term c ∧ persistedVotes [response] = [(term, c)] ∧
          (term, c) ∈ rowVotes n.storage.voteRows) ∧
      ∀ term, use response.reply.1 = .election term →
        (term, n.shared.identity) ∈ rowVotes n.storage.voteRows := by
  have hmem : response ∈ n.storage.pendingLogResponses ++ n.shared.persistenceResponse := by
    simp [hqueue]
  have hfits := h.responses response hmem
  cases response with
  | logPersisted id =>
    have huse : use id = .other := hfits
    simp [PersistenceResponseType.reply, huse, IdUse.Fits]
  | votePersisted id term c =>
    have hvote : (use id).FitsVote n.shared.identity term c := hfits
    have hrow := h.persisted id term c hmem
    refine ⟨fun callback hrequest => ⟨term, c, hvote.of_request hrequest, rfl, hrow⟩,
      fun term' helection => ?_⟩
    rw [show use id = .election term' from helection] at hvote
    obtain ⟨rfl, rfl⟩ := hvote.of_election
    exact hrow

/-- **One iteration of the first loop**: a vote that is granted has a row. -/
theorem popPersistence (h : RecordInv use n) :
    RecordInv use { n with machine := n.machine.popPersistence } ∧
      ∀ callback ∈ grantedCallbacks n.machine.popPersistence.shared.callbackResponses,
        callback ∈ grantedCallbacks n.shared.callbackResponses ∨
          ∃ id term c, use id = .vote callback term c ∧
            (term, c) ∈ rowVotes n.storage.voteRows := by
  rcases popPersistence_cases n.machine with heq | ⟨response, rest, hqueue, heq⟩
  · rw [heq]
    exact ⟨h, fun _ => Or.inl⟩
  · obtain ⟨hrequest, helection⟩ := h.persistence_head hqueue
    have hstep := handlePersistence_ballots response (n.machine.dropPersistence rest)
    rw [heq]
    refine ⟨(h.dropPersistence hqueue).response rfl
      (responseFrame_handlePersistence response (n.machine.dropPersistence rest)) hstep
      fun term _ huse _ _ => helection term huse, fun callback hcallback => ?_⟩
    -- a granted request is registered under the id of the response
    cases hstep with
    | idle grants messages => exact Or.inl (grants ▸ hcallback)
    | counts tally election undecided grants messages => exact Or.inl (grants ▸ hcallback)
    | grants msg other isPersistence registered type grants messages =>
      rw [grants] at hcallback
      rcases List.mem_append.mp hcallback with hold | hnew
      · exact Or.inl hold
      · obtain rfl := List.mem_singleton.mp hnew
        obtain ⟨term, c, huse, -, hrow⟩ := hrequest callback (type ▸ h.messages _ msg registered)
        exact Or.inr ⟨_, term, c, huse, hrow⟩

/-- **One answer to a vote request**: only an election counts it. -/
theorem quorum_head (h : RecordInv use n) {response : LocalQuorumTaskResponseType}
    {rest : List LocalQuorumTaskResponseType}
    (hqueue : n.shared.quorumResponse = response :: rest) :
    BallotStep false response.count.1 response.count.2 (n.machine.dropQuorum rest).shared
      ((n.machine.dropQuorum rest).handleQuorum response).shared := by
  refine handleQuorum_ballots response (n.machine.dropQuorum rest) ?_
  rintro id term rfl msg hlookup
  exact h.election_of_arrived (by rw [hqueue]; exact List.mem_cons_self ..) hlookup

/-- **One iteration of the second loop**: no vote is granted. -/
theorem popQuorum (h : RecordInv use n) :
    RecordInv use { n with machine := n.machine.popQuorum } ∧
      grantedCallbacks n.machine.popQuorum.shared.callbackResponses =
        grantedCallbacks n.shared.callbackResponses := by
  rcases popQuorum_cases n.machine with heq | ⟨response, rest, hqueue, heq⟩
  · rw [heq]
    exact ⟨h, rfl⟩
  · rw [heq]
    have hballots := h.quorum_head hqueue
    refine ⟨(h.dropQuorum hqueue).response rfl
      (responseFrame_handleQuorum response (n.machine.dropQuorum rest)) hballots
      fun term tally helection htally hdone => ?_, ?_⟩
    · obtain ⟨msg, hlookup, htype⟩ := lookup_of_electionOf htally
      have hkept : tally.1 = true := by
        cases response <;> exact hdone
      exact h.written _ term msg tally.2 helection hlookup (hkept ▸ htype)
    · cases hballots with
      | idle grants messages => exact grants
      | counts tally election undecided grants messages => exact grants
      | grants msg callback isPersistence registered type grants messages => cases isPersistence

/-! ### The persistence worker -/

/-- A task of the persistence worker. -/
theorem processTask [Capnp] (h : RecordInv use n) : RecordInv use n.processTask := by
  rcases n.processTask_cases with heq | ⟨task, rest, hwork, hcases⟩
  · rwa [heq]
  · have hrest : ∀ t ∈ rest, TaskFits use n.shared.identity t := fun t ht =>
      h.tasks t (by rw [hwork]; exact List.mem_cons_of_mem _ ht)
    rcases hcases with ⟨st, responses, htask, heq⟩ | ⟨-, heq⟩
    · rw [heq]
      have hrows : rowVotes st.voteRows = rowVotes n.storage.voteRows ++ task.vote.toList :=
        rowVotes_processTask htask
      have hreport := ResponseFits.of_report (h.tasks task (by rw [hwork]; simp))
      have hcases := mem_responses_processTask htask n.shared.persistenceResponse
      refine { h with tasks := hrest, responses := ?_, persisted := ?_, written := ?_ }
      · exact fun r hr => (hcases r hr).elim (h.responses r) (hreport r)
      · intro id term c hr
        show (term, c) ∈ rowVotes st.voteRows
        rw [hrows]
        rcases hcases _ hr with hold | hnew
        · exact List.mem_append_left _ (h.persisted id term c hold)
        · refine List.mem_append_right _ ?_
          cases task <;> simp_all [PersistenceTaskType.report, PersistenceTaskType.vote]
      · intro id term msg votes huse hlookup htype
        show (term, n.shared.identity) ∈ rowVotes st.voteRows
        rw [hrows]
        exact List.mem_append_left _ (h.written id term msg votes huse hlookup htype)
    · rw [heq]
      exact { h with tasks := hrest }

/-- A flush. -/
theorem flush (h : RecordInv use n) : RecordInv use n.flush := by
  have hrows : n.storage.flushPendingLogs.1.voteRows = n.storage.voteRows :=
    Storage.voteRows_flushPendingLogs n.storage
  have hsub := mem_responses_flush n.storage n.shared.persistenceResponse
  unfold Node.flush
  split_ifs
  · refine { h with responses := fun r hr => h.responses r (hsub r hr), persisted := ?_,
                    written := ?_ }
    · intro id term c hr
      show (term, c) ∈ rowVotes n.storage.flushPendingLogs.1.voteRows
      rw [hrows]
      exact h.persisted id term c (hsub _ hr)
    · intro id term msg votes huse hlookup htype
      show (term, n.shared.identity) ∈ rowVotes n.storage.flushPendingLogs.1.voteRows
      rw [hrows]
      exact h.written id term msg votes huse hlookup htype
  · exact h

/-! ### The beginning, and what arrives -/

/-- A node starts. -/
theorem start [Capnp] (clock : Clock) (logFile : List UInt8) (rows : List VoteRow)
    (identity quorumSize workers : ℕ) (accepts : ℕ → Bool) :
    RecordInv (fun _ => .unused)
      (Node.start clock logFile rows identity quorumSize workers accepts) where
  unused _ _ := rfl
  messages := by rintro _ _ ⟨⟩
  tasks := by rintro _ ⟨⟩
  responses := by rintro _ ⟨⟩
  arrived := by rintro _ _ ⟨⟩
  persisted := by rintro _ _ _ ⟨⟩
  written := by rintro _ _ _ _ ⟨⟩
  undecided := by rintro _ _ _ ⟨⟩

/-- Responses of the quorum workers arrive. -/
theorem arrive (h : RecordInv use n) {responses : List LocalQuorumTaskResponseType}
    (hresponses : ∀ id term, .requestVoteResponse id term true ∈ responses →
      use id = .election term) :
    RecordInv use (n.withShared { n.shared with
      quorumResponse := n.shared.quorumResponse ++ responses }) := by
  refine { h with arrived := fun id term hmem => ?_ }
  rcases List.mem_append.mp hmem with hmem | hmem
  · exact h.arrived id term hmem
  · exact hresponses id term hmem

/-- **A completed election has the own vote on disk**, a quorum of votes is counted or about to be,
and its record is removed. -/
theorem completedElection (h : RecordInv use n) (clock : Clock) {part : TimeStepPart}
    (hwon : n.machine.completedElection part = some term) :
    (term, n.shared.identity) ∈ rowVotes n.storage.voteRows ∧
      ∃ id msg done votes, use id = .election term ∧
        n.shared.outstandingMessages.lookup id = some msg ∧
        msg.messageType = .candidateElection done votes ∧
        n.shared.quorumSize ≤
          votes + n.shared.quorumResponse.count (.requestVoteResponse id term true) ∧
        (n.machine.runPart clock part).shared.outstandingMessages.lookup id = none := by
  cases part with
  | popPersistence =>
    obtain ⟨id, c, rest, done, votes, -, hqueue, helection, hquorum, hnext⟩ :=
      popPersistence_of_completed hwon
    obtain ⟨msg, hlookup, htype⟩ := lookup_of_electionOf helection
    obtain ⟨term', huse⟩ : (use id).Fits (.candidateElection done votes) :=
      htype ▸ h.messages id msg hlookup
    have hvote : (use id).FitsVote n.shared.identity term c :=
      h.responses (.votePersisted id term c) (by simp [hqueue])
    obtain ⟨rfl, -⟩ := (huse ▸ hvote).of_election
    refine ⟨(h.persistence_head hqueue).2 term' huse, id, msg, done, votes, huse, hlookup, htype,
      hquorum.trans (Nat.le_add_right _ _), ?_⟩
    show n.machine.popPersistence.shared.outstandingMessages.lookup id = none
    rw [hnext]
    exact AList.lookup_erase id _
  | popQuorum =>
    obtain ⟨id, granted, rest, votes, -, hqueue, helection, hquorum, hnext⟩ :=
      popQuorum_of_completed hwon
    obtain ⟨msg, hlookup, htype⟩ := lookup_of_electionOf helection
    cases granted with
    | false => exact absurd hquorum (Nat.not_le.mpr (h.undecided id msg votes hlookup htype))
    | true =>
      have huse := h.arrived id term (by simp [hqueue])
      refine ⟨h.written id term msg votes huse hlookup htype, id, msg, true, votes, huse, hlookup,
        htype, ?_, ?_⟩
      · have hquorum : n.shared.quorumSize ≤ votes + 1 := hquorum
        rw [hqueue, List.count_cons_self]
        omega
      · show n.machine.popQuorum.shared.outstandingMessages.lookup id = none
        rw [hnext]
        exact AList.lookup_erase id _
  | _ =>
    unfold StateMachine.completedElection at hwon
    split at hwon <;> simp_all

end RecordInv

/-! ## The node stays the same -/

/-- The node is still the same one. -/
structure SameNode (n n' : Node) : Prop where
  identity : n'.shared.identity = n.shared.identity
  quorumSize : n'.shared.quorumSize = n.shared.quorumSize

/-- Every event leaves the node the same. -/
theorem SameNode.step [Capnp] (n : Node) (event : NodeEvent) : SameNode n (n.step event) := by
  cases event with
  | accept clock message =>
    obtain ⟨first, hframe, -⟩ := voteFrame_accept clock message n.machine
    exact ⟨hframe.identity, hframe.quorumSize⟩
  | timeStep clock part =>
    have hsame := (turns_runPart clock part n.machine).sameNode
    exact ⟨hsame.1, hsame.2⟩
  | respond response => exact ⟨rfl, rfl⟩
  | processTask =>
    obtain ⟨-, -, -, -, hidentity, hsize⟩ := n.serves_processTask.unchanged
    exact ⟨hidentity, hsize⟩
  | flush =>
    obtain ⟨-, -, -, -, hidentity, hsize⟩ := n.serves_flush.unchanged
    exact ⟨hidentity, hsize⟩
  | restart clock written accepts => exact ⟨rfl, rfl⟩

/-! ## Rows stay -/

/-- Rows are only added. -/
theorem Node.rowVotes_subset_step [Capnp] (n : Node) (e : NodeEvent) :
    rowVotes n.storage.voteRows ⊆ rowVotes (n.step e).storage.voteRows := by
  refine List.map_subset _ ?_
  cases e with
  | processTask =>
    show n.storage.voteRows ⊆ n.processTask.storage.voteRows
    rcases n.processTask_cases with heq | ⟨task, rest, -, ⟨st, responses, htask, heq⟩ | ⟨-, heq⟩⟩
    · rw [heq]
      exact List.Subset.refl _
    · rw [heq]
      exact voteRows_storage_processTask htask ▸ List.subset_append_left _ _
    · rw [heq]
      exact List.Subset.refl _
  | flush =>
    show n.storage.voteRows ⊆ n.flush.storage.voteRows
    unfold Node.flush
    split_ifs
    · exact (Storage.voteRows_flushPendingLogs n.storage).symm ▸ List.Subset.refl _
    · exact List.Subset.refl _
  | _ => exact List.Subset.refl _

end Kraft
