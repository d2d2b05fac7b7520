/-
# The invariant behind the votes

`BallotInv` says where the votes of a process are.  Every vote for a term is on disk or on
its way there at most once, every answer that grants a vote has a row of `votes.csv` of its
own, and an election has counted no more votes than have arrived.  Every event of the node
keeps it, a restart included; what leaves the process and what arrives is counted by two
parameters, so that the invariant can be used for a node of a cluster.
-/
import Kraft.VoteRecords

namespace Kraft

open SharedState StateMachine

/-! ## The invariant of a process -/

/-- How many votes for a term are on disk or on their way there. -/
def votesFor (n : Node) (term : ℕ) : ℕ :=
  (rowVotes n.storage.voteRows ++ votesIn n.shared.persistenceWork).countP (·.1 = term)

/-- The invariant of a process that has taken its message ids for `use`.  `sent v` is the
number of answers that have left the process for the vote `v` of a term for a candidate, and
`received term` the number of votes that have arrived for the process in `term`; the node has
won the elections of the terms `won`, before a restart or since. -/
structure BallotInv (use : ℕ → IdUse) (sent : ℕ × ℕ → ℕ) (received : ℕ → ℕ) (won : ℕ → Prop)
    (n : Node) : Prop extends RecordInv use n where
  callbacks : ∀ id callback term c, use id = .vote callback term c →
    ∃ channel requestId, callback = .pending c channel (.vote requestId term)
  -- the votes of the node
  logOnly : persistedVotes n.storage.pendingLogResponses = []
  once : ∀ term, votesFor n term ≤ 1
  recorded : ∀ term, n.shared.termVotes.lookup term = none → votesFor n term = 0
  spent : ∀ v, (persistedVotes n.shared.persistenceResponse).count v +
    (grantedVotes n.shared.callbackResponses).count v + sent v ≤
      (rowVotes n.storage.voteRows).count v
  -- the elections of the node
  tally : ∀ id term msg done votes, use id = .election term →
    n.shared.outstandingMessages.lookup id = some msg →
      msg.messageType = .candidateElection done votes →
        votes + n.shared.quorumResponse.count (.requestVoteResponse id term true) ≤
          1 + received term
  -- a term is stood for once, and a won election is forgotten
  stood : ∀ id term, use id = .election term →
    1 ≤ term ∧ n.shared.termVotes.lookup term ≠ none
  stoodOnce : ∀ id id' term, use id = .election term → use id' = .election term → id = id'
  wonVoted : ∀ term, won term → n.shared.termVotes.lookup term ≠ none
  decided : ∀ id term, use id = .election term → won term →
    n.shared.outstandingMessages.lookup id = none

/-- A term voted in stays one. -/
theorem lookup_ne_none_of_votes {s s' : SharedState} (h : KeepsVotes s s' ∨ CastsVote s s')
    {term : ℕ} (hterm : s.termVotes.lookup term ≠ none) : s'.termVotes.lookup term ≠ none := by
  rcases h with ⟨hmap, -⟩ | ⟨term', c, -, -, hmap, -⟩
  · rwa [hmap]
  · rw [hmap]
    by_cases heq : term = term'
    · rw [heq, AList.lookup_insert]
      simp
    · rwa [AList.lookup_insert_ne heq]

namespace BallotInv

variable {use : ℕ → IdUse} {sent : ℕ × ℕ → ℕ} {received : ℕ → ℕ} {won : ℕ → Prop} {n n' : Node}

/-- Votes are cast for terms that had none. -/
theorem votesFor_cast (h : BallotInv use sent received won n)
    (hrows : n'.storage.voteRows = n.storage.voteRows)
    (hvotes : KeepsVotes n.shared n'.shared ∨ CastsVote n.shared n'.shared) (term : ℕ) :
    votesFor n' term ≤ 1 ∧
      (n'.shared.termVotes.lookup term = none → votesFor n' term = 0) := by
  have hcount : ∀ tasks, n'.shared.persistenceWork = n.shared.persistenceWork ++ tasks →
      votesFor n' term = votesFor n term + (votesIn tasks).countP (·.1 = term) := by
    intro tasks hwork
    unfold votesFor
    rw [hrows, hwork, votesIn_append, ← List.append_assoc, List.countP_append]
  rcases hvotes with ⟨hmap, tasks, hwork, hnone⟩ | ⟨term', c, tasks, hfree, hmap, hwork, hcast⟩
  · rw [hcount tasks hwork, hnone, hmap]
    exact ⟨h.once term, h.recorded term⟩
  · rw [hcount tasks hwork, hmap]
    by_cases hterm : term = term'
    · subst hterm
      have hzero := h.recorded term hfree
      refine ⟨?_, fun hnone => ?_⟩
      · rcases hcast with hcast | hcast <;> simp [hcast, hzero]
      · rw [AList.lookup_insert] at hnone
        cases hnone
    · have hnot : (votesIn tasks).countP (·.1 = term) = 0 := by
        rcases hcast with hcast | hcast <;> simp [hcast, Ne.symm hterm]
      rw [hnot, AList.lookup_insert_ne hterm]
      exact ⟨h.once term, h.recorded term⟩

/-- No answer has arrived for an id that is not taken. -/
theorem count_unused (h : BallotInv use sent received won n) {id : ℕ}
    (hid : n.shared.nextMessageId ≤ id) (term : ℕ) :
    n.shared.quorumResponse.count (.requestVoteResponse id term true) = 0 := by
  refine List.count_eq_zero.mpr fun hmem => ?_
  have hused := h.arrived id term hmem
  rw [h.unused id hid] at hused
  cases hused

/-- **The state machine works on**, without answering a vote request. -/
theorem frame (h : BallotInv use sent received won n) {first : IdUse}
    (hstorage : n'.storage = n.storage) (hframe : VoteFrame first n.shared n'.shared)
    (hvotes : KeepsVotes n.shared n'.shared ∨ CastsVote n.shared n'.shared)
    (hfirst : ∀ callback term c, first = .vote callback term c →
      ∃ channel requestId, callback = .pending c channel (.vote requestId term))
    (helection : ∀ term, first = .election term → 1 ≤ term ∧
      n.shared.termVotes.lookup term = none ∧ n'.shared.termVotes.lookup term ≠ none) :
    BallotInv (takeIds use n.shared.nextMessageId n'.shared.nextMessageId first) sent received won
      n' := by
  have hcast := h.votesFor_cast (congrArg Storage.voteRows hstorage) hvotes
  have helected : ∀ id term,
      takeIds use n.shared.nextMessageId n'.shared.nextMessageId first id = .election term →
        (use id = .election term ∧ id < n.shared.nextMessageId) ∨
          (id = n.shared.nextMessageId ∧ first = .election term) := by
    intro id term huse
    unfold takeIds at huse
    split_ifs at huse with hlt hge hfresh
    · exact Or.inl ⟨huse, hlt⟩
    · exact Or.inr ⟨hfresh, huse⟩
  constructor
  case toRecordInv => exact h.toRecordInv.frame hstorage hframe
  case callbacks =>
    intro id callback term c hid
    unfold takeIds at hid
    split_ifs at hid with hlt hge hfresh
    · exact h.callbacks id callback term c hid
    · exact hfirst callback term c hid
  case logOnly => exact hstorage ▸ h.logOnly
  case once => exact fun term => (hcast term).1
  case recorded => exact fun term => (hcast term).2
  case spent =>
    intro v
    rw [hframe.persistenceResponse, grantedVotes_eq, hframe.grants, ← grantedVotes_eq, hstorage]
    exact h.spent v
  case tally =>
    intro id term msg done votes hid hlookup htype
    rw [hframe.quorumResponse]
    rcases h.message_of_frame hframe hlookup with ⟨hold, hsame⟩ | ⟨hfresh, hinitial⟩
    · exact h.tally id term msg done votes (hsame ▸ hid) hold htype
    · rw [h.count_unused hfresh, (hinitial done votes htype).2]
      omega
  case stood =>
    intro id term huse
    rcases helected id term huse with ⟨hold, -⟩ | ⟨-, hnew⟩
    · exact ⟨(h.stood id term hold).1, lookup_ne_none_of_votes hvotes (h.stood id term hold).2⟩
    · exact ⟨(helection term hnew).1, (helection term hnew).2.2⟩
  case stoodOnce =>
    intro id id' term huse huse'
    rcases helected id term huse with ⟨hold, -⟩ | ⟨hid, hnew⟩
    · rcases helected id' term huse' with ⟨hold', -⟩ | ⟨-, hnew⟩
      · exact h.stoodOnce id id' term hold hold'
      · exact absurd (helection term hnew).2.1 (h.stood id term hold).2
    · rcases helected id' term huse' with ⟨hold', -⟩ | ⟨hid', -⟩
      · exact absurd (helection term hnew).2.1 (h.stood id' term hold').2
      · exact hid.trans hid'.symm
  case wonVoted => exact fun term hwon => lookup_ne_none_of_votes hvotes (h.wonVoted term hwon)
  case decided =>
    intro id term huse hwon
    rcases helected id term huse with ⟨hold, hlt⟩ | ⟨-, hnew⟩
    · refine Option.eq_none_iff_forall_not_mem.mpr fun msg hlookup => ?_
      rcases hframe.messages id msg hlookup with hmsg | ⟨⟨hge, -⟩, -⟩
      · rw [h.decided id term hold hwon] at hmsg
        cases hmsg
      · omega
    · exact absurd (helection term hnew).2.1 (h.wonVoted term hwon)

/-- **A response is handled**, in a state from whose queue it was taken: a vote that is
granted was spent before, and an election counts what was left to count. -/
theorem response (h : BallotInv use sent received won n) {persistence : Bool} {id : ℕ}
    {count : Bool × ℕ → Bool × ℕ} (hstorage : n'.storage = n.storage)
    (hframe : ResponseFrame n.shared n'.shared)
    (hstep : BallotStep persistence id count n.shared n'.shared)
    (hgrant : ∀ callback, (use id).Fits (.requestVote callback) → persistence = true → ∀ v,
      (persistedVotes n.shared.persistenceResponse).count v +
        ((grantedVotes n.shared.callbackResponses).count v +
          (grantOf (callback, .requestVote true)).toList.count v) + sent v ≤
            (rowVotes n.storage.voteRows).count v)
    (hcount : ∀ term tally, use id = .election term →
      electionOf n.shared.outstandingMessages id = some tally →
        (count tally).2 + n.shared.quorumResponse.count (.requestVoteResponse id term true) ≤
            1 + received term ∧
          ((count tally).1 = true → (term, n.shared.identity) ∈ rowVotes n.storage.voteRows)) :
    BallotInv use sent received won n' := by
  obtain ⟨new, hwork, hnew⟩ := hframe.tasks
  have hvotesIn : votesIn new = [] := by
    refine List.filterMap_eq_nil_iff.mpr fun task hmem => ?_
    obtain ⟨target, rfl⟩ := hnew task hmem
    rfl
  have hvotesFor : ∀ term, votesFor n' term = votesFor n term := by
    intro term
    unfold votesFor
    rw [hstorage, hwork, votesIn_append, hvotesIn, List.append_nil]
  constructor
  case toRecordInv =>
    exact h.toRecordInv.response hstorage hframe hstep fun term tally huse htally =>
      (hcount term tally huse htally).2
  case callbacks => exact h.callbacks
  case logOnly => exact hstorage ▸ h.logOnly
  case once => exact fun term => (hvotesFor term).symm ▸ h.once term
  case recorded =>
    intro term hnone
    rw [hvotesFor]
    exact h.recorded term (hframe.termVotes ▸ hnone)
  case spent =>
    intro v
    rw [hstorage, hframe.persistenceResponse]
    cases hstep with
    | idle grants messages =>
      rw [grantedVotes_eq, grants, ← grantedVotes_eq]
      exact h.spent v
    | grants msg callback isPersistence registered type grants messages =>
      have hnew : [callback].filterMap (fun callback => grantOf (callback, .requestVote true)) =
          (grantOf (callback, .requestVote true)).toList := by
        rw [List.filterMap_cons, List.filterMap_nil]
        cases grantOf (callback, .requestVote true) <;> rfl
      rw [grantedVotes_eq, grants, List.filterMap_append, ← grantedVotes_eq, List.count_append, hnew]
      exact hgrant callback (type ▸ h.messages id msg registered) isPersistence v
    | counts tally election undecided grants messages =>
      rw [grantedVotes_eq, grants, ← grantedVotes_eq]
      exact h.spent v
  case tally =>
    intro id' term msg done votes huse hlookup htype
    rw [hframe.quorumResponse]
    rcases (hstep.message h.messages hlookup).2 done votes htype with
      hold | ⟨rfl, tally, htally, heq, -⟩
    · exact h.tally id' term msg done votes huse hold htype
    · have := (hcount term tally huse htally).1
      rwa [← heq] at this
  case stood => exact fun id' term huse => hframe.termVotes ▸ h.stood id' term huse
  case stoodOnce => exact h.stoodOnce
  case wonVoted => exact fun term hwon => hframe.termVotes ▸ h.wonVoted term hwon
  case decided => exact fun id' term huse hwon => hstep.lookup_eq_none (h.decided id' term huse hwon)

/-- The state in which a persistence response is handled. -/
theorem dropPersistence (h : BallotInv use sent received won n) {response : PersistenceResponseType}
    {rest : List PersistenceResponseType}
    (hqueue : n.shared.persistenceResponse = response :: rest) :
    BallotInv use sent received won { n with machine := n.machine.dropPersistence rest } ∧
      ∀ v, (persistedVotes rest).count v + ((grantedVotes n.shared.callbackResponses).count v +
        (persistedVotes [response]).count v) + sent v ≤ (rowVotes n.storage.voteRows).count v := by
  have hspent : ∀ v, (persistedVotes rest).count v +
      ((grantedVotes n.shared.callbackResponses).count v + (persistedVotes [response]).count v) +
        sent v ≤ (rowVotes n.storage.voteRows).count v := by
    intro v
    have := h.spent v
    rw [hqueue, ← List.singleton_append, persistedVotes_append, List.count_append] at this
    omega
  refine ⟨{ h with
    toRecordInv := h.toRecordInv.dropPersistence hqueue
    spent := fun v => ?_ }, hspent⟩
  have := hspent v
  show (persistedVotes rest).count v + (grantedVotes n.shared.callbackResponses).count v +
    sent v ≤ (rowVotes n.storage.voteRows).count v
  omega

/-- One iteration of the first loop. -/
theorem popPersistence (h : BallotInv use sent received won n) :
    BallotInv use sent received won { n with machine := n.machine.popPersistence } := by
  rcases popPersistence_cases n.machine with heq | ⟨response, rest, hqueue, heq⟩
  · rwa [heq]
  · obtain ⟨hdrop, hspent⟩ := h.dropPersistence hqueue
    obtain ⟨hrequest, helection⟩ := h.persistence_head hqueue
    rw [heq]
    refine hdrop.response rfl
      (responseFrame_handlePersistence response (n.machine.dropPersistence rest))
      (handlePersistence_ballots response (n.machine.dropPersistence rest))
      (fun callback hfits _ v => ?_)
      fun term tally huse htally => ⟨?_, fun _ => helection term huse⟩
    · -- the request is the one the vote was cast for
      obtain ⟨term, c, huse, hpersisted, -⟩ := hrequest callback hfits
      obtain ⟨channel, requestId, rfl⟩ := h.callbacks _ callback term c huse
      rw [hpersisted] at hspent
      exact hspent v
    · obtain ⟨msg, hlookup, htype⟩ := lookup_of_electionOf htally
      exact h.tally _ term msg _ _ huse hlookup htype

/-- The state in which a quorum response is handled. -/
theorem dropQuorum (h : BallotInv use sent received won n) {response : LocalQuorumTaskResponseType}
    {rest : List LocalQuorumTaskResponseType}
    (hqueue : n.shared.quorumResponse = response :: rest) :
    BallotInv use sent received won { n with machine := n.machine.dropQuorum rest } := by
  refine { h with toRecordInv := h.toRecordInv.dropQuorum hqueue, tally := ?_ }
  intro id term msg done votes huse hlookup htype
  have htally := h.tally id term msg done votes huse hlookup htype
  have hle : rest.count (.requestVoteResponse id term true) ≤
      n.shared.quorumResponse.count (.requestVoteResponse id term true) := by
    rw [hqueue]
    exact List.count_le_count_cons
  exact (Nat.add_le_add_left hle votes).trans htally

/-- One iteration of the second loop. -/
theorem popQuorum (h : BallotInv use sent received won n) :
    BallotInv use sent received won { n with machine := n.machine.popQuorum } := by
  rcases popQuorum_cases n.machine with heq | ⟨response, rest, hqueue, heq⟩
  · rwa [heq]
  · rw [heq]
    refine (h.dropQuorum hqueue).response rfl
      (responseFrame_handleQuorum response (n.machine.dropQuorum rest)) (h.quorum_head hqueue)
      (by simp) fun term tally helection htally => ?_
    obtain ⟨msg, hlookup, htype⟩ := lookup_of_electionOf htally
    have hvotes := h.tally _ term msg _ _ helection hlookup htype
    have hwritten : tally.1 = true →
        (term, n.shared.identity) ∈ rowVotes n.storage.voteRows := fun hdone =>
      h.written _ term msg tally.2 helection hlookup (hdone ▸ htype)
    rw [hqueue] at hvotes
    have hle := List.count_le_count_cons (a := .requestVoteResponse response.count.1 term true)
      (b := response) (l := rest)
    cases response with
    | requestVoteResponse id term' granted =>
      refine ⟨?_, hwritten⟩
      cases granted with
      | false => exact (Nat.add_le_add_left hle _).trans hvotes
      | true =>
        have huse := h.arrived id term' (by rw [hqueue]; simp)
        obtain rfl : term' = term := by
          have := huse.symm.trans helection
          injection this
        have hcons : ((LocalQuorumTaskResponseType.requestVoteResponse id term' true) :: rest).count
            (.requestVoteResponse id term' true) =
              rest.count (.requestVoteResponse id term' true) + 1 := List.count_cons_self
        have : tally.2 + ((LocalQuorumTaskResponseType.requestVoteResponse id term' true) ::
          rest).count (.requestVoteResponse id term' true) ≤ 1 + received term' := hvotes
        show tally.2 + 1 + rest.count (.requestVoteResponse id term' true) ≤ 1 + received term'
        omega
    | _ => exact ⟨(Nat.add_le_add_left hle _).trans hvotes, hwritten⟩

/-- A request: a vote request comes with a callback that waits for the answer. -/
theorem accept (h : BallotInv use sent received won n) (clock : Clock) (message : LocalRaftMessage)
    (hcallback : ∀ request, message.payload = .requestVote request → ∃ channel requestId,
      message.callback = .pending request.candidateId channel (.vote requestId request.term)) :
    ∃ use', KeepsUse use use' ∧
      BallotInv use' sent received won { n with machine := n.machine.accept clock message } := by
  obtain ⟨first, hframe, hfirst, hno⟩ := voteFrame_accept clock message n.machine
  refine ⟨_, h.keepsUse_takeIds _ first, h.frame rfl hframe (accept_votes clock message n.machine)
    (fun callback term c heq => ?_) fun term heq => absurd heq (hno term)⟩
  obtain ⟨rfl, request, hpayload, rfl, rfl⟩ := hfirst callback term c heq
  exact hcallback request hpayload

/-- The beginning of a leader's first `time_step`. -/
theorem takeOffice (h : BallotInv use sent received won n) (clock : Clock) :
    ∃ use', KeepsUse use use' ∧
      BallotInv use' sent received won { n with machine := n.machine.takeOffice clock } :=
  ⟨_, h.keepsUse_takeIds _ .other, h.frame rfl (voteFrame_takeOffice clock n.machine)
    (Or.inl (@keepsVotes_runPart .takeOffice (by simp) clock n.machine))
    (fun _ _ _ heq => nomatch heq) fun _ heq => nomatch heq⟩

/-- The end of `time_step`; an election takes the next id. -/
theorem finish (h : BallotInv use sent received won n) (clock : Clock)
    (hpositive : 1 ≤ n.shared.nextTerm)
    (hfresh : n.machine.startsElection clock .finish = true →
      n.shared.termVotes.lookup n.shared.nextTerm = none) :
    ∃ use', KeepsUse use use' ∧
      BallotInv use' sent received won { n with machine := n.machine.finish clock } ∧
      (n.machine.startsElection clock .finish = true →
        use' n.shared.nextMessageId = .election n.shared.nextTerm) := by
  obtain ⟨first, hframe, hno, hstarts, helection⟩ := voteFrame_finish clock n.machine
  refine ⟨_, h.keepsUse_takeIds _ first, h.frame rfl hframe
    (runPart_votes clock n.machine .finish hfresh)
    (fun callback term c heq => absurd heq (hno callback term c)) (fun term heq => ?_),
    fun hstart => ?_⟩
  · obtain ⟨hstart, rfl, hvoted⟩ := helection term heq
    exact ⟨hpositive, hfresh hstart, hvoted⟩
  · obtain ⟨rfl, hlt⟩ := hstarts hstart
    exact takeIds_first hlt

end BallotInv

/-! ### The persistence worker -/

namespace BallotInv

variable {use : ℕ → IdUse} {sent : ℕ × ℕ → ℕ} {received : ℕ → ℕ} {won : ℕ → Prop} {n : Node}

theorem processTask [Capnp] (h : BallotInv use sent received won n) :
    BallotInv use sent received won n.processTask := by
  have hrecord := h.toRecordInv.processTask
  rcases n.processTask_cases with heq | ⟨task, rest, hwork, hcases⟩
  · rwa [heq]
  · rcases hcases with ⟨st, responses, htask, heq⟩ | ⟨htask, heq⟩
    · rw [heq] at hrecord ⊢
      have hrows := rowVotes_processTask htask
      have hvotesFor : ∀ term, (rowVotes st.voteRows ++ votesIn rest).countP (·.1 = term) =
          votesFor n term := by
        intro term
        unfold votesFor
        rw [hrows, hwork, votesIn_cons, List.append_assoc]
      refine { h with toRecordInv := hrecord, logOnly := ?_, once := ?_, recorded := ?_,
                      spent := ?_ }
      · show persistedVotes st.pendingLogResponses = []
        rcases responses_processTask htask with ⟨hp, -⟩ | ⟨hvote, hp, -⟩
        · rw [hp]
          rfl
        · rw [hp, persistedVotes_append, h.logOnly, persistedVotes_report, hvote]
          rfl
      · exact fun term => (hvotesFor term).le.trans (h.once term)
      · exact fun term hnone => (hvotesFor term).trans (h.recorded term hnone)
      · intro v
        have hpersisted : persistedVotes responses = task.vote.toList := by
          rcases responses_processTask htask with ⟨-, hr⟩ | ⟨hvote, -, hr⟩
          · rw [hr, persistedVotes_append, h.logOnly, persistedVotes_report]
            rfl
          · rw [hr, hvote]
            rfl
        show (persistedVotes (n.shared.persistenceResponse ++ responses)).count v +
          (grantedVotes n.shared.callbackResponses).count v + sent v ≤
            (rowVotes st.voteRows).count v
        have := h.spent v
        rw [hrows, persistedVotes_append, hpersisted, List.count_append, List.count_append]
        omega
    · rw [heq] at hrecord ⊢
      have hsame : votesIn n.shared.persistenceWork = votesIn rest := by
        rw [hwork, votesIn_cons, vote_eq_none_of_processTask htask]
        rfl
      have hvotesFor : ∀ term, (rowVotes n.storage.voteRows ++ votesIn rest).countP (·.1 = term) =
          votesFor n term := by
        intro term
        unfold votesFor
        rw [hsame]
      exact { h with
        toRecordInv := hrecord
        once := fun term => (hvotesFor term).le.trans (h.once term)
        recorded := fun term hnone => (hvotesFor term).trans (h.recorded term hnone) }

theorem flush (h : BallotInv use sent received won n) : BallotInv use sent received won n.flush := by
  have hpending := Storage.pendingLogResponses_flushPendingLogs n.storage
  have hflushed := Storage.responses_flushPendingLogs n.storage
  have hrows : n.storage.flushPendingLogs.1.voteRows = n.storage.voteRows :=
    Storage.voteRows_flushPendingLogs n.storage
  have hvotesFor : ∀ term, (rowVotes n.storage.flushPendingLogs.1.voteRows ++
      votesIn n.shared.persistenceWork).countP (·.1 = term) = votesFor n term := by
    intro term
    rw [hrows]
    rfl
  have hrecord := h.toRecordInv.flush
  unfold Node.flush at hrecord ⊢
  split_ifs at hrecord ⊢
  · refine { h with toRecordInv := hrecord, logOnly := ?_, once := ?_, recorded := ?_, spent := ?_ }
    · show persistedVotes n.storage.flushPendingLogs.1.pendingLogResponses = []
      rw [hpending]
      rfl
    · exact fun term => (hvotesFor term).le.trans (h.once term)
    · exact fun term hnone => (hvotesFor term).trans (h.recorded term hnone)
    · intro v
      show (persistedVotes (n.shared.persistenceResponse ++ n.storage.flushPendingLogs.2)).count v +
        (grantedVotes n.shared.callbackResponses).count v + sent v ≤
          (rowVotes n.storage.flushPendingLogs.1.voteRows).count v
      rw [hrows, hflushed, persistedVotes_append, h.logOnly, List.append_nil]
      exact h.spent v
  · exact h

/-- **A node starts**, on the votes its disk holds. -/
theorem start [Capnp] (clock : Clock) (logFile : List UInt8) {rows : List VoteRow}
    (identity quorumSize workers : ℕ) (accepts : ℕ → Bool)
    (honce : ∀ term, (rowVotes rows).countP (·.1 = term) ≤ 1)
    (hsent : ∀ v, sent v ≤ (rowVotes rows).count v)
    (hwon : ∀ term, won term → ∃ c, (term, c) ∈ rowVotes rows) :
    BallotInv (fun _ => .unused) sent received won
      (Node.start clock logFile rows identity quorumSize workers accepts) := by
  have hvotesFor : ∀ term, votesFor
      (Node.start clock logFile rows identity quorumSize workers accepts) term =
        (rowVotes rows).countP (·.1 = term) := by
    intro term
    unfold votesFor
    exact congrArg (List.countP _) (List.append_nil (rowVotes rows))
  constructor
  case toRecordInv => exact .start clock logFile rows identity quorumSize workers accepts
  case once => exact fun term => (hvotesFor term).le.trans (honce term)
  case recorded =>
    intro term hnone
    rw [hvotesFor, List.countP_eq_zero]
    intro v hv hterm
    obtain ⟨row, hrow, rfl⟩ := List.mem_map.mp hv
    obtain rfl : row.term = term := by simpa using hterm
    exact Storage.lookup_collectVotes_ne_none hrow hnone
  case spent =>
    intro v
    show 0 + 0 + sent v ≤ (rowVotes rows).count v
    have := hsent v
    omega
  case logOnly => rfl
  case callbacks => exact fun _ _ _ _ h => nomatch h
  case tally => exact fun _ _ _ _ _ h => nomatch h
  case stood => exact fun _ _ h => nomatch h
  case stoodOnce => exact fun _ _ _ h => nomatch h
  case decided => exact fun _ _ h => nomatch h
  case wonVoted =>
    intro term hterm
    obtain ⟨c, hc⟩ := hwon term hterm
    obtain ⟨row, hrow, heq⟩ := List.mem_map.mp hc
    obtain rfl : row.term = term := congrArg Prod.fst heq
    exact Storage.lookup_collectVotes_ne_none hrow

theorem restart [Capnp] (h : BallotInv use sent received won n) (clock : Clock) (written : ℕ)
    (accepts : ℕ → Bool)
    (hwon : ∀ term, won term → ∃ c, (term, c) ∈ rowVotes n.storage.voteRows) :
    BallotInv (fun _ => .unused) sent received won (n.step (.restart clock written accepts)) := by
  refine start clock _ _ _ _ accepts (fun term => ?_) (fun v => ?_) hwon
  · have := h.once term
    unfold votesFor at this
    rw [List.countP_append] at this
    omega
  · have := h.spent v
    omega

/-- Responses of the quorum workers arrive. -/
theorem arrive (h : BallotInv use sent received won n) {received' : ℕ → ℕ}
    {responses : List LocalQuorumTaskResponseType}
    (hresponses : ∀ id term, .requestVoteResponse id term true ∈ responses →
      use id = .election term)
    (hreceived : ∀ id term, received term + responses.count (.requestVoteResponse id term true) ≤
      received' term) :
    BallotInv use sent received' won (n.withShared { n.shared with
      quorumResponse := n.shared.quorumResponse ++ responses }) := by
  refine { h with toRecordInv := h.toRecordInv.arrive hresponses, tally := ?_ }
  intro id term msg done votes huse hlookup htype
  have htally := h.tally id term msg done votes huse hlookup htype
  have hle := hreceived id term
  show votes + (n.shared.quorumResponse ++ responses).count _ ≤ _
  rw [List.count_append]
  omega

/-- Answers leave the process. -/
theorem answer (h : BallotInv use sent received won n) {sent' : ℕ × ℕ → ℕ}
    {answers : List (Callback × LocalRaftResponsePayload)}
    (hsent : ∀ v, (grantedVotes answers).count v + sent' v ≤
      (grantedVotes n.shared.callbackResponses).count v + sent v) :
    BallotInv use sent' received won (n.withShared { n.shared with callbackResponses := answers }) := by
  refine { h with spent := fun v => ?_ }
  have := h.spent v
  have := hsent v
  show (persistedVotes n.shared.persistenceResponse).count v + (grantedVotes answers).count v +
    sent' v ≤ (rowVotes n.storage.voteRows).count v
  omega

/-- **A completed election has its votes**: the own vote is on disk, and as many votes have
arrived as the quorum size asks for.  It was not won before, and its record is removed. -/
theorem completedElection (h : BallotInv use sent received won n) (clock : Clock)
    {part : TimeStepPart} {term : ℕ} (hwon : n.machine.completedElection part = some term) :
    n.shared.quorumSize ≤ 1 + received term ∧
      (term, n.shared.identity) ∈ rowVotes n.storage.voteRows ∧
      ∃ id, use id = .election term ∧ n.shared.outstandingMessages.lookup id ≠ none ∧
        (n.machine.runPart clock part).shared.outstandingMessages.lookup id = none := by
  obtain ⟨hrow, id, msg, done, votes, huse, hlookup, htype, hquorum, hnone⟩ :=
    h.toRecordInv.completedElection clock hwon
  exact ⟨hquorum.trans (h.tally id term msg done votes huse hlookup htype), hrow, id, huse,
    by simp [hlookup], hnone⟩

/-- Another election is won, and its record removed. -/
theorem win (h : BallotInv use sent received won n) {id term : ℕ} (huse : use id = .election term)
    (hnone : n.shared.outstandingMessages.lookup id = none) :
    BallotInv use sent received (fun t => won t ∨ t = term) n := by
  refine { h with wonVoted := fun t ht => ?_, decided := fun id' t huse' ht => ?_ }
  · rcases ht with ht | rfl
    · exact h.wonVoted t ht
    · exact (h.stood id t huse).2
  · rcases ht with ht | rfl
    · exact h.decided id' t huse' ht
    · rw [h.stoodOnce id' id t huse' huse]
      exact hnone

/-- Fewer elections have been won than thought. -/
theorem mono_won (h : BallotInv use sent received won n) {won' : ℕ → Prop}
    (hle : ∀ term, won' term → won term) : BallotInv use sent received won' n :=
  { h with
    wonVoted := fun term ht => h.wonVoted term (hle term ht)
    decided := fun id term huse ht => h.decided id term huse (hle term ht) }

/-- A part of `time_step`. -/
theorem runPart (h : BallotInv use sent received won n) (clock : Clock) (part : TimeStepPart)
    (hpositive : 1 ≤ n.shared.nextTerm)
    (hfresh : n.machine.startsElection clock part = true →
      n.shared.termVotes.lookup n.shared.nextTerm = none) :
    ∃ use', KeepsUse use use' ∧
      BallotInv use' sent received (fun t => won t ∨ n.machine.completedElection part = some t)
        { n with machine := n.machine.runPart clock part } ∧
      (n.machine.startsElection clock part = true →
        use' n.shared.nextMessageId = .election n.shared.nextTerm) := by
  have hno : part ≠ .finish → n.machine.startsElection clock part ≠ true := fun hpart => by
    simp [startsElection_of_ne hpart clock n.machine]
  have hkept : ∃ use', KeepsUse use use' ∧
      BallotInv use' sent received won { n with machine := n.machine.runPart clock part } ∧
      (n.machine.startsElection clock part = true →
        use' n.shared.nextMessageId = .election n.shared.nextTerm) := by
    cases part with
    | takeOffice =>
      obtain ⟨use', hextends, hinv⟩ := h.takeOffice clock
      exact ⟨use', hextends, hinv, fun hstarts => absurd hstarts (hno (by simp))⟩
    | popPersistence =>
      exact ⟨use, fun _ _ => rfl, h.popPersistence, fun hstarts => absurd hstarts (hno (by simp))⟩
    | popQuorum =>
      exact ⟨use, fun _ _ => rfl, h.popQuorum, fun hstarts => absurd hstarts (hno (by simp))⟩
    | finish => exact h.finish clock hpositive hfresh
  obtain ⟨use', hextends, hinv, hstarts⟩ := hkept
  refine ⟨use', hextends, ?_, hstarts⟩
  rcases hwon : n.machine.completedElection part with _ | term
  · exact hinv.mono_won fun t ht => ht.resolve_right (by simp)
  · obtain ⟨-, -, id, huse, -, hnone⟩ := h.completedElection clock hwon
    have huse' : use' id = .election term := (hextends id (by simp [huse])).trans huse
    refine (hinv.win huse' hnone).mono_won fun t ht => ht.imp_right fun heq => ?_
    exact (Option.some.inj heq).symm

/-- An election that is completed was not won before, and is of a positive term. -/
theorem completedElection_fresh (h : BallotInv use sent received won n) {part : TimeStepPart}
    {term : ℕ} (hwon : n.machine.completedElection part = some term) : ¬ won term ∧ 1 ≤ term := by
  obtain ⟨-, -, id, huse, hlookup, -⟩ := h.completedElection ⟨0, 0⟩ hwon
  exact ⟨fun ht => hlookup (h.decided id term huse ht), (h.stood id term huse).1⟩

end BallotInv

end Kraft
