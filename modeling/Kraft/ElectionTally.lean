/-
# The candidate's count of votes

An election is registered with the candidate's own vote and waits for that vote to reach the disk
and for the answers of all peers.  It is a record of the `Countdown` library that starts with one
grant (`Election.At`), and the node leads once the record is complete:

* `At.step` : an event of the election is a step of its record, and an event that is none leaves
  the record alone;
* `election_tally` : in whatever order the own vote reaches the disk and the answers come, the node
  becomes leader, of the term of the election, exactly when the own vote is on disk and a quorum has
  voted for it.

The requests for a vote that the candidate answers meanwhile, and the ends of `time_step` that find
the timeout not expired, may come in between.
-/
import Kraft.Countdown
import Kraft.LogRepresentation

namespace Kraft

/-- What a candidate handles in the course of an election: the own vote is on disk, a peer has
answered, a peer asks for a vote, or `time_step` comes to its end. -/
inductive ElectionEvent
  | votePersisted
  | voteResponse (granted : Bool)
  | requestVote (request : LocalRequestVoteRequest) (callback : Callback)
  | finish (clock : Clock)

variable {event : ElectionEvent} {response : Countdown.Response} {events : List ElectionEvent}

namespace ElectionEvent

/-- The own vote is on disk. -/
def persists : ElectionEvent → Bool
  | .votePersisted => true
  | _ => false

/-- A peer has answered. -/
def answers : ElectionEvent → Bool
  | .voteResponse _ => true
  | _ => false

/-- A peer has voted for the candidate. -/
def grants : ElectionEvent → Bool
  | .voteResponse granted => granted
  | _ => false

/-- The event as the library sees it, if it is a response to the election. -/
def toResponse : ElectionEvent → Option Countdown.Response
  | .votePersisted => some .stored
  | .voteResponse granted => some (.answer granted)
  | _ => none

end ElectionEvent

/-- The own vote is on disk, and with it a quorum has voted for the candidate. -/
def Elected (quorum : ℕ) (events : List ElectionEvent) : Prop :=
  1 ≤ events.countP (·.persists) ∧ quorum ≤ 1 + events.countP (·.grants)

instance (quorum : ℕ) (events : List ElectionEvent) : Decidable (Elected quorum events) :=
  inferInstanceAs (Decidable (_ ∧ _))

/-- The responses among the events. -/
def responsesIn (events : List ElectionEvent) : List Countdown.Response :=
  events.filterMap ElectionEvent.toResponse

theorem count_stored_responsesIn (events : List ElectionEvent) :
    (responsesIn events).count .stored = events.countP (·.persists) := by
  unfold responsesIn
  rw [List.count, List.countP_filterMap]
  refine List.countP_congr fun e _ => ?_
  cases e <;> simp [ElectionEvent.toResponse, ElectionEvent.persists]

theorem countP_isAnswer_responsesIn (events : List ElectionEvent) :
    (responsesIn events).countP Countdown.Response.isAnswer = events.countP (·.answers) := by
  unfold responsesIn
  rw [List.countP_filterMap]
  refine List.countP_congr fun e _ => ?_
  cases e <;> simp [ElectionEvent.toResponse, ElectionEvent.answers, Countdown.Response.isAnswer]

theorem grants_responsesIn (events : List ElectionEvent) :
    Countdown.grants (responsesIn events) = events.countP (·.grants) := by
  unfold responsesIn Countdown.grants
  rw [List.count, List.countP_filterMap]
  refine List.countP_congr fun e _ => ?_
  cases e <;> simp [ElectionEvent.toResponse, ElectionEvent.grants]

theorem met_iff_elected (quorum : ℕ) (events : List ElectionEvent) :
    Countdown.Met quorum 1 (responsesIn events) ↔ Elected quorum events := by
  unfold Countdown.Met Elected
  rw [← List.count_pos_iff, count_stored_responsesIn, grants_responsesIn]
  rfl

/-! ## One election -/

/-- An election: its message id and its term. -/
structure Election where
  id : ℕ
  term : ℕ

namespace Election

/-- The node handles an event in the course of the election. -/
def handle (e : Election) (sm : StateMachine) : ElectionEvent → StateMachine
  | .votePersisted => sm.handlePersistence (.votePersisted e.id e.term sm.shared.identity)
  | .voteResponse granted => sm.handleQuorum (.requestVoteResponse e.id e.term granted)
  | .requestVote request callback => sm.acceptRequestVote request callback
  | .finish clock => sm.finish clock

/-- The event does not start another election. -/
def Quiet (sm : StateMachine) : ElectionEvent → Prop
  | .finish clock => sm.startsElection clock .finish = false
  | _ => True

instance (sm : StateMachine) (event : ElectionEvent) : Decidable (Quiet sm event) := by
  cases event <;> unfold Quiet <;> infer_instance

/-- The election as it is registered. -/
def record (e : Election) : Countdown.Outcome → Option OutstandingMessage
  | .waiting r => some ⟨e.id, r.left, .candidateElection r.stored r.grants⟩
  | _ => none

/-- The node leads in the term of the election; it has not yet taken office. -/
def Leads (e : Election) (sm : StateMachine) : Prop :=
  sm.delegate = .leader false ∧ sm.shared.currentTerm = e.term

/-- The node is a candidate whose election has come to the outcome. -/
structure Stands (e : Election) (quorum : ℕ) (o : Countdown.Outcome) (sm : StateMachine) : Prop where
  candidate : sm.delegate.nodeType = .candidate
  quorumSize : sm.shared.quorumSize = quorum
  fresh : e.id < sm.shared.nextMessageId
  record : sm.shared.outstandingMessages.lookup e.id = e.record o

/-- The node is where the outcome of the election puts it. -/
def At (e : Election) (quorum : ℕ) (o : Countdown.Outcome) (sm : StateMachine) : Prop :=
  match o with
  | .complete => e.Leads sm
  | o => e.Stands quorum o sm

variable {e : Election} {quorum : ℕ} {o : Countdown.Outcome} {sm : StateMachine}

/-- A leader that has not yet taken office does nothing of what a candidate does. -/
theorem Leads.handle (h : e.Leads sm) (event : ElectionEvent) : e.Leads (e.handle sm event) := by
  obtain ⟨delegate, shared, requests⟩ := sm
  obtain ⟨rfl, hterm⟩ := h
  cases event with
  | votePersisted =>
    have hsettles := settles_handlePersistence (.votePersisted e.id e.term shared.identity)
      ⟨.leader false, shared, requests⟩
    exact ⟨rfl, (hsettles.sameStanding (by simp)).1.trans hterm⟩
  | voteResponse granted => exact ⟨rfl, hterm⟩
  | requestVote request callback =>
    exact ⟨rfl, (voteFor_unchanged request callback shared).2.1.trans hterm⟩
  | finish clock => exact ⟨rfl, hterm⟩

/-- A vote for a peer is registered under a new id. -/
theorem lookup_voteFor (request : LocalRequestVoteRequest) (callback : Callback) {s : SharedState}
    {id : ℕ} (h : id < s.nextMessageId) :
    (s.voteFor request callback).outstandingMessages.lookup id = s.outstandingMessages.lookup id ∧
      id < (s.voteFor request callback).nextMessageId := by
  have hasked := @asked_voteFor .leader nofun request callback s
  generalize s.voteFor request callback = s' at hasked ⊢
  cases hasked with
  | registered hrole => cases hrole
  | cast => exact ⟨AList.lookup_insert_ne h.ne, Nat.lt_succ_of_lt h⟩
  | refused => exact ⟨rfl, h⟩

/-- An event that is no response, and starts no other election, leaves the election as it is. -/
theorem Stands.quiet (h : e.Stands quorum o sm) (hresponse : event.toResponse = none)
    (hquiet : Quiet sm event) : e.Stands quorum o (e.handle sm event) := by
  obtain ⟨delegate, shared, requests⟩ := sm
  obtain ⟨hcandidate, hquorum, hfresh, hrecord⟩ := h
  rcases delegate with timer | timeout | initialized
  · cases hcandidate
  · cases event with
    | votePersisted => cases hresponse
    | voteResponse granted => cases hresponse
    | requestVote request callback =>
      obtain ⟨hlookup, hlt⟩ := lookup_voteFor request callback hfresh
      refine ⟨rfl, ?_, hlt, hlookup.trans hrecord⟩
      show (shared.voteFor request callback).quorumSize = quorum
      simpa using hquorum
    | finish clock =>
      have hnot : Candidate.timeoutExpired timeout clock.now = false := hquiet
      have hfinish : e.handle ⟨.candidate timeout, shared, requests⟩ (.finish clock) =
          ⟨.candidate timeout, shared.retryDeferredBroadcast, requests⟩ := by
        simp [Election.handle, StateMachine.finish, hnot]
      rw [hfinish]
      exact ⟨rfl, by simpa using hquorum, by simpa using hfresh, by simpa using hrecord⟩
  · cases hcandidate

/-- A response to the election is a reply to its message. -/
theorem settles_handle (hcandidate : sm.delegate.nodeType = .candidate) (e : Election)
    (hresponse : event.toResponse = some response) :
    ∃ reply : Reply, reply.role = .candidate ∧ reply.term = e.term ∧
      reply.toResponse = response ∧
      Settles sm.delegate.nodeType reply e.id sm.shared (e.handle sm event).shared ∧
      Responds (some (e.id, reply)) sm (e.handle sm event) := by
  cases event with
  | votePersisted =>
    refine ⟨.votePersisted e.term, rfl, rfl, Option.some.inj hresponse, ?_, ?_⟩
    · exact settles_handlePersistence (.votePersisted e.id e.term sm.shared.identity) sm
    · exact responds_handlePersistence (.votePersisted e.id e.term sm.shared.identity) sm
  | voteResponse granted =>
    have hreply : LocalQuorumTaskResponseType.reply sm.delegate.nodeType
        (.requestVoteResponse e.id e.term granted) = some (e.id, .vote e.term granted) := by
      rw [hcandidate]
      rfl
    have hresponds := responds_handleQuorum (.requestVoteResponse e.id e.term granted) sm
    have hsettles := settles_handleQuorum (.requestVoteResponse e.id e.term granted) sm
    rw [hreply] at hresponds
    refine ⟨.vote e.term granted, rfl, rfl, Option.some.inj hresponse, ?_, hresponds⟩
    change Settles _ _ _ _ (sm.handleQuorum (.requestVoteResponse e.id e.term granted)).shared
    generalize (sm.handleQuorum (.requestVoteResponse e.id e.term granted)).shared = s'
      at hsettles ⊢
    cases hsettles with
    | ignored hnone => cases hreply.symm.trans hnone
    | settled heq h =>
      cases heq.symm.trans hreply
      exact h
    | truncated _ heq => cases heq
  | requestVote request callback => cases hresponse
  | finish clock => cases hresponse

/-- A reply to an election that waits. -/
theorem Stands.of_settles {r : Countdown.Record} (h : e.Stands quorum (.waiting r) sm)
    {reply : Reply} {sm' : StateMachine} (hreply : reply.role = .candidate)
    (hterm : reply.term = e.term)
    (hsettles : Settles sm.delegate.nodeType reply e.id sm.shared sm'.shared)
    (hresponds : Responds (some (e.id, reply)) sm sm') :
    e.At quorum (r.respond quorum reply.toResponse) sm' := by
  obtain ⟨hcandidate, rfl, hfresh, hrecord⟩ := h
  rw [hcandidate] at hsettles
  have hpoll : sm.shared.Polls e.id .candidate .election r := ⟨rfl, e.id, hrecord⟩
  have hsettle := hsettles.eq_settle hpoll hreply
  obtain ⟨⟨⟨-, hquorum, -⟩, -⟩, -, hnext, -⟩ := hsettles.unchanged
  -- unless the reply completes the election, the node stays a candidate
  have hstays : r.respond sm.shared.quorumSize reply.toResponse ≠ .complete →
      sm'.delegate.nodeType = .candidate := by
    intro hnot
    cases hresponds with
    | elects heq _ helects =>
      cases heq
      obtain ⟨-, r', hpoll', hcomplete⟩ := helects
      exact absurd ((hpoll.unique hpoll').2 ▸ hcomplete) hnot
    | stays _ hdelegate => rw [hdelegate, hcandidate]
  rcases hrespond : r.respond sm.shared.quorumSize reply.toResponse with r' | _ | _
  · rw [hrespond] at hsettle
    refine ⟨hstays (by simp [hrespond]), hquorum, hnext ▸ hfresh, ?_⟩
    rw [hsettle]
    exact AList.lookup_insert _
  · cases hresponds with
    | elects heq =>
      cases heq
      exact ⟨rfl, hterm⟩
    | stays hnot => exact absurd ⟨hreply, r, hpoll, hrespond⟩ (hnot e.id reply rfl hcandidate)
  · -- the last response, without a quorum: the election is dropped
    rw [hrespond] at hsettle
    refine ⟨hstays (by simp [hrespond]), hquorum, hnext ▸ hfresh, ?_⟩
    rw [hsettle]
    exact AList.lookup_erase _ _

/-- **A response to an election that waits is a step of its record.** -/
theorem Stands.respond {r : Countdown.Record} (h : e.Stands quorum (.waiting r) sm)
    (hresponse : event.toResponse = some response) :
    e.At quorum (r.respond quorum response) (e.handle sm event) := by
  obtain ⟨reply, hreply, hterm, rfl, hsettles, hresponds⟩ := settles_handle h.candidate e hresponse
  exact h.of_settles hreply hterm hsettles hresponds

/-- A response to an election that has been dropped is ignored. -/
theorem Stands.ignore (h : e.Stands quorum .dropped sm)
    (hresponse : event.toResponse = some response) :
    e.Stands quorum .dropped (e.handle sm event) := by
  obtain ⟨reply, -, -, -, hsettles, hresponds⟩ := settles_handle h.candidate e hresponse
  have hsame := hsettles.eq_self h.record
  generalize e.handle sm event = sm' at hsame hresponds ⊢
  refine ⟨?_, by rw [hsame, h.quorumSize], by rw [hsame]; exact h.fresh, by rw [hsame, h.record]⟩
  cases hresponds with
  | elects heq _ helects =>
    cases heq
    obtain ⟨-, r, ⟨-, number, hlookup⟩, -⟩ := helects
    simp [h.record, Election.record] at hlookup
  | stays _ hdelegate => rw [hdelegate, h.candidate]

/-- **One event.** -/
theorem At.step (h : e.At quorum o sm) (hquiet : Quiet sm event) :
    e.At quorum (Runs.run (Countdown.step quorum) o event.toResponse.toList) (e.handle sm event) := by
  rcases hresponse : event.toResponse with _ | response
  · cases o with
    | waiting r => exact Stands.quiet h hresponse hquiet
    | complete => exact Leads.handle h event
    | dropped => exact Stands.quiet h hresponse hquiet
  · cases o with
    | waiting r => exact Stands.respond h hresponse
    | complete => exact Leads.handle h event
    | dropped => exact Stands.ignore h hresponse

/-- The state after some events. -/
abbrev stateAfter (e : Election) (sm : StateMachine) (events : List ElectionEvent) : StateMachine :=
  Runs.run e.handle sm events

/-- **The node after any events.** -/
theorem at_run {own peers : ℕ} (h : e.At quorum (Countdown.start own peers) sm)
    (hquiet : Runs.AllSteps e.handle Quiet sm events) :
    e.At quorum (Countdown.outcome quorum own peers (responsesIn events)) (e.stateAfter sm events) := by
  induction events using List.reverseRecOn with
  | nil => exact h
  | append_singleton front event ih =>
    obtain ⟨hfront, hlast, -⟩ := (Runs.allSteps_append ..).mp hquiet
    have hresponses : responsesIn (front ++ [event]) =
        responsesIn front ++ event.toResponse.toList := by
      unfold responsesIn
      rw [List.filterMap_append]
      cases event <;> rfl
    rw [hresponses, Countdown.outcome, Election.stateAfter, Runs.run_append, Runs.run_append]
    exact (ih hfront).step hlast

/-- The election that the end of `time_step` starts. -/
def next (s : SharedState) : Election := ⟨s.nextMessageId, s.nextTerm⟩

/-- An election starts with the own vote counted and nothing heard. -/
theorem at_finish {clock : Clock} (h : sm.startsElection clock .finish = true) :
    (next sm.shared).At sm.shared.quorumSize
      (Countdown.start 1 sm.shared.quorumWorkerTasks.length) (sm.finish clock) := by
  obtain ⟨delegate, shared, requests⟩ := sm
  rcases delegate with timer | timeout | initialized
  · cases h
  · have hexpired : Candidate.timeoutExpired timeout clock.now = true := h
    have hfinish : StateMachine.finish clock ⟨.candidate timeout, shared, requests⟩ =
        ⟨.candidate (Candidate.nextElectionTimeout clock),
          (Candidate.startElection shared).retryDeferredBroadcast, requests⟩ := by
      simp [StateMachine.finish, hexpired]
    rw [hfinish]
    refine ⟨rfl, by simp, ?_, ?_⟩
    · simp [next]
    · simp [next, Election.record, Countdown.start]
  · cases h

/-- What becomes of an election with quorum size `quorum` that has been started in `sm`, in the
course of the events. -/
structure Exact (e : Election) (quorum : ℕ) (sm : StateMachine) (events : List ElectionEvent) :
    Prop where
  /-- the node leads exactly if its own vote is on disk and a quorum has voted for it -/
  leads : ∀ before after, events = before ++ after →
    ((e.stateAfter sm before).delegate.nodeType = .leader ↔ Elected quorum before)
  /-- in the term of the election -/
  term : ∀ before after, events = before ++ after → Elected quorum before →
    (e.stateAfter sm before).shared.currentTerm = e.term
  /-- until then it is a candidate -/
  stands : ∀ before after, events = before ++ after → ¬Elected quorum before →
    (e.stateAfter sm before).delegate.nodeType = .candidate
  /-- and there is one event with which it becomes leader, if it ever does -/
  once : Elected quorum events → ∃! before, ∃ event after, events = before ++ event :: after ∧
    (e.stateAfter sm before).delegate.nodeType = .candidate ∧
      (e.stateAfter sm (before ++ [event])).delegate.nodeType = .leader

/-- The node after events among which the own vote reaches the disk once and each peer answers
once. -/
theorem leads_or_stands {peers : ℕ} (h : e.At quorum (Countdown.start 1 peers) sm)
    (hquiet : Runs.AllSteps e.handle Quiet sm events) (hpersists : events.countP (·.persists) ≤ 1)
    (hanswers : events.countP (·.answers) ≤ peers) :
    if Elected quorum events then e.Leads (e.stateAfter sm events)
    else (e.stateAfter sm events).delegate.nodeType = .candidate := by
  have hat := at_run h hquiet
  have hiff : Countdown.outcome quorum 1 peers (responsesIn events) = .complete ↔
      Elected quorum events := by
    rw [← met_iff_elected]
    refine Countdown.outcome_eq_complete_iff ?_ ?_
    · rwa [count_stored_responsesIn]
    · rwa [countP_isAnswer_responsesIn]
  split_ifs with helected
  · rwa [hiff.mpr helected] at hat
  · cases ho : Countdown.outcome quorum 1 peers (responsesIn events) with
    | complete => exact absurd (hiff.mp ho) helected
    | waiting r =>
      rw [ho] at hat
      exact hat.candidate
    | dropped =>
      rw [ho] at hat
      exact hat.candidate

end Election

theorem Elected.append {quorum : ℕ} (h : Elected quorum events) (more : List ElectionEvent) :
    Elected quorum (events ++ more) := by
  rw [← met_iff_elected] at *
  rw [responsesIn, List.filterMap_append]
  exact h.append _

/-- **The count of votes is exact and does not depend on the order of the responses.** -/
theorem election_tally {sm : StateMachine} {clock : Clock}
    (hstarts : sm.startsElection clock .finish = true) {events : List ElectionEvent}
    (hquiet : Runs.AllSteps (Election.next sm.shared).handle Election.Quiet (sm.finish clock) events)
    (hpersists : events.countP (·.persists) ≤ 1)
    (hanswers : events.countP (·.answers) ≤ sm.shared.quorumWorkerTasks.length) :
    (Election.next sm.shared).Exact sm.shared.quorumSize (sm.finish clock) events := by
  set e := Election.next sm.shared
  -- every prefix of the events meets the same conditions
  have hprefix : ∀ before after, events = before ++ after →
      if Elected sm.shared.quorumSize before then e.Leads (e.stateAfter (sm.finish clock) before)
      else (e.stateAfter (sm.finish clock) before).delegate.nodeType = .candidate := by
    intro before after hsplit
    rw [hsplit] at hquiet
    rw [hsplit, List.countP_append] at hpersists hanswers
    exact Election.leads_or_stands (Election.at_finish hstarts)
      ((Runs.allSteps_append ..).mp hquiet).1 (by omega) (by omega)
  have hleads : ∀ before after, events = before ++ after →
      ((e.stateAfter (sm.finish clock) before).delegate.nodeType = .leader ↔
        Elected sm.shared.quorumSize before) := by
    intro before after hsplit
    have hrole := hprefix before after hsplit
    split_ifs at hrole with helected
    · simp [hrole.1, helected]
    · rw [hrole]
      simp [helected]
  have hstands : ∀ before after, events = before ++ after → ¬Elected sm.shared.quorumSize before →
      (e.stateAfter (sm.finish clock) before).delegate.nodeType = .candidate := by
    intro before after hsplit hnot
    have hrole := hprefix before after hsplit
    rwa [if_neg hnot] at hrole
  refine ⟨hleads, ?_, hstands, fun hend => ?_⟩
  · intro before after hsplit helected
    have hrole := hprefix before after hsplit
    rw [if_pos helected] at hrole
    exact hrole.2
  · -- being elected is kept by further events, so there is a first moment of it
    obtain ⟨before, ⟨event, after, hsplit, hnot, hthen⟩, hunique⟩ := Countdown.exists_first
      (Elected sm.shared.quorumSize) (fun _ more h => h.append more) (fun h => nomatch h.1) hend
    refine ⟨before, ⟨event, after, hsplit, hstands before _ hsplit hnot, ?_⟩, ?_⟩
    · exact (hleads _ after (by rw [hsplit]; simp)).mpr hthen
    · rintro other ⟨event', after', hsplit', hcandidate, hleader⟩
      refine hunique other ⟨event', after', hsplit', fun h => ?_, ?_⟩
      · rw [(hleads other _ hsplit').mpr h] at hcandidate
        cases hcandidate
      · exact (hleads _ after' (by rw [hsplit']; simp)).mp hleader

/-- Node 1 times out and stands for term 1.  One peer refuses, then asks for a vote itself, the other
one votes for node 1, and the own vote reaches the disk last. -/
theorem election_tally_three : letI := digitCapnp
    let sm := (freshNode.run [.timeStep ⟨1000, 0⟩ .finish]).machine
    (Election.next sm.shared).Exact 2 (sm.finish ⟨1000, 0⟩)
      [.voteResponse false, .requestVote ⟨1, 2, 0, 0⟩ (.proxy 7), .voteResponse true,
        .finish ⟨1001, 0⟩, .votePersisted] :=
  letI := digitCapnp
  @election_tally (freshNode.run [.timeStep ⟨1000, 0⟩ .finish]).machine ⟨1000, 0⟩ (by decide)
    [.voteResponse false, .requestVote ⟨1, 2, 0, 0⟩ (.proxy 7), .voteResponse true,
      .finish ⟨1001, 0⟩, .votePersisted] (by decide) (by decide) (by decide)

end Kraft
