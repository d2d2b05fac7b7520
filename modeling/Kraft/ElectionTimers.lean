/-
# When a node stands for election

A follower waits 600 to 1299 ms after the last AppendEntries request before it turns candidate, and
a candidate waits 500 to 2999 ms from one election to the next.  `elections_timed` says what
follows for every run of a node, whatever requests and responses come in between.
-/
import Kraft.Node
import Kraft.Replies

namespace Kraft

open StateMachine

/-- The clock that an event reads. -/
def NodeEvent.clock : NodeEvent → Option Clock
  | .accept clock _ | .timeStep clock _ | .restart clock .. => some clock
  | .respond _ | .processTask | .flush => none

/-- The events on which a follower sets its timer. -/
def NodeEvent.resets : NodeEvent → Bool
  | .accept _ ⟨.appendEntries _, _⟩ | .restart .. => true
  | _ => false

/-- A node with the latest time it has read, when it last set its timer as a follower, and when it
last started an election. -/
structure Watch where
  node : Node
  now : ℕ
  followed : ℕ
  stood : Option ℕ

/-! ## What an event does to the role -/

/-- The node keeps its role with its timeout, or leads. -/
def KeepsOrLeads (sm sm' : StateMachine) : Prop :=
  sm'.delegate = sm.delegate ∨ sm'.delegate.nodeType = .leader

/-- A response elects a candidate, or leaves the role. -/
theorem KeepsOrLeads.of_responds (clock : Clock) (sm : StateMachine) {part : TimeStepPart}
    (hpart : part = .popPersistence ∨ part = .popQuorum) :
    KeepsOrLeads sm (sm.runPart clock part) := by
  have hresponds := responds_runPart clock sm hpart
  generalize sm.runPart clock part = sm' at hresponds ⊢
  cases hresponds with
  | elects => exact Or.inr rfl
  | stays _ hdelegate =>
    exact Or.inl (hdelegate.trans (by rcases hpart with rfl | rfl <;> rfl))

theorem keepsOrLeads_runPart (clock : Clock) {part : TimeStepPart} (hpart : part ≠ .finish)
    (sm : StateMachine) : KeepsOrLeads sm (sm.runPart clock part) := by
  cases part with
  | takeOffice =>
    show KeepsOrLeads sm (sm.takeOffice clock)
    unfold takeOffice
    split
    · exact Or.inr rfl
    · exact Or.inl rfl
  | popPersistence => exact .of_responds clock sm (Or.inl rfl)
  | popQuorum => exact .of_responds clock sm (Or.inr rfl)
  | finish => exact absurd rfl hpart

theorem delegate_finish (clock : Clock) (sm : StateMachine) :
    (sm.finish clock).delegate = match sm.delegate with
      | .follower timer => if timer.expired clock then .candidate 0 else .follower timer
      | .candidate timeout =>
        if Candidate.timeoutExpired timeout clock.now then
          .candidate (Candidate.nextElectionTimeout clock)
        else .candidate timeout
      | .leader initialized => .leader initialized := by
  obtain ⟨delegate, s, requests⟩ := sm
  rcases delegate with timer | timeout | _ | _
  · rfl
  · unfold finish
    dsimp only
    split_ifs <;> rfl
  · rfl
  · rfl

/-- A request that resets the timer leaves a follower with a new one, and other roles alone. -/
theorem delegate_acceptAppendEntries (clock : Clock) (request : LocalAppendEntries)
    (callback : Callback) (sm : StateMachine) :
    (sm.acceptAppendEntries clock request callback).delegate = newFollower clock ∨
      sm.delegate.nodeType ≠ .follower ∧
        (sm.acceptAppendEntries clock request callback).delegate = sm.delegate := by
  unfold acceptAppendEntries followIf
  split
  · exact Or.inl rfl
  all_goals
    next hrole =>
    split_ifs
    · exact Or.inl rfl
    · exact Or.inr ⟨by simp [hrole], rfl⟩

variable [Capnp]

theorem Node.keepsOrLeads_step {n : Node} {e : NodeEvent} (hresets : e.resets = false)
    (hfinish : ∀ clock, e ≠ .timeStep clock .finish) :
    KeepsOrLeads n.machine (n.step e).machine := by
  have hserves : ∀ {sm' : StateMachine}, Serves n.machine sm' → KeepsOrLeads n.machine sm' := by
    rintro sm' ⟨work, isOpen, responses, rfl⟩
    exact Or.inl rfl
  cases e with
  | accept clock message =>
    obtain ⟨payload, callback⟩ := message
    cases payload with
    | requestVote request =>
      refine Or.inl ?_
      show (n.machine.acceptRequestVote request callback).delegate = _
      unfold acceptRequestVote
      split <;> rfl
    | appendEntries request => cases hresets
    | getRaftState => exact Or.inl rfl
    | writeBatch batch =>
      refine Or.inl ?_
      show (n.machine.acceptWriteBatch clock batch callback).delegate = _
      unfold acceptWriteBatch
      split <;> rfl
  | timeStep clock part =>
    exact keepsOrLeads_runPart clock (fun hpart => hfinish clock (by rw [hpart])) n.machine
  | respond response => exact Or.inl rfl
  | processTask => exact hserves n.serves_processTask
  | flush => exact hserves n.serves_flush
  | restart clock written accepts => cases hresets

/-! ## Runs -/

namespace Watch

/-- One event. -/
def step (w : Watch) (e : NodeEvent) : Watch :=
  let node := w.node.step e
  let now := (e.clock.map Clock.now).getD w.now
  { node
    now
    followed := if e.resets ∧ node.machine.delegate.nodeType = .follower then now else w.followed
    stood := if w.node.startsElection e then some now
      else if e.isRestart then none else w.stood }

theorem step_finish (w : Watch) (clock : Clock) : w.step (.timeStep clock .finish) =
    { node := w.node.step (.timeStep clock .finish), now := clock.now, followed := w.followed,
      stood := if w.node.startsElection (.timeStep clock .finish) then some clock.now
        else w.stood } := by
  simp [step, NodeEvent.clock, NodeEvent.resets, NodeEvent.isRestart]

/-- The clock does not go back. -/
def Advances (w : Watch) (e : NodeEvent) : Prop := ∀ clock ∈ e.clock, w.now ≤ clock.now

/-- What the timeouts say about the past. -/
structure Inv (w : Watch) : Prop where
  past : w.followed ≤ w.now ∧ ∀ t ∈ w.stood, t ≤ w.now
  follower : ∀ timer, w.node.machine.delegate = .follower timer →
    w.followed + 600 ≤ timer.electionTimeout ∧ timer.electionTimeout < w.followed + 1300 ∧
      ∀ t ∈ w.stood, t ≤ w.followed
  candidate : ∀ timeout, w.node.machine.delegate = .candidate timeout →
    w.followed + 600 < w.now ∧
      (timeout = 0 ∧ (∀ t ∈ w.stood, t ≤ w.followed) ∨
        ∃ t ∈ w.stood, t + 500 ≤ timeout ∧ timeout < t + 3000)

omit [Capnp] in
/-- A timer that is set. -/
theorem Inv.of_reset {w : Watch} {clock : Clock} (hnow : w.now = clock.now)
    (hfollowed : w.followed = clock.now) (hstood : ∀ t ∈ w.stood, t ≤ clock.now)
    (hrole : w.node.machine.delegate = newFollower clock) : w.Inv where
  past := ⟨by omega, hnow ▸ hstood⟩
  follower timer htimer := by
    obtain rfl := Delegate.follower.inj (hrole.symm.trans htimer)
    have hrandom := Nat.mod_lt clock.random (show 0 < 700 by decide)
    show _ ≤ clock.now + (600 + clock.random % 700) ∧ clock.now + (600 + clock.random % 700) < _ ∧ _
    exact ⟨by omega, by omega, hfollowed ▸ hstood⟩
  candidate timeout htimeout := by cases hrole.symm.trans htimeout

omit [Capnp] in
/-- Time passes, and the node keeps its role or leads. -/
theorem Inv.keeps {w w' : Watch} (h : w.Inv) (hnow : w.now ≤ w'.now)
    (hfollowed : w'.followed = w.followed) (hstood : w'.stood = w.stood)
    (hrole : KeepsOrLeads w.node.machine w'.node.machine) : w'.Inv := by
  obtain ⟨hpast, hfollower, hcandidate⟩ := h
  rcases hrole with hsame | hleads
  · constructor <;> grind
  · refine ⟨by grind, fun timer htimer => ?_, fun timeout htimeout => ?_⟩
    · simp [htimer] at hleads
    · simp [htimeout] at hleads

/-- The end of `time_step`: a timeout that has passed makes a follower stand, and a candidate start
an election. -/
theorem Inv.finish {w : Watch} (h : w.Inv) {clock : Clock} (hnow : w.now ≤ clock.now) :
    (w.step (.timeStep clock .finish)).Inv := by
  have hstood : ∀ t ∈ w.stood, t ≤ clock.now := fun t ht => (h.past.2 t ht).trans hnow
  have hfollowed : w.followed ≤ clock.now := h.past.1.trans hnow
  have hdelegate := delegate_finish clock w.node.machine
  rw [step_finish]
  cases hrole : w.node.machine.delegate with
  | follower timer =>
    simp only [Node.startsElection, startsElection, hrole] at hdelegate ⊢
    split_ifs at hdelegate with hexpired
    · obtain ⟨hlow, -, hbefore⟩ := h.follower timer hrole
      refine ⟨⟨hfollowed, hstood⟩, fun timer htimer => ?_, fun timeout htimeout => ?_⟩
      · cases hdelegate.symm.trans htimer
      · obtain rfl := Delegate.candidate.inj (hdelegate.symm.trans htimeout)
        exact ⟨hlow.trans_lt (of_decide_eq_true hexpired), Or.inl ⟨rfl, hbefore⟩⟩
    · exact h.keeps hnow rfl rfl (Or.inl (hdelegate.trans hrole.symm))
  | candidate timeout =>
    simp only [Node.startsElection, startsElection, hrole] at hdelegate ⊢
    split_ifs at hdelegate ⊢ with hexpired
    · refine ⟨⟨hfollowed, by rintro t ⟨⟩; exact le_rfl⟩, fun timer htimer => ?_,
        fun timeout' htimeout => ?_⟩
      · cases hdelegate.symm.trans htimer
      · obtain rfl := Delegate.candidate.inj (hdelegate.symm.trans htimeout)
        have hrandom := Nat.mod_lt clock.random (show 0 < 2500 by decide)
        refine ⟨(h.candidate timeout hrole).1.trans_le hnow, Or.inr ⟨clock.now, rfl, ?_⟩⟩
        unfold Candidate.nextElectionTimeout
        omega
    · exact h.keeps hnow rfl rfl (Or.inl (hdelegate.trans hrole.symm))
  | leader initialized =>
    simp only [Node.startsElection, startsElection, hrole] at hdelegate ⊢
    exact h.keeps hnow rfl rfl (Or.inl (hdelegate.trans hrole.symm))

theorem Inv.step {w : Watch} (h : w.Inv) {e : NodeEvent} (hadvances : w.Advances e) :
    (w.step e).Inv := by
  have hnow : w.now ≤ (w.step e).now := by
    show w.now ≤ (e.clock.map Clock.now).getD w.now
    cases hclock : e.clock with
    | none => exact le_rfl
    | some clock => exact hadvances clock hclock
  cases hresets : e.resets with
  | true =>
    have hstood : ∀ t ∈ w.stood, t ≤ (w.step e).now := fun t ht => (h.past.2 t ht).trans hnow
    cases e with
    | accept clock message =>
      obtain ⟨payload, callback⟩ := message
      cases payload with
      | appendEntries request =>
        rcases delegate_acceptAppendEntries clock request callback w.node.machine with
          hnew | ⟨hrole, hsame⟩
        · refine .of_reset rfl (if_pos ⟨hresets, ?_⟩) hstood hnew
          exact congrArg Delegate.nodeType hnew
        · refine h.keeps hnow (if_neg fun hfollows => hrole ?_) rfl (Or.inl hsame)
          exact (congrArg Delegate.nodeType hsame).symm.trans hfollows.2
      | _ => cases hresets
    | restart clock written accepts => exact .of_reset rfl rfl (by rintro t ⟨⟩) rfl
    | _ => cases hresets
  | false =>
    by_cases hfinish : ∃ clock, e = .timeStep clock .finish
    · obtain ⟨clock, rfl⟩ := hfinish
      exact h.finish (hadvances clock rfl)
    · refine h.keeps hnow ?_ ?_
        (Node.keepsOrLeads_step hresets fun clock heq => hfinish ⟨clock, heq⟩)
      · simp [Watch.step, hresets]
      · -- a restart resets the timer, and only the end of `time_step` starts an election
        cases e with
        | timeStep clock part =>
          cases part with
          | finish => exact absurd ⟨clock, rfl⟩ hfinish
          | _ => simp [Watch.step, Node.startsElection, startsElection, NodeEvent.isRestart]
        | restart clock written accepts => cases hresets
        | _ => rfl

/-- **The timing of elections**, from when a node has set its timer, as it does at its start, with a
clock that does not go back: when `time_step` ends, an election starts only if the timer was not
reset for more than 600 ms and the last election started at least 500 ms ago; a node that does not
lead turns candidate or starts one at the latest after 1300 and 3000 ms. -/
theorem elections_timed (n : Node) (clock : Clock)
    (hstart : n.machine.delegate = newFollower clock) (events : List NodeEvent)
    (hclock : Runs.AllSteps step Advances ⟨n, clock.now, clock.now, none⟩ events) (clock' : Clock) :
    let w := Runs.run step ⟨n, clock.now, clock.now, none⟩ events
    let finish := NodeEvent.timeStep clock' .finish
    w.now ≤ clock'.now →
    (w.node.startsElection finish = true →
      w.followed + 600 < clock'.now ∧ ∀ t ∈ w.stood, t + 500 ≤ clock'.now) ∧
    (w.followed + 1300 ≤ clock'.now → (∀ t ∈ w.stood, t + 3000 ≤ clock'.now) →
      w.node.machine.delegate.nodeType ≠ .leader →
        (w.node.step finish).machine.delegate = .candidate 0 ∨
          w.node.startsElection finish = true) := by
  intro w finish hnow
  have h : w.Inv := hclock.invariant Inv (fun _ _ h hadvances => h.step hadvances)
    (.of_reset rfl rfl (by rintro t ⟨⟩) hstart)
  cases hrole : w.node.machine.delegate with
  | follower timer =>
    obtain ⟨-, hhigh, -⟩ := h.follower timer hrole
    refine ⟨fun hstarts => ?_, fun hfollowed _ _ => Or.inl ?_⟩
    · simp [Node.startsElection, startsElection, finish, hrole] at hstarts
    · have hexpired : timer.expired clock' = true := decide_eq_true (by omega)
      refine (delegate_finish clock' w.node.machine).trans ?_
      simp only [hrole, hexpired, if_true]
  | candidate timeout =>
    obtain ⟨hwaited, helection⟩ := h.candidate timeout hrole
    have hstarts : w.node.startsElection finish = Candidate.timeoutExpired timeout clock'.now := by
      simp [Node.startsElection, startsElection, finish, hrole]
    unfold Candidate.timeoutExpired at hstarts
    rw [hstarts]
    refine ⟨fun hexpired => ⟨by omega, fun t ht => ?_⟩, fun _ hstood _ => Or.inr ?_⟩
    · -- the timeout lies less than an hour ahead, so it has passed
      have hpast := h.past.2 t ht
      grind [Option.mem_def]
    · grind
  | leader initialized =>
    refine ⟨fun hstarts => ?_, fun _ _ hleads => absurd rfl hleads⟩
    simp [Node.startsElection, startsElection, finish, hrole] at hstarts

omit [Capnp] in
/-- A node that hears nothing starts an election after 602 ms, and the next 500 ms later. -/
theorem elections_timed_alone : letI := sampleCapnp
    let n := Node.start ⟨0, 0⟩ [] [] 1 2 2 fun _ => true
    let w := Runs.run step ⟨n, 0, 0, none⟩
      [.timeStep ⟨601, 0⟩ .finish, .timeStep ⟨602, 0⟩ .finish]
    w.stood = some 602 ∧ w.node.startsElection (.timeStep ⟨1102, 0⟩ .finish) = true ∧
      w.followed + 600 < 1102 ∧ ∀ t ∈ w.stood, t + 500 ≤ 1102 :=
  ⟨by decide, by decide, (@elections_timed sampleCapnp _ ⟨0, 0⟩ rfl
    [.timeStep ⟨601, 0⟩ .finish, .timeStep ⟨602, 0⟩ .finish]
    ⟨by rintro clock ⟨⟩; decide, by rintro clock ⟨⟩; decide, trivial⟩ ⟨1102, 0⟩ (by decide)).1
      (by decide)⟩

end Watch

end Kraft
