/-
# Leader completeness

An entry that a leader has committed is in the log of every leader of a later term, at the moment of
its election (`leader_completeness`).  The argument is that of `Reigns`: an acknowledgement is a
promise to keep the entry, a commit needs the promises of a majority, and an election needs the votes
of one.

`Annals` is a world with what has to be remembered of its run: the elections and acknowledgements as
before, and in its `Chronicle` the elections that were started, the votes, leaders and promises of
`Reigns`, and the commits.  `Annals.Faithful` says what the code does not see to by itself:

* a vote goes to a candidate whose log is not behind that of the voter (`should_accept_vote` compares
  positions only);
* an election is won with a log not behind the one it was started with;
* a node that has voted in a later term acknowledges nothing of an earlier one (a vote does not raise
  `current_term`);
* what was acknowledged is kept until a leader of a later term was elected without it.

Together with the conditions of election safety, of the representation of the log and of
acknowledgements this is `CompletenessLaw`.  Without it a committed entry can be lost
(`committed_entry_lost`).
-/
import Kraft.CommitSoundness
import Kraft.LeaderArchive
import Kraft.Reigns
import Kraft.UpToDateVotes

namespace Kraft

open SharedState StateMachine Reigns

/-! ## What is remembered of a run -/

/-- A node that has started an election, with its log at the time. -/
structure Candidacy where
  node : ℕ
  term : ℕ
  log : List OwnedLogEntry
  deriving DecidableEq

/-- The leader of a term has set its commit index to that of an entry of its log. -/
structure Commit where
  term : ℕ
  index : ℕ
  entry : OwnedLogEntry
  deriving DecidableEq

variable {r : Reign ℕ OwnedLogEntry} {c : Commit} {label : Label}

/-- What has to be remembered of elections, promises and commits. -/
structure Chronicle where
  candidacies : List Candidacy
  book : Book ℕ OwnedLogEntry
  commits : List Commit

/-- A world with all that is remembered of the run. -/
structure Annals where
  world : World
  history : History
  acks : Acks
  chronicle : Chronicle

/-- The part that election safety is about. -/
def Annals.trace (t : Annals) : Trace := ⟨t.world, t.history⟩

/-- The part that acknowledgements are about. -/
def Annals.ackTrace (t : Annals) : AckTrace := ⟨t.world, t.acks⟩

/-- The logs of the nodes. -/
def World.logs (w : World) (a : ℕ) : List OwnedLogEntry := (w.shared a).replicationLog

section Steps

variable [Capnp] [ParsesSocketAddr]

/-- The election that node `a` starts. -/
def World.candidacies (w : World) (a : ℕ) : ProcessEvent → List Candidacy
  | .timeStep clock part =>
    if (w.process a).node.machine.startsElection clock part then
      [⟨a, (w.shared a).nextTerm, w.logs a⟩]
    else []
  | _ => []

/-- The votes that node `a` casts. -/
def World.ballots (w : World) (a : ℕ) (event : ProcessEvent) : List (Ballot ℕ OwnedLogEntry) :=
  (((w.process a).nodeEvent event).toList.flatMap (w.process a).node.castVotes).map
    fun v => ⟨a, v.1, v.2, w.logs a⟩

/-- Node `a`, if it enters the leader role in a step from `w` to `w'`. -/
def World.reigns (w w' : World) (a : ℕ) : List (Reign ℕ OwnedLogEntry) :=
  (entersLeader a (w.process a) (w'.process a)).map fun l => ⟨l.1, l.2, w'.logs a⟩

/-- The entries of other nodes' outstanding messages that node `a` acknowledges in a step from `w` to
`w'`. -/
def World.promises (w w' : World) (a : ℕ) : List (Promise ℕ OwnedLogEntry) :=
  (okAcks (w.shared a) (w'.shared a)).filterMap fun v =>
    if v.1 = a then none
    else (w.tally v.1 v.2).bind fun tally =>
      (w.logs v.1)[tally.index]?.map fun entry => ⟨a, tally.index, entry⟩

/-- The entry whose completion raises the commit index of leader `a`. -/
def World.commits (w : World) (a : ℕ) : ProcessEvent → List Commit
  | .timeStep _ part =>
    match completedMessage (w.process a).node.machine part with
    | some (_, index) =>
      if (w.shared a).commitIndex < index then
        ((w.logs a)[index]?.map fun entry => ⟨(w.shared a).currentTerm, index, entry⟩).toList
      else []
    | none => []
  | _ => []

/-- What is remembered after an event of node `a`. -/
def Chronicle.act (w w' : World) (a : ℕ) (event : ProcessEvent) (c : Chronicle) : Chronicle where
  candidacies := c.candidacies ++ w.candidacies a event
  book :=
    { ballots := c.book.ballots ++ w.ballots a event
      reigns := w.reigns w' a ++ c.book.reigns
      promises := c.book.promises ++ w.promises w' a }
  commits := c.commits ++ w.commits a event

/-- What is remembered after a step. -/
def Chronicle.step (C : Cluster) (w w' : World) (c : Chronicle) : Label → Chronicle
  | .act a event => if a ∈ C.members then c.act w w' a event else c
  | _ => c

/-- One step. -/
def Annals.step (C : Cluster) (t : Annals) (label : Label) : Annals where
  world := t.world.step C label
  history := t.history.step C t.world (t.world.step C label) label
  acks := t.acks.step C t.world (t.world.step C label) label
  chronicle := t.chronicle.step C t.world (t.world.step C label) label

/-- All nodes start on empty files. -/
def Annals.start (C : Cluster) (clock : ℕ → Clock) (accepts : ℕ → ℕ → Bool) : Annals where
  world := World.start C clock accepts
  history := ⟨fun _ => [], [], []⟩
  acks := ⟨fun _ => [], fun _ => []⟩
  chronicle := ⟨[], ⟨[], [], []⟩, []⟩

/-! ## The condition -/

/-- The promise need not be kept any more. -/
abbrev Annals.Superseded (t : Annals) (p : Promise ℕ OwnedLogEntry) : Prop :=
  Reigns.Superseded OwnedLogEntry.term t.chronicle.book.reigns p

/-- The event of node `a` removes no entry that the node has promised to keep. -/
def Annals.Retains (t : Annals) (a : ℕ) : NodeEvent → Prop
  | .timeStep _ .popQuorum => ∀ prevIndex ∈ nextTruncation (t.world.process a).node.machine,
      ∀ p ∈ t.chronicle.book.promises, p.node = a → p.index ≤ prevIndex ∨ t.Superseded p
  | .restart clock written accepts => ∀ p ∈ t.chronicle.book.promises, p.node = a →
      ((t.world.process a).node.step (.restart clock written accepts)).shared.replicationLog[p.index]? =
        (t.world.logs a)[p.index]? ∨ t.Superseded p
  | _ => True

/-- The condition on votes and promises: -/
def Annals.Faithful (C : Cluster) (t : Annals) : Label → Prop
  | .act a event =>
    -- a vote goes to a candidate whose log is not behind that of the voter,
    (∀ v ∈ t.world.ballots a event, ∃ c ∈ (t.step C (.act a event)).chronicle.candidacies,
      c.node = v.candidate ∧ c.term = v.term ∧ NotBehind OwnedLogEntry.term v.log c.log) ∧
    -- an election is won with a log that is not behind the one it was started with,
    (∀ r ∈ t.world.reigns (t.step C (.act a event)).world a,
      ∀ c ∈ (t.step C (.act a event)).chronicle.candidacies, c.node = r.leader → c.term = r.term →
        NotBehind OwnedLogEntry.term c.log r.log) ∧
    -- an entry is acknowledged before any vote in a later term,
    (∀ p ∈ t.world.promises (t.step C (.act a event)).world a,
      ∀ v ∈ (t.step C (.act a event)).chronicle.book.ballots, v.voter = p.node →
        v.term ≤ p.entry.term) ∧
    -- and is kept until a leader of a later term has been elected without it
    ∀ e ∈ (t.world.process a).nodeEvent event, t.Retains a e
  | _ => True

/-- The condition on a step: those of election safety, of the representation of the log and of
acknowledgements, and the one on votes and promises. -/
def CompletenessLaw (C : Cluster) (t : Annals) (label : Label) : Prop :=
  ElectionLaw t.trace label ∧ t.world.KeepsRepresentation label ∧ AckLaw C t.ackTrace label ∧
    t.Faithful C label

instance (t : Annals) (a : ℕ) (e : NodeEvent) : Decidable (t.Retains a e) := by
  rcases e with _ | ⟨_, _ | _ | _ | _⟩ | _ | _ | _ | _ <;> unfold Annals.Retains <;> infer_instance

instance (C : Cluster) (t : Annals) : ∀ label, Decidable (t.Faithful C label)
  | .act .. => inferInstanceAs (Decidable (_ ∧ _ ∧ _ ∧ _))
  | .deliver _ | .lose _ => inferInstanceAs (Decidable True)

instance (C : Cluster) (t : Annals) (label : Label) : Decidable (CompletenessLaw C t label) :=
  inferInstanceAs (Decidable (_ ∧ _ ∧ _ ∧ _))

end Steps

/-- A promise is of an entry that the node acknowledges. -/
theorem World.mem_promises {w w' : World} {a : ℕ} {p : Promise ℕ OwnedLogEntry}
    (h : p ∈ w.promises w' a) :
    p.node = a ∧ ∃ v ∈ okAcks (w.shared a) (w'.shared a), ∃ tally, w.tally v.1 v.2 = some tally ∧
      p.index = tally.index ∧ (w.logs v.1)[tally.index]? = some p.entry := by
  obtain ⟨v, hv, hp⟩ := List.mem_filterMap.mp h
  split_ifs at hp
  obtain ⟨tally, htally, hp⟩ := Option.bind_eq_some_iff.mp hp
  obtain ⟨entry, hentry, rfl⟩ := Option.map_eq_some_iff.mp hp
  exact ⟨rfl, v, hv, tally, htally, rfl, hentry⟩

/-- A reign starts when a node becomes leader. -/
theorem World.mem_reigns {w w' : World} {a : ℕ} (h : r ∈ w.reigns w' a) :
    r.leader = a ∧ r.log = w'.logs a ∧
      (w.process a).node.machine.delegate.nodeType ≠ .leader ∧
        (w'.process a).node.machine.Leads r.term := by
  obtain ⟨l, hl, rfl⟩ := List.mem_map.mp h
  unfold entersLeader at hl
  split_ifs at hl with henters
  · obtain rfl := List.mem_singleton.mp hl
    exact ⟨rfl, rfl, henters.1, henters.2, rfl⟩
  · cases hl

/-- A commit is of a message that a leader completes. -/
theorem World.mem_commits {w : World} {a : ℕ} {event : ProcessEvent} (h : c ∈ w.commits a event) :
    ∃ part id,
      completedMessage (w.process a).node.machine part = some (id, c.index) ∧
        (w.logs a)[c.index]? = some c.entry ∧ c.term = (w.shared a).currentTerm := by
  cases event with
  | timeStep clock part =>
    unfold World.commits at h
    dsimp only at h
    split at h
    · next id index hcompleted =>
      split_ifs at h
      · obtain ⟨entry, hentry, rfl⟩ := Option.map_eq_some_iff.mp (Option.mem_toList.mp h)
        exact ⟨part, id, hcompleted, hentry, rfl⟩
      · cases h
    · cases h
  | _ => cases h

/-- The entry is of a term up to that of the leader that commits it, and a majority has promised to
keep it. -/
structure Commit.Backed (members : Finset ℕ) (promises : List (Promise ℕ OwnedLogEntry))
    (c : Commit) : Prop where
  positive : 1 ≤ c.entry.term
  term_le : c.entry.term ≤ c.term
  majority : members.card < 2 * (members.filter fun x => ⟨x, c.index, c.entry⟩ ∈ promises).card

/-- More promises back it as well. -/
theorem Commit.Backed.mono {members : Finset ℕ}
    {promises promises' : List (Promise ℕ OwnedLogEntry)} (h : c.Backed members promises)
    (hsub : promises ⊆ promises') : c.Backed members promises' := by
  refine ⟨h.positive, h.term_le, h.majority.trans_le (Nat.mul_le_mul_left 2 ?_)⟩
  exact Finset.card_le_card (Finset.monotone_filter_right _ fun _ _ hx => hsub hx)

/-- Only a leader in office completes messages. -/
theorem leader_of_completedMessage {sm : StateMachine} {part : TimeStepPart} {done : ℕ × ℕ}
    (h : completedMessage sm part = some done) : sm.delegate = .leader true := by
  unfold completedMessage at h
  split at h
  · assumption
  · assumption
  · cases h

/-- A step starts one reign at most. -/
theorem World.reigns_cases (w w' : World) (a : ℕ) :
    w.reigns w' a = [] ∨ ∃ r, w.reigns w' a = [r] := by
  unfold World.reigns entersLeader
  split_ifs
  · exact Or.inr ⟨_, rfl⟩
  · exact Or.inl rfl

/-! ## Votes and candidates -/

/-- The votes of a node, on its disk and on their way there. -/
def Node.votes (n : Node) : List (ℕ × ℕ) :=
  rowVotes n.storage.voteRows ++ votesIn n.shared.persistenceWork

theorem Exchanges.votes_eq {n n' : Node} (h : Exchanges n n') : n'.votes = n.votes := by
  obtain ⟨responses, answers, tasks, rfl, -⟩ := h
  rfl

section Votes

variable [Capnp]

/-- The votes after an event were there before or are cast in it. -/
theorem Node.votes_step (n : Node) (e : NodeEvent) : (n.step e).votes ⊆ n.votes ++ n.castVotes e := by
  have hmachine : ∀ sm : StateMachine, RecordsVotes n.shared sm.shared →
      rowVotes n.storage.voteRows ++ votesIn sm.shared.persistenceWork ⊆ n.votes ++
        votesIn (sm.shared.persistenceWork.drop n.shared.persistenceWork.length) := by
    rintro sm ⟨-, tasks, hwork, -⟩
    rw [hwork, List.drop_left, votesIn_append, ← List.append_assoc]
    exact List.Subset.refl _
  cases e with
  | accept clock message =>
    refine hmachine (n.machine.accept clock message) ?_
    rcases accept_votes clock message n.machine with h | h
    · exact h.recordsVotes
    · exact h.recordsVotes
  | timeStep clock part =>
    exact hmachine _ (recordsVotes_runPart clock n.machine part)
  | respond response => exact List.subset_append_left _ _
  | processTask =>
    refine List.Subset.trans ?_ (List.subset_append_left _ _)
    show n.processTask.votes ⊆ n.votes
    unfold Node.processTask
    split
    · next task rest _ hwork =>
      have hvotes : n.votes = rowVotes n.storage.voteRows ++ task.vote.toList ++ votesIn rest := by
        rw [Node.votes, hwork, votesIn_cons, List.append_assoc]
      split
      · next st responses htask =>
        have hrows : rowVotes st.voteRows = rowVotes n.storage.voteRows ++ task.vote.toList := by
          rw [voteRows_storage_processTask htask]
          simp [rowVotes, Function.comp_def]
        show rowVotes st.voteRows ++ votesIn rest ⊆ _
        rw [hvotes, hrows]
        exact List.Subset.refl _
      · rw [hvotes]
        exact List.append_subset.mpr ⟨List.subset_append_of_subset_left _
          (List.subset_append_left _ _), List.subset_append_right _ _⟩
    · exact List.Subset.refl _
  | flush =>
    refine List.Subset.trans ?_ (List.subset_append_left _ _)
    show n.flush.votes ⊆ n.votes
    unfold Node.flush
    split_ifs
    · show rowVotes n.storage.flushPendingLogs.1.voteRows ++ votesIn n.shared.persistenceWork ⊆ _
      rw [Storage.voteRows_flushPendingLogs]
      exact List.Subset.refl _
    · exact List.Subset.refl _
  | restart clock written accepts =>
    refine List.Subset.trans ?_ (List.subset_append_left _ _)
    exact List.append_subset.mpr ⟨List.subset_append_left _ _, List.nil_subset _⟩

end Votes

section Cluster

variable [Capnp] [ParsesSocketAddr] {C : Cluster} {t : Annals} {a : ℕ} {event : ProcessEvent}

/-- A node acts, and the chronicle is continued. -/
theorem Annals.chronicle_act (ha : a ∈ C.members) : (t.step C (.act a event)).chronicle =
    t.chronicle.act t.world (t.world.step C (.act a event)) a event :=
  if_pos ha

theorem Annals.process_act_self (ha : a ∈ C.members) :
    (t.step C (.act a event)).world.process a = ((t.world.process a).step C.utf8Lossy event).1 :=
  Trace.process_act_self (t := t.trace) ha event

theorem Annals.process_act_of_ne (ha : a ∈ C.members) {b : ℕ} (hb : b ≠ a) :
    (t.step C (.act a event)).world.process b = t.world.process b :=
  Trace.process_act_of_ne (t := t.trace) ha hb event

/-- **A step of the cluster** is an event of a member, or leaves nodes and chronicle alone but for
what nodes exchange with their quorum workers. -/
theorem Annals.step_cases (C : Cluster) (t : Annals) (label : Label) :
    (∃ a ∈ C.members, ∃ event, label = .act a event) ∨
      (t.step C label).chronicle = t.chronicle ∧
        (t.step C label).history.leaders = t.history.leaders ∧
        (t.step C label).acks.given = t.acks.given ∧
        ∀ b, Exchanges (t.world.process b).node ((t.step C label).world.process b).node := by
  cases label with
  | act a event =>
    by_cases ha : a ∈ C.members
    · exact Or.inl ⟨a, ha, event, rfl⟩
    · have hsame : t.step C (.act a event) = t := by
        simp [Annals.step, History.step, Acks.step, Chronicle.step, ha, World.step_act_of_notMem ha]
      rw [hsame]
      exact Or.inr ⟨rfl, rfl, rfl, fun _ => .refl _⟩
  | deliver i =>
    refine Or.inr ⟨rfl, rfl, ?_, World.exchanges_of_deliver C t.world i⟩
    show (t.acks.step C t.world (t.world.step C (.deliver i)) (.deliver i)).given = _
    unfold Acks.step
    dsimp only
    split <;> rfl
  | lose i => exact Or.inr ⟨rfl, rfl, rfl, fun _ => .refl _⟩

/-- Votes belong to ballots, ballots to candidates, and leaders to reigns. -/
structure PollInv (C : Cluster) (t : Annals) : Prop where
  cast : ∀ a ∈ C.members, ∀ v ∈ (t.world.process a).node.votes, ∃ b ∈ t.chronicle.book.ballots,
    b.voter = a ∧ (b.term, b.candidate) = v
  named : ∀ v ∈ t.chronicle.book.ballots, ∃ c ∈ t.chronicle.candidacies,
    c.node = v.candidate ∧ c.term = v.term ∧ NotBehind OwnedLogEntry.term v.log c.log
  leaders : ∀ l ∈ t.history.leaders, ∃ r ∈ t.chronicle.book.reigns, (r.leader, r.term) = l

namespace PollInv

/-- No vote is remembered at the start. -/
theorem start (clock : ℕ → Clock) (accepts : ℕ → ℕ → Bool) :
    PollInv C (Annals.start C clock accepts) where
  cast _ _ _ hv := nomatch hv
  named _ hv := nomatch hv
  leaders _ hl := nomatch hl

/-- The votes of the node that acts. -/
theorem cast_act (h : PollInv C t) (ha : a ∈ C.members) :
    ∀ v ∈ (((t.world.process a).step C.utf8Lossy event).1.node).votes,
      ∃ b ∈ t.chronicle.book.ballots ++ t.world.ballots a event,
        b.voter = a ∧ (b.term, b.candidate) = v := by
  intro v hv
  have hold : v ∈ (t.world.process a).node.votes →
      ∃ b ∈ t.chronicle.book.ballots ++ t.world.ballots a event,
        b.voter = a ∧ (b.term, b.candidate) = v := by
    intro hv
    obtain ⟨b, hb, hvote⟩ := h.cast a ha v hv
    exact ⟨b, List.mem_append_left _ hb, hvote⟩
  rcases node_step C.utf8Lossy (t.world.process a) event with ⟨e, he, hnode⟩ | ⟨-, hexchange⟩
  · rw [hnode] at hv
    rcases List.mem_append.mp (Node.votes_step _ e hv) with hv | hv
    · exact hold hv
    · refine ⟨⟨a, v.1, v.2, t.world.logs a⟩, List.mem_append_right _ ?_, rfl, rfl⟩
      refine List.mem_map.mpr ⟨v, ?_, rfl⟩
      rw [he]
      simpa using hv
  · exact hold (hexchange.votes_eq ▸ hv)

/-- **A step of the cluster.** -/
theorem step (h : PollInv C t) (hlaw : t.Faithful C label) : PollInv C (t.step C label) := by
  rcases t.step_cases C label with ⟨a, ha, event, rfl⟩ | ⟨hchronicle, hleaders, -, hnodes⟩
  · refine ⟨fun b hb v hv => ?_, fun v hv => ?_, fun l hl => ?_⟩
    · rw [Annals.chronicle_act ha]
      by_cases hba : b = a
      · rw [hba, Annals.process_act_self ha] at hv
        rw [hba]
        exact h.cast_act ha v hv
      · rw [Annals.process_act_of_ne ha hba] at hv
        obtain ⟨b', hb', hvote⟩ := h.cast b hb v hv
        exact ⟨b', List.mem_append_left _ hb', hvote⟩
    · rw [Annals.chronicle_act ha] at hv
      rcases List.mem_append.mp hv with hv | hv
      · obtain ⟨c, hc, hnamed⟩ := h.named v hv
        rw [Annals.chronicle_act ha]
        exact ⟨c, List.mem_append_left _ hc, hnamed⟩
      · exact hlaw.1 v hv
    · rw [Annals.chronicle_act ha]
      have hl : l ∈ (t.trace.step C (.act a event)).history.leaders := hl
      rw [Trace.leaders_act ha, ← Trace.process_act_self ha] at hl
      rcases List.mem_append.mp hl with hl | hl
      · obtain ⟨r, hr, heq⟩ := h.leaders l hl
        exact ⟨r, List.mem_append_right _ hr, heq⟩
      · exact ⟨_, List.mem_append_left _ (List.mem_map.mpr ⟨l, hl, rfl⟩), rfl⟩
  · refine ⟨fun b hb v hv => ?_, ?_, ?_⟩
    · rw [(hnodes b).votes_eq] at hv
      rw [hchronicle]
      exact h.cast b hb v hv
    · rw [hchronicle]
      exact h.named
    · rw [hchronicle, hleaders]
      exact h.leaders

end PollInv

/-! ## Promises -/

/-- The entries that the node that acts has promised to keep. -/
theorem Annals.honours_act (ha : a ∈ C.members)
    (hretains : ∀ e ∈ (t.world.process a).nodeEvent event, t.Retains a e)
    {p : Promise ℕ OwnedLogEntry} (hp : p ∈ t.chronicle.book.promises) (hnode : p.node = a)
    (hentry : (t.world.logs a)[p.index]? = some p.entry) :
    Honours OwnedLogEntry.term t.chronicle.book.reigns p
      ((t.step C (.act a event)).world.logs a) := by
  by_cases hsuperseded : t.Superseded p
  · exact Or.inr hsuperseded
  left
  unfold World.logs World.shared
  rw [Annals.process_act_self ha]
  rcases node_step C.utf8Lossy (t.world.process a) event with ⟨e, he, hstep⟩ | ⟨-, hexchange⟩
  · have hretains := hretains e he
    rw [hstep]
    refine Node.entry_step hentry ?_ fun hrestart => ?_
    · rintro clock rfl prevIndex hprev
      exact (hretains prevIndex hprev p hp hnode).resolve_right hsuperseded
    · cases e with
      | restart clock written accepts => exact (hretains p hp hnode).resolve_right hsuperseded
      | _ => cases hrestart
  · rw [hexchange.shared_eq.2.2]
    exact hentry

/-- A reign begins when a node enters the leader role. -/
theorem Annals.leader_of_reign (ha : a ∈ C.members)
    (hr : r ∈ t.world.reigns (t.step C (.act a event)).world a) :
    (r.leader, r.term) ∈ (t.step C (.act a event)).history.leaders := by
  obtain ⟨l, hl, rfl⟩ := List.mem_map.mp hr
  show l ∈ (t.trace.step C (.act a event)).history.leaders
  rw [Trace.leaders_act ha, ← Trace.process_act_self ha]
  exact List.mem_append_right _ hl

/-- The voters of a new leader. -/
theorem Annals.backers_act (ha : a ∈ C.members) (hpoll : PollInv C (t.step C (.act a event)))
    (hlaw : t.Faithful C (.act a event))
    (hr : r ∈ t.world.reigns (t.step C (.act a event)).world a) :
    ∀ x ∈ (t.step C (.act a event)).trace.backers C.members (r.term, r.leader),
      ∃ v ∈ t.chronicle.book.ballots ++ t.world.ballots a event,
        v.voter = x ∧ v.term = r.term ∧ NotBehind OwnedLogEntry.term v.log r.log := by
  intro x hx
  obtain ⟨hx, hrow⟩ := Finset.mem_filter.mp hx
  obtain ⟨v, hv, hvoter, hvote⟩ := hpoll.cast x hx _ (List.mem_append_left _ hrow)
  obtain ⟨hterm, hcandidate⟩ := Prod.mk.inj hvote
  obtain ⟨c, hc, hnode, hcterm, hbehind⟩ := hpoll.named v hv
  rw [Annals.chronicle_act ha] at hv
  exact ⟨v, hv, hvoter, hterm, hbehind.trans
    (hlaw.2.1 r hr c hc (hnode.trans hcandidate) (hcterm.trans hterm))⟩

/-- **Promises in a step of the cluster.** -/
theorem Annals.sound_step (h : Sound OwnedLogEntry.term C.members t.world.logs t.chronicle.book)
    (hmajority : ∀ a ∈ C.members, C.members.card < 2 * (C.config a).quorumSize)
    (hacks : AckLaw C t.ackTrace label) (hlaw : t.Faithful C label)
    (hpoll : PollInv C (t.step C label)) (helection : ElectionInv C (t.step C label).trace) :
    Sound OwnedLogEntry.term C.members (t.step C label).world.logs
      (t.step C label).chronicle.book := by
  rcases t.step_cases C label with ⟨a, ha, event, rfl⟩ | ⟨hchronicle, -, -, hnodes⟩
  · -- the votes are cast with the log before the step, the promises made with the log after it
    have hlogs : ∀ v ∈ t.world.ballots a event, v.log = t.world.logs v.voter := by
      intro v hv
      obtain ⟨vote, -, rfl⟩ := List.mem_map.mp hv
      rfl
    have hkept : ∀ p ∈ t.chronicle.book.promises, (t.world.logs p.node)[p.index]? = some p.entry →
        Honours OwnedLogEntry.term t.chronicle.book.reigns p
          ((t.step C (.act a event)).world.logs p.node) := by
      intro p hp hentry
      by_cases hnode : p.node = a
      · rw [hnode] at hentry ⊢
        exact Annals.honours_act ha hlaw.2.2.2 hp hnode hentry
      · unfold World.logs World.shared
        rw [Annals.process_act_of_ne ha hnode]
        exact Or.inl hentry
    have hholds : ∀ p ∈ t.world.promises (t.step C (.act a event)).world a,
        ((t.step C (.act a event)).world.logs p.node)[p.index]? = some p.entry := by
      intro p hp
      obtain ⟨hnode, v, hv, tally, htally, hindex, hentry⟩ := World.mem_promises hp
      rw [hnode, hindex, ← hentry]
      exact hacks.2 v hv tally htally
    have hpromised := ((h.vote hlogs).relog hkept).promise hholds fun p hp v hv hvoter => by
      have hfirst := hlaw.2.2.1 p hp v
      rw [Annals.chronicle_act ha] at hfirst
      exact hfirst hv hvoter
    rw [Annals.chronicle_act ha]
    show Sound _ _ _ ⟨_, t.world.reigns (t.step C (.act a event)).world a ++ _, _⟩
    rcases t.world.reigns_cases (t.step C (.act a event)).world a with hnone | ⟨r, hone⟩
    · rw [hnone]
      exact hpromised
    · have hr : r ∈ t.world.reigns (t.step C (.act a event)).world a := hone ▸ .head _
      have hleader := Annals.leader_of_reign ha hr
      have hquorum := helection.quorumSize_le_backers hleader
      have hcard := hmajority r.leader (helection.leaders _ hleader).1
      rw [hone]
      exact hpromised.elect (Finset.filter_subset _ _) (hcard.trans_le (Nat.mul_le_mul_left 2 hquorum))
        (Annals.backers_act ha hpoll hlaw hr)
  · rw [hchronicle]
    refine h.relog fun p _ hentry => Or.inl ?_
    unfold World.logs World.shared
    rw [(hnodes p.node).shared_eq.2.2]
    exact hentry

/-! ## Acknowledgements are promises -/

/-- What the acting node has registered was there before, or nobody has acknowledged it. -/
theorem AckLaw.tally_act {t : AckTrace} {b : ℕ} (hlaw : AckLaw C t (.act b event))
    (hb : b ∈ C.members) (hcounts : CountInv C t b) {id : ℕ} {tally' : Tally}
    (htally : (t.world.step C (.act b event)).tally b id = some tally') :
    (∃ tally, t.world.tally b id = some tally ∧ tally'.index = tally.index) ∨
      ∀ v ∈ t.acks.given b, v.2 ≠ id := by
  unfold World.tally World.shared at htally
  rw [World.step_act hb, World.process_update_self] at htally
  rcases node_step C.utf8Lossy (t.world.process b) event with ⟨e, he, hnode⟩ | ⟨-, hexchange⟩
  · rw [hnode] at htally
    obtain ⟨-, hrespond⟩ := Process.isRestart_of_nodeEvent he
    cases hrestart : e.isRestart with
    | true =>
      cases e with
      | restart clock written accepts => cases htally
      | _ => cases hrestart
    | false =>
      have hstep : TallyStep (t.world.process b).node.machine
          ((t.world.process b).node.step e).machine := by
        refine Node.tallyStep hrestart hrespond ?_
        rintro clock message rfl
        exact hlaw.1 _ he
      rcases hstep.tallies id tally' htally with ⟨tally, hold, hindex, -⟩ | ⟨-, hfresh, -⟩
      · exact Or.inl ⟨tally, hold, hindex⟩
      · refine Or.inr fun v hv heq => ?_
        have hused : v.2 < (t.world.process b).node.machine.shared.nextMessageId :=
          (hcounts.senders v hv).2.2
        omega
  · rw [hexchange.shared_eq.1] at htally
    exact Or.inl ⟨tally', htally, rfl⟩

/-- Every acknowledgement that was given for an outstanding message is a promise to keep its
entry. -/
def Annals.Pledged (C : Cluster) (t : Annals) : Prop :=
  ∀ a ∈ C.members, ∀ id tally entry, t.world.tally a id = some tally →
    (t.world.logs a)[tally.index]? = some entry → ∀ v ∈ t.acks.given a, v.2 = id →
      ⟨v.1, tally.index, entry⟩ ∈ t.chronicle.book.promises

/-- A step of the node itself. -/
theorem Annals.pledged_act_self (h : t.Pledged C) (ha : a ∈ C.members)
    (hcounts : CountInv C t.ackTrace a) (hlaw : AckLaw C t.ackTrace (.act a event)) {id : ℕ}
    {tally : Tally} {entry : OwnedLogEntry}
    (htally : (t.step C (.act a event)).world.tally a id = some tally)
    (hentry : ((t.step C (.act a event)).world.logs a)[tally.index]? = some entry) :
    ∀ v ∈ (t.step C (.act a event)).acks.given a, v.2 = id →
      ⟨v.1, tally.index, entry⟩ ∈ t.chronicle.book.promises := by
  intro v hv hid
  have hgiven : ((t.step C (.act a event)).acks).given a =
      if event.isRestart then [] else t.acks.given a := by
    simp [Annals.step, Acks.step, ha, Acks.act]
  have hv : v ∈ t.acks.given a := by
    rw [hgiven] at hv
    split_ifs at hv
    · cases hv
    · exact hv
  rcases hlaw.tally_act ha hcounts htally with ⟨tally', htally', hindex⟩ | hnone
  · obtain ⟨entry', hentry', -⟩ := hcounts.held id tally' htally'
    have hkept := hlaw.entry_act ha ha htally' (Or.inl rfl) hentry'
    rw [hindex] at hentry ⊢
    obtain rfl : entry = entry' := Option.some.inj (hentry.symm.trans hkept)
    exact h a ha id tally' entry htally' hentry' v hv hid
  · exact absurd hid (hnone v hv)

/-- A step of another node, which may acknowledge messages. -/
theorem Annals.pledged_act_other (h : t.Pledged C) {b : ℕ} (ha : a ∈ C.members) (hb : b ∈ C.members)
    (hba : b ≠ a) {id : ℕ} {tally : Tally} {entry : OwnedLogEntry}
    (htally : t.world.tally b id = some tally)
    (hentry : (t.world.logs b)[tally.index]? = some entry) :
    ∀ v ∈ (t.step C (.act a event)).acks.given b, v.2 = id →
      ⟨v.1, tally.index, entry⟩ ∈
        t.chronicle.book.promises ++ t.world.promises (t.step C (.act a event)).world a := by
  intro v hv hid
  have hgiven : ((t.step C (.act a event)).acks).given b = t.acks.given b ++
      ((okAcks (t.world.shared a) ((t.world.step C (.act a event)).shared a)).filter fun v =>
        v.1 = b ∧ b ≠ a ∧ (t.world.tally b v.2).isSome).map fun v => (a, v.2) := by
    simp [Annals.step, Acks.step, ha, Acks.act, hba]
  rw [hgiven] at hv
  rcases List.mem_append.mp hv with hv | hv
  · exact List.mem_append_left _ (h b hb id tally entry htally hentry v hv hid)
  · obtain ⟨ack, hack, rfl⟩ := List.mem_map.mp hv
    obtain ⟨hnew, hcond⟩ := List.mem_filter.mp hack
    obtain ⟨hleader, -⟩ := of_decide_eq_true hcond
    refine List.mem_append_right _ (List.mem_filterMap.mpr ⟨ack, hnew, ?_⟩)
    rw [hleader, if_neg hba, show ack.2 = id from hid, htally]
    show (t.world.logs b)[tally.index]?.map _ = _
    rw [hentry]
    rfl

/-- **A step of the cluster.** -/
theorem Annals.Pledged.step (h : t.Pledged C) (hcounts : t.ackTrace.Counts C)
    (hlaw : AckLaw C t.ackTrace label) : (t.step C label).Pledged C := by
  intro b hb id tally entry htally hentry v hv hid
  rcases t.step_cases C label with ⟨a, ha, event, rfl⟩ | ⟨hchronicle, -, hgiven, hnodes⟩
  · rw [Annals.chronicle_act ha]
    by_cases hba : b = a
    · subst hba
      exact List.mem_append_left _
        (Annals.pledged_act_self h hb (hcounts b hb) hlaw htally hentry v hv hid)
    · unfold World.logs World.shared at hentry
      unfold World.tally World.shared at htally
      rw [Annals.process_act_of_ne ha hba] at htally hentry
      exact Annals.pledged_act_other h ha hb hba htally hentry v hv hid
  · obtain ⟨hmessages, -, hlog⟩ := (hnodes b).shared_eq
    unfold World.logs World.shared at hentry
    unfold World.tally World.shared at htally
    rw [hmessages] at htally
    rw [hlog] at hentry
    rw [hgiven] at hv
    rw [hchronicle]
    exact h b hb id tally entry htally hentry v hv hid

/-- **A leader commits an entry.** -/
theorem Annals.backed_act (ha : a ∈ C.members)
    (hmajority : ∀ a ∈ C.members, C.members.card < 2 * (C.config a).quorumSize)
    (hrepresented : ClusterRepresented C t.world) (hcounts : t.ackTrace.Counts C)
    (hpledged : t.Pledged C) (hc : c ∈ t.world.commits a event) :
    c.Backed C.members t.chronicle.book.promises := by
  obtain ⟨part, id, hcompleted, hentry, hterm⟩ := World.mem_commits hc
  obtain ⟨tally, htally, hindex, hquorum⟩ := acks_of_completedMessage hcompleted
  have hmem := List.mem_of_getElem? hentry
  have hmachine := (hrepresented.nodes a ha).machine
  have hleads := hmachine.leads (by rw [leader_of_completedMessage hcompleted]; rfl)
  refine ⟨hmachine.log.positive _ hmem, ?_, ?_⟩
  · have hle := hmachine.log.term_le_logEnd hmem
    rw [← hmachine.ends] at hle
    rw [hterm]
    exact hle.trans hleads.2
  · rw [← hindex] at hentry ⊢
    have hcard := hmajority a ha
    have hacks : (C.config a).quorumSize ≤
        (C.members.filter fun x => ⟨x, tally.index, c.entry⟩ ∈ t.chronicle.book.promises).card :=
      calc (C.config a).quorumSize
          = (t.world.shared a).quorumSize := (hrepresented.connected.wired a ha).quorumSize.symm
        _ ≤ tally.quorumAcks + acksWaiting (t.world.shared a) id := hquorum
        _ ≤ _ := (hcounts a ha).counted id tally htally
        _ ≤ _ := (hcounts a ha).countP_arrived_le
            (fun v hv hid => hpledged a ha id tally c.entry htally hentry v hv hid)
        _ ≤ _ := Finset.card_erase_le
    omega

/-- **A step of the cluster.** -/
theorem Annals.backed_step
    (h : ∀ c ∈ t.chronicle.commits, c.Backed C.members t.chronicle.book.promises)
    (hmajority : ∀ a ∈ C.members, C.members.card < 2 * (C.config a).quorumSize)
    (hrepresented : ClusterRepresented C t.world) (hcounts : t.ackTrace.Counts C)
    (hpledged : t.Pledged C) (label : Label) : ∀ c ∈ (t.step C label).chronicle.commits,
      c.Backed C.members (t.step C label).chronicle.book.promises := by
  rcases t.step_cases C label with ⟨a, ha, event, rfl⟩ | ⟨hchronicle, -⟩
  · intro c hc
    rw [Annals.chronicle_act ha] at hc ⊢
    refine Commit.Backed.mono ?_ (List.subset_append_left _ _)
    rcases List.mem_append.mp hc with hc | hc
    · exact h c hc
    · exact Annals.backed_act ha hmajority hrepresented hcounts hpledged hc
  · rw [hchronicle]
    exact h

/-! ## The logs in the chronicle -/

/-- The logs behind votes and leaders are proper, their entries are among `E`, and a leader is elected
with a log that follows the leaders before it and goes on in `llog`. -/
structure Recorded (E : OwnedLogEntry → Prop) (llog : ℕ → List OwnedLogEntry) (t : Annals) : Prop where
  ballots : ∀ v ∈ t.chronicle.book.ballots, ProperLog v.log ∧ Within E v.log
  reigns : ∀ r older, r :: older <:+ t.chronicle.book.reigns → ProperLog r.log ∧ Within E r.log ∧
    r.log <+: llog r.term ∧ ∀ e ∈ r.log, e.term < r.term ∧ ∃ r' ∈ older, r'.term = e.term

namespace Recorded

variable {E E' : OwnedLogEntry → Prop} {llog llog' : ℕ → List OwnedLogEntry}

theorem start (clock : ℕ → Clock) (accepts : ℕ → ℕ → Bool) :
    Recorded E llog (Annals.start C clock accepts) where
  ballots _ hv := nomatch hv
  reigns _ _ h := absurd (List.suffix_nil.mp h) (List.cons_ne_nil _ _)

omit [Capnp] [ParsesSocketAddr] in
/-- More entries are written, and the logs of the leaders grow. -/
theorem mono (h : Recorded E llog t) (hle : ∀ entry, E entry → E' entry)
    (hextends : ∀ term, llog term <+: llog' term) : Recorded E' llog' t where
  ballots v hv := ⟨(h.ballots v hv).1, (h.ballots v hv).2.mono hle⟩
  reigns r older hr := by
    obtain ⟨hproper, hwithin, hlog, hentries⟩ := h.reigns r older hr
    exact ⟨hproper, hwithin.mono hle, hlog.trans (hextends _), hentries⟩

/-- **A node is elected**, with a log of entries of earlier terms, each of which had a leader. -/
theorem reign (ha : a ∈ C.members) (hpoll : PollInv C t)
    (hmajority : C.members.card = 1 ∨
      ∀ a ∈ C.members, C.members.card < 2 * (C.config a).quorumSize)
    (helection : ElectionInv C (t.step C (.act a event)).trace)
    (hrepresented : ClusterRepresented C (t.step C (.act a event)).world)
    (hwritten : Written C E' (t.step C (.act a event)).trace)
    (harchive : Archive C E' llog' (t.step C (.act a event)).trace)
    (horigin : ∀ entry, E' entry → ∃ b, (b, entry.term) ∈ t.history.leaders)
    (hr : r ∈ t.world.reigns (t.step C (.act a event)).world a) :
    ProperLog r.log ∧ Within E' r.log ∧ r.log <+: llog' r.term ∧ ∀ e ∈ r.log, e.term < r.term ∧
      ∃ r' ∈ t.chronicle.book.reigns, r'.term = e.term := by
  obtain ⟨hleader, hlog, hnot, hleads⟩ := World.mem_reigns hr
  have hmachine := (hrepresented.nodes a ha).machine
  have hwithin : Within E' r.log := hlog ▸ (hwritten.nodes a ha).log
  refine ⟨hlog ▸ hmachine.log, hwithin, ?_, fun e he => ?_⟩
  · rw [harchive.current a ha r.term hleads, hlog]
    exact List.prefix_rfl
  · obtain ⟨b, hb⟩ := horigin e (hwithin e he)
    obtain ⟨r', hr', heq⟩ := hpoll.leaders _ hb
    refine ⟨lt_of_le_of_ne ?_ ?_, r', hr', (Prod.mk.inj heq).2⟩
    · have hle := hmachine.log.term_le_logEnd (hlog ▸ he :)
      rw [← hmachine.ends] at hle
      exact hleads.2 ▸ hle.trans (hmachine.leads hleads.1).2
    · -- no node has led the term before
      intro hterm
      have hnew := Annals.leader_of_reign ha hr
      have hleaders : (t.step C (.act a event)).trace.history.leaders = t.history.leaders ++
          [(r.leader, r.term)] := by
        show (t.trace.step C (.act a event)).history.leaders = _
        rw [Trace.leaders_act ha, ← Trace.process_act_self ha, entersLeader]
        rw [if_pos ⟨hnot, hleads.1⟩, hleader, ← hleads.2]
        rfl
      have honce := helection.onceEach
      rw [hleaders] at honce
      rw [hterm] at hb
      have hold : (b, r.term) ∈ (t.step C (.act a event)).trace.history.leaders := by
        rw [hleaders]
        exact List.mem_append_left _ hb
      obtain rfl := helection.leader_unique hmajority hold hnew
      exact List.disjoint_of_nodup_append honce hb (.head _)

/-- **A step of the cluster.** -/
theorem step (h : Recorded E' llog' t) (hpoll : PollInv C t)
    (hmajority : C.members.card = 1 ∨
      ∀ a ∈ C.members, C.members.card < 2 * (C.config a).quorumSize)
    (hlogs : ∀ a ∈ C.members, ProperLog (t.world.logs a) ∧ Within E' (t.world.logs a))
    (helection : ElectionInv C (t.step C label).trace)
    (hrepresented : ClusterRepresented C (t.step C label).world)
    (hwritten : Written C E' (t.step C label).trace)
    (harchive : Archive C E' llog' (t.step C label).trace)
    (horigin : ∀ entry, E' entry → ∃ b, (b, entry.term) ∈ t.history.leaders) :
    Recorded E' llog' (t.step C label) := by
  rcases t.step_cases C label with ⟨a, ha, event, rfl⟩ | ⟨hchronicle, -⟩
  · refine ⟨fun v hv => ?_, fun r older hr => ?_⟩
    · rw [Annals.chronicle_act ha] at hv
      rcases List.mem_append.mp hv with hv | hv
      · exact h.ballots v hv
      · obtain ⟨vote, -, rfl⟩ := List.mem_map.mp hv
        exact hlogs a ha
    · rw [Annals.chronicle_act ha] at hr
      change _ <:+ t.world.reigns (t.step C (.act a event)).world a ++ _ at hr
      rcases t.world.reigns_cases (t.step C (.act a event)).world a with hnone | ⟨r', hone⟩
      · rw [hnone] at hr
        exact h.reigns r older hr
      · rw [hone] at hr
        rcases List.suffix_cons_iff.mp hr with heq | hr
        · obtain ⟨rfl, rfl⟩ := List.cons.inj heq
          exact reign ha hpoll hmajority helection hrepresented hwritten harchive horigin
            (hone ▸ .head _)
        · exact h.reigns r older hr
  · exact ⟨hchronicle ▸ h.ballots, hchronicle ▸ h.reigns⟩

end Recorded

/-! ## The result -/

/-- The invariant of the cluster. -/
structure CompleteInv (C : Cluster) (t : Annals) : Prop where
  election : ElectionInv C t.trace
  represented : ClusterRepresented C t.world
  logs : ∃ E llog, Written C E t.trace ∧ Archive C E llog t.trace ∧ Recorded E llog t
  poll : PollInv C t
  sound : Sound OwnedLogEntry.term C.members t.world.logs t.chronicle.book
  counts : t.ackTrace.Counts C
  pledged : t.Pledged C
  commits : ∀ c ∈ t.chronicle.commits, c.Backed C.members t.chronicle.book.promises

namespace CompleteInv

theorem start [LawfulCapnp] (clock : ℕ → Clock) (accepts : ℕ → ℕ → Bool) :
    CompleteInv C (Annals.start C clock accepts) where
  election := .start clock accepts
  represented := .start clock accepts
  logs := ⟨_, _, .start clock accepts, .start clock accepts, .start clock accepts⟩
  poll := .start clock accepts
  sound := .empty ..
  counts a _ := .start clock accepts a
  pledged _ _ _ _ _ htally := nomatch htally
  commits _ hc := nomatch hc

/-- The entries and the logs of the leaders after a step. -/
theorem logs_step [LawfulCapnp] (h : CompleteInv C t)
    (hmajority : ∀ a ∈ C.members, C.members.card < 2 * (C.config a).quorumSize)
    (hlaw : CompletenessLaw C t label) {E : OwnedLogEntry → Prop} {llog : ℕ → List OwnedLogEntry}
    (hwritten : Written C E t.trace) (harchive : Archive C E llog t.trace)
    (hrecorded : Recorded E llog t) :
    ∃ E' llog', Written C E' (t.step C label).trace ∧ Archive C E' llog' (t.step C label).trace ∧
      Recorded E' llog' (t.step C label) ∧ (∀ entry, E entry → E' entry) ∧
        ∀ term, llog term <+: llog' term := by
  obtain ⟨helections, hok, -, -⟩ := hlaw
  obtain ⟨E', llog', hwritten', harchive', hle, hextends, horigin⟩ := harchive.step hwritten h.election
    h.represented (Or.inr hmajority) helections hok
  refine ⟨E', llog', hwritten', harchive', (hrecorded.mono hle hextends).step h.poll (Or.inr hmajority)
    (fun a ha => ?_) (h.election.step helections) (h.represented.step hok) hwritten' harchive' horigin,
    hle, hextends⟩
  exact ⟨(h.represented.nodes a ha).machine.log, ((hwritten.nodes a ha).mono hle).log⟩

/-- **A step of the cluster.** -/
theorem step [LawfulCapnp] (h : CompleteInv C t)
    (hmajority : ∀ a ∈ C.members, C.members.card < 2 * (C.config a).quorumSize)
    (hlaw : CompletenessLaw C t label) : CompleteInv C (t.step C label) := by
  obtain ⟨E, llog, hwritten, harchive, hrecorded⟩ := h.logs
  obtain ⟨E', llog', hwritten', harchive', hrecorded', -, -⟩ :=
    h.logs_step hmajority hlaw hwritten harchive hrecorded
  obtain ⟨helections, hok, hacks, hfaithful⟩ := hlaw
  have helection : ElectionInv C (t.step C label).trace := h.election.step helections
  have hpoll := h.poll.step hfaithful
  exact ⟨helection, h.represented.step hok, ⟨E', llog', hwritten', harchive', hrecorded'⟩, hpoll,
    Annals.sound_step h.sound hmajority hacks hfaithful hpoll helection, h.counts.step hacks,
    h.pledged.step h.counts hacks,
    Annals.backed_step h.commits hmajority h.represented h.counts h.pledged label⟩

/-- Committed entries are in the logs of later leaders. -/
theorem complete (h : CompleteInv C t) (hc : c ∈ t.chronicle.commits)
    (hr : r ∈ t.chronicle.book.reigns) (hlater : c.term < r.term) :
    r.log[c.index]? = some c.entry := by
  obtain ⟨E, llog, hwritten, harchive, hrecorded⟩ := h.logs
  have hbacked := h.commits c hc
  have hreigns : Succession OwnedLogEntry.term llog t.chronicle.book.reigns := by
    intro r older hr
    obtain ⟨hproper, hwithin, hextends, hentries⟩ := hrecorded.reigns r older hr
    exact ⟨harchive.coherent hwritten.determined hproper.toWellFormed hwithin, hextends, hentries⟩
  refine h.sound.complete hreigns (fun v hv => ?_) (Nat.one_le_iff_ne_zero.mp hbacked.positive)
    (Finset.filter_subset _ _) hbacked.majority (fun x hx => (Finset.mem_filter.mp hx).2) hr
    (hbacked.term_le.trans_lt hlater)
  obtain ⟨hproper, hwithin⟩ := hrecorded.ballots v hv
  exact ⟨harchive.coherent hwritten.determined hproper.toWellFormed hwithin,
    fun e he => hproper.term_le_logEnd he⟩

end CompleteInv

end Cluster

/-- **Leader completeness.**  If the quorum size of every node is a majority of the cluster, then in
every run that meets the condition, the entry that a leader has at the index to which it sets its
commit index is at that index in the log of every leader of a later term, when it enters the leader
role. -/
theorem leader_completeness [Capnp] [LawfulCapnp] [ParsesSocketAddr] (C : Cluster)
    (hmajority : ∀ a ∈ C.members, C.members.card < 2 * (C.config a).quorumSize)
    (clock : ℕ → Clock) (accepts : ℕ → ℕ → Bool) (labels : List Label)
    (hrun : Runs.AllSteps (Annals.step C) (CompletenessLaw C) (Annals.start C clock accepts) labels) :
    let chronicle := (Runs.run (Annals.step C) (Annals.start C clock accepts) labels).chronicle
    ∀ c ∈ chronicle.commits, ∀ r ∈ chronicle.book.reigns, c.term < r.term →
      r.log[c.index]? = some c.entry := by
  intro chronicle c hc r hr hlater
  have hinv := hrun.invariant (CompleteInv C) (fun t label h hlaw => h.step hmajority hlaw)
    (CompleteInv.start clock accepts)
  exact hinv.complete hc hr hlater

/-- A client writes to node 1, and all three nodes store the entry. -/
def writeEverywhere : List Label :=
  noopEverywhere ++ [.act 1 (.write ⟨"batch", [⟨"put", [7], 1⟩]⟩ 0), .act 1 (.accept ⟨1020, 0⟩)] ++
    storeAtLeader 1021 ++ [.act 1 (.workerTask 0 1022)] ++ storeAt 2 1023 ++
    [.act 1 (.workerTask 1 1024)] ++ storeAt 3 1025

/-- Node 2 hears no more of the leader and stands for term 2, and node 3 votes for it. -/
def electNodeTwo : List Label :=
  [.part 2 9000 .finish, .part 2 9000 .finish, .act 2 .processTask, .part 2 9001 .popPersistence,
    .part 3 9000 .finish, .act 2 (.workerTask 1 9002), .deliver 0, .act 3 (.accept ⟨9003, 0⟩),
    .act 3 .processTask, .part 3 9004 .popPersistence, .act 3 (.answer 1 0), .deliver 0,
    .part 2 9005 .popQuorum]

/-- The entry of the write. -/
def writtenEntry : OwnedLogEntry := ⟨1, 1, 0, 1, 3, 1020, [⟨"put", [7], 1⟩]⟩

/-- What is remembered of a run of three nodes. -/
def chronicleOfThree (labels : List Label) : Chronicle :=
  letI := digitCapnp
  letI := sampleAddresses
  (Runs.run (Annals.step clusterOfThree)
    (Annals.start clusterOfThree (fun _ => ⟨0, 0⟩) fun _ _ => true) labels).chronicle

/-- Node 2 is elected with the committed entry. -/
theorem leader_completeness_write :
    ⟨1, 1, writtenEntry⟩ ∈ (chronicleOfThree (writeEverywhere ++ electNodeTwo)).commits ∧
      ∃ r ∈ (chronicleOfThree (writeEverywhere ++ electNodeTwo)).book.reigns,
        r.leader = 2 ∧ r.term = 2 ∧ r.log[1]? = some writtenEntry := by
  have hcommit : ⟨1, 1, writtenEntry⟩ ∈
      (chronicleOfThree (writeEverywhere ++ electNodeTwo)).commits := by decide +kernel
  have helected : ∃ r ∈ (chronicleOfThree (writeEverywhere ++ electNodeTwo)).book.reigns,
      r.leader = 2 ∧ r.term = 2 := by decide +kernel
  obtain ⟨r, hr, hleader, hterm⟩ := helected
  have hentry := @leader_completeness digitCapnp lawful_digitCapnp sampleAddresses clusterOfThree
    (by decide) (fun _ => ⟨0, 0⟩) (fun _ _ => true) (writeEverywhere ++ electNodeTwo)
    (by decide +kernel) ⟨1, 1, writtenEntry⟩ hcommit r hr (by rw [hterm]; exact Nat.lt_succ_self 1)
  exact ⟨hcommit, r, hr, hleader, hterm, hentry⟩

/-- Node 2, a candidate, follows node 1 after a heartbeat. -/
def nodeTwoFollows : List Label :=
  [.act 1 (.workerTask 0 1007), .act 1 (.heartbeat 0 1007), .deliver 0, .act 2 (.accept ⟨1008, 0⟩),
    .act 2 (.answer 0 0), .deliver 0, .act 1 (.workerTask 0 1009)]

/-- Node 3 gets the vote request of node 1, which it never answers, and then stores the no-op entry. -/
def nodeThreeStores : List Label :=
  [.act 1 (.workerTask 1 1011), .deliver 0, .act 3 (.accept ⟨1011, 0⟩), .act 1 (.workerTask 1 1011),
    .act 1 (.workerTask 1 1011), .deliver 0, .act 3 (.accept ⟨1012, 0⟩), .act 3 .processTask,
    .act 3 .flush, .part 3 1012 .popPersistence, .act 3 (.answer 0 1), .deliver 0,
    .part 1 1012 .popQuorum]

/-- A client writes to node 1.  Both others have become candidates when they get the entry: they
acknowledge it and do not store it. -/
def writeToCandidates : List Label :=
  [.act 1 (.write ⟨"batch", [⟨"put", [7], 1⟩]⟩ 0), .act 1 (.accept ⟨1020, 0⟩), .act 1 .processTask,
    .act 1 .flush, .part 1 1021 .popPersistence, .part 2 5000 .finish, .part 3 5000 .finish,
    .act 1 (.workerTask 0 5001), .deliver 0, .act 2 (.accept ⟨5002, 0⟩), .act 2 (.answer 0 0),
    .deliver 0, .part 1 5002 .popQuorum, .act 1 (.workerTask 1 5003), .deliver 0,
    .act 3 (.accept ⟨5004, 0⟩), .act 3 (.answer 0 1), .deliver 0, .part 1 5004 .popQuorum]

/-- All nodes hold the no-op entry of node 1, and the write is committed. -/
def commitLostWrite : List Label :=
  officeOfNodeOne ++ storeAtLeader 1007 ++ nodeTwoFollows ++ storeAt 2 1010 ++ nodeThreeStores ++
    writeToCandidates

/-- **A committed entry that the next leader does not have.**  Node 1 commits the write with the
acknowledgements of two candidates, and node 2 is elected without the entry by the vote of node 3.
Every connection delivers in order and no message is lost. -/
theorem committed_entry_lost :
    ¬ ∀ (_ : Capnp) (_ : LawfulCapnp) (_ : ParsesSocketAddr) (C : Cluster) (clock : ℕ → Clock)
      (accepts : ℕ → ℕ → Bool) (labels : List Label),
      (∀ a ∈ C.members, C.members.card < 2 * (C.config a).quorumSize) →
      Runs.AllSteps (Annals.step C) (fun t label => t.world.FifoStep label)
        (Annals.start C clock accepts) labels →
      let chronicle := (Runs.run (Annals.step C) (Annals.start C clock accepts) labels).chronicle
      ∀ c ∈ chronicle.commits, ∀ r ∈ chronicle.book.reigns, c.term < r.term →
        r.log[c.index]? = some c.entry := by
  intro h
  have hentry := h digitCapnp lawful_digitCapnp sampleAddresses clusterOfThree (fun _ => ⟨0, 0⟩)
    (fun _ _ => true) (commitLostWrite ++ electNodeTwo) (by decide) (by decide +kernel)
    ⟨1, 1, writtenEntry⟩ (by decide +kernel) ⟨2, 2, [⟨0, 1, 0, 0, 2, 1006, []⟩]⟩ (by decide +kernel)
    (Nat.lt_succ_self 1)
  cases hentry

end Kraft
