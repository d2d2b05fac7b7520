/-
# State machine safety

Nodes put the committed entries of their logs on a bus, for their query workers.  If two nodes put an
entry of the same position on the bus, at whatever times, it is the same entry, and query workers that
have applied equally many entries have equal maps (`state_machine_safety`).

`Ledger` is a world with the memory of `Annals` and with all that was ever put on a bus.  The
condition is that of leader completeness and what the code does not see to when a node takes over a
commit index (`Node.CommitsSoundly`):

* a commit index does not fall, and no committed position is truncated (`Node.CommitsStably`);
* the commit index that comes with an entry is not beyond it: the quorum worker of a leader puts its
  current commit index into a backfill of old entries;
* a heartbeat of an earlier term, which is taken over as it is, says that something is committed.

The argument: every commit index, of a node or on its way, is `Settled` in the log it belongs to, so
all that is put on a bus is `Decided`.  Without the condition two nodes may put different entries of
one position on their buses (`published_entries_differ`).
-/
import Kraft.CommitAdoption
import Kraft.CommitBound
import Kraft.CommitClaims
import Kraft.LeaderCompleteness
import Kraft.ReadYourWrites

namespace Kraft

open SharedState StateMachine Reigns

/-! ## What is remembered of a run -/

/-- A node has put the entry at a position of its log on the bus. -/
structure Publication where
  node : ℕ
  position : ℕ
  entry : OwnedLogEntry
  deriving DecidableEq

/-- The memory of a run, with all that was put on a bus. -/
structure Ledger where
  annals : Annals
  published : List Publication

/-- What the node that acts puts on its bus in a step from `w` to `w'`. -/
def World.publications (w w' : World) : Label → List Publication
  | .act a _ => ((w'.shared a).logEntryBus.sent.drop (w.shared a).logEntryBus.sent.length).map
      fun p => ⟨a, p.1, p.2⟩
  | _ => []

section Steps

variable [Capnp] [ParsesSocketAddr]

/-- One step. -/
def Ledger.step (C : Cluster) (t : Ledger) (label : Label) : Ledger where
  annals := t.annals.step C label
  published := t.published ++ t.annals.world.publications (t.annals.world.step C label) label

/-- All nodes start on empty files. -/
def Ledger.start (C : Cluster) (clock : ℕ → Clock) (accepts : ℕ → ℕ → Bool) : Ledger :=
  ⟨.start C clock accepts, []⟩

/-! ## The condition -/

/-- The condition on an event: the commit index and what is committed are kept, the commit index of a
request fits the log it leaves, and a late heartbeat says that something is committed. -/
def Node.CommitsSoundly (n : Node) (e : NodeEvent) : Prop :=
  n.CommitsStably e ∧ match e with
    | .accept _ ⟨.appendEntries request, _⟩ => n.machine.delegate.nodeType = .follower →
        Follower.CommitFits request n.shared ∧
          (Follower.LateHeartbeat request n.shared → 0 < request.commitIndex)
    | _ => True

/-- The node that acts meets it. -/
def World.CommitsSoundly (w : World) : Label → Prop
  | .act a event => ∀ e ∈ (w.process a).nodeEvent event, (w.process a).node.CommitsSoundly e
  | _ => True

/-- The condition on a step: that of leader completeness, and the one on commit indices. -/
def SafetyLaw (C : Cluster) (t : Ledger) (label : Label) : Prop :=
  CompletenessLaw C t.annals label ∧ t.annals.world.CommitsSoundly label

omit [Capnp] [ParsesSocketAddr] in
instance (n : Node) : ∀ e : NodeEvent, Decidable (n.CommitsSoundly e)
  | .accept _ ⟨.appendEntries _, _⟩ => inferInstanceAs (Decidable (_ ∧ (_ → _ ∧ (_ → _))))
  | .accept _ ⟨.requestVote _, _⟩ | .accept _ ⟨.getRaftState, _⟩ | .accept _ ⟨.writeBatch _, _⟩
  | .timeStep .. | .respond _ | .processTask | .flush | .restart .. =>
    inferInstanceAs (Decidable (_ ∧ True))

omit [Capnp] [ParsesSocketAddr] in
instance (w : World) : ∀ label : Label, Decidable (w.CommitsSoundly label)
  | .act a event => inferInstanceAs (Decidable (∀ e ∈ (w.process a).nodeEvent event, _))
  | .deliver _ => inferInstanceAs (Decidable True)
  | .lose _ => inferInstanceAs (Decidable True)

instance (C : Cluster) (t : Ledger) (label : Label) : Decidable (SafetyLaw C t label) :=
  inferInstanceAs (Decidable (_ ∧ _))

end Steps

/-! ## The commit index of a request -/

section Requests

variable {llog : ℕ → List OwnedLogEntry} {decrees : List (ℕ × ℕ)} {log : List OwnedLogEntry} {k : ℕ}

/-- Position `k` is committed in the log of the leader of the term. -/
def SureIn (llog : ℕ → List OwnedLogEntry) (decrees : List (ℕ × ℕ)) (term k : ℕ) : Prop :=
  Settled llog decrees (llog term) k

/-- A commit index that comes with the end of the log. -/
theorem SureIn.settled_of_logEnd (h : SureIn llog decrees (logEnd log).2 k)
    (hlog : LeaderLogs.Coherent OwnedLogEntry.term llog log) (hk : k ≠ 0) (hle : k ≤ (logEnd log).1) :
    Settled llog decrees log k := by
  rcases List.eq_nil_or_concat log with rfl | ⟨init, last, rfl⟩
  · exact absurd (Nat.le_zero.mp hle) hk
  · rw [List.concat_eq_append] at h hlog hle ⊢
    rw [logEnd, LeaderLogs.endOf_concat] at h hle
    exact (Settled.iff_of_entry hlog List.getElem?_concat_length hle).mp h

/-- A position in a log that an entry of a leader continues is before that entry. -/
theorem le_index_of_continues {leader : List OwnedLogEntry} {owned : OwnedLogEntry}
    (hleader : ProperLog leader) (hholds : leader[owned.index]? = some owned)
    (hprev : (owned.prevLogIndex, owned.prevLogTerm) = logEnd log) (hle : k ≤ (logEnd log).1) :
    k ≤ owned.index := by
  have hfirst := congrArg Prod.fst (hleader.toWellFormed.prev hholds)
  rw [hprev, LeaderLogs.endOf_fst, LeaderLogs.endOf_fst, List.length_take] at hfirst
  rw [LeaderLogs.endOf_fst] at hle
  omega

/-- A commit index that comes with an entry which continues the log. -/
theorem SureIn.settled_of_next {owned : OwnedLogEntry} (h : SureIn llog decrees owned.term k)
    (hllog : ProperLog (llog owned.term))
    (hholds : (llog owned.term)[owned.index]? = some owned)
    (hleader : LeaderLogs.Coherent OwnedLogEntry.term llog (llog owned.term))
    (hlog : LeaderLogs.Coherent OwnedLogEntry.term llog log) (hproper : ProperLog log)
    (hprev : (owned.prevLogIndex, owned.prevLogTerm) = logEnd log) (hk : k ≠ 0)
    (hle : k ≤ (logEnd log).1) : Settled llog decrees log k := by
  have hpositive : ∀ {l}, ProperLog l → ∀ e ∈ l, OwnedLogEntry.term e ≠ 0 := fun h e he =>
    Nat.one_le_iff_ne_zero.mp (h.positive e he)
  -- the log is what the leader has before the entry
  have hfront : log = (llog owned.term).take owned.index :=
    LeaderLogs.eq_of_endOf_eq hlog (hleader.take _) (hpositive hproper)
      (hpositive (hllog.take owned.index)) (hprev.symm.trans (hllog.toWellFormed.prev hholds))
  have hlength := congrArg List.length hfront
  rw [LeaderLogs.endOf_fst] at hle
  rw [List.length_take] at hlength
  obtain ⟨c, hc, hkc, htake⟩ := h
  exact ⟨c, hc, hkc, by rw [hfront, List.take_take, min_eq_left (by omega), htake]⟩

/-- A commit index that comes with the last entry of the log. -/
theorem SureIn.settled_of_last {owned : OwnedLogEntry} (h : SureIn llog decrees owned.term k)
    (hlog : LeaderLogs.Coherent OwnedLogEntry.term llog (log ++ [owned]))
    (hproper : ProperLog (log ++ [owned])) (hle : k ≤ owned.index) :
    Settled llog decrees (log ++ [owned]) k := by
  have hat : (log ++ [owned])[log.length]? = some owned := List.getElem?_concat_length
  rw [hproper.index _ owned hat] at hle
  exact (Settled.iff_of_entry hlog hat hle).mp h

end Requests

section Follower

variable [Capnp] [ParsesSocketAddr] {C : Cluster} {E : OwnedLogEntry → Prop}
  {llog : ℕ → List OwnedLogEntry} {decrees : List (ℕ × ℕ)} {t : Trace}

omit [Capnp] in
/-- **A follower and its commit index.**  What the index stands for after a request was settled before,
or comes with the request. -/
theorem Follower.front_appendEntries (harchive : Archive C E llog t) (hE : Determined E)
    {request : LocalAppendEntries} {callback : Callback} {s : SharedState}
    (hrequest : RequestOf E request) (hclaim : CommitOf (SureIn llog decrees) request)
    (hfits : CommitFits request s)
    (hends : (s.lastLogIndex, s.lastLogTerm) = logEnd s.replicationLog)
    (hproper : ProperLog (appendEntries request callback s).replicationLog)
    (hwithin : Within E (appendEntries request callback s).replicationLog)
    (hsame : s.commitIndex = 0 ∨
      Settled llog decrees (appendEntries request callback s).replicationLog s.commitIndex) :
    (appendEntries request callback s).commitIndex = 0 ∨ Settled llog decrees
      (appendEntries request callback s).replicationLog (appendEntries request callback s).commitIndex := by
  have hcoherent := harchive.coherent hE hproper.toWellFormed hwithin
  rcases commitIndex_appendEntries request callback s with heq | ⟨heq, ⟨hvalid, hleader⟩, hlog⟩
  · rw [heq]
    exact hsame
  rw [heq]
  by_cases hzero : request.commitIndex = 0
  · exact Or.inl hzero
  right
  unfold CommitOf at hclaim
  rcases hlog with ⟨hstores, entry, owned, hentry, hdata, hlog⟩ | ⟨hbeats, hlog⟩
  · -- the entry is stored, and is the last one then
    obtain ⟨owned', hdata', hindex, hterm, -, -, -, -⟩ := hrequest entry hentry
    rw [hdata'] at hdata
    obtain rfl := Option.some.inj hdata
    have hle := hfits entry hentry hvalid hleader
    rw [if_pos hstores] at hle
    rw [hentry] at hclaim
    have hsure := hclaim.resolve_left hzero hle
    rw [hterm] at hsure
    rw [hlog] at hproper hcoherent ⊢
    exact SureIn.settled_of_last hsure hcoherent hproper (hindex ▸ hle)
  · rw [hlog] at hproper hcoherent ⊢
    rw [← hvalid.1, ← hvalid.2] at hends
    rcases hentry : request.entry with _ | entry
    · -- a heartbeat: the index comes with the end of the log
      rw [hentry] at hclaim
      obtain ⟨hle, hsure⟩ := hclaim.resolve_left hzero
      have hprevIndex : request.prevIndex = (logEnd s.replicationLog).1 := congrArg Prod.fst hends
      have hprevTerm : request.prevTerm = (logEnd s.replicationLog).2 := congrArg Prod.snd hends
      rw [hprevTerm] at hsure
      exact hsure.settled_of_logEnd hcoherent hzero (hprevIndex ▸ hle)
    · -- the entry is not stored: its request has id 0 and is taken for a heartbeat
      obtain ⟨owned, -, hindex, hterm, hprevIndex, hprevTerm, -, howned⟩ := hrequest entry hentry
      have hle := hfits entry hentry hvalid hleader
      rw [if_neg hbeats, ← hvalid.1] at hle
      have hbefore := harchive.holds owned howned
      have hend : (owned.prevLogIndex, owned.prevLogTerm) = logEnd s.replicationLog := by
        rw [← hprevIndex, ← hprevTerm, hends]
      have hle' : request.commitIndex ≤ (logEnd s.replicationLog).1 := hends ▸ hle
      have hleaderLog := harchive.coherent hE (harchive.proper owned.term).toWellFormed
        (harchive.within owned.term)
      have hbound : request.commitIndex ≤ owned.index :=
        le_index_of_continues (harchive.proper owned.term) hbefore hend hle'
      rw [hentry] at hclaim
      have hsure := hclaim.resolve_left hzero (hindex.symm ▸ hbound)
      rw [hterm] at hsure
      exact SureIn.settled_of_next hsure (harchive.proper _) hbefore hleaderLog hcoherent hproper hend
        hzero hle'

end Follower

/-! ## One event of a node -/

/-- What the node has committed is settled, and nothing is on its bus before. -/
structure NodeSettled (llog : ℕ → List OwnedLogEntry) (decrees : List (ℕ × ℕ)) (n : Node) : Prop where
  copy : n.shared.publishedCommitIndex = n.shared.commitIndex
  front : n.shared.commitIndex = 0 ∨
    Settled llog decrees n.shared.replicationLog n.shared.commitIndex
  hushed : Hushed n.shared

namespace NodeSettled

variable {llog llog' : ℕ → List OwnedLogEntry} {decrees decrees' : List (ℕ × ℕ)} {n : Node}

/-- More is decreed. -/
theorem mono (h : NodeSettled llog decrees n) (hinLogs : InLogs llog decrees)
    (hdecrees : decrees ⊆ decrees') (hllog : ∀ term, llog term <+: llog' term) :
    NodeSettled llog' decrees' n :=
  { h with front := h.front.imp_right fun hfront => hfront.mono hinLogs hdecrees hllog }

/-- The node talks to its workers. -/
theorem exchanges (h : NodeSettled llog decrees n) {n' : Node} (hexchanges : Exchanges n n') :
    NodeSettled llog decrees n' := by
  obtain ⟨responses, answers, tasks, rfl, -⟩ := hexchanges
  exact ⟨h.copy, h.front, h.hushed⟩

/-- What is committed is sure for the workers. -/
theorem commitsSurely (h : NodeSettled llog decrees n) (hinLogs : InLogs llog decrees)
    (hlog : LeaderLogs.Coherent OwnedLogEntry.term llog n.shared.replicationLog) :
    CommitsSurely (SureIn llog decrees) n.shared where
  inLog := h.front.imp_right fun hfront => hfront.lt_length hinLogs
  sure k hk hzero i entry hi hentry := by
    have hfront := h.front.resolve_left (by omega)
    exact (Settled.iff_of_entry hlog hentry hi).mpr (hfront.of_le hk)

section Step

variable [Capnp] [ParsesSocketAddr] {C : Cluster} {E : OwnedLogEntry → Prop} {t : Trace}
  {e : NodeEvent}

omit [ParsesSocketAddr] in
/-- A node that restarts has nothing committed. -/
theorem restart (clock : Clock) (written : ℕ) (accepts : ℕ → Bool) :
    NodeSettled llog decrees (n.step (.restart clock written accepts)) :=
  ⟨rfl, Or.inl rfl, fun _ => rfl⟩

omit [ParsesSocketAddr] in
/-- The bus of a node that has committed nothing. -/
theorem hushed_step (h : NodeSettled llog decrees n) (hsound : n.CommitsSoundly e)
    (hrestart : e.isRestart = false) : Hushed (n.step e).shared ∧
      ((n.step e).shared.commitIndex = 0 →
        (n.step e).shared.logEntryBus.sent = n.shared.logEntryBus.sent) := by
  cases e with
  | accept clock message =>
    rcases accept_commit clock message n.machine with ⟨-, hmoves⟩ | ⟨request, hpayload, hrole, hlate, hsets⟩
    · exact hmoves.hushed h.hushed
    · obtain ⟨payload, callback⟩ := message
      obtain rfl : payload = .appendEntries request := hpayload
      have hpositive := (hsound.2 hrole).2 hlate
      rw [← hsets.commit] at hpositive
      exact ⟨fun hzero => absurd hzero hpositive.ne', fun hzero => absurd hzero hpositive.ne'⟩
  | timeStep clock part =>
    rcases runPart_commit clock n.machine part with ⟨-, hmoves⟩ | ⟨prevIndex, -, -, -, hsame⟩
    · exact hmoves.hushed h.hushed
    · exact h.hushed.of_sameCommit hsame
  | respond response => exact ⟨h.hushed, fun _ => rfl⟩
  | processTask => exact (Moves.of_serves n.serves_processTask).hushed h.hushed
  | flush => exact (Moves.of_serves n.serves_flush).hushed h.hushed
  | restart clock written accepts => cases hrestart

/-- **One event of a node.** -/
theorem step (h : NodeSettled llog decrees n) (harchive : Archive C E llog t) (hE : Determined E)
    (hinLogs : InLogs llog decrees) (hrepresented : Represented n.machine)
    (hproper : ProperLog (n.step e).shared.replicationLog)
    (hwithin : Within E (n.step e).shared.replicationLog)
    (hrequest : ∀ clock message, e = .accept clock message → ∀ request,
      message.payload = .appendEntries request →
        RequestOf E request ∧ CommitOf (SureIn llog decrees) request)
    (hcommits : ∀ clock part id index, e = .timeStep clock part →
      completedMessage n.machine part = some (id, index) → n.shared.commitIndex < index →
        Settled llog decrees n.shared.replicationLog index)
    (hsound : n.CommitsSoundly e) (hrestart : e.isRestart = false) :
    NodeSettled llog decrees (n.step e) := by
  obtain ⟨hkeeps, hcopy⟩ := keepsCommitted_step_iff n e hrestart h.copy
  have hsame : n.shared.commitIndex = 0 ∨
      Settled llog decrees (n.step e).shared.replicationLog n.shared.commitIndex :=
    h.front.imp_right fun hfront => hfront.of_front hinLogs (hkeeps.mpr hsound.1).positions
  refine ⟨hcopy, ?_, (h.hushed_step hsound hrestart).1⟩
  have hstays : (n.step e).shared.commitIndex = n.shared.commitIndex →
      (n.step e).shared.commitIndex = 0 ∨
        Settled llog decrees (n.step e).shared.replicationLog (n.step e).shared.commitIndex :=
    fun heq => heq ▸ hsame
  cases e with
  | accept clock message =>
    rcases commitIndex_accept clock message n.machine with heq | ⟨request, hpayload, hrole, heq⟩
    · exact hstays heq
    · obtain ⟨payload, callback⟩ := message
      obtain rfl : payload = .appendEntries request := hpayload
      have hstep : (n.step (.accept clock ⟨.appendEntries request, callback⟩)).shared =
        Follower.appendEntries request callback n.shared := heq
      obtain ⟨howned, hclaim⟩ := hrequest clock _ rfl request rfl
      rw [hstep] at hproper hwithin hsame ⊢
      exact Follower.front_appendEntries harchive hE howned hclaim (hsound.2 hrole).1
        hrepresented.ends hproper hwithin hsame
  | timeStep clock part =>
    rcases commitIndex_runPart clock n.machine part with heq | ⟨id, index, hdone, hlt, heq, hlog⟩
    · exact hstays heq
    · have hcommit : (n.step (.timeStep clock part)).shared.commitIndex = index := heq
      rw [hcommit]
      right
      exact (hcommits clock part id index rfl hdone hlt).of_front hinLogs fun i entry _ hentry =>
        LeaderLogs.getElem?_of_prefix hlog hentry
  | respond response => exact hstays rfl
  | processTask =>
    obtain ⟨work, isOpen, responses, heq⟩ := Node.serves_processTask n
    exact hstays (congrArg (fun sm => sm.shared.commitIndex) heq)
  | flush =>
    obtain ⟨work, isOpen, responses, heq⟩ := Node.serves_flush n
    exact hstays (congrArg (fun sm => sm.shared.commitIndex) heq)
  | restart clock written accepts => cases hrestart

omit [ParsesSocketAddr] in
/-- What goes on the bus is decided. -/
theorem publications (h : NodeSettled llog decrees n) (h' : NodeSettled llog decrees (n.step e))
    (hsound : n.CommitsSoundly e) (hrestart : e.isRestart = false) :
    ∃ new, (n.step e).shared.logEntryBus.sent = n.shared.logEntryBus.sent ++ new ∧
      ∀ p ∈ new, Decided llog decrees p.1 p.2 := by
  rcases h'.front with hzero | hfront
  · exact ⟨[], by rw [(h.hushed_step hsound hrestart).2 hzero, List.append_nil], by simp⟩
  · obtain ⟨new, hsent, hnew⟩ := busGrows_step n hrestart
    exact ⟨new, hsent, fun p hp => .of_settled hfront (hnew p hp).1 (hnew p hp).2⟩

end Step

end NodeSettled

/-! ## The commits of the leaders -/

/-- The terms and positions of the commits. -/
def Annals.decrees (t : Annals) : List (ℕ × ℕ) := t.chronicle.commits.map fun c => (c.term, c.index)

/-- What leaders have committed is in their logs. -/
structure Decreed (llog : ℕ → List OwnedLogEntry) (t : Annals) : Prop where
  located : ∀ c ∈ t.chronicle.commits, (llog c.term)[c.index]? = some c.entry
  ruled : ∀ c ∈ t.chronicle.commits, ∃ r ∈ t.chronicle.book.reigns, r.term = c.term

section Cluster

variable [Capnp] [ParsesSocketAddr] {C : Cluster} {t : Annals} {E : OwnedLogEntry → Prop}
  {llog llog' : ℕ → List OwnedLogEntry} {a : ℕ}

namespace Decreed

omit [Capnp] [ParsesSocketAddr] in
theorem inLogs (h : Decreed llog t) : InLogs llog t.decrees := by
  intro decree hdecree
  obtain ⟨c, hc, rfl⟩ := List.mem_map.mp hdecree
  exact (List.getElem?_eq_some_iff.mp (h.located c hc)).1

/-- **Commits prevail**, by leader completeness. -/
theorem prevails (h : Decreed llog t) (hinv : CompleteInv C t) (hwritten : Written C E t.trace)
    (harchive : Archive C E llog t.trace) (hrecorded : Recorded E llog t) :
    Prevails llog t.decrees := by
  intro decree hdecree decree' hdecree' hle
  obtain ⟨c, hc, rfl⟩ := List.mem_map.mp hdecree
  obtain ⟨c', hc', rfl⟩ := List.mem_map.mp hdecree'
  rcases Nat.lt_or_eq_of_le hle with hlater | heq
  · obtain ⟨r, hr, hterm⟩ := h.ruled c' hc'
    have hentry := hinv.complete hc hr (hterm.symm ▸ hlater)
    obtain ⟨newer, older, hreigns⟩ := List.append_of_mem hr
    have hcarried := (hrecorded.reigns r older (hreigns ▸ List.suffix_append ..)).2.2.1
    have hat : (llog c'.term)[c.index]? = some c.entry :=
      LeaderLogs.getElem?_of_prefix (hterm ▸ hcarried) hentry
    have hcoherent := fun term => harchive.coherent hwritten.determined
      (harchive.proper term).toWellFormed (harchive.within term)
    exact (hcoherent c.term).take_eq (hcoherent c'.term) (h.located c hc) hat rfl
  · exact heq ▸ rfl

/-- **A step of the cluster.** -/
theorem step (h : Decreed llog t) (hpoll : PollInv C t) (hwritten : Written C E t.trace)
    (harchive : Archive C E llog t.trace) (hextends : ∀ term, llog term <+: llog' term)
    (label : Label) : Decreed llog' (t.step C label) := by
  have hgrows : ∀ {c : Commit}, (llog c.term)[c.index]? = some c.entry →
      (llog' c.term)[c.index]? = some c.entry := fun h =>
    LeaderLogs.getElem?_of_prefix (hextends _) h
  rcases t.step_cases C label with ⟨a, ha, event, rfl⟩ | ⟨hchronicle, -⟩
  · -- a commit of this step is at a position of the log of a leader
    have hnew : ∀ c ∈ t.world.commits a event, (llog c.term)[c.index]? = some c.entry ∧
        ∃ r ∈ t.chronicle.book.reigns, r.term = c.term := by
      intro c hc
      obtain ⟨part, id, hdone, hentry, hterm⟩ := World.mem_commits hc
      have hleads : (t.world.process a).node.machine.Leads c.term :=
        ⟨by rw [leader_of_completedMessage hdone]; rfl, hterm.symm⟩
      obtain ⟨r, hr, heq⟩ := hpoll.leaders _ (hwritten.office a ha c.term hleads)
      refine ⟨?_, r, hr, (Prod.mk.inj heq).2⟩
      rw [harchive.current a ha c.term hleads]
      exact hentry
    refine ⟨fun c hc => ?_, fun c hc => ?_⟩
    · rw [Annals.chronicle_act ha] at hc
      rcases List.mem_append.mp hc with hc | hc
      · exact hgrows (h.located c hc)
      · exact hgrows (hnew c hc).1
    · rw [Annals.chronicle_act ha] at hc ⊢
      have hruled : ∃ r ∈ t.chronicle.book.reigns, r.term = c.term := by
        rcases List.mem_append.mp hc with hc | hc
        · exact h.ruled c hc
        · exact (hnew c hc).2
      obtain ⟨r, hr, heq⟩ := hruled
      exact ⟨r, List.mem_append_right _ hr, heq⟩
  · exact ⟨fun c hc => hgrows (h.located c (hchronicle ▸ hc)), hchronicle ▸ h.ruled⟩

end Decreed

/-- Decrees stay. -/
theorem Annals.decrees_subset (C : Cluster) (t : Annals) (label : Label) :
    t.decrees ⊆ (t.step C label).decrees := by
  rcases t.step_cases C label with ⟨a, ha, event, rfl⟩ | ⟨hchronicle, -⟩
  · unfold Annals.decrees
    rw [Annals.chronicle_act ha]
    exact List.map_subset _ (List.subset_append_left _ _)
  · unfold Annals.decrees
    rw [hchronicle]
    exact List.Subset.refl _

/-- A leader that completes a message commits the position. -/
theorem Annals.settled_of_completedMessage (ha : a ∈ C.members) (hcounts : CountInv C t.ackTrace a)
    (harchive : Archive C E llog t.trace) (hextends : ∀ term, llog term <+: llog' term) {clock : Clock}
    {part : TimeStepPart} {id index : ℕ}
    (hdone : completedMessage (t.world.process a).node.machine part = some (id, index))
    (hlt : (t.world.process a).node.shared.commitIndex < index) :
    Settled llog' (t.step C (.act a (.timeStep clock part))).decrees
      (t.world.process a).node.shared.replicationLog index := by
  obtain ⟨tally, htally, hindex, -⟩ := acks_of_completedMessage hdone
  obtain ⟨entry, hentry, -⟩ := hcounts.held id tally htally
  rw [hindex] at hentry
  have hleads : (t.world.process a).node.machine.Leads (t.world.shared a).currentTerm :=
    ⟨by rw [leader_of_completedMessage hdone]; rfl, rfl⟩
  have hcommit : ⟨(t.world.shared a).currentTerm, index, entry⟩ ∈
      t.world.commits a (.timeStep clock part) := by
    unfold World.commits
    simp only [hdone]
    rw [if_pos hlt]
    exact Option.mem_toList.mpr (Option.map_eq_some_iff.mpr ⟨entry, hentry, rfl⟩)
  refine ⟨((t.world.shared a).currentTerm, index), ?_, le_rfl, ?_⟩
  · refine List.mem_map.mpr ⟨⟨(t.world.shared a).currentTerm, index, entry⟩, ?_, rfl⟩
    rw [Annals.chronicle_act ha]
    exact List.mem_append_right _ hcommit
  · obtain ⟨rest, hrest⟩ := hextends (t.world.shared a).currentTerm
    have hcurrent : llog (t.world.shared a).currentTerm =
      (t.world.process a).node.shared.replicationLog := harchive.current a ha _ hleads
    rw [← hrest, hcurrent, List.take_append_of_le_length]
    exact (List.getElem?_eq_some_iff.mp hentry).1

end Cluster

/-! ## The cluster -/

/-- What is committed in the cluster is settled, wherever it is known, and what was published is
decided. -/
structure SettledInv [ParsesSocketAddr] (C : Cluster) (llog : ℕ → List OwnedLogEntry) (t : Ledger) :
    Prop where
  decreed : Decreed llog t.annals
  nodes : ∀ a ∈ C.members, NodeSettled llog t.annals.decrees (t.annals.world.process a).node
  informed : ∀ a ∈ C.members, (t.annals.world.process a).Informed
  flow : World.Carries C (commitFlow (SureIn llog t.annals.decrees)) t.annals.world
  published : ∀ x ∈ t.published, Decided llog t.annals.decrees x.position x.entry
  buses : ∀ a ∈ C.members, ∀ p ∈ (t.annals.world.shared a).logEntryBus.sent,
    ⟨a, p.1, p.2⟩ ∈ t.published

section Cluster

variable [Capnp] [ParsesSocketAddr] {C : Cluster}

theorem World.NodeStep.node {w : World} {label : Label} {a : ℕ} {e : NodeEvent}
    (h : w.NodeStep label a e) (ha : a ∈ C.members) :
    ((w.step C label).process a).node = (w.process a).node.step e := by
  obtain ⟨event, rfl, hevent⟩ := h
  rw [World.step_act ha, World.process_update_self]
  rcases Kraft.node_step C.utf8Lossy (w.process a) event with ⟨e', he', hnode⟩ | ⟨hnone, -⟩
  · obtain rfl := Option.some.inj (hevent.symm.trans he')
    exact hnode
  · cases hevent.symm.trans hnone

omit [Capnp] [ParsesSocketAddr] in
theorem World.CommitsSoundly.of_nodeStep {w : World} {label : Label} (h : w.CommitsSoundly label)
    {a : ℕ} {e : NodeEvent} (he : w.NodeStep label a e) : (w.process a).node.CommitsSoundly e := by
  obtain ⟨event, rfl, hevent⟩ := he
  exact h e hevent

/-- A step of the cluster, with the entries and the logs of the leaders before and after it. -/
structure SafetyStep (C : Cluster) (t : Annals) (label : Label) (E E' : OwnedLogEntry → Prop)
    (llog llog' : ℕ → List OwnedLogEntry) : Prop where
  complete : CompleteInv C t
  written : Written C E t.trace
  archive : Archive C E llog t.trace
  represented' : ClusterRepresented C (t.step C label).world
  written' : Written C E' (t.step C label).trace
  archive' : Archive C E' llog' (t.step C label).trace
  entries : ∀ entry, E entry → E' entry
  leaders : ∀ term, llog term <+: llog' term
  sound : t.world.CommitsSoundly label

namespace SettledInv

variable {t : Ledger} {label : Label} {E E' : OwnedLogEntry → Prop}
  {llog llog' : ℕ → List OwnedLogEntry} {a : ℕ} {e : NodeEvent}

/-- The commits after the step. -/
theorem decreed_step (h : SettledInv C llog t) (hstep : SafetyStep C t.annals label E E' llog llog') :
    Decreed llog' (t.annals.step C label) :=
  h.decreed.step hstep.complete.poll hstep.written hstep.archive hstep.leaders label

/-- What was sure stays sure. -/
theorem flow_mono (h : SettledInv C llog t) (hstep : SafetyStep C t.annals label E E' llog llog') :
    World.Carries C (commitFlow (SureIn llog' (t.annals.step C label).decrees)) t.annals.world := by
  refine h.flow.commitFlow_mono fun term k hsure => ?_
  have hsettled := hsure.mono h.decreed.inLogs (t.annals.decrees_subset C label) hstep.leaders
  exact hsettled.of_front (h.decreed_step hstep).inLogs fun i entry _ hentry =>
    LeaderLogs.getElem?_of_prefix (hstep.leaders term) hentry

/-- The nodes stay settled while more is decreed. -/
theorem nodes_mono (h : SettledInv C llog t) (hstep : SafetyStep C t.annals label E E' llog llog')
    (ha : a ∈ C.members) :
    NodeSettled llog' (t.annals.step C label).decrees (t.annals.world.process a).node :=
  (h.nodes a ha).mono h.decreed.inLogs (t.annals.decrees_subset C label) hstep.leaders

/-- **The node that acts.** -/
theorem node_step (h : SettledInv C llog t) (hstep : SafetyStep C t.annals label E E' llog llog')
    (ha : a ∈ C.members) (he : t.annals.world.NodeStep label a e) (hrestart : e.isRestart = false) :
    NodeSettled llog' (t.annals.step C label).decrees ((t.annals.world.process a).node.step e) := by
  have hnode : ((t.annals.step C label).world.process a).node =
    (t.annals.world.process a).node.step e := he.node ha
  refine (h.nodes_mono hstep ha).step hstep.archive' hstep.written'.determined
    (h.decreed_step hstep).inLogs (hstep.complete.represented.nodes a ha).machine
    (hnode ▸ (hstep.represented'.nodes a ha).machine.log) (hnode ▸ (hstep.written'.nodes a ha).log)
    (fun clock message haccept request hpayload => ⟨?_, ?_⟩) ?_ (hstep.sound.of_nodeStep he) hrestart
  · have hrequest := hstep.written.flow.request_of_nodeStep ha he clock message haccept
    exact RequestOf.mono hstep.entries (RequestOf.of_payload hrequest request hpayload)
  · have hclaim := (h.flow_mono hstep).request_of_nodeStep ha he clock message haccept
    rw [hpayload] at hclaim
    exact hclaim
  · rintro clock part id index rfl hdone hlt
    obtain ⟨event, rfl, hevent⟩ := he
    cases event with
    | timeStep clock' part' =>
      obtain ⟨rfl, rfl⟩ := NodeEvent.timeStep.inj (Option.some.inj hevent)
      exact Annals.settled_of_completedMessage ha (hstep.complete.counts a ha) hstep.archive
        hstep.leaders hdone hlt
    | accept clock' =>
      obtain ⟨message, -, heq⟩ := Option.map_eq_some_iff.mp hevent
      cases heq
    | _ => cases hevent

/-- What it tells its workers. -/
theorem tells (h : SettledInv C llog t) (hstep : SafetyStep C t.annals label E E' llog llog')
    (ha : a ∈ C.members) (he : t.annals.world.NodeStep label a e) (hrestart : e.isRestart = false) :
    Tells (SureIn llog' (t.annals.step C label).decrees) (t.annals.world.process a).node.machine
      ((t.annals.world.process a).node.step e).machine := by
  have hnode : ((t.annals.step C label).world.process a).node =
    (t.annals.world.process a).node.step e := he.node ha
  have hrepresented := (hstep.complete.represented.nodes a ha).machine
  have hrepresented' := (hstep.represented'.nodes a ha).machine
  have hwithin := (hstep.written.nodes a ha).mono hstep.entries
  have hwithin' : NodeWithin E' ((t.annals.step C label).world.process a).node :=
    hstep.written'.nodes a ha
  rw [hnode] at hrepresented' hwithin'
  have hinLogs := (h.decreed_step hstep).inLogs
  have hcoherent : ∀ {log}, ProperLog log → Within E' log →
      LeaderLogs.Coherent OwnedLogEntry.term llog' log := fun hproper hwithin =>
    hstep.archive'.coherent hstep.written'.determined hproper.toWellFormed hwithin
  have hkeeps := (keepsCommitted_step_iff _ e hrestart (h.nodes a ha).copy).1.mpr
    (hstep.sound.of_nodeStep he).1
  refine tells_step hrepresented hrepresented' hwithin.isOpen ?_ hrestart hkeeps.commit
    ((h.nodes_mono hstep ha).commitsSurely hinLogs (hcoherent hrepresented.log hwithin.log))
    ((h.node_step hstep ha he hrestart).commitsSurely hinLogs
      (hcoherent hrepresented'.log hwithin'.log))
  intro clock message haccept request hpayload entry hentry
  have hrequest := hstep.written.flow.request_of_nodeStep ha he clock message haccept
  obtain ⟨owned, hdata, -⟩ := RequestOf.of_payload hrequest request hpayload entry hentry
  exact ⟨owned, hdata⟩

/-- **The nodes after the step.** -/
theorem nodes_step (h : SettledInv C llog t) (hstep : SafetyStep C t.annals label E E' llog llog')
    (ha : a ∈ C.members) : NodeSettled llog' (t.annals.step C label).decrees
      ((t.annals.step C label).world.process a).node := by
  rcases World.node_step (C := C) t.annals.world label a with ⟨e, he, -, hnode⟩ | hexchanges
  · change ((t.annals.step C label).world.process a).node = _ at hnode
    rw [hnode]
    cases hrestart : e.isRestart with
    | false => exact h.node_step hstep ha he hrestart
    | true =>
      cases e with
      | restart clock written accepts => exact .restart clock written accepts
      | _ => cases hrestart
  · exact (h.nodes_mono hstep ha).exchanges hexchanges

/-- **What their workers know.** -/
theorem informed_step (h : SettledInv C llog t) (hstep : SafetyStep C t.annals label E E' llog llog')
    (ha : a ∈ C.members) : ((t.annals.step C label).world.process a).Informed := by
  show ((t.annals.world.step C label).process a).Informed
  rcases World.process_step C t.annals.world label a with ⟨event, rfl, -, hprocess⟩ |
    ⟨i, packet, -, -, -, hprocess⟩ | hsame
  · rw [hprocess]
    rcases Kraft.node_step C.utf8Lossy (t.annals.world.process a) event with
      ⟨e, he, hnode⟩ | ⟨hnone, hexchanges⟩
    · intro hlead
      have hrestart : e.isRestart = false := by
        refine Node.isRestart_of_leader (n := (t.annals.world.process a).node) ?_
        rw [← hnode, hlead]
        rfl
      exact (h.informed a ha).step (Process.workers_step he hrestart C.utf8Lossy) hnode
        (h.tells hstep ha ⟨event, rfl, he⟩ hrestart) ((h.flow_mono hstep).processes a ha) hlead
    · exact (h.informed a ha).exchange (Process.outlook_exchange hnone C.utf8Lossy) hexchanges
  · rw [hprocess]
    exact (h.informed a ha).exchange (Process.outlook_receive _ _ _) (node_receive ..)
  · rw [hsame]
    exact h.informed a ha

/-- **Commit indices on their way.** -/
theorem flow_step (h : SettledInv C llog t) (hstep : SafetyStep C t.annals label E E' llog llog') :
    World.Carries C (commitFlow (SureIn llog' (t.annals.step C label).decrees))
      (t.annals.step C label).world :=
  (h.flow_mono hstep).step hstep.complete.represented.connected label
    fun a ha _ he hrestart _ _ hworker hchannel =>
      ((h.tells hstep ha he hrestart).queue hchannel ((h.informed a ha).knows hworker)).1

/-- The bus of a member: entries are put on it, or a restart empties it. -/
theorem bus_step (h : SettledInv C llog t) (hstep : SafetyStep C t.annals label E E' llog llog')
    (ha : a ∈ C.members) :
    (∃ new, ((t.annals.step C label).world.shared a).logEntryBus.sent =
        (t.annals.world.shared a).logEntryBus.sent ++ new ∧
      ∀ p ∈ new, Decided llog' (t.annals.step C label).decrees p.1 p.2) ∨
      ((t.annals.step C label).world.shared a).logEntryBus.sent = [] := by
  unfold World.shared
  rcases World.node_step (C := C) t.annals.world label a with ⟨e, he, -, hnode⟩ | hexchanges
  · change ((t.annals.step C label).world.process a).node = _ at hnode
    rw [hnode]
    cases hrestart : e.isRestart with
    | false =>
      exact Or.inl ((h.nodes_mono hstep ha).publications (h.node_step hstep ha he hrestart)
        (hstep.sound.of_nodeStep he) hrestart)
    | true =>
      cases e with
      | restart clock written accepts => exact Or.inr rfl
      | _ => cases hrestart
  · obtain ⟨responses, answers, tasks, hnode, -⟩ := hexchanges
    change ((t.annals.step C label).world.process a).node = _ at hnode
    rw [hnode]
    exact Or.inl ⟨[], (List.append_nil _).symm, by simp⟩

/-- **What goes on the buses** is decided, -/
theorem publications_step (h : SettledInv C llog t)
    (hstep : SafetyStep C t.annals label E E' llog llog') :
    ∀ x ∈ t.annals.world.publications (t.annals.step C label).world label,
      Decided llog' (t.annals.step C label).decrees x.position x.entry := by
  intro x hx
  cases label with
  | act a event =>
    obtain ⟨p, hp, rfl⟩ := List.mem_map.mp hx
    by_cases ha : a ∈ C.members
    · rcases h.bus_step hstep ha with ⟨new, hsent, hnew⟩ | hempty
      · rw [hsent, List.drop_left] at hp
        exact hnew p hp
      · rw [hempty, List.drop_nil] at hp
        cases hp
    · have hsame : (t.annals.step C (.act a event)).world = t.annals.world :=
        World.step_act_of_notMem ha _ event
      rw [hsame, List.drop_length] at hp
      cases hp
  | _ => cases hx

/-- and all of it is remembered. -/
theorem buses_step (h : SettledInv C llog t) (hstep : SafetyStep C t.annals label E E' llog llog')
    (ha : a ∈ C.members) : ∀ p ∈ ((t.annals.step C label).world.shared a).logEntryBus.sent,
      ⟨a, p.1, p.2⟩ ∈ (t.step C label).published := by
  intro p hp
  rcases World.node_step (C := C) t.annals.world label a with ⟨e, ⟨event, rfl, -⟩, -, -⟩ | hexchanges
  · rcases h.bus_step hstep ha with ⟨new, hsent, -⟩ | hempty
    · rw [hsent] at hp
      rcases List.mem_append.mp hp with hp | hp
      · exact List.mem_append_left _ (h.buses a ha p hp)
      · refine List.mem_append_right _ (List.mem_map.mpr ⟨p, ?_, rfl⟩)
        change p ∈ List.drop _ ((t.annals.step C (.act a event)).world.shared a).logEntryBus.sent
        rw [hsent, List.drop_left]
        exact hp
    · rw [hempty] at hp
      cases hp
  · obtain ⟨responses, answers, tasks, hnode, -⟩ := hexchanges
    change ((t.annals.step C label).world.process a).node = _ at hnode
    unfold World.shared at hp
    rw [hnode] at hp
    exact List.mem_append_left _ (h.buses a ha p hp)

/-- **A step of the cluster.** -/
theorem step (h : SettledInv C llog t) (hstep : SafetyStep C t.annals label E E' llog llog') :
    SettledInv C llog' (t.step C label) where
  decreed := h.decreed_step hstep
  nodes _ ha := h.nodes_step hstep ha
  informed _ ha := h.informed_step hstep ha
  flow := h.flow_step hstep
  published x hx := by
    rcases List.mem_append.mp hx with hx | hx
    · exact (h.published x hx).mono (t.annals.decrees_subset C label) hstep.leaders
    · exact h.publications_step hstep x hx
  buses _ ha := h.buses_step hstep ha

theorem start (clock : ℕ → Clock) (accepts : ℕ → ℕ → Bool) :
    SettledInv C llog (Ledger.start C clock accepts) where
  decreed := ⟨(fun _ hc => nomatch hc), fun _ hc => nomatch hc⟩
  nodes _ _ := ⟨rfl, Or.inl rfl, fun _ => rfl⟩
  informed _ _ hlead := nomatch hlead
  flow := .start clock accepts
  published _ hx := nomatch hx
  buses _ _ _ hp := nomatch hp

end SettledInv

/-- The invariant of the cluster. -/
structure SafetyInv (C : Cluster) (t : Ledger) : Prop where
  complete : CompleteInv C t.annals
  settled : ∃ E llog, Written C E t.annals.trace ∧ Archive C E llog t.annals.trace ∧
    Recorded E llog t.annals ∧ SettledInv C llog t

namespace SafetyInv

variable {t : Ledger}

theorem start [LawfulCapnp] (clock : ℕ → Clock) (accepts : ℕ → ℕ → Bool) :
    SafetyInv C (Ledger.start C clock accepts) where
  complete := .start clock accepts
  settled := ⟨_, _, .start clock accepts, .start clock accepts, .start clock accepts,
    .start clock accepts⟩

/-- **A step of the cluster.** -/
theorem step [LawfulCapnp] (h : SafetyInv C t)
    (hmajority : ∀ a ∈ C.members, C.members.card < 2 * (C.config a).quorumSize) {label : Label}
    (hlaw : SafetyLaw C t label) : SafetyInv C (t.step C label) := by
  obtain ⟨E, llog, hwritten, harchive, hrecorded, hsettled⟩ := h.settled
  obtain ⟨E', llog', hwritten', harchive', hrecorded', hentries, hleaders⟩ :=
    h.complete.logs_step hmajority hlaw.1 hwritten harchive hrecorded
  have hcomplete := h.complete.step hmajority hlaw.1
  exact ⟨hcomplete, E', llog', hwritten', harchive', hrecorded', hsettled.step
    ⟨h.complete, hwritten, harchive, hcomplete.represented, hwritten', harchive', hentries, hleaders,
      hlaw.2⟩⟩

/-- What was published at a position is the same everywhere, -/
theorem entry_unique (h : SafetyInv C t) {x y : Publication} (hx : x ∈ t.published)
    (hy : y ∈ t.published) (hposition : x.position = y.position) : x.entry = y.entry := by
  obtain ⟨E, llog, hwritten, harchive, hrecorded, hsettled⟩ := h.settled
  refine (hsettled.published x hx).unique (hposition ▸ hsettled.published y hy)
    (hsettled.decreed.prevails h.complete hwritten harchive hrecorded)

/-- and carries its position. -/
theorem entry_index (h : SafetyInv C t) {x : Publication} (hx : x ∈ t.published) :
    x.entry.index = x.position := by
  obtain ⟨E, llog, -, harchive, -, hsettled⟩ := h.settled
  obtain ⟨c, -, -, hentry⟩ := hsettled.published x hx
  exact (harchive.proper c.1).index _ _ hentry

end SafetyInv

end Cluster

/-! ## Query workers -/

/-- The query worker is served from the bus of the node, in log order and, as `Committed` asks, with
no entry of the term `u64::MAX`, which it would take for a truncate signal. -/
def ReadSystem.ReadsFrom (r : ReadSystem) (s : SharedState) : Prop :=
  ∃ events, Runs.AllSteps ReadSystem.step ReadSystem.Committed .start events ∧
    Runs.run ReadSystem.step .start events = r ∧ r.sent <+: s.logEntryBus.sent.map Prod.snd

/-- How many entries it has applied. -/
def ReadSystem.applied (r : ReadSystem) : ℕ :=
  r.sent.length - (r.worker.parked.toList ++ r.memory.bus).length

/-- Its map holds the first entries it was sent, each of which is on the bus. -/
theorem ReadSystem.ReadsFrom.map {r : ReadSystem} {s : SharedState} (h : r.ReadsFrom s) :
    r.worker.queryStructure = replayEntries (r.sent.take r.applied) ∧ r.applied ≤ r.sent.length ∧
      ∀ (i : ℕ) (entry : OwnedLogEntry), r.sent[i]? = some entry → entry.index = i ∧
        ∃ p ∈ s.logEntryBus.sent, p.2 = entry := by
  obtain ⟨events, hcommitted, rfl, hsent⟩ := h
  obtain ⟨applied, hinv⟩ := hcommitted.invariant (fun r => ∃ applied, QueryInv applied r)
    (fun _ event ⟨_, hinv⟩ hok => hinv.step event hok) ⟨[], queryInv_start⟩
  have hlength := congrArg List.length hinv.split
  rw [List.length_append] at hlength
  have hcount : (Runs.run ReadSystem.step .start events).applied = applied.length := by
    unfold ReadSystem.applied
    omega
  refine ⟨?_, by omega, fun i entry hentry => ⟨hinv.positions i entry hentry, ?_⟩⟩
  · rw [hcount, hinv.split, List.take_left]
    exact hinv.map
  · exact List.mem_map.mp (hsent.subset (List.mem_of_getElem? hentry))

/-- **Maps of query workers.** -/
theorem SafetyInv.queryStructure_eq [Capnp] [ParsesSocketAddr] {C : Cluster} {t : Ledger}
    (h : SafetyInv C t) {a b : ℕ} (ha : a ∈ C.members) (hb : b ∈ C.members) {r r' : ReadSystem}
    (hr : r.ReadsFrom (t.annals.world.shared a)) (hr' : r'.ReadsFrom (t.annals.world.shared b))
    (happlied : r.applied = r'.applied) : r.worker.queryStructure = r'.worker.queryStructure := by
  obtain ⟨hmap, hle, hentries⟩ := hr.map
  obtain ⟨hmap', hle', hentries'⟩ := hr'.map
  obtain ⟨E, llog, -, -, -, hsettled⟩ := h.settled
  have hat : ∀ (i : ℕ) (entry entry' : OwnedLogEntry), r.sent[i]? = some entry →
      r'.sent[i]? = some entry' → entry = entry' := by
    intro i entry entry' hentry hentry'
    obtain ⟨hindex, p, hp, rfl⟩ := hentries i entry hentry
    obtain ⟨hindex', p', hp', rfl⟩ := hentries' i entry' hentry'
    have hx := hsettled.buses a ha p hp
    have hy := hsettled.buses b hb p' hp'
    have hposition : p.1 = p'.1 :=
      (h.entry_index hx).symm.trans ((hindex.trans hindex'.symm).trans (h.entry_index hy))
    exact h.entry_unique hx hy hposition
  have htake : r.sent.take r.applied = r'.sent.take r.applied := by
    refine List.ext_getElem ?_ fun i hi hi' => ?_
    · rw [List.length_take, List.length_take]
      omega
    · rw [List.getElem_take, List.getElem_take]
      exact hat i _ _ (List.getElem?_eq_getElem _) (List.getElem?_eq_getElem _)
  rw [hmap, hmap', ← happlied, htake]

/-! ## The result -/

/-- **State machine safety.**  If the quorum size of every node is a majority of the cluster, then in
every run that meets the condition, entries of one position that were put on buses, at any nodes and
at any times, are equal; and query workers that are served from the buses of their nodes and have
applied equally many entries have equal maps. -/
theorem state_machine_safety [Capnp] [LawfulCapnp] [ParsesSocketAddr] (C : Cluster)
    (hmajority : ∀ a ∈ C.members, C.members.card < 2 * (C.config a).quorumSize)
    (clock : ℕ → Clock) (accepts : ℕ → ℕ → Bool) (labels : List Label)
    (hrun : Runs.AllSteps (Ledger.step C) (SafetyLaw C) (Ledger.start C clock accepts) labels) :
    let t := Runs.run (Ledger.step C) (Ledger.start C clock accepts) labels
    (∀ x ∈ t.published, ∀ y ∈ t.published, x.position = y.position → x.entry = y.entry) ∧
      ∀ a ∈ C.members, ∀ b ∈ C.members, ∀ r r' : ReadSystem,
        r.ReadsFrom (t.annals.world.shared a) → r'.ReadsFrom (t.annals.world.shared b) →
          r.applied = r'.applied → r.worker.queryStructure = r'.worker.queryStructure := by
  intro t
  have hinv := hrun.invariant (SafetyInv C) (fun t label h hlaw => h.step hmajority hlaw)
    (SafetyInv.start clock accepts)
  exact ⟨fun x hx y hy => hinv.entry_unique hx hy,
    fun a ha b hb r r' hr hr' => hinv.queryStructure_eq ha hb hr hr'⟩

/-- Node 2 learns from a heartbeat that the write is committed. -/
def tellNodeTwo : List Label :=
  [.act 1 (.workerTask 0 2030), .act 1 (.heartbeat 0 2030), .deliver 0, .act 2 (.accept ⟨2031, 0⟩)]

/-- What is remembered of a run of three nodes. -/
def ledgerOfThree (labels : List Label) : Ledger :=
  letI := digitCapnp
  letI := sampleAddresses
  Runs.run (Ledger.step clusterOfThree)
    (Ledger.start clusterOfThree (fun _ => ⟨0, 0⟩) fun _ _ => true) labels

/-- The query worker of node 1 gets both entries at once. -/
def readBoth : List ReadEvent :=
  [.raise 1, .put ⟨0, 1, 0, 0, 2, 1006, []⟩, .put writtenEntry, .bumpVersion] ++
    List.replicate 4 .work

/-- That of node 2 gets them one by one. -/
def readOneByOne : List ReadEvent :=
  [.raise 0, .put ⟨0, 1, 0, 0, 2, 1006, []⟩, .bumpVersion] ++ List.replicate 4 .work ++
    [.raise 1, .put writtenEntry, .bumpVersion] ++ List.replicate 5 .work

/-- Nodes 1 and 2 put the write on their buses, and their query workers apply it. -/
theorem state_machine_safety_write :
    (∃ y ∈ (ledgerOfThree (writeEverywhere ++ tellNodeTwo)).published,
      y.node = 2 ∧ y.position = 1 ∧ y.entry = writtenEntry) ∧
    (Runs.run ReadSystem.step .start readBoth).applied = 2 ∧
      (Runs.run ReadSystem.step .start readBoth).worker.queryStructure =
        (Runs.run ReadSystem.step .start readOneByOne).worker.queryStructure := by
  have hone : ⟨1, 1, writtenEntry⟩ ∈
      (ledgerOfThree (writeEverywhere ++ tellNodeTwo)).published := by decide +kernel
  have htwo : ∃ y ∈ (ledgerOfThree (writeEverywhere ++ tellNodeTwo)).published,
      y.node = 2 ∧ y.position = 1 := by decide +kernel
  obtain ⟨y, hy, hnode, hposition⟩ := htwo
  have hsafe := @state_machine_safety digitCapnp lawful_digitCapnp sampleAddresses clusterOfThree
    (by decide) (fun _ => ⟨0, 0⟩) (fun _ _ => true) (writeEverywhere ++ tellNodeTwo)
    (by decide +kernel)
  have hentry := hsafe.1 y hy ⟨1, 1, writtenEntry⟩ hone hposition
  have hmaps := hsafe.2 1 (by decide) 2 (by decide) _ _
    ⟨readBoth, by decide +kernel, rfl, by decide +kernel⟩
    ⟨readOneByOne, by decide +kernel, rfl, by decide +kernel⟩ (by decide +kernel)
  exact ⟨⟨y, hy, hnode, hposition, hentry⟩, by decide +kernel, hmaps⟩

/-- Node 2, elected without the write, takes office.  Node 3 acknowledges its no-op entry twice: as a
candidate that does not store it, and when it stores it from a backfill. -/
def commitOverWrite : List Label :=
  [.part 2 9006 .takeOffice, .act 2 .processTask, .act 2 .flush, .part 2 9007 .popPersistence,
    .act 2 (.workerTask 1 9008), .act 2 (.workerTask 1 9008), .deliver 0, .act 3 (.accept ⟨9009, 0⟩),
    .act 3 (.answer 1 0), .deliver 0, .part 2 9010 .popQuorum, .act 2 (.heartbeat 1 9990),
    .deliver 0, .act 3 (.accept ⟨9991, 0⟩), .act 3 (.answer 1 0), .deliver 0,
    .part 2 9992 .popQuorum, .part 2 9992 .finish, .act 2 (.workerTask 1 9992), .deliver 0,
    .act 3 (.accept ⟨9993, 0⟩), .act 3 .processTask, .act 3 .flush, .part 3 9994 .popPersistence,
    .act 3 (.answer 1 0), .deliver 0, .part 2 9995 .popQuorum]

/-- **Two commands at one position.**  Node 1 has put the write of position 1 on its bus when node 2,
which does not hold it, commits its own entry there.  Every connection delivers in order and no message
is lost. -/
theorem published_entries_differ :
    ¬ ∀ (_ : Capnp) (_ : LawfulCapnp) (_ : ParsesSocketAddr) (C : Cluster) (clock : ℕ → Clock)
      (accepts : ℕ → ℕ → Bool) (labels : List Label),
      (∀ a ∈ C.members, C.members.card < 2 * (C.config a).quorumSize) →
      Runs.AllSteps (Ledger.step C) (fun t label => t.annals.world.FifoStep label)
        (Ledger.start C clock accepts) labels →
      let t := Runs.run (Ledger.step C) (Ledger.start C clock accepts) labels
      ∀ x ∈ t.published, ∀ y ∈ t.published, x.position = y.position →
        x.entry.commands = y.entry.commands := by
  intro h
  have hcommands := h digitCapnp lawful_digitCapnp sampleAddresses clusterOfThree (fun _ => ⟨0, 0⟩)
    (fun _ _ => true) (commitLostWrite ++ electNodeTwo ++ commitOverWrite) (by decide)
    (by decide +kernel) ⟨1, 1, writtenEntry⟩ (by decide +kernel) ⟨2, 1, ⟨1, 2, 0, 1, 4, 9006, []⟩⟩
    (by decide +kernel) rfl
  cases hcommands

end Kraft
