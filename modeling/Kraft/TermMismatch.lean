/-
# The truncation point for a mismatch of terms

A follower's log ends at position `i` with an entry of term `t`, and the leader has an entry of
another term there.  `handle_term_mismatch` walks back through the leader's log to the last entry of
term `t` below `i` and tells the follower to truncate its log there, without having seen it.

* `term_mismatch_point` : what the walk finds; and if the entries of term `t` are a block in the
  follower's log that starts where it starts in the leader's, then the logs are equal up to that
  point.
* `RepairLog.Mismatch.converges_of_block` : such a follower is repaired, if the leader's entries
  after that point can be sent at all.

Such a block is what a leader of term `t` leaves in the logs it replicates to, since it appends its
entries one after the other.
-/
import Kraft.RepairExchange
import Mathlib.Order.Bounds.Basic

namespace Kraft

/-- The entry at a position has the given term. -/
def HoldsTerm (log : List OwnedLogEntry) (term k : ℕ) : Prop :=
  log[k]?.map OwnedLogEntry.term = some term

/-- The entries of the term are those at positions `start` to `stop - 1`. -/
def TermBlock (log : List OwnedLogEntry) (term start stop : ℕ) : Prop :=
  ∀ k, HoldsTerm log term k ↔ start ≤ k ∧ k < stop

/-- The first entry of the term is at position `start`. -/
def TermStarts (log : List OwnedLogEntry) (term start : ℕ) : Prop :=
  IsLeast {k | HoldsTerm log term k} start

/-- The positions at which `handle_term_mismatch` may stop. -/
def MatchesBelow (log : List OwnedLogEntry) (term i : ℕ) : Set ℕ := {k | k < i ∧ HoldsTerm log term k}

instance (log : List OwnedLogEntry) (term k : ℕ) : Decidable (HoldsTerm log term k) :=
  inferInstanceAs (Decidable (_ = _))

section Walk

variable {log : List OwnedLogEntry} {term i j : ℕ}

theorem holdsTerm_iff : HoldsTerm log term j ↔ ∃ entry, log[j]? = some entry ∧ entry.term = term :=
  Option.map_eq_some_iff

/-- The walk stops at the greatest position, and passes all positions if there is none. -/
theorem findTermBelow_spec (log : List OwnedLogEntry) (term i : ℕ) :
    (∃ j, Leader.findTermBelow log term i = some j ∧ IsGreatest (MatchesBelow log term i) j) ∨
      Leader.findTermBelow log term i = none ∧ MatchesBelow log term i = ∅ := by
  induction i with
  | zero => exact Or.inr ⟨rfl, by simp [MatchesBelow]⟩
  | succ i ih =>
    by_cases hterm : HoldsTerm log term i
    · refine Or.inl ⟨i, ?_, ⟨Nat.lt_succ_self i, hterm⟩, fun k hk => Nat.le_of_lt_succ hk.1⟩
      obtain ⟨entry, hentry, rfl⟩ := holdsTerm_iff.mp hterm
      simp [Leader.findTermBelow, hentry]
    · -- position `i` is passed
      have hpass : Leader.findTermBelow log term (i + 1) = Leader.findTermBelow log term i := by
        rw [Leader.findTermBelow]
        cases hentry : log[i]? with
        | none => rfl
        | some entry => exact if_neg fun heq => hterm (holdsTerm_iff.mpr ⟨entry, hentry, heq⟩)
      have hsame : MatchesBelow log term (i + 1) = MatchesBelow log term i := by
        ext k
        refine and_congr_left fun hk => ⟨fun hlt => ?_, Nat.lt_succ_of_lt⟩
        exact Nat.lt_of_le_of_ne (Nat.le_of_lt_succ hlt) fun heq => hterm (heq ▸ hk)
      rwa [hpass, hsame]

theorem findTermBelow_of_isGreatest (h : IsGreatest (MatchesBelow log term i) j) :
    Leader.findTermBelow log term i = some j := by
  rcases findTermBelow_spec log term i with ⟨j', hfind, hgreatest⟩ | ⟨-, hempty⟩
  · rw [hfind, hgreatest.unique h]
  · exact absurd h.1 (by simp [hempty])

theorem findTermBelow_of_empty (h : MatchesBelow log term i = ∅) :
    Leader.findTermBelow log term i = none := by
  rcases findTermBelow_spec log term i with ⟨j, -, hgreatest⟩ | ⟨hfind, -⟩
  · exact absurd hgreatest.1 (by simp [h])
  · exact hfind

end Walk

/-! ## The follower's log -/

section Blocks

variable {leader follower : List OwnedLogEntry} {term i start stop : ℕ}

/-- The leader's last entry of the term below `i` is in the follower's block. -/
theorem exists_common_point (hleader : ¬ HoldsTerm leader term i)
    (hfollower : HoldsTerm follower term i) (hblock : TermBlock follower term start stop)
    (hstart : TermStarts leader term start) :
    ∃ j, IsGreatest (MatchesBelow leader term i) j ∧ HoldsTerm leader term j ∧
      HoldsTerm follower term j := by
  obtain ⟨hle, hlt⟩ := (hblock i).mp hfollower
  -- the walk cannot pass the start of the term, which lies in the follower's block
  have hmem : start ∈ MatchesBelow leader term i :=
    ⟨Nat.lt_of_le_of_ne hle fun heq => hleader (heq ▸ hstart.1), hstart.1⟩
  rcases findTermBelow_spec leader term i with ⟨j, -, hgreatest⟩ | ⟨-, hempty⟩
  · obtain ⟨hj, hterm⟩ := hgreatest.1
    exact ⟨j, hgreatest, hterm, (hblock j).mpr ⟨hgreatest.2 hmem, hj.trans hlt⟩⟩
  · exact absurd hmem (by simp [hempty])

/-- Matching logs are equal up to a position where both have the term. -/
theorem LogMatching.take_eq_of_holdsTerm (h : LogMatching leader follower) {j : ℕ}
    (hleader : HoldsTerm leader term j) (hfollower : HoldsTerm follower term j) :
    follower.take (j + 1) = leader.take (j + 1) := by
  obtain ⟨entry, hentry, hterm⟩ := holdsTerm_iff.mp hleader
  obtain ⟨entry', hentry', hterm'⟩ := holdsTerm_iff.mp hfollower
  exact (h.take_eq hentry hentry' (hterm.trans hterm'.symm)).symm

end Blocks

/-- A follower whose last term is such a block is repaired, if the entries it misses can be sent. -/
theorem RepairLog.Mismatch.converges_of_block {leader follower : List OwnedLogEntry}
    {last entry : OwnedLogEntry} (h : RepairLog.Mismatch leader follower last entry)
    (hwellFormed : WellFormed leader) (hmatch : LogMatching leader follower) (hzero : last.term ≠ 0)
    {start stop : ℕ} (hblock : TermBlock follower last.term start stop)
    (hstart : TermStarts leader last.term start) :
    ∃ j, IsGreatest (MatchesBelow leader last.term (follower.length - 1)) j ∧
      (RepairLog.Converges leader (.ofLog follower) ↔ RepairLog.Sendable (leader.drop (j + 1))) := by
  have hleader : ¬ HoldsTerm leader last.term (follower.length - 1) := by
    intro hholds
    obtain ⟨other, hother, hterm⟩ := holdsTerm_iff.mp hholds
    obtain rfl := Option.some.inj (h.getEntry.symm.trans hother)
    exact h.term hterm
  obtain ⟨j, hgreatest, -, hfollower⟩ := exists_common_point hleader
    (holdsTerm_iff.mpr ⟨last, h.lastAt, rfl⟩) hblock hstart
  refine ⟨j, hgreatest, ?_⟩
  rw [h.converges_cut hwellFormed hmatch hzero (findTermBelow_of_isGreatest hgreatest)]
  exact and_iff_right hfollower

/-! ## The result -/

/-- A truncation of a node to the given point is signalled: the task waits at the end of the queue of
the worker that `get_quorum_worker_index` names, if there is such a worker. -/
structure Signals (quorumNodeId term index : ℕ) (s s' : SharedState) : Prop where
  eq : s' = Leader.sendTruncateSignal quorumNodeId term index s
  assigns : Leader.getQuorumWorkerIndex quorumNodeId s.identity < s.quorumWorkerTasks.length →
    Assigns (Leader.getQuorumWorkerIndex quorumNodeId s.identity)
      (.truncateLog s.nextMessageId term index) s s'

theorem signals_sendTruncateSignal (quorumNodeId term index : ℕ) (s : SharedState) :
    Signals quorumNodeId term index s (Leader.sendTruncateSignal quorumNodeId term index s) :=
  ⟨rfl, fun hk => Leader.assigns_sendTruncateSignal hk term index⟩

/-- **The truncation point for a mismatch of terms.**  If the leader's entry at position `i` has
another term than `t`, then `handle_term_mismatch` signals a truncation to the greatest position below
`i` with an entry of term `t`, and to `(0, 0)` if there is none.  If a follower's log has term `t` at
position `i`, matches the leader's log, and has its entries of term `t` in one block that starts where
term `t` starts in the leader's log, then there is such a position, and the logs are equal up to it. -/
theorem term_mismatch_point (s : SharedState) (quorumNodeId t i : ℕ) {entry : OwnedLogEntry}
    (hentry : s.replicationLog[i]? = some entry) (hterm : entry.term ≠ t) :
    (∀ j, IsGreatest (MatchesBelow s.replicationLog t i) j →
      Signals quorumNodeId t j s (Leader.handleTermMismatch quorumNodeId t i s)) ∧
    (MatchesBelow s.replicationLog t i = ∅ →
      Signals quorumNodeId 0 0 s (Leader.handleTermMismatch quorumNodeId t i s)) ∧
    ∀ (follower : List OwnedLogEntry) (start stop : ℕ), HoldsTerm follower t i →
      LogMatching s.replicationLog follower → TermBlock follower t start stop →
        TermStarts s.replicationLog t start →
          ∃ j, IsGreatest (MatchesBelow s.replicationLog t i) j ∧
            follower.take (j + 1) = s.replicationLog.take (j + 1) := by
  refine ⟨fun j hj => ?_, fun hnone => ?_, fun follower start stop hholds hmatch hblock hstart => ?_⟩
  · rw [Leader.handleTermMismatch, findTermBelow_of_isGreatest hj]
    exact signals_sendTruncateSignal ..
  · rw [Leader.handleTermMismatch, findTermBelow_of_empty hnone]
    exact signals_sendTruncateSignal ..
  · have hleader : ¬ HoldsTerm s.replicationLog t i := by
      intro hleader
      obtain ⟨other, hother, heq⟩ := holdsTerm_iff.mp hleader
      obtain rfl := Option.some.inj (hentry.symm.trans hother)
      exact hterm heq
    obtain ⟨j, hgreatest, hown, hfollower⟩ := exists_common_point hleader hholds hblock hstart
    exact ⟨j, hgreatest, hmatch.take_eq_of_holdsTerm hown hfollower⟩

/-- The leader of term 3 has one entry of term 2. -/
def thirdAfterSecond : OwnedLogEntry := ⟨2, 3, 1, 2, 4, 80, []⟩

/-- A follower with two entries of term 2 keeps the first of them; the task waits for it. -/
theorem term_mismatch_point_second :
    let s := (partiesOn [sharedNoop, lostNoop, thirdAfterSecond] []).leader
    (Leader.handleTermMismatch 2 2 2 s).quorumWorkerTasks[0]? =
        (s.quorumWorkerTasks[0]?).map (· ++ [.truncateLog s.nextMessageId 2 1]) ∧
      [sharedNoop, lostNoop, lostWrite].take 2 = s.replicationLog.take 2 := by
  intro s
  have hlog : s.replicationLog = [sharedNoop, lostNoop, thirdAfterSecond] := rfl
  have hgreatest : IsGreatest (MatchesBelow s.replicationLog 2 2) 1 :=
    ⟨⟨by decide, rfl⟩, fun k hk => Nat.le_of_lt_succ hk.1⟩
  have hblock : TermBlock [sharedNoop, lostNoop, lostWrite] 2 1 3 := by
    rintro (_ | _ | _ | k)
    · decide
    · decide
    · decide
    · exact iff_of_false (by simp [HoldsTerm]) (by omega)
  have hstart : TermStarts s.replicationLog 2 1 := by
    refine ⟨rfl, fun k hk => Nat.one_le_iff_ne_zero.mpr ?_⟩
    rintro rfl
    exact absurd hk (by decide)
  obtain ⟨hfound, -, hcommon⟩ := term_mismatch_point s 2 2 2
    (show s.replicationLog[2]? = some thirdAfterSecond from rfl) (by decide)
  obtain ⟨j, hj, htake⟩ := hcommon [sharedNoop, lostNoop, lostWrite] 1 3 rfl
    (hlog ▸ (by decide : LogMatching [sharedNoop, lostNoop, thirdAfterSecond]
      [sharedNoop, lostNoop, lostWrite])) hblock hstart
  obtain rfl := hj.unique hgreatest
  exact ⟨((hfound 1 hgreatest).assigns (by decide)).queue, htake⟩

end Kraft
