/-
# The shape of a replication log

* `WellFormed` : the entry at position `i` has index `i`, refers to the entry before it, and
  terms do not fall.
* `logEnd` : position and term of the last entry, as nodes cache them.
* `LogMatching` : entries of one term at one position mean equal logs up to it.
-/
import Kraft.LeaderLogs
import Kraft.Messages
import Mathlib.Order.Basic

namespace Kraft

variable {log : List OwnedLogEntry} {entry : OwnedLogEntry} {i : ℕ}

/-- Position and term of the last entry, zero if there is none. -/
abbrev logEnd (log : List OwnedLogEntry) : ℕ × ℕ := LeaderLogs.endOf OwnedLogEntry.term log

/-- The representation of a log: indices are positions, every entry refers to the one before it
(to 0 and 0 at the start), and terms do not fall. -/
structure WellFormed (log : List OwnedLogEntry) : Prop where
  index : ∀ (i : ℕ) (entry : OwnedLogEntry), log[i]? = some entry → entry.index = i
  first : ∀ entry : OwnedLogEntry, log[0]? = some entry →
    entry.prevLogIndex = 0 ∧ entry.prevLogTerm = 0
  next : ∀ (i : ℕ) (before entry : OwnedLogEntry), log[i]? = some before →
    log[i + 1]? = some entry →
      entry.prevLogIndex = before.index ∧ entry.prevLogTerm = before.term ∧
        before.term ≤ entry.term

/-- Entries of one term at one position have equal logs up to it. -/
def LogMatching (log log' : List OwnedLogEntry) : Prop :=
  ∀ (i : ℕ) (entry entry' : OwnedLogEntry), log[i]? = some entry → log'[i]? = some entry' →
    entry.term = entry'.term → ∀ j ≤ i, log[j]? = log'[j]?

theorem logEnd_of_getLast? (h : log.getLast? = some entry) :
    logEnd log = (log.length - 1, entry.term) := by
  simp [LeaderLogs.endOf, h]

/-- The end of the first part of a log. -/
theorem logEnd_take (h : log[i]? = some entry) : logEnd (log.take (i + 1)) = (i, entry.term) := by
  have hi : i < log.length := (List.getElem?_eq_some_iff.mp h).1
  rw [List.take_add_one, h, Option.toList_some, logEnd, LeaderLogs.endOf_concat,
    List.length_take_of_le hi.le]

/-- Logs that match are equal up to a position where they have entries of one term. -/
theorem LogMatching.take_eq {log' : List OwnedLogEntry} (h : LogMatching log log')
    {entry' : OwnedLogEntry} (hentry : log[i]? = some entry) (hentry' : log'[i]? = some entry')
    (hterm : entry.term = entry'.term) : log.take (i + 1) = log'.take (i + 1) := by
  refine List.ext_getElem? fun j => ?_
  rcases Nat.lt_or_ge j (i + 1) with hj | hj
  · rw [List.getElem?_take_of_lt hj, List.getElem?_take_of_lt hj,
      h i entry entry' hentry hentry' hterm j (by omega)]
  · rw [List.getElem?_eq_none (by rw [List.length_take]; omega),
      List.getElem?_eq_none (by rw [List.length_take]; omega)]

theorem logMatching_iff {log' : List OwnedLogEntry} : LogMatching log log' ↔
    ∀ i < log.length, log[i]?.map OwnedLogEntry.term = log'[i]?.map OwnedLogEntry.term →
      log.take (i + 1) = log'.take (i + 1) := by
  constructor
  · intro h i hi hterm
    have hentry := List.getElem?_eq_getElem hi
    rw [hentry, Option.map_some] at hterm
    obtain ⟨entry', hentry', hsame⟩ := Option.map_eq_some_iff.mp hterm.symm
    exact h.take_eq hentry hentry' hsame.symm
  · intro h i entry entry' hentry hentry' hterm j hj
    have htake := h i (List.getElem?_eq_some_iff.mp hentry).1
      (by rw [hentry, hentry', Option.map_some, Option.map_some, hterm])
    rw [← List.getElem?_take_of_lt (show j < i + 1 by omega), htake,
      List.getElem?_take_of_lt (by omega)]

instance (log log' : List OwnedLogEntry) : Decidable (LogMatching log log') :=
  decidable_of_iff _ logMatching_iff.symm

namespace WellFormed

variable {log : List OwnedLogEntry}

theorem nil : WellFormed [] := ⟨by simp, by simp, by simp⟩

/-- An entry at the end that refers to the end before it. -/
theorem concat (h : WellFormed log) (hindex : entry.index = log.length)
    (hprev : (entry.prevLogIndex, entry.prevLogTerm) = logEnd log)
    (hterm : (logEnd log).2 ≤ entry.term) : WellFormed (log ++ [entry]) := by
  refine ⟨fun i e he => ?_, fun e he => ?_, fun i before e hbefore he => ?_⟩
  · rcases Nat.lt_trichotomy i log.length with hi | rfl | hi
    · rw [List.getElem?_append_left hi] at he
      exact h.index i e he
    · rw [List.getElem?_concat_length] at he
      rw [← Option.some.inj he, hindex]
    · rw [List.getElem?_eq_none (by rw [List.length_append, List.length_singleton]; omega)] at he
      cases he
  · rcases log with _ | ⟨first, rest⟩
    · obtain rfl := Option.some.inj he
      exact Prod.mk.inj hprev
    · exact h.first e he
  · rcases Nat.lt_trichotomy (i + 1) log.length with hi | hi | hi
    · rw [List.getElem?_append_left (by omega)] at hbefore
      rw [List.getElem?_append_left hi] at he
      exact h.next i before e hbefore he
    · rw [hi, List.getElem?_concat_length] at he
      rw [List.getElem?_append_left (by omega)] at hbefore
      obtain rfl := Option.some.inj he
      have hend : logEnd log = (i, before.term) := by
        rw [← logEnd_take hbefore, hi, List.take_length]
      rw [hend] at hprev hterm
      obtain ⟨hpi, hpt⟩ := Prod.mk.inj hprev
      exact ⟨by rw [hpi, h.index i before hbefore], hpt, hterm⟩
    · rw [List.getElem?_eq_none (by rw [List.length_append, List.length_singleton]; omega)] at he
      cases he

/-- An entry refers to the end of the log before it. -/
theorem prev (h : WellFormed log) (hentry : log[i]? = some entry) :
    (entry.prevLogIndex, entry.prevLogTerm) = logEnd (log.take i) := by
  cases i with
  | zero =>
    obtain ⟨hindex, hterm⟩ := h.first entry hentry
    rw [hindex, hterm, List.take_zero]
    rfl
  | succ i =>
    have hi : i < log.length := by
      have := (List.getElem?_eq_some_iff.mp hentry).1
      omega
    have hbefore := List.getElem?_eq_getElem hi
    obtain ⟨hindex, hterm, -⟩ := h.next i _ entry hbefore hentry
    rw [hindex, hterm, h.index i _ hbefore, logEnd_take hbefore]

theorem term_le (h : WellFormed log) {j : ℕ} {entry' : OwnedLogEntry} (hij : i ≤ j)
    (hentry : log[i]? = some entry) (hentry' : log[j]? = some entry') :
    entry.term ≤ entry'.term := by
  induction j, hij using Nat.le_induction generalizing entry' with
  | base =>
    rw [hentry] at hentry'
    obtain rfl := Option.some.inj hentry'
    exact le_rfl
  | succ j hij ih =>
    have hj : j < log.length := by
      have := (List.getElem?_eq_some_iff.mp hentry').1
      omega
    have hbefore := List.getElem?_eq_getElem hj
    exact (ih hbefore).trans (h.next j _ entry' hbefore hentry').2.2

/-- No entry is of a later term than the last one. -/
theorem term_le_logEnd (h : WellFormed log) (hentry : entry ∈ log) :
    entry.term ≤ (logEnd log).2 := by
  obtain ⟨i, hi⟩ := List.getElem?_of_mem hentry
  obtain ⟨last, hlast⟩ : ∃ last, log.getLast? = some last :=
    ⟨_, List.getLast?_eq_some_getLast (List.ne_nil_of_mem hentry)⟩
  rw [logEnd_of_getLast? hlast]
  have hlt := (List.getElem?_eq_some_iff.mp hi).1
  rw [List.getLast?_eq_getElem?] at hlast
  exact h.term_le (by omega) hi hlast

theorem take (h : WellFormed log) (k : ℕ) : WellFormed (log.take k) := by
  have hsub : ∀ (i : ℕ) (entry : OwnedLogEntry), (log.take k)[i]? = some entry →
      log[i]? = some entry := by
    intro i entry hentry
    have hi : i < k := by
      have := (List.getElem?_eq_some_iff.mp hentry).1
      rw [List.length_take] at this
      omega
    rwa [List.getElem?_take_of_lt hi] at hentry
  exact ⟨fun i entry hentry => h.index i entry (hsub i entry hentry),
    fun entry hentry => h.first entry (hsub 0 entry hentry),
    fun i before entry hbefore hentry =>
      h.next i before entry (hsub i before hbefore) (hsub (i + 1) entry hentry)⟩

end WellFormed

end Kraft
