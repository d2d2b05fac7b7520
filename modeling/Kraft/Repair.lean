/-
# Repairing a follower's log

The exchange with which a leader brings a follower's log in line with its own: a heartbeat
with the end of the leader's log, the follower's answer with its own end of log, and either a
truncation or the missing entries.

* `RepairLog` is what the exchange sees of the follower: its log and the end of log it has
  cached.  `repairRound` is one exchange on it; `RepairExchange` has the exchange itself.
* `Repairable` : the leader's first answer makes the follower keep only entries of the
  leader's log, and the entries it is sent are taken for entries.
* `converges_iff` : repeated exchanges end with the leader's log, and the follower never
  agrees to another log, exactly if the log is repairable.
-/
import Kraft.Leader
import Kraft.LogShape
import Kraft.QuorumWorker
import Mathlib.Logic.Function.Iterate

namespace Kraft

variable {entry : OwnedLogEntry} {log : List OwnedLogEntry} {j : ℕ}

/-! ## One exchange -/

/-- The log of a follower and its cached end. -/
structure RepairLog where
  log : List OwnedLogEntry
  lastLogIndex : ℕ
  lastLogTerm : ℕ

namespace RepairLog

/-- A log with its own end. -/
def ofLog (log : List OwnedLogEntry) : RepairLog := ⟨log, (logEnd log).1, (logEnd log).2⟩

/-- An entry of a backfill: with request id 0 it is taken for a heartbeat, otherwise it is
stored if it continues the cached end of log. -/
def receive (f : RepairLog) (entry : OwnedLogEntry) : RepairLog :=
  if entry.messageId ≠ 0 ∧ entry.prevLogIndex = f.lastLogIndex ∧
      entry.prevLogTerm = f.lastLogTerm then
    ⟨f.log ++ [entry], entry.index, entry.term⟩
  else f

/-- A truncation. -/
def truncate (f : RepairLog) (prevTerm prevIndex : ℕ) : RepairLog :=
  if prevIndex + 1 < f.log.length then ⟨f.log.take (prevIndex + 1), prevIndex, prevTerm⟩ else f

/-- What the leader's answer to the end of the follower's log does to it. -/
def answer (leader : List OwnedLogEntry) (f : RepairLog) : RepairLog :=
  match leader[f.lastLogIndex]? with
  | none => f.truncate (logEnd leader).2 (leader.length - 1)
  | some entry =>
    if entry.term ≠ f.lastLogTerm ∧ f.lastLogTerm ≠ 0 then
      match Leader.findTermBelow leader f.lastLogTerm f.lastLogIndex with
      | some truncateTo => f.truncate f.lastLogTerm truncateTo
      | none => f.truncate 0 0
    else (leader.drop (if f.lastLogTerm = 0 then 0 else f.lastLogIndex + 1)).foldl receive f

/-- The follower answers `Ok` to a heartbeat with the end of the leader's log. -/
def Agrees (leader : List OwnedLogEntry) (f : RepairLog) : Prop :=
  logEnd leader = (f.lastLogIndex, f.lastLogTerm)

instance (leader : List OwnedLogEntry) (f : RepairLog) : Decidable (Agrees leader f) :=
  inferInstanceAs (Decidable (_ = _))

/-- A heartbeat, and the leader's answer if the follower does not agree. -/
def repairRound (leader : List OwnedLogEntry) (f : RepairLog) : RepairLog :=
  if Agrees leader f then f else f.answer leader

/-- The follower's log after a number of exchanges. -/
def repairRounds (leader : List OwnedLogEntry) (n : ℕ) (f : RepairLog) : RepairLog :=
  (repairRound leader)^[n] f

/-- Exchanges end with the leader's log, and with no other log does the follower agree. -/
def Converges (leader : List OwnedLogEntry) (f : RepairLog) : Prop :=
  (∃ n, (repairRounds leader n f).log = leader ∧ Agrees leader (repairRounds leader n f)) ∧
    ∀ n, Agrees leader (repairRounds leader n f) → (repairRounds leader n f).log = leader

variable {leader : List OwnedLogEntry} {f : RepairLog}

theorem repairRounds_succ (n : ℕ) :
    repairRounds leader (n + 1) f = repairRounds leader n (repairRound leader f) :=
  Function.iterate_succ_apply ..

/-- An invariant of the exchange. -/
theorem repairRounds_invariant {inv : RepairLog → Prop}
    (hround : ∀ g, inv g → ¬ Agrees leader g → inv (g.answer leader)) (h : inv f) (n : ℕ) :
    inv (repairRounds leader n f) := by
  induction n generalizing f with
  | zero => exact h
  | succ n ih =>
    rw [repairRounds_succ]
    refine ih ?_
    unfold repairRound
    split_ifs with hagrees
    · exact h
    · exact hround f h hagrees

/-- A log that agrees is left alone. -/
theorem repairRounds_of_agrees (h : Agrees leader f) (n : ℕ) : repairRounds leader n f = f := by
  induction n with
  | zero => rfl
  | succ n ih => rw [repairRounds_succ, repairRound, if_pos h, ih]

/-- A follower that the leader takes for complete gets nothing. -/
theorem converges_of_agrees (h : Agrees leader f) : Converges leader f ↔ f.log = leader := by
  simp only [Converges, repairRounds_of_agrees h]
  exact ⟨fun hconv => hconv.2 0 h, fun heq => ⟨⟨0, heq, h⟩, fun _ _ => heq⟩⟩

theorem agrees_end (log : List OwnedLogEntry) :
    Agrees leader ⟨log, (logEnd leader).1, (logEnd leader).2⟩ := rfl

/-- Whether the exchange converges is decided by what follows the first answer. -/
theorem converges_iff_answer (h : ¬ Agrees leader f) :
    Converges leader f ↔ Converges leader (f.answer leader) := by
  have hround : repairRound leader f = f.answer leader := if_neg h
  have hsucc : ∀ n, repairRounds leader (n + 1) f = repairRounds leader n (f.answer leader) := by
    intro n
    rw [repairRounds_succ, hround]
  constructor
  · rintro ⟨⟨n, heq, hagrees⟩, honly⟩
    cases n with
    | zero => exact absurd hagrees h
    | succ n =>
      rw [hsucc] at heq hagrees
      exact ⟨⟨n, heq, hagrees⟩, fun m hm => by
        rw [← hsucc] at hm ⊢
        exact honly (m + 1) hm⟩
  · rintro ⟨⟨n, heq, hagrees⟩, honly⟩
    refine ⟨⟨n + 1, by rw [hsucc]; exact heq, by rw [hsucc]; exact hagrees⟩, fun m hm => ?_⟩
    cases m with
    | zero => exact absurd hm h
    | succ m =>
      rw [hsucc] at hm ⊢
      exact honly m hm

/-- An invariant that the leader's log does not meet rules convergence out. -/
theorem not_converges_of_invariant (inv : RepairLog → Prop)
    (hround : ∀ g, inv g → ¬ Agrees leader g → inv (g.answer leader)) (h : inv f)
    (hne : ∀ g, inv g → g.log ≠ leader) : ¬ Converges leader f := by
  rintro ⟨⟨n, heq, -⟩, -⟩
  exact hne _ (repairRounds_invariant hround h n) heq

/-- So does an answer that leaves the follower as it is. -/
theorem not_converges_of_answer_eq (hstuck : f.answer leader = f) (hne : f.log ≠ leader) :
    ¬ Converges leader f := by
  refine not_converges_of_invariant (fun g => g = f) ?_ rfl ?_
  · rintro g rfl -
    exact hstuck
  · rintro g rfl
    exact hne

/-! ## Backfill and truncation -/

/-- The entries are not taken for heartbeats. -/
def Sendable (entries : List OwnedLogEntry) : Prop := ∀ entry ∈ entries, entry.messageId ≠ 0

instance (entries : List OwnedLogEntry) : Decidable (Sendable entries) :=
  inferInstanceAs (Decidable (∀ entry ∈ entries, _))

/-- An entry that continues the log is appended. -/
theorem receive_of_continues (hid : entry.messageId ≠ 0)
    (hprev : (entry.prevLogIndex, entry.prevLogTerm) = (f.lastLogIndex, f.lastLogTerm)) :
    f.receive entry = ⟨f.log ++ [entry], entry.index, entry.term⟩ := by
  obtain ⟨hindex, hterm⟩ := Prod.mk.inj hprev
  exact if_pos ⟨hid, hindex, hterm⟩

/-- Another one is refused. -/
theorem receive_of_not_continues
    (hprev : (entry.prevLogIndex, entry.prevLogTerm) ≠ (f.lastLogIndex, f.lastLogTerm)) :
    f.receive entry = f :=
  if_neg fun h => hprev (Prod.ext h.2.1 h.2.2)

/-- An entry under the id 0 is taken for a heartbeat. -/
theorem receive_of_zero (hid : entry.messageId = 0) : f.receive entry = f :=
  if_neg fun h => h.1 hid

/-- The rest of the leader's log is stored by a follower whose end of log is where it begins. -/
theorem foldl_receive_drop (hleader : WellFormed leader) (n : ℕ) : ∀ {k : ℕ} {f : RepairLog},
    leader.length - k = n → (f.lastLogIndex, f.lastLogTerm) = logEnd (leader.take k) →
      Sendable (leader.drop k) → (leader.drop k).foldl receive f =
        ⟨f.log ++ leader.drop k, (logEnd leader).1, (logEnd leader).2⟩ := by
  induction n with
  | zero =>
    intro k f hn hend _
    have hk : leader.length ≤ k := by omega
    rw [List.take_of_length_le hk] at hend
    rw [List.drop_of_length_le hk, List.foldl_nil, List.append_nil, ← hend]
  | succ n ih =>
    intro k f hn hend hsend
    have hk : k < leader.length := by omega
    have hentry := List.getElem?_eq_getElem hk
    rw [List.drop_eq_getElem_cons hk] at hsend ⊢
    obtain ⟨hid, hrest⟩ := List.forall_mem_cons.mp hsend
    rw [List.foldl_cons, receive_of_continues hid ((hleader.prev hentry).trans hend.symm),
      ih (by omega) ?_ hrest]
    · simp
    · rw [logEnd_take hentry, hleader.index k _ hentry]

/-- Entries that do not continue the end of the log are refused. -/
theorem foldl_receive_refused (entries : List OwnedLogEntry)
    (h : ∀ entry ∈ entries, entry.messageId = 0 ∨
      (entry.prevLogIndex, entry.prevLogTerm) ≠ (f.lastLogIndex, f.lastLogTerm)) :
    entries.foldl receive f = f := by
  induction entries with
  | nil => rfl
  | cons entry rest ih =>
    have hfirst : f.receive entry = f := by
      rcases h entry (by simp) with hid | hprev
      · exact receive_of_zero hid
      · exact receive_of_not_continues hprev
    rw [List.foldl_cons, hfirst, ih fun e he => h e (by simp [he])]

/-- No entry of the leader's log continues an end of log that the leader's log does not have. -/
theorem prev_ne_of_missing (hleader : WellFormed leader) {n term i : ℕ}
    (hmissing : ∀ other, leader[n]? = some other → other.term ≠ term)
    (hentry : leader[i]? = some entry) (hfirst : i = 0 → n ≠ 0) :
    (entry.prevLogIndex, entry.prevLogTerm) ≠ (n, term) := by
  rw [hleader.prev hentry]
  intro heq
  cases i with
  | zero => exact hfirst rfl (congrArg Prod.fst heq).symm
  | succ i =>
    have hi : i < leader.length := by
      have := (List.getElem?_eq_some_iff.mp hentry).1
      omega
    rw [logEnd_take (List.getElem?_eq_getElem hi)] at heq
    obtain ⟨rfl, hsame⟩ := Prod.mk.inj heq
    exact hmissing _ (List.getElem?_eq_getElem hi) hsame

/-- What an answer can do to the log: cut it behind some first entries, or add entries that the
leader has sent. -/
theorem answer_log (leader : List OwnedLogEntry) (f : RepairLog) :
    (∃ k, (f.answer leader).log = f.log.take (k + 1)) ∨
      ∃ sent, (f.answer leader).log = f.log ++ sent ∧ Sendable sent := by
  have htruncate : ∀ prevTerm prevIndex, ∃ k,
      (f.truncate prevTerm prevIndex).log = f.log.take (k + 1) := by
    intro prevTerm prevIndex
    unfold truncate
    split_ifs with hlonger
    · exact ⟨prevIndex, rfl⟩
    · exact ⟨f.log.length, (List.take_of_length_le (by omega)).symm⟩
  have hreceive : ∀ (entries : List OwnedLogEntry) (g : RepairLog), ∃ sent,
      (entries.foldl receive g).log = g.log ++ sent ∧ Sendable sent := by
    intro entries
    induction entries with
    | nil => exact fun g => ⟨[], by simp, by simp [Sendable]⟩
    | cons entry rest ih =>
      intro g
      obtain ⟨sent, hlog, hsend⟩ := ih (g.receive entry)
      by_cases hstored : entry.messageId ≠ 0 ∧ entry.prevLogIndex = g.lastLogIndex ∧
          entry.prevLogTerm = g.lastLogTerm
      · rw [show g.receive entry = _ from if_pos hstored] at hlog
        refine ⟨entry :: sent, ?_, List.forall_mem_cons.mpr ⟨hstored.1, hsend⟩⟩
        rw [List.foldl_cons, show g.receive entry = _ from if_pos hstored, hlog]
        simp
      · rw [show g.receive entry = g from if_neg hstored] at hlog
        exact ⟨sent, by rw [List.foldl_cons, show g.receive entry = g from if_neg hstored, hlog],
          hsend⟩
  unfold answer
  split
  · exact Or.inl (htruncate _ _)
  · split_ifs
    · split <;> exact Or.inl (htruncate _ _)
    all_goals exact Or.inr (hreceive _ f)

/-- **The first entry of a follower's log is never removed.** -/
theorem not_converges_of_first (hfirst : f.log[0]? = some entry) (hne : leader[0]? ≠ some entry) :
    ¬ Converges leader f := by
  refine not_converges_of_invariant (fun g => g.log[0]? = some entry) ?_ hfirst ?_
  · intro g hg _
    obtain ⟨hlt, -⟩ := List.getElem?_eq_some_iff.mp hg
    rcases answer_log leader g with ⟨k, hlog⟩ | ⟨sent, hlog, -⟩
    · rw [hlog, List.getElem?_take_of_lt (Nat.succ_pos k), hg]
    · rw [hlog, List.getElem?_append_left hlt, hg]
  · rintro g hg rfl
    exact hne hg

/-- **An entry with message id 0 is never stored.** -/
theorem not_converges_of_zero {i : ℕ} (hentry : leader[i]? = some entry)
    (hid : entry.messageId = 0) (hmissing : f.log[i]? ≠ some entry) : ¬ Converges leader f := by
  refine not_converges_of_invariant (fun g => ∃ k sent, g.log = f.log.take k ++ sent ∧
    Sendable sent) ?_ ⟨f.log.length, [], by simp, by simp [Sendable]⟩ ?_
  · rintro g ⟨k, sent, hlog, hsend⟩ _
    rcases answer_log leader g with ⟨m, hcut⟩ | ⟨more, hadd, hmore⟩
    · refine ⟨min (m + 1) k, sent.take (m + 1 - (f.log.take k).length), ?_, fun e he =>
        hsend e (List.mem_of_mem_take he)⟩
      rw [hcut, hlog, List.take_append, List.take_take]
    · refine ⟨k, sent ++ more, by rw [hadd, hlog, List.append_assoc], fun e he => ?_⟩
      rcases List.mem_append.mp he with he | he
      · exact hsend e he
      · exact hmore e he
  · rintro g ⟨k, sent, hlog, hsend⟩ rfl
    rw [hlog] at hentry
    rcases Nat.lt_or_ge i (f.log.take k).length with hi | hi
    · rw [List.getElem?_append_left hi] at hentry
      have hik : i < k := by
        rw [List.length_take] at hi
        omega
      rw [List.getElem?_take_of_lt hik] at hentry
      exact hmissing hentry
    · rw [List.getElem?_append_right hi] at hentry
      exact hsend entry (List.mem_of_getElem? hentry) hid

/-- The walk of `handle_term_mismatch` finds the last entry of the term below a position. -/
theorem findTermBelow_some {term n : ℕ} (h : Leader.findTermBelow log term n = some j) :
    j < n ∧ ∃ entry, log[j]? = some entry ∧ entry.term = term := by
  induction n with
  | zero => cases h
  | succ n ih =>
    unfold Leader.findTermBelow at h
    split at h
    · next entry hentry =>
      split_ifs at h with hterm
      · obtain rfl := Option.some.inj h
        exact ⟨Nat.lt_succ_self n, entry, hentry, hterm⟩
      · exact (ih h).imp_left Nat.lt_succ_of_lt
    · exact (ih h).imp_left Nat.lt_succ_of_lt

/-! ## The end of the exchange -/

variable {follower : List OwnedLogEntry}

/-- A well-formed log of at least two entries does not end at position 0. -/
theorem not_agrees_of_lt {f : RepairLog} (h : f.lastLogIndex + 1 < leader.length) :
    ¬ Agrees leader f := by
  intro hagrees
  obtain ⟨last, hlast⟩ : ∃ last, leader.getLast? = some last :=
    Option.ne_none_iff_exists'.mp fun hnone => by simp [List.getLast?_eq_none_iff.mp hnone] at h
  have hindex := congrArg Prod.fst hagrees
  rw [logEnd_of_getLast? hlast] at hindex
  dsimp only at hindex
  omega

/-- The follower takes the rest of the leader's log. -/
theorem converges_of_rest (hleader : WellFormed leader) {k : ℕ} (hk : f.log.length = k)
    (hfront : f.log = leader.take k) (hend : (f.lastLogIndex, f.lastLogTerm) = logEnd f.log)
    (hagrees : ¬ Agrees leader f) (hanswer : f.answer leader = (leader.drop k).foldl receive f) :
    Converges leader f ↔ Sendable (leader.drop k) := by
  constructor
  · intro hconv entry hentry
    by_contra hid
    obtain ⟨i, hi⟩ := List.getElem?_of_mem hentry
    rw [List.getElem?_drop] at hi
    refine not_converges_of_zero hi hid ?_ hconv
    rw [List.getElem?_eq_none (by omega)]
    exact Option.some_ne_none entry |>.symm
  · intro hsend
    have hstored := foldl_receive_drop hleader _ rfl (hend.trans (by rw [hfront])) hsend
    rw [converges_iff_answer hagrees, hanswer, hstored, converges_of_agrees (agrees_end _)]
    dsimp only
    rw [hfront, List.take_append_drop]

theorem eq_cons_drop (h : log[0]? = some entry) : log = entry :: log.drop 1 := by
  rw [← List.head?_eq_getElem?] at h
  rw [List.drop_one, List.eq_cons_of_mem_head? h, List.tail_cons]

/-- A log of one entry whose cached end says that it is empty.  The leader starts from its first
entry, which is then stored a second time, unless it is one that is taken for a heartbeat and
really has the end of an empty log. -/
theorem converges_from_zero (hleader : WellFormed leader) (hlength : 2 ≤ leader.length)
    (entry : OwnedLogEntry) : Converges leader ⟨[entry], 0, 0⟩ ↔
      leader[0]? = some entry ∧ entry.term = 0 ∧ entry.messageId = 0 ∧
        Sendable (leader.drop 1) := by
  have hagrees : ¬ Agrees leader ⟨[entry], 0, 0⟩ := not_agrees_of_lt (show 0 + 1 < leader.length by omega)
  have hanswer : answer leader ⟨[entry], 0, 0⟩ = leader.foldl receive ⟨[entry], 0, 0⟩ := by
    have hzero := List.getElem?_eq_getElem (show 0 < leader.length by omega)
    simp [answer, hzero]
  constructor
  · intro hconv
    have hfirst : leader[0]? = some entry := by
      by_contra hne
      exact not_converges_of_first rfl hne hconv
    have hsend : Sendable (leader.drop 1) := by
      intro e he
      by_contra hid
      obtain ⟨i, hi⟩ := List.getElem?_of_mem he
      rw [List.getElem?_drop] at hi
      refine not_converges_of_zero hi hid ?_ hconv
      rw [List.getElem?_eq_none (by simp)]
      exact (Option.some_ne_none e).symm
    have hcons := eq_cons_drop hfirst
    have hid : entry.messageId = 0 := by
      by_contra hid
      have hall : Sendable (leader.drop 0) := by
        rw [List.drop_zero, hcons]
        exact List.forall_mem_cons.mpr ⟨hid, hsend⟩
      have hstored := foldl_receive_drop hleader _ rfl (f := ⟨[entry], 0, 0⟩) rfl hall
      rw [List.drop_zero] at hstored
      rw [converges_iff_answer hagrees, hanswer, hstored, converges_of_agrees (agrees_end _)] at hconv
      have := congrArg List.length hconv
      simp at this
    refine ⟨hfirst, ?_, hid, hsend⟩
    by_contra hterm
    have hstuck : answer leader ⟨[entry], 0, 0⟩ = ⟨[entry], 0, 0⟩ := by
      rw [hanswer]
      refine foldl_receive_refused leader fun e he => ?_
      obtain ⟨i, hi⟩ := List.getElem?_of_mem he
      rcases Nat.eq_zero_or_pos i with rfl | hpos
      · left
        rw [hfirst] at hi
        rwa [← Option.some.inj hi]
      · right
        refine prev_ne_of_missing hleader (fun other hother => ?_) hi fun hzero => absurd hzero hpos.ne'
        obtain rfl := Option.some.inj (hfirst.symm.trans hother)
        exact hterm
    refine not_converges_of_answer_eq hstuck ?_ hconv
    rintro rfl
    simp at hlength
  · rintro ⟨hfirst, hterm, hid, hsend⟩
    have hcons := eq_cons_drop hfirst
    have hskip : leader.foldl receive ⟨[entry], 0, 0⟩ =
        (leader.drop 1).foldl receive ⟨[entry], 0, 0⟩ := by
      conv_lhs => rw [hcons]
      rw [List.foldl_cons, receive_of_zero hid]
    have htake : leader.take 1 = [entry] := by rw [hcons]; rfl
    refine (converges_of_rest hleader rfl htake.symm ?_ hagrees (hanswer.trans hskip)).mpr hsend
    simp [LeaderLogs.endOf, hterm]

/-- An empty log. -/
theorem converges_nil (hleader : WellFormed leader) : Converges leader (ofLog []) ↔
    (leader = [] ∨ logEnd leader ≠ (0, 0)) ∧ Sendable leader := by
  by_cases hagrees : Agrees leader (ofLog [])
  · have hend : logEnd leader = (0, 0) := hagrees
    rw [converges_of_agrees hagrees]
    constructor
    · intro hnil
      obtain rfl : leader = [] := hnil.symm
      exact ⟨Or.inl rfl, by simp [Sendable]⟩
    · rintro ⟨hnil | hne, -⟩
      · exact hnil.symm
      · exact absurd hend hne
  · have hend : logEnd leader ≠ (0, 0) := hagrees
    obtain ⟨entry, hentry⟩ : ∃ entry, leader[0]? = some entry := by
      rcases leader with _ | ⟨entry, rest⟩
      · exact absurd rfl hend
      · exact ⟨entry, rfl⟩
    have hanswer : (ofLog []).answer leader = (leader.drop 0).foldl receive (ofLog []) := by
      simp [answer, ofLog, hentry]
    refine (converges_of_rest hleader (k := 0) rfl rfl rfl hagrees hanswer).trans ?_
    rw [List.drop_zero]
    exact (and_iff_right (Or.inr hend)).symm

theorem ofLog_eq {last : OwnedLogEntry} (h : log.getLast? = some last) :
    ofLog log = ⟨log, log.length - 1, last.term⟩ := by
  rw [ofLog, logEnd_of_getLast? h]

/-- A log that is longer than the leader's is cut to its length, and then agrees. -/
theorem converges_longer (hmatch : LogMatching leader follower)
    (hlonger : leader.length < follower.length) : Converges leader (ofLog follower) ↔
      leader ≠ [] ∧ leader.getLast?.map OwnedLogEntry.term =
        follower[leader.length - 1]?.map OwnedLogEntry.term := by
  obtain ⟨last, hlast⟩ : ∃ last, follower.getLast? = some last :=
    Option.ne_none_iff_exists'.mp fun hnone => by simp [List.getLast?_eq_none_iff.mp hnone] at hlonger
  have hend := ofLog_eq hlast
  rcases leader.eq_nil_or_concat with rfl | ⟨init, final, hconcat⟩
  · refine iff_of_false (not_converges_of_first (List.getElem?_eq_getElem hlonger) (by simp))
      fun h => h.1 rfl
  · rw [List.concat_eq_append] at hconcat
    have hfinal : leader.getLast? = some final := by rw [hconcat, List.getLast?_concat]
    have hpos : leader.length = init.length + 1 := by rw [hconcat]; simp
    have hagrees : ¬ Agrees leader (ofLog follower) := by
      intro hagrees
      rw [Agrees, hend, logEnd_of_getLast? hfinal] at hagrees
      have := congrArg Prod.fst hagrees
      dsimp only at this
      omega
    have hanswer : (ofLog follower).answer leader =
        ⟨follower.take leader.length, (logEnd leader).1, (logEnd leader).2⟩ := by
      have hnone : leader[follower.length - 1]? = none := List.getElem?_eq_none (by omega)
      rw [hend, answer]
      dsimp only
      rw [hnone]
      dsimp only
      rw [truncate, if_pos (by dsimp only; omega), logEnd_of_getLast? hfinal,
        show leader.length - 1 + 1 = leader.length by omega]
    rw [converges_iff_answer hagrees, hanswer, converges_of_agrees (agrees_end _)]
    have hentry : leader[leader.length - 1]? = some final := by
      rw [← List.getLast?_eq_getElem?, hfinal]
    constructor
    · intro heq
      refine ⟨by rw [hconcat]; simp, ?_⟩
      have hsame : (follower.take leader.length)[leader.length - 1]? = leader[leader.length - 1]? :=
        congrArg (·[leader.length - 1]?) heq
      rw [List.getElem?_take_of_lt (by omega), hentry] at hsame
      rw [hfinal, hsame]
    · rintro ⟨-, hterm⟩
      have hlt : leader.length - 1 < follower.length := by omega
      have hother := List.getElem?_eq_getElem hlt
      rw [hfinal, hother] at hterm
      have hall := hmatch _ _ _ hentry hother (Option.some.inj hterm)
      refine List.ext_getElem? fun j => ?_
      rcases Nat.lt_or_ge j leader.length with hj | hj
      · rw [List.getElem?_take_of_lt hj, hall j (by omega)]
      · rw [List.getElem?_eq_none hj, List.getElem?_eq_none (by rw [List.length_take]; omega)]

/-- A first part of the leader's log gets the rest. -/
theorem converges_front (hleader : WellFormed leader) {last : OwnedLogEntry}
    (hlast : follower.getLast? = some last) (hfront : follower = leader.take follower.length)
    (hshorter : follower.length < leader.length) : Converges leader (ofLog follower) ↔
      Sendable (leader.drop follower.length) ∧
        (logEnd follower = (0, 0) → last.messageId = 0) := by
  have hend := logEnd_of_getLast? hlast
  have hpos : 0 < follower.length := by
    rcases follower with _ | ⟨_, _⟩
    · cases hlast
    · exact Nat.succ_pos _
  have hentry : leader[follower.length - 1]? = some last := by
    rw [← List.getElem?_take_of_lt (show follower.length - 1 < follower.length by omega), ← hfront,
      ← List.getLast?_eq_getElem?, hlast]
  by_cases hzero : logEnd follower = (0, 0)
  · rw [hend] at hzero
    obtain ⟨hindex, hterm⟩ := Prod.mk.inj hzero
    have hone : follower.length = 1 := by omega
    have hsingle : follower = [last] := by
      obtain ⟨x, rfl⟩ := List.length_eq_one_iff.mp hone
      simpa using hlast
    rw [hone] at hentry hshorter
    rw [hsingle, ofLog_eq (show [last].getLast? = some last from rfl), hterm]
    refine (converges_from_zero hleader hshorter last).trans ?_
    constructor
    · exact fun h => ⟨h.2.2.2, fun _ => h.2.2.1⟩
    · exact fun h => ⟨hentry, hterm, h.2 (by rw [← hsingle, hend, hindex, hterm]), h.1⟩
  · have hagrees : ¬ Agrees leader (ofLog follower) := by
      refine not_agrees_of_lt ?_
      rw [ofLog_eq hlast]
      dsimp only
      omega
    have hanswer : (ofLog follower).answer leader =
        (leader.drop follower.length).foldl receive (ofLog follower) := by
      rw [ofLog_eq hlast, answer]
      dsimp only
      rw [hentry]
      dsimp only
      rw [if_neg (fun h => h.1 rfl)]
      by_cases hterm : last.term = 0
      · -- the leader sends its whole log, and the first part is refused
        rw [if_pos hterm, List.drop_zero]
        conv_lhs => rw [← List.take_append_drop follower.length leader]
        rw [List.foldl_append, foldl_receive_refused (leader.take follower.length) fun e he => ?_]
        right
        obtain ⟨i, hi⟩ := List.getElem?_of_mem he
        have hlt : i < follower.length := by
          have := (List.getElem?_eq_some_iff.mp hi).1
          rw [List.length_take] at this
          omega
        rw [List.getElem?_take_of_lt hlt] at hi
        rw [hleader.prev hi]
        dsimp only
        intro heq
        have hindex := congrArg Prod.fst heq
        rw [hend] at hzero
        cases i with
        | zero =>
          have hnil : 0 = follower.length - 1 := hindex
          exact hzero (by rw [← hnil, hterm])
        | succ i =>
          rw [logEnd_take (List.getElem?_eq_getElem (by omega))] at hindex
          dsimp only at hindex
          omega
      · rw [if_neg hterm, show follower.length - 1 + 1 = follower.length by omega]
    rw [converges_of_rest hleader rfl hfront rfl hagrees hanswer]
    exact ⟨fun h => ⟨h, fun h => absurd h hzero⟩, fun h => h.1⟩

/-- The entry `wrong` stands at position `j`, and the cached end is that of an entry of the
leader's log behind it. -/
def StuckAt (leader : List OwnedLogEntry) (j : ℕ) (wrong : OwnedLogEntry) (g : RepairLog) : Prop :=
  g.log[j]? = some wrong ∧ j ≤ g.lastLogIndex ∧
    ∃ entry, leader[g.lastLogIndex]? = some entry ∧ entry.term = g.lastLogTerm

/-- No further entry helps. -/
theorem StuckAt.foldl_receive {wrong : OwnedLogEntry} (entries : List OwnedLogEntry)
    (hmem : ∀ e ∈ entries, j ≤ e.index ∧ leader[e.index]? = some e) :
    ∀ {g : RepairLog}, StuckAt leader j wrong g →
      StuckAt leader j wrong (entries.foldl receive g) := by
  induction entries with
  | nil => exact fun h => h
  | cons e rest ih =>
    intro g hg
    rw [List.foldl_cons]
    refine ih (fun e' he' => hmem e' (by simp [he'])) ?_
    unfold receive
    split_ifs
    · obtain ⟨hj, he⟩ := hmem e (by simp)
      refine ⟨?_, hj, e, he, rfl⟩
      rw [List.getElem?_append_left (List.getElem?_eq_some_iff.mp hg.1).1, hg.1]
    · exact hg

/-- A log that was cut at an entry of the leader's term that is not the leader's: the entry
stays. -/
theorem not_converges_of_wrong (hleader : WellFormed leader) {wrong : OwnedLogEntry}
    (hentry : leader[j]? = some entry) (hzero : entry.term ≠ 0) (hwrong : f.log[j]? = some wrong)
    (hne : wrong ≠ entry) (hend : (f.lastLogIndex, f.lastLogTerm) = (j, entry.term)) :
    ¬ Converges leader f := by
  obtain ⟨hindex, hterm⟩ := Prod.mk.inj hend
  refine not_converges_of_invariant (StuckAt leader j wrong) ?_
    ⟨hwrong, hindex.ge, entry, hindex ▸ hentry, hterm.symm⟩ ?_
  · rintro g hg -
    obtain ⟨-, hle, e, he, heterm⟩ := id hg
    have hpos : g.lastLogTerm ≠ 0 := by
      have := hleader.term_le hle hentry he
      omega
    have hanswer : g.answer leader = (leader.drop (g.lastLogIndex + 1)).foldl receive g := by
      rw [answer, he]
      dsimp only
      rw [if_neg (fun h => h.1 heterm), if_neg hpos]
    rw [hanswer]
    refine hg.foldl_receive _ fun e' he' => ?_
    obtain ⟨i, hi⟩ := List.getElem?_of_mem he'
    rw [List.getElem?_drop] at hi
    rw [hleader.index _ e' hi]
    exact ⟨by omega, hi⟩
  · rintro g ⟨hg, -⟩ rfl
    rw [hentry] at hg
    exact hne (Option.some.inj hg).symm

/-- The end of the follower's log and the leader's entry at that position have other terms. -/
structure Mismatch (leader follower : List OwnedLogEntry) (last entry : OwnedLogEntry) : Prop where
  getLast : follower.getLast? = some last
  getEntry : leader[follower.length - 1]? = some entry
  term : entry.term ≠ last.term

namespace Mismatch

variable {last entry : OwnedLogEntry}

/-- The last entry of the follower. -/
theorem lastAt (h : Mismatch leader follower last entry) :
    follower[follower.length - 1]? = some last := by
  rw [← List.getLast?_eq_getElem?, h.getLast]

theorem length_pos (h : Mismatch leader follower last entry) : 0 < follower.length := by
  have := (List.getElem?_eq_some_iff.mp h.lastAt).1
  omega

theorem length_le (h : Mismatch leader follower last entry) : follower.length ≤ leader.length := by
  have := (List.getElem?_eq_some_iff.mp h.getEntry).1
  omega

/-- The logs differ. -/
theorem ne (h : Mismatch leader follower last entry) : follower ≠ leader := by
  rintro rfl
  exact h.term (congrArg OwnedLogEntry.term (Option.some.inj (h.getEntry.symm.trans h.lastAt)))

/-- The leader does not take the follower for complete. -/
theorem not_agrees (h : Mismatch leader follower last entry) : ¬ Agrees leader (ofLog follower) := by
  intro hagrees
  obtain ⟨final, hfinal⟩ : ∃ final, leader.getLast? = some final :=
    Option.ne_none_iff_exists'.mp fun hnone => by
      have hle := h.length_le
      rw [List.getLast?_eq_none_iff.mp hnone, List.length_nil] at hle
      exact absurd h.length_pos (by omega)
  rw [Agrees, ofLog_eq h.getLast, logEnd_of_getLast? hfinal] at hagrees
  dsimp only at hagrees
  obtain ⟨hindex, hsame⟩ := Prod.mk.inj hagrees
  have hentry := h.getEntry
  rw [← hindex, ← List.getLast?_eq_getElem?, hfinal] at hentry
  exact h.term (Option.some.inj hentry ▸ hsame)

/-- A single entry is never removed. -/
theorem not_converges_single (h : Mismatch leader follower last entry)
    (hone : follower.length = 1) : ¬ Converges leader (ofLog follower) := by
  have hlast := h.lastAt
  have hentry := h.getEntry
  rw [hone] at hlast hentry
  refine not_converges_of_first (f := ofLog follower) hlast fun heq => ?_
  exact h.term (congrArg OwnedLogEntry.term (Option.some.inj (hentry.symm.trans heq)))

/-- To a log that ends in term 0 the leader sends its own from the start, and the follower
refuses it. -/
theorem not_converges_zero (h : Mismatch leader follower last entry) (hleader : WellFormed leader)
    (hzero : last.term = 0) : ¬ Converges leader (ofLog follower) := by
  by_cases hone : follower.length = 1
  · exact h.not_converges_single hone
  refine not_converges_of_answer_eq ?_ h.ne
  have hpos := h.length_pos
  rw [ofLog_eq h.getLast, answer]
  dsimp only
  rw [h.getEntry]
  dsimp only
  rw [if_neg (fun h => h.2 hzero), if_pos hzero, List.drop_zero]
  refine foldl_receive_refused leader fun e he => Or.inr ?_
  obtain ⟨i, hi⟩ := List.getElem?_of_mem he
  refine prev_ne_of_missing hleader (fun other hother => ?_) hi fun _ => by dsimp only; omega
  obtain rfl := Option.some.inj (h.getEntry.symm.trans hother)
  exact h.term

/-- The truncation that the leader asks for. -/
theorem answer_eq (h : Mismatch leader follower last entry) (hzero : last.term ≠ 0) :
    (ofLog follower).answer leader =
      match Leader.findTermBelow leader last.term (follower.length - 1) with
      | some truncateTo => (ofLog follower).truncate last.term truncateTo
      | none => (ofLog follower).truncate 0 0 := by
  rw [ofLog_eq h.getLast, answer]
  dsimp only
  rw [h.getEntry]
  dsimp only
  rw [if_pos ⟨h.term, hzero⟩]

/-- The leader has no entry of the follower's last term: the follower keeps its first entry. -/
theorem converges_first (h : Mismatch leader follower last entry) (hleader : WellFormed leader)
    (hzero : last.term ≠ 0)
    (hfind : Leader.findTermBelow leader last.term (follower.length - 1) = none) :
    Converges leader (ofLog follower) ↔ ∃ first, leader[0]? = some first ∧
      follower[0]? = some first ∧ first.term = 0 ∧ first.messageId = 0 ∧
      Sendable (leader.drop 1) := by
  have hpos := h.length_pos
  have hle := h.length_le
  have hfirst := List.getElem?_eq_getElem hpos
  by_cases hone : follower.length = 1
  · refine iff_of_false (h.not_converges_single hone) ?_
    rintro ⟨first, hl, hf, -⟩
    have hentry := h.getEntry
    have hlast := h.lastAt
    rw [hone, hl] at hentry
    rw [hone, hf] at hlast
    exact h.term (by rw [← Option.some.inj hentry, Option.some.inj hlast])
  · have hcut : (ofLog follower).truncate 0 0 = ⟨[follower.get ⟨0, hpos⟩], 0, 0⟩ := by
      have hshort : 0 + 1 < follower.length := by omega
      rw [truncate, if_pos (show 0 + 1 < (ofLog follower).log.length from hshort)]
      show RepairLog.mk (follower.take 1) 0 0 = _
      rw [List.take_one, List.head?_eq_getElem?, hfirst]
      rfl
    rw [converges_iff_answer h.not_agrees, h.answer_eq hzero, hfind]
    dsimp only
    rw [hcut, converges_from_zero hleader (by omega)]
    constructor
    · rintro ⟨hl, hrest⟩
      exact ⟨_, hl, hfirst, hrest⟩
    · rintro ⟨first, hl, hf, hrest⟩
      rw [hfirst] at hf
      obtain rfl := Option.some.inj hf
      exact ⟨hl, hrest⟩

/-- The follower's log is cut behind the leader's last entry of the follower's last term. -/
theorem converges_cut (h : Mismatch leader follower last entry) (hleader : WellFormed leader)
    (hmatch : LogMatching leader follower) (hzero : last.term ≠ 0)
    (hfind : Leader.findTermBelow leader last.term (follower.length - 1) = some j) :
    Converges leader (ofLog follower) ↔
      follower[j]?.map OwnedLogEntry.term = some last.term ∧ Sendable (leader.drop (j + 1)) := by
  obtain ⟨hj, found, hfound, hfoundTerm⟩ := findTermBelow_some hfind
  have hle := h.length_le
  have hjlt : j < follower.length := by omega
  have hother := List.getElem?_eq_getElem hjlt
  have hcut : (ofLog follower).truncate last.term j = ⟨follower.take (j + 1), j, last.term⟩ := by
    have hshort : j + 1 < follower.length := by omega
    rw [truncate, if_pos (show j + 1 < (ofLog follower).log.length from hshort)]
    rfl
  rw [converges_iff_answer h.not_agrees, h.answer_eq hzero, hfind]
  dsimp only
  rw [hcut, hother, Option.map_some]
  by_cases hsame : found.term = follower[j].term
  · -- the follower's entry there is the leader's, and the rest is sent
    have hfront := (hmatch.take_eq hfound hother hsame).symm
    have hdisagrees : ¬ Agrees leader ⟨follower.take (j + 1), j, last.term⟩ :=
      not_agrees_of_lt (show j + 1 < leader.length by omega)
    have hbackfill : answer leader ⟨follower.take (j + 1), j, last.term⟩ =
        (leader.drop (j + 1)).foldl receive ⟨follower.take (j + 1), j, last.term⟩ := by
      rw [answer]
      dsimp only
      rw [hfound]
      dsimp only
      rw [if_neg (fun h => h.1 hfoundTerm), if_neg hzero]
    have hend : (j, last.term) = logEnd (follower.take (j + 1)) := by
      rw [hfront, logEnd_take hfound, hfoundTerm]
    rw [converges_of_rest hleader (List.length_take_of_le (by omega)) hfront hend hdisagrees
      hbackfill]
    exact (and_iff_right (by rw [← hsame, hfoundTerm])).symm
  · refine iff_of_false ?_ fun h => hsame ?_
    · have hkept : (follower.take (j + 1))[j]? = some follower[j] := by
        rw [List.getElem?_take_of_lt (Nat.lt_succ_self j), hother]
      exact not_converges_of_wrong hleader hfound (hfoundTerm ▸ hzero) hkept
        (fun heq => hsame (by rw [heq])) (by rw [hfoundTerm])
    · rw [hfoundTerm, Option.some.inj h.1]

/-- What becomes of such a log. -/
theorem converges_iff (h : Mismatch leader follower last entry) (hleader : WellFormed leader)
    (hmatch : LogMatching leader follower) :
    Converges leader (ofLog follower) ↔ last.term ≠ 0 ∧
      match Leader.findTermBelow leader last.term (follower.length - 1) with
      | some j => follower[j]?.map OwnedLogEntry.term = some last.term ∧
          Sendable (leader.drop (j + 1))
      | none => ∃ first, leader[0]? = some first ∧ follower[0]? = some first ∧ first.term = 0 ∧
          first.messageId = 0 ∧ Sendable (leader.drop 1) := by
  by_cases hzero : last.term = 0
  · exact iff_of_false (h.not_converges_zero hleader hzero) fun hne => hne.1 hzero
  · rw [and_iff_right hzero]
    rcases hfind : Leader.findTermBelow leader last.term (follower.length - 1) with _ | j
    · exact h.converges_first hleader hzero hfind
    · exact h.converges_cut hleader hmatch hzero hfind

end Mismatch

/-! ## Which logs are repaired -/

/-- The last position of a log before `n` that holds an entry of the given term. -/
def lastOfTerm (log : List OwnedLogEntry) (term n : ℕ) : Option ℕ :=
  (List.range n).reverse.find? fun i => log[i]?.map OwnedLogEntry.term = some term

/-- What the backward walk of `handle_term_mismatch` finds. -/
theorem findTermBelow_eq (log : List OwnedLogEntry) (term n : ℕ) :
    Leader.findTermBelow log term n = lastOfTerm log term n := by
  induction n with
  | zero => rfl
  | succ n ih =>
    rw [lastOfTerm, List.range_succ, List.reverse_append, List.reverse_singleton,
      List.singleton_append, List.find?_cons, ← lastOfTerm, Leader.findTermBelow, ih]
    rcases log[n]? with _ | entry
    · rfl
    · by_cases hterm : entry.term = term <;> simp [hterm]

/-- The leader's first answer lets the follower keep entries of the leader's log only, and the
entries it is sent are taken for entries:

* to an empty log the leader sends its own, unless its end is taken for that of an empty log;
* a longer log is cut to the leader's length under the leader's last term, which has to be the
  term of the follower's entry there;
* after entries of one term the leader sends the rest, from the start if the log ends with a
  first entry of term 0;
* entries of other terms are cut back to the leader's last entry of the follower's term, under
  that term, or to the first entry, under term 0. -/
def Repairable (leader follower : List OwnedLogEntry) : Prop :=
  match follower.getLast? with
  | none => (leader = [] ∨ logEnd leader ≠ (0, 0)) ∧ Sendable leader
  | some last =>
    match leader[follower.length - 1]? with
    | none => leader ≠ [] ∧ leader.getLast?.map OwnedLogEntry.term =
        follower[leader.length - 1]?.map OwnedLogEntry.term
    | some entry =>
      if entry.term = last.term then
        follower.length = leader.length ∨ Sendable (leader.drop follower.length) ∧
          (logEnd follower = (0, 0) → last.messageId = 0)
      else last.term ≠ 0 ∧
        match lastOfTerm leader last.term (follower.length - 1) with
        | some j => follower[j]?.map OwnedLogEntry.term = some last.term ∧
            Sendable (leader.drop (j + 1))
        | none => ∃ first, leader[0]? = some first ∧ follower[0]? = some first ∧
            first.term = 0 ∧ first.messageId = 0 ∧ Sendable (leader.drop 1)

/-- **The exchange converges exactly on repairable logs.** -/
theorem converges_iff (hleader : WellFormed leader) (hmatch : LogMatching leader follower) :
    Converges leader (ofLog follower) ↔ Repairable leader follower := by
  rw [Repairable]
  rcases hlast : follower.getLast? with _ | last
  · obtain rfl := List.getLast?_eq_none_iff.mp hlast
    exact converges_nil hleader
  · have hlastAt : follower[follower.length - 1]? = some last := by
      rw [← List.getLast?_eq_getElem?, hlast]
    have hpos : follower.length ≠ 0 := fun hzero => by
      rw [List.length_eq_zero_iff.mp hzero] at hlast
      cases hlast
    dsimp only
    rcases hentry : leader[follower.length - 1]? with _ | entry
    · have hge := List.getElem?_eq_none_iff.mp hentry
      exact converges_longer hmatch (by omega)
    · dsimp only
      have hlt := (List.getElem?_eq_some_iff.mp hentry).1
      split_ifs with hterm
      · have hfront := (hmatch.take_eq hentry hlastAt hterm).symm
        rw [Nat.sub_add_cancel (Nat.pos_of_ne_zero hpos), List.take_length] at hfront
        rcases Nat.lt_or_ge follower.length leader.length with hshorter | hge
        · rw [converges_front hleader hlast hfront hshorter, or_iff_right hshorter.ne]
        · have hlength : follower.length = leader.length := by omega
          have heq : follower = leader := by
            rw [hfront, hlength, List.take_length]
          rw [heq]
          refine iff_of_true ?_ (Or.inl rfl)
          exact (converges_of_agrees (agrees_end leader)).mpr rfl
      · rw [← findTermBelow_eq]
        exact Mismatch.converges_iff ⟨hlast, hentry, hterm⟩ hleader hmatch

end RepairLog

end Kraft
