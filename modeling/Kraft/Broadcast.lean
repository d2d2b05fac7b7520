/-
# Broadcasting committed entries

`broadcast_committed_entries`, `broadcast_committed_entries_when_bus_full` and
`retry_deferred_broadcast` share one cursor, `last_broadcast_index`.  The entries on the bus
are `InOrder` up to a position if they are the log's entries before it, each once and in the
order of the log.

* `broadcastLoop_spec`, `broadcastWhenBusFullLoop_spec`, `retryLoop_spec` : what the three loops
  put on the bus and where they leave the cursor;
* `broadcast_exactly_once_iff` : over any sequence of commits, retries and accessions to office, the
  entries on the bus are those up to the cursor exactly if no broadcast meets an entry that the bus
  refuses a hundred times over after the first refusal of the call.
-/
import Kraft.Runs
import Kraft.Storage

namespace Kraft

variable {k : ℕ} {s s₀ : SharedState}

namespace SharedState

/-! ## The entries on the bus -/

/-- The bus holds the first `k` entries of the log, in order. -/
def InOrder (k : ℕ) (s : SharedState) : Prop :=
  s.logEntryBus.sent = (s.replicationLog.take k).mapIdx Prod.mk

theorem InOrder.of_eq {s' : SharedState} (h : InOrder k s)
    (hsent : s'.logEntryBus.sent = s.logEntryBus.sent)
    (hlog : s'.replicationLog = s.replicationLog) : InOrder k s' := by
  unfold InOrder
  rw [hsent, hlog, h]

/-- The next entry goes on the bus. -/
theorem InOrder.succ {s' : SharedState} {entry : OwnedLogEntry} (h : InOrder k s)
    (hentry : s.replicationLog[k]? = some entry)
    (hsent : s'.logEntryBus.sent = s.logEntryBus.sent ++ [(k, entry)])
    (hlog : s'.replicationLog = s.replicationLog) : InOrder (k + 1) s' := by
  have hk : k < s.replicationLog.length := (List.getElem?_eq_some_iff.mp hentry).1
  have hlength : (s.replicationLog.take k).length = k := by
    rw [List.length_take]
    omega
  unfold InOrder
  rw [hsent, hlog, h, List.take_add_one, hentry, Option.toList_some, List.mapIdx_concat, hlength]

/-- How many entries are on the bus. -/
theorem InOrder.length (h : InOrder k s) (hk : k ≤ s.replicationLog.length) :
    s.logEntryBus.sent.length = k := by
  rw [h, List.length_mapIdx, List.length_take]
  omega

/-- The bus cannot end at two places. -/
theorem InOrder.not_succ (h : InOrder k s) (hk : k < s.replicationLog.length) :
    ¬ InOrder (k + 1) s := by
  intro hsucc
  have := h.length hk.le
  have := hsucc.length hk
  omega

/-! ## One attempt -/

/-- The bus after it has taken an entry. -/
abbrev Accepted (bus : Bus) (i : ℕ) (entry : OwnedLogEntry) : Bus :=
  ⟨bus.sent ++ [(i, entry)], bus.attempts + 1, bus.accepts⟩

/-- The bus after it has refused an entry. -/
abbrev Refused (bus : Bus) : Bus := ⟨bus.sent, bus.attempts + 1, bus.accepts⟩

/-- The bus takes an entry, -/
theorem tryBroadcast_of_accepts {bus : Bus} (h : bus.accepts bus.attempts = true) (i : ℕ)
    (entry : OwnedLogEntry) : bus.tryBroadcast i entry = (true, Accepted bus i entry) :=
  if_pos h

/-- or refuses it. -/
theorem tryBroadcast_of_refuses {bus : Bus} (h : bus.accepts bus.attempts = false) (i : ℕ)
    (entry : OwnedLogEntry) : bus.tryBroadcast i entry = (false, Refused bus) :=
  if_neg (by simp [h])

/-- One of the `m` attempts from the `k`-th on is accepted. -/
def AcceptsWithin (accepts : ℕ → Bool) (m k : ℕ) : Prop := ∃ r < m, accepts (k + r) = true

instance (accepts : ℕ → Bool) (m k : ℕ) : Decidable (AcceptsWithin accepts m k) :=
  inferInstanceAs (Decidable (∃ r < m, _))

theorem acceptsWithin_succ (accepts : ℕ → Bool) (m k : ℕ) : AcceptsWithin accepts (m + 1) k ↔
    accepts k = true ∨ AcceptsWithin accepts m (k + 1) := by
  constructor
  · rintro ⟨r, hr, haccepts⟩
    cases r with
    | zero => exact Or.inl haccepts
    | succ r =>
      refine Or.inr ⟨r, by omega, ?_⟩
      rwa [Nat.add_assoc, Nat.add_comm 1 r]
  · rintro (haccepts | ⟨r, hr, haccepts⟩)
    · exact ⟨0, by omega, haccepts⟩
    · refine ⟨r + 1, by omega, ?_⟩
      rwa [Nat.add_assoc, Nat.add_comm 1 r] at haccepts

/-- A refused entry is tried again. -/
theorem broadcastWithRetries_of_refuses (i : ℕ) (entry : OwnedLogEntry) (m : ℕ)
    (h : s.logEntryBus.accepts s.logEntryBus.attempts = false) :
    ∃ s₁, broadcastWithRetries i entry (m + 1) s = broadcastWithRetries i entry m s₁ ∧
      s₁.logEntryBus = Refused s.logEntryBus := by
  rw [broadcastWithRetries, tryBroadcast_of_refuses h]
  dsimp only
  split_ifs with hlast hyield
  · subst hlast
    exact ⟨_, rfl, rfl⟩
  · exact ⟨_, rfl, rfl⟩
  · exact ⟨_, rfl, rfl⟩

/-- **Up to `m` attempts for one entry**: it is on the bus exactly if one is accepted. -/
theorem broadcastWithRetries_spec (i : ℕ) (entry : OwnedLogEntry) (m : ℕ) : ∀ s : SharedState,
    ((broadcastWithRetries i entry m s).1 = true ↔
      AcceptsWithin s.logEntryBus.accepts m s.logEntryBus.attempts) ∧
    (broadcastWithRetries i entry m s).2.logEntryBus.sent = s.logEntryBus.sent ++
      if (broadcastWithRetries i entry m s).1 then [(i, entry)] else [] := by
  induction m with
  | zero => simp [broadcastWithRetries, AcceptsWithin]
  | succ m ih =>
    intro s
    rw [acceptsWithin_succ]
    rcases haccepts : s.logEntryBus.accepts s.logEntryBus.attempts with _ | _
    · obtain ⟨s₁, heq, hbus⟩ := broadcastWithRetries_of_refuses i entry m haccepts
      have hrest := ih s₁
      rw [hbus] at hrest
      rw [heq]
      simpa using hrest
    · rw [broadcastWithRetries, tryBroadcast_of_accepts haccepts]
      simp

/-! ## The loops -/

theorem replicationLog_broadcastWithRetries {i : ℕ} {entry : OwnedLogEntry} (m : ℕ)
    (hentry : s.replicationLog[i]? = some entry) :
    (broadcastWithRetries i entry m s).2.replicationLog = s.replicationLog := by
  rw [(broadcasts_broadcastWithRetries le_rfl m s hentry).frame]

/-- Where a loop that should send the entries up to `limit` leaves the bus and the cursor: the
entries up to the cursor are on the bus, or, if the loop does not recover, those before it. -/
structure CursorAt (recovers : Prop) (start limit : ℕ) (result : SharedState × ℕ) : Prop where
  start_le : start ≤ result.2
  le_limit : result.2 ≤ limit
  sent : recovers → InOrder (result.2 + 1) result.1
  skipped : ¬ recovers → InOrder result.2 result.1

/-- **The loop for a full bus.**  An entry that the loop starts with and that is refused a
hundred times is not on the bus, and the loop returns its position all the same. -/
theorem broadcastWhenBusFullLoop_spec {start limit : ℕ} (hle : start ≤ limit) (n : ℕ) :
    ∀ (i : ℕ) (s : SharedState), start ≤ i → i + n = limit + 1 →
      limit < s.replicationLog.length → InOrder i s →
      CursorAt (start = i → AcceptsWithin s.logEntryBus.accepts 100 s.logEntryBus.attempts)
        start limit (broadcastWhenBusFullLoop limit start (List.range' i n) s) := by
  induction n with
  | zero =>
    intro i s hi hn hlimit horder
    rw [Nat.add_zero] at hn
    have hne : start ≠ i := by omega
    subst hn
    exact ⟨hle, le_rfl, fun _ => horder, fun h => absurd (fun heq => absurd heq hne) h⟩
  | succ n ih =>
    intro i s hi hn hlimit horder
    have hlt : i < s.replicationLog.length := by omega
    have hentry : s.replicationLog[i]? = some s.replicationLog[i] := List.getElem?_eq_getElem hlt
    obtain ⟨haccepts, hsent⟩ := broadcastWithRetries_spec i s.replicationLog[i] 100 s
    have hlog := replicationLog_broadcastWithRetries 100 hentry
    rcases htry : broadcastWithRetries i s.replicationLog[i] 100 s with ⟨accepted, s₁⟩
    rw [htry] at haccepts hsent hlog
    rw [List.range'_succ]
    cases accepted with
    | true =>
      have heq : broadcastWhenBusFullLoop limit start (i :: List.range' (i + 1) n) s =
          broadcastWhenBusFullLoop limit start (List.range' (i + 1) n) s₁ := by
        simp [broadcastWhenBusFullLoop, hentry, htry]
      have hrest := ih (i + 1) s₁ (by omega) (by omega) (by rw [hlog]; exact hlimit)
        (horder.succ hentry hsent hlog)
      rw [heq]
      exact ⟨hrest.start_le, hrest.le_limit, fun _ => hrest.sent fun h => by omega,
        fun h => absurd (fun _ => haccepts.mp rfl) h⟩
    | false =>
      have heq : broadcastWhenBusFullLoop limit start (i :: List.range' (i + 1) n) s =
          (s₁, if start < i then i - 1 else start) := by
        simp [broadcastWhenBusFullLoop, hentry, htry]
      have hrefused := mt haccepts.mpr (by simp)
      have horder₁ : InOrder i s₁ := horder.of_eq (by simpa using hsent) hlog
      rw [heq]
      by_cases hstart : start = i
      · subst hstart
        rw [if_neg (lt_irrefl start)]
        exact ⟨le_rfl, hle, fun h => absurd (h rfl) hrefused, fun _ => horder₁⟩
      · rw [if_pos (by omega)]
        refine ⟨by simp only; omega, by simp only; omega, fun _ => ?_,
          fun h => absurd (fun heq => absurd heq hstart) h⟩
        rwa [Nat.sub_add_cancel (by omega)]

/-- The first refusal among the `n` attempts from the `k`-th on, if there is one, is followed by
an acceptance within a hundred attempts. -/
def Recovers (accepts : ℕ → Bool) : ℕ → ℕ → Prop
  | 0, _ => True
  | n + 1, k =>
    if accepts k then Recovers accepts n (k + 1) else AcceptsWithin accepts 100 (k + 1)

instance instDecidableRecovers (accepts : ℕ → Bool) : ∀ n k, Decidable (Recovers accepts n k)
  | 0, _ => inferInstanceAs (Decidable True)
  | n + 1, k =>
    have := instDecidableRecovers accepts n (k + 1)
    inferInstanceAs (Decidable (if accepts k then _ else _))

/-- **The loop of `broadcast_committed_entries`.** -/
theorem broadcastLoop_spec {limit : ℕ} (n : ℕ) : ∀ (i last : ℕ) (s : SharedState),
    i + n = limit + 1 → (n = 0 → last + 1 = i) → limit < s.replicationLog.length → InOrder i s →
      CursorAt (Recovers s.logEntryBus.accepts n s.logEntryBus.attempts) (i - 1) limit
          (broadcastLoop limit (List.range' i n) s last) ∧
        (0 < n → i ≤ (broadcastLoop limit (List.range' i n) s last).2) := by
  induction n with
  | zero =>
    intro i last s hn hlast hlimit horder
    obtain rfl := hlast rfl
    exact ⟨⟨le_rfl, Nat.le_of_succ_le_succ hn.le, fun _ => horder, fun h => absurd trivial h⟩,
      fun h => absurd h (lt_irrefl 0)⟩
  | succ n ih =>
    intro i last s hn hlast hlimit horder
    have hlt : i < s.replicationLog.length := by omega
    have hentry : s.replicationLog[i]? = some s.replicationLog[i] := List.getElem?_eq_getElem hlt
    rw [List.range'_succ, Recovers]
    rcases haccepts : s.logEntryBus.accepts s.logEntryBus.attempts with _ | _
    · -- the bus is full at position `i`
      have heq : broadcastLoop limit (i :: List.range' (i + 1) n) s last =
          broadcastCommittedEntriesWhenBusFull { s with logEntryBus := Refused s.logEntryBus }
            limit i := by
        simp [broadcastLoop, hentry, tryBroadcast_of_refuses haccepts]
      have hfull := broadcastWhenBusFullLoop_spec (by omega : i ≤ limit)
        (limit + 1 - i) i ({ s with logEntryBus := Refused s.logEntryBus } : SharedState).bumpVersion
        le_rfl (by omega) hlimit (horder.of_eq rfl rfl)
      rw [heq, if_neg Bool.false_ne_true]
      exact ⟨⟨(Nat.sub_le i 1).trans hfull.start_le, hfull.le_limit,
        fun h => hfull.sent fun _ => h, fun h => hfull.skipped fun h' => h (h' rfl)⟩,
        fun _ => hfull.start_le⟩
    · have heq : broadcastLoop limit (i :: List.range' (i + 1) n) s last =
          broadcastLoop limit (List.range' (i + 1) n)
            { s with logEntryBus := Accepted s.logEntryBus i s.replicationLog[i] } i := by
        simp [broadcastLoop, hentry, tryBroadcast_of_accepts haccepts]
      obtain ⟨hrest, -⟩ := ih (i + 1) i
        { s with logEntryBus := Accepted s.logEntryBus i s.replicationLog[i] } (by omega)
        (fun _ => rfl) hlimit (horder.succ hentry rfl rfl)
      rw [heq, if_pos rfl]
      exact ⟨⟨(Nat.sub_le i 1).trans hrest.start_le, hrest.le_limit, hrest.sent, hrest.skipped⟩,
        fun _ => hrest.start_le⟩

/-- **The loop of `retry_deferred_broadcast`**: it moves the cursor with every entry. -/
theorem retryLoop_spec (n : ℕ) : ∀ (i count : ℕ) (s : SharedState), s.nextBroadcastIndex = i →
    i + n ≤ s.replicationLog.length → InOrder i s →
      InOrder (retryLoop (List.range' i n) s count).2.1.nextBroadcastIndex
        (retryLoop (List.range' i n) s count).2.1 ∧
      i ≤ (retryLoop (List.range' i n) s count).2.1.nextBroadcastIndex ∧
      ((retryLoop (List.range' i n) s count).1 = true →
        (retryLoop (List.range' i n) s count).2.1.nextBroadcastIndex = i + n) ∧
      (retryLoop (List.range' i n) s count).2.1.hasDeferredBroadcast = s.hasDeferredBroadcast := by
  induction n with
  | zero =>
    intro i count s hnext hlength horder
    subst hnext
    exact ⟨horder, le_rfl, fun _ => rfl, rfl⟩
  | succ n ih =>
    intro i count s hnext hlength horder
    have hlt : i < s.replicationLog.length := by omega
    have hentry : s.replicationLog[i]? = some s.replicationLog[i] := List.getElem?_eq_getElem hlt
    rw [List.range'_succ]
    rcases haccepts : s.logEntryBus.accepts s.logEntryBus.attempts with _ | _
    · have heq : retryLoop (i :: List.range' (i + 1) n) s count =
          (false, { s with logEntryBus := Refused s.logEntryBus }, count) := by
        simp [retryLoop, hentry, tryBroadcast_of_refuses haccepts]
      rw [heq]
      subst hnext
      exact ⟨horder.of_eq rfl rfl, le_rfl, fun h => absurd h Bool.false_ne_true, rfl⟩
    · have heq : retryLoop (i :: List.range' (i + 1) n) s count =
          retryLoop (List.range' (i + 1) n) { s with
            logEntryBus := Accepted s.logEntryBus i s.replicationLog[i]
            lastBroadcastIndex := some i } (count + 1) := by
        simp [retryLoop, hentry, tryBroadcast_of_accepts haccepts]
      obtain ⟨horder', hle, hdone, hdeferred⟩ := ih (i + 1) (count + 1) { s with
        logEntryBus := Accepted s.logEntryBus i s.replicationLog[i]
        lastBroadcastIndex := some i } rfl (by rw [Nat.add_right_comm]; exact hlength)
        (horder.succ hentry rfl rfl)
      rw [heq]
      exact ⟨horder', (Nat.le_succ i).trans hle,
        fun h => (hdone h).trans (by omega), hdeferred⟩

/-! ## Commits, retries and accessions to office -/

end SharedState

/-- What makes entries go on the bus: the commit index is set and the entries up to it are
broadcast, deferred entries are retried, or a node takes office and broadcasts the entries up to its
commit index (`initialize_leadership`). -/
inductive BroadcastOp
  | commit (index : ℕ)
  | retry
  | takeOffice
  deriving DecidableEq

namespace SharedState

/-- One operation. -/
def broadcastStep (s : SharedState) : BroadcastOp → SharedState
  | .commit index => (s.storeCommitIndex index).broadcastCommittedEntries index
  | .retry => s.retryDeferredBroadcast
  | .takeOffice => if 0 < s.commitIndex then s.broadcastCommittedEntries s.commitIndex else s

/-- The index that an operation calls `broadcast_committed_entries` with. -/
def broadcastTarget (s : SharedState) : BroadcastOp → Option ℕ
  | .commit index => some index
  | .retry => none
  | .takeOffice => if 0 < s.commitIndex then some s.commitIndex else none

/-- The condition on an operation: a broadcast whose loop finds the bus full gets the entry it has
stopped at on the bus within the hundred attempts of the loop for a full bus. -/
def RecoversOn (s : SharedState) (op : BroadcastOp) : Prop :=
  ∀ index ∈ s.broadcastTarget op, Recovers s.logEntryBus.accepts (index + 1 - s.nextBroadcastIndex)
    s.logEntryBus.attempts

instance (s : SharedState) (op : BroadcastOp) : Decidable (RecoversOn s op) :=
  inferInstanceAs (Decidable (∀ index ∈ s.broadcastTarget op, _))

/-- What an operation should do. -/
structure BroadcastsSoundly (s : SharedState) (op : BroadcastOp) : Prop where
  /-- the bus holds the positions up to the cursor, each once and in order -/
  ordered : InOrder (s.broadcastStep op).nextBroadcastIndex (s.broadcastStep op)
  /-- the cursor does not move back -/
  monotone : s.nextBroadcastIndex ≤ (s.broadcastStep op).nextBroadcastIndex
  /-- the subtraction `last_broadcast_index - start_index` does not underflow -/
  noUnderflow : ∀ index ∈ s.broadcastTarget op, s.nextBroadcastIndex ≤ index →
    ∃ last, (s.broadcastStep op).lastBroadcastIndex = some last ∧ s.nextBroadcastIndex ≤ last
  /-- entries that are left out are marked as deferred -/
  deferred : ∀ last, (s.broadcastStep op).lastBroadcastIndex = some last →
    last < (s.broadcastStep op).commitIndex → (s.broadcastStep op).hasDeferredBroadcast = true

/-- The invariant of the operations from a state `s₀` on: the bus is in order, and the commit index
and deferred entries are within the log. -/
structure BusInv (s₀ s : SharedState) : Prop where
  sameLog : s.replicationLog = s₀.replicationLog
  ordered : InOrder s.nextBroadcastIndex s
  commit : s.commitIndex = s₀.commitIndex ∨ s.commitIndex < s₀.replicationLog.length
  within : s.hasDeferredBroadcast = true → s.commitIndex < s₀.replicationLog.length
  deferred : ∀ last, s.lastBroadcastIndex = some last → last < s.commitIndex →
    s.hasDeferredBroadcast = true

/-- An operation stays within the log: no entry behind its end is committed, or was when the
operations began. -/
def BroadcastOp.Within (s₀ : SharedState) : BroadcastOp → Prop
  | .commit index => index < s₀.replicationLog.length
  | .retry => True
  | .takeOffice => 0 < s₀.commitIndex → s₀.commitIndex < s₀.replicationLog.length

instance (s₀ : SharedState) : ∀ op, Decidable (BroadcastOp.Within s₀ op)
  | .commit _ => inferInstanceAs (Decidable (_ < _))
  | .retry => inferInstanceAs (Decidable True)
  | .takeOffice => inferInstanceAs (Decidable (_ → _))

/-- A node that takes office does not broadcast behind the end of its log. -/
theorem BusInv.commit_lt (h : BusInv s₀ s) (hop : BroadcastOp.Within s₀ .takeOffice)
    (hpos : 0 < s.commitIndex) : s.commitIndex < s₀.replicationLog.length := by
  rcases h.commit with hsame | hlt
  · rw [hsame] at hpos ⊢
    exact hop hpos
  · exact hlt

theorem nextBroadcastIndex_of_last {last : ℕ} (h : s.lastBroadcastIndex = some last) :
    s.nextBroadcastIndex = last + 1 := by
  rw [nextBroadcastIndex, h]

/-- `broadcast_committed_entries` past its early return. -/
theorem broadcastCommittedEntries_of_le {index : ℕ} (h : s.nextBroadcastIndex ≤ index) :
    let result := broadcastLoop index
      (List.range' s.nextBroadcastIndex (index + 1 - s.nextBroadcastIndex)) s 0
    s.broadcastCommittedEntries index = { result.1 with
      lastBroadcastIndex := some result.2
      hasDeferredBroadcast := decide (result.2 < index)
      version := result.1.version + 1 } := by
  rw [broadcastCommittedEntries, if_neg (not_lt.mpr h)]

/-- **A call of `broadcast_committed_entries`** in a state `t` with the same bus and cursor does what
it should exactly if it recovers from a full bus. -/
theorem broadcastsSoundly_of_call {t : SharedState} {op : BroadcastOp} {index : ℕ}
    (hstep : s.broadcastStep op = t.broadcastCommittedEntries index)
    (htarget : s.broadcastTarget op = some index) (hordered : InOrder t.nextBroadcastIndex t)
    (hbus : t.logEntryBus = s.logEntryBus) (hcursor : t.nextBroadcastIndex = s.nextBroadcastIndex)
    (hcommit : t.commitIndex = index) (hlimit : index < t.replicationLog.length) :
    BroadcastsSoundly s op ↔ RecoversOn s op := by
  have hrecovers : RecoversOn s op ↔ Recovers t.logEntryBus.accepts
      (index + 1 - t.nextBroadcastIndex) t.logEntryBus.attempts := by
    simp [RecoversOn, htarget, hbus, hcursor]
  by_cases hearly : index < t.nextBroadcastIndex
  · -- everything up to the index is on the bus
    have hsame : s.broadcastStep op = t := hstep.trans (if_pos hearly)
    have hzero : index + 1 - t.nextBroadcastIndex = 0 := by omega
    refine iff_of_true ?_ (hrecovers.mpr (by simp [hzero, Recovers]))
    constructor
    case ordered =>
      rw [hsame]
      exact hordered
    case monotone =>
      rw [hsame]
      exact hcursor.ge
    case noUnderflow =>
      intro index' heq hle
      obtain rfl : index = index' := Option.some.inj (htarget.symm.trans heq)
      omega
    case deferred =>
      rw [hsame]
      intro last hlast hlt
      have hnext := nextBroadcastIndex_of_last hlast
      omega
  · have hle : t.nextBroadcastIndex ≤ index := not_lt.mp hearly
    obtain ⟨hend, hstart⟩ := broadcastLoop_spec (index + 1 - t.nextBroadcastIndex)
      t.nextBroadcastIndex 0 t (by omega) (by omega) hlimit hordered
    obtain ⟨⟨-, -, ⟨-, -, -, hlog⟩, -⟩, hkept, -⟩ := (broadcasts_broadcastLoop index
      (List.range' t.nextBroadcastIndex (index + 1 - t.nextBroadcastIndex)) t 0 (fun i hi => by
        have := List.mem_range'_1.mp hi
        omega)).unchanged
    rw [broadcastCommittedEntries_of_le hle] at hstep
    rcases hresult : broadcastLoop index (List.range' t.nextBroadcastIndex
      (index + 1 - t.nextBroadcastIndex)) t 0 with ⟨s₁, last⟩
    rw [hresult] at hend hstart hlog hkept hstep
    have hlast : s.nextBroadcastIndex ≤ last := hcursor ▸ hstart (by omega)
    rw [hrecovers]
    constructor
    · intro hsound
      by_contra hnot
      have hskipped : InOrder last s₁ := hend.skipped hnot
      refine hskipped.not_succ ?_ ?_
      · rw [hlog]
        exact hend.le_limit.trans_lt hlimit
      · have hafter := hsound.ordered
        rw [hstep] at hafter
        exact hafter.of_eq rfl rfl
    · intro hagain
      have hsent : InOrder (last + 1) s₁ := hend.sent hagain
      constructor
      case ordered =>
        rw [hstep]
        exact hsent.of_eq rfl rfl
      case monotone =>
        rw [hstep]
        exact hlast.trans (Nat.le_succ last)
      case noUnderflow =>
        intro _ _ _
        rw [hstep]
        exact ⟨last, rfl, hlast⟩
      case deferred =>
        rw [hstep]
        intro last' heq hlt
        obtain rfl := Option.some.inj heq
        exact decide_eq_true ((show last < s₁.commitIndex from hlt).trans_eq (hkept.trans hcommit))

/-- **A commit**, -/
theorem broadcastsSoundly_commit (h : BusInv s₀ s) {index : ℕ}
    (hindex : index < s₀.replicationLog.length) :
    BroadcastsSoundly s (.commit index) ↔ RecoversOn s (.commit index) := by
  have hlimit : index < (s.storeCommitIndex index).replicationLog.length := by
    rw [← h.sameLog] at hindex
    exact hindex
  exact broadcastsSoundly_of_call (t := s.storeCommitIndex index) rfl rfl (h.ordered.of_eq rfl rfl)
    rfl rfl rfl hlimit

/-- **an accession to office**, -/
theorem broadcastsSoundly_takeOffice (h : BusInv s₀ s) (hop : BroadcastOp.Within s₀ .takeOffice) :
    BroadcastsSoundly s .takeOffice ↔ RecoversOn s .takeOffice := by
  by_cases hpos : 0 < s.commitIndex
  · have hlimit : s.commitIndex < s.replicationLog.length := h.sameLog ▸ h.commit_lt hop hpos
    exact broadcastsSoundly_of_call (if_pos hpos) (if_pos hpos) h.ordered rfl rfl rfl hlimit
  · have hstep : s.broadcastStep .takeOffice = s := if_neg hpos
    have htarget : s.broadcastTarget .takeOffice = none := if_neg hpos
    refine iff_of_true ⟨?_, ?_, ?_, ?_⟩ ?_
    · rw [hstep]
      exact h.ordered
    · rw [hstep]
    · simp [htarget]
    · rw [hstep]
      exact h.deferred
    · simp [RecoversOn, htarget]

/-- What a sound retry must meet. -/
theorem BroadcastsSoundly.of_retry {s' : SharedState} (hstep : s.retryDeferredBroadcast = s')
    (hordered : InOrder s'.nextBroadcastIndex s')
    (hmonotone : s.nextBroadcastIndex ≤ s'.nextBroadcastIndex)
    (hdeferred : ∀ last, s'.lastBroadcastIndex = some last → last < s'.commitIndex →
      s'.hasDeferredBroadcast = true) : BroadcastsSoundly s .retry := by
  subst hstep
  exact ⟨hordered, hmonotone, by simp [broadcastTarget], hdeferred⟩

/-- **and a retry**, which always does what it should. -/
theorem broadcastsSoundly_retry (h : BusInv s₀ s) : BroadcastsSoundly s .retry := by
  by_cases hdeferred : s.hasDeferredBroadcast = true
  · by_cases hdone : s.commitIndex < s.nextBroadcastIndex
    · have hstep : s.retryDeferredBroadcast = { s with hasDeferredBroadcast := false } := by
        rw [retryDeferredBroadcast, if_pos hdeferred]
        exact if_pos hdone
      refine .of_retry hstep (h.ordered.of_eq rfl rfl) le_rfl fun last hlast hlt => ?_
      have hnext := nextBroadcastIndex_of_last (s := s) hlast
      have hcommit : last < s.commitIndex := hlt
      omega
    · -- the loop runs, over positions of the log
      have hwithin : s.commitIndex < s.replicationLog.length := by
        rw [h.sameLog]
        exact h.within hdeferred
      obtain ⟨hordered, hmonotone, -, hflag⟩ := retryLoop_spec
        (min s.commitIndex (s.nextBroadcastIndex + maxBroadcastPerTimestep - 1) + 1
          - s.nextBroadcastIndex) s.nextBroadcastIndex 0 s rfl (by omega) h.ordered
      rcases hresult : retryLoop (List.range' s.nextBroadcastIndex
        (min s.commitIndex (s.nextBroadcastIndex + maxBroadcastPerTimestep - 1) + 1
          - s.nextBroadcastIndex)) s 0 with ⟨finished, s₁, count⟩
      rw [hresult] at hordered hmonotone hflag
      cases finished with
      | false =>
        have hstep : s.retryDeferredBroadcast = s₁ := by
          simp only [retryDeferredBroadcast, if_pos hdeferred, if_neg hdone, hresult]
        exact .of_retry hstep hordered hmonotone fun _ _ _ => hflag.trans hdeferred
      | true =>
        refine .of_retry rfl ?_ ?_ ?_
        all_goals simp only [retryDeferredBroadcast, if_pos hdeferred, if_neg hdone, hresult]
        · split_ifs <;> exact hordered.of_eq rfl rfl
        · split_ifs <;> exact hmonotone
        · intro last hlast hlt
          have hne : ¬ s₁.lastBroadcastIndex = some s₁.commitIndex := by
            intro heq
            split_ifs at hlast hlt
            all_goals
              have hsame := Option.some.inj (heq.symm.trans hlast)
              exact absurd hlt (by simp [hsame])
          split_ifs <;> exact hflag.trans hdeferred
  · have hstep : s.retryDeferredBroadcast = s := by
      rw [retryDeferredBroadcast, if_neg hdeferred]
    exact .of_retry hstep h.ordered le_rfl h.deferred

/-- No operation touches the log. -/
theorem replicationLog_broadcastStep (s : SharedState) (op : BroadcastOp) :
    (s.broadcastStep op).replicationLog = s.replicationLog := by
  cases op with
  | takeOffice =>
    unfold broadcastStep
    split_ifs <;> simp
  | _ => simp [broadcastStep]

/-- The invariant is kept by an operation that does what it should. -/
theorem BusInv.step (h : BusInv s₀ s) {op : BroadcastOp} (hop : BroadcastOp.Within s₀ op)
    (hsound : BroadcastsSoundly s op) : BusInv s₀ (s.broadcastStep op) := by
  have hlog := (replicationLog_broadcastStep s op).trans h.sameLog
  cases op with
  | commit index =>
    have hcommit : (s.broadcastStep (.commit index)).commitIndex = index := by simp [broadcastStep]
    refine ⟨hlog, hsound.ordered, ?_, fun _ => ?_, hsound.deferred⟩
    · exact Or.inr (by rw [hcommit]; exact hop)
    · rw [hcommit]
      exact hop
  | retry =>
    have hcommit : (s.broadcastStep .retry).commitIndex = s.commitIndex := by simp [broadcastStep]
    refine ⟨hlog, hsound.ordered, ?_, fun hafter => ?_,
      hsound.deferred⟩
    · rw [hcommit]
      exact h.commit
    · have hbefore : s.hasDeferredBroadcast = true := by
        by_contra hfalse
        rw [broadcastStep, retryDeferredBroadcast, if_neg hfalse] at hafter
        exact hfalse hafter
      rw [hcommit]
      exact h.within hbefore
  | takeOffice =>
    by_cases hpos : 0 < s.commitIndex
    · have hstep : s.broadcastStep .takeOffice = s.broadcastCommittedEntries s.commitIndex :=
        if_pos hpos
      refine ⟨hlog, hsound.ordered, ?_, fun _ => ?_, hsound.deferred⟩
      · simpa [hstep] using h.commit
      · simpa [hstep] using h.commit_lt hop hpos
    · rw [show s.broadcastStep .takeOffice = s from if_neg hpos]
      exact h

/-! ## Sequences of operations -/

/-- Nothing has been broadcast, as after `create_shared_state`. -/
structure NothingBroadcast (s : SharedState) : Prop where
  bus : s.logEntryBus.sent = []
  cursor : s.lastBroadcastIndex = none
  deferred : s.hasDeferredBroadcast = false

/-- A node that starts has broadcast nothing. -/
theorem nothingBroadcast_createSharedState (recovered : Storage.RecoveredData)
    (identity quorumSize workers : ℕ) (accepts : ℕ → Bool) :
    NothingBroadcast (Storage.createSharedState recovered identity quorumSize workers accepts) :=
  ⟨rfl, rfl, rfl⟩

theorem NothingBroadcast.busInv (h : NothingBroadcast s) : BusInv s s := by
  refine ⟨rfl, ?_, Or.inl rfl, fun hdeferred => ?_, fun last hlast => ?_⟩
  · unfold InOrder nextBroadcastIndex
    rw [h.bus, h.cursor]
    simp
  · rw [h.deferred] at hdeferred
    cases hdeferred
  · rw [h.cursor] at hlast
    cases hlast

/-- **Broadcasting is exactly once and in order** over every sequence of commits within the log,
of retries and of accessions to office, for every pattern of a full bus, exactly if every broadcast
recovers from the first refusal it meets. -/
theorem broadcast_exactly_once_iff {s : SharedState} (hfresh : NothingBroadcast s)
    (ops : List BroadcastOp) (hops : ∀ op ∈ ops, BroadcastOp.Within s op) :
    Runs.AllSteps broadcastStep BroadcastsSoundly s ops ↔
      Runs.AllSteps broadcastStep RecoversOn s ops := by
  refine Runs.allSteps_congr (p := BroadcastOp.Within s) (BusInv s)
    (fun t op hinv hop hsound => hinv.step hop hsound) (fun t op hinv hop => ?_) hops hfresh.busInv
  cases op with
  | commit index => exact broadcastsSoundly_commit hinv hop
  | retry => exact iff_of_true (broadcastsSoundly_retry hinv) (by simp [RecoversOn, broadcastTarget])
  | takeOffice => exact broadcastsSoundly_takeOffice hinv hop

end SharedState

/-! ## Two entries -/

open SharedState

/-- A node that has recovered two entries, on a bus that is full at some attempts. -/
def withTwoEntries (accepts : ℕ → Bool) : SharedState :=
  Storage.createSharedState
    { replicationLog := [⟨0, 1, 0, 0, 2, 50, []⟩, ⟨1, 1, 0, 1, 3, 60, []⟩]
      termStartIndex := ∅
      lastLogIndex := 1
      lastLogTerm := 1
      termVotes := ∅
      nextTerm := 2
      logEntryEndOffsets := [6, 12] } 1 2 2 accepts

/-- The bus is full when the second entry is to be sent, and free again at the next attempt; then
the node takes office. -/
theorem broadcast_exactly_once_two_entries :
    Runs.AllSteps broadcastStep BroadcastsSoundly (withTwoEntries (· ≠ 1))
      [.commit 1, .retry, .takeOffice] :=
  (broadcast_exactly_once_iff (nothingBroadcast_createSharedState ..) [.commit 1, .retry, .takeOffice]
    (by decide)).mpr (by decide +kernel)

/-- **An entry is skipped**: the first entry goes on the bus, then the bus stays full for the
first attempt and the hundred retries of the second entry.  The cursor moves past it. -/
theorem broadcast_skips_entry : ¬ ∀ (s : SharedState), NothingBroadcast s →
    ∀ ops : List BroadcastOp, (∀ op ∈ ops, BroadcastOp.Within s op) →
      Runs.AllSteps broadcastStep BroadcastsSoundly s ops := by
  intro h
  have hsteps := h (withTwoEntries (· = 0)) (nothingBroadcast_createSharedState ..)
    [.commit 0, .commit 1] (by decide)
  have hordered := hsteps.2.1.ordered
  unfold InOrder at hordered
  revert hordered
  decide

end Kraft
