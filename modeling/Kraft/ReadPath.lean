/-
# The read path and its wake-ups

The state machine and the query worker share the version counter, the commit index and the
bus.  The query worker looks at the bus only after the version has changed, and
`retry_deferred_broadcast` may put entries on the bus and return without changing it.

* `ReadEffect` is one access of the state machine to shared memory.  `effectsOf` lists those of
  an operation in the order of the code, and `readView_broadcastStep` says that together they are what
  the operation does.
* `ReadPath` interleaves these accesses with the steps of the query worker.
* `no_lost_wakeup` : whenever the state machine is between operations and the query worker has
  seen the current version, the bus is empty and no entry is parked.
* `memory_between_operations` : what the query worker sees then is the state machine's state.
-/
import Kraft.Broadcast
import Kraft.QueryWorker

namespace Kraft

open SharedState

/-! ## The accesses of an operation -/

/-- An access of the state machine to what it shares with the query worker. -/
inductive ReadEffect
  | storeCommitIndex (index : ℕ)
  | bumpVersion
  | attempt (entry : OwnedLogEntry) (accepted : Bool)
  deriving DecidableEq

variable {limit : ℕ} {rest : List ReadEffect}

namespace SharedState

/-- The accesses of `broadcastWithRetries`. -/
def retriesEffects (i : ℕ) (entry : OwnedLogEntry) : ℕ → SharedState → List ReadEffect
  | 0, _ => []
  | remaining + 1, s =>
    match s.logEntryBus.tryBroadcast i entry with
    | (true, _) => [.attempt entry true]
    | (false, bus) =>
      let s := { s with logEntryBus := bus }
      .attempt entry false ::
        if remaining = 0 then []
        else if (100 - remaining) % 10 = 0 then
          .bumpVersion :: retriesEffects i entry remaining s.bumpVersion
        else retriesEffects i entry remaining s

/-- The accesses of `broadcastWhenBusFullLoop`. -/
def whenBusFullEffects : List ℕ → SharedState → List ReadEffect
  | [], _ => []
  | i :: rest, s =>
    match s.replicationLog[i]? with
    | some entry =>
      retriesEffects i entry 100 s ++
        match broadcastWithRetries i entry 100 s with
        | (true, s) => whenBusFullEffects rest s
        | (false, _) => []
    | none => []

/-- The accesses of `broadcastLoop`. -/
def broadcastLoopEffects (newCommitIndex : ℕ) : List ℕ → SharedState → List ReadEffect
  | [], _ => []
  | i :: rest, s =>
    match s.replicationLog[i]? with
    | some entry =>
      match s.logEntryBus.tryBroadcast i entry with
      | (true, bus) =>
        .attempt entry true :: broadcastLoopEffects newCommitIndex rest { s with logEntryBus := bus }
      | (false, bus) =>
        .attempt entry false :: .bumpVersion ::
          whenBusFullEffects (List.range' i (newCommitIndex + 1 - i))
            ({ s with logEntryBus := bus } : SharedState).bumpVersion
    | none => broadcastLoopEffects newCommitIndex rest s

/-- The accesses of `broadcast_committed_entries`. -/
def broadcastEffects (s : SharedState) (newCommitIndex : ℕ) : List ReadEffect :=
  if newCommitIndex < s.nextBroadcastIndex then []
  else broadcastLoopEffects newCommitIndex
    (List.range' s.nextBroadcastIndex (newCommitIndex + 1 - s.nextBroadcastIndex)) s ++ [.bumpVersion]

/-- The accesses of `retryLoop`. -/
def retryLoopEffects : List ℕ → SharedState → List ReadEffect
  | [], _ => []
  | i :: rest, s =>
    match s.replicationLog[i]? with
    | some entry =>
      match s.logEntryBus.tryBroadcast i entry with
      | (true, bus) => .attempt entry true ::
          retryLoopEffects rest { s with logEntryBus := bus, lastBroadcastIndex := some i }
      | (false, _) => [.attempt entry false]
    | none => retryLoopEffects rest s

/-- The positions one `retry_deferred_broadcast` goes through. -/
def retryPositions (s : SharedState) : List ℕ :=
  List.range' s.nextBroadcastIndex
    (min s.commitIndex (s.nextBroadcastIndex + maxBroadcastPerTimestep - 1) + 1
      - s.nextBroadcastIndex)

/-- The accesses of `retry_deferred_broadcast`. -/
def retryEffects (s : SharedState) : List ReadEffect :=
  if s.hasDeferredBroadcast then
    if s.commitIndex < s.nextBroadcastIndex then []
    else retryLoopEffects s.retryPositions s ++
      match retryLoop s.retryPositions s 0 with
      | (false, _, _) => []
      | (true, _, count) => if 0 < count then [.bumpVersion] else []
  else []

/-- The accesses of an operation. -/
def effectsOf (s : SharedState) : BroadcastOp → List ReadEffect
  | .commit index =>
    .storeCommitIndex index :: .bumpVersion :: broadcastEffects (s.storeCommitIndex index) index
  | .retry => s.retryEffects
  | .takeOffice => if 0 < s.commitIndex then s.broadcastEffects s.commitIndex else []

/-- What is shared with the query worker: version, commit index, and the entries sent. -/
structure ReadView where
  version : ℕ
  commitIndex : ℕ
  sent : List OwnedLogEntry

/-- The shared part of the state. -/
def readView (s : SharedState) : ReadView :=
  ⟨s.version, s.publishedCommitIndex, s.logEntryBus.sent.map Prod.snd⟩

/-- One access. -/
def ReadView.perform (p : ReadView) : ReadEffect → ReadView
  | .storeCommitIndex index => { p with commitIndex := index }
  | .bumpVersion => { p with version := p.version + 1 }
  | .attempt entry true => { p with sent := p.sent ++ [entry] }
  | .attempt _ false => p

/-- The accesses of a loop are what it does. -/
theorem readView_broadcastWithRetries (i : ℕ) (entry : OwnedLogEntry) (m : ℕ) : ∀ s : SharedState,
    (broadcastWithRetries i entry m s).2.readView =
      (retriesEffects i entry m s).foldl ReadView.perform s.readView := by
  induction m with
  | zero => exact fun s => rfl
  | succ m ih =>
    intro s
    rw [broadcastWithRetries, retriesEffects]
    rcases haccepts : s.logEntryBus.accepts s.logEntryBus.attempts with _ | _
    · rw [tryBroadcast_of_refuses haccepts]
      dsimp only
      split_ifs
      · rfl
      · exact ih _
      · exact ih _
    · rw [tryBroadcast_of_accepts haccepts]
      simp [readView, ReadView.perform]

/-- The loop that waits for the bus makes the accesses listed for it, -/
theorem readView_broadcastWhenBusFullLoop (limit start : ℕ) (positions : List ℕ) :
    ∀ s : SharedState, (broadcastWhenBusFullLoop limit start positions s).1.readView =
      (whenBusFullEffects positions s).foldl ReadView.perform s.readView := by
  induction positions with
  | nil => exact fun s => rfl
  | cons i rest ih =>
    intro s
    rw [broadcastWhenBusFullLoop, whenBusFullEffects]
    rcases s.replicationLog[i]? with _ | entry
    · rfl
    · have htry := readView_broadcastWithRetries i entry 100 s
      rcases hresult : broadcastWithRetries i entry 100 s with ⟨accepted, s₁⟩
      rw [hresult] at htry
      dsimp only
      rw [List.foldl_append, ← htry, hresult]
      cases accepted with
      | true => exact ih s₁
      | false => rfl

/-- so does the loop of a broadcast, -/
theorem readView_broadcastLoop (limit : ℕ) (positions : List ℕ) :
    ∀ (s : SharedState) (last : ℕ), (broadcastLoop limit positions s last).1.readView =
      (broadcastLoopEffects limit positions s).foldl ReadView.perform s.readView := by
  induction positions with
  | nil => exact fun s _ => rfl
  | cons i rest ih =>
    intro s last
    rw [broadcastLoop, broadcastLoopEffects]
    rcases s.replicationLog[i]? with _ | entry
    · exact ih s last
    · rcases haccepts : s.logEntryBus.accepts s.logEntryBus.attempts with _ | _
      · dsimp only
        rw [tryBroadcast_of_refuses haccepts]
        exact readView_broadcastWhenBusFullLoop limit i _ _
      · dsimp only
        rw [tryBroadcast_of_accepts haccepts]
        dsimp only
        rw [ih]
        simp [readView, ReadView.perform]

/-- and the broadcast as a whole. -/
theorem readView_broadcastCommittedEntries (s : SharedState) (index : ℕ) :
    (s.broadcastCommittedEntries index).readView =
      (s.broadcastEffects index).foldl ReadView.perform s.readView := by
  rw [broadcastCommittedEntries, broadcastEffects]
  dsimp only
  split_ifs
  · rfl
  · rw [List.foldl_append, ← readView_broadcastLoop index _ s 0]
    rfl

/-- The loop of a retry, -/
theorem readView_retryLoop (positions : List ℕ) : ∀ (s : SharedState) (count : ℕ),
    (retryLoop positions s count).2.1.readView =
      (retryLoopEffects positions s).foldl ReadView.perform s.readView := by
  induction positions with
  | nil => exact fun s _ => rfl
  | cons i rest ih =>
    intro s count
    rw [retryLoop, retryLoopEffects]
    rcases s.replicationLog[i]? with _ | entry
    · exact ih s count
    · rcases haccepts : s.logEntryBus.accepts s.logEntryBus.attempts with _ | _
      · dsimp only
        rw [tryBroadcast_of_refuses haccepts]
        rfl
      · dsimp only
        rw [tryBroadcast_of_accepts haccepts]
        dsimp only
        rw [ih]
        simp [readView, ReadView.perform]

/-- and the retry. -/
theorem readView_retryDeferredBroadcast (s : SharedState) :
    s.retryDeferredBroadcast.readView = s.retryEffects.foldl ReadView.perform s.readView := by
  rw [retryDeferredBroadcast, retryEffects]
  by_cases hdeferred : s.hasDeferredBroadcast = true
  · rw [if_pos hdeferred, if_pos hdeferred]
    dsimp only
    by_cases hdone : s.commitIndex < s.nextBroadcastIndex
    · rw [if_pos hdone, if_pos hdone]
      rfl
    · rw [if_neg hdone, if_neg hdone, List.foldl_append, ← readView_retryLoop s.retryPositions s 0,
        ← retryPositions]
      rcases retryLoop s.retryPositions s 0 with ⟨finished, s₁, count⟩
      cases finished with
      | false => rfl
      | true =>
        dsimp only
        split_ifs <;> rfl
  · rw [if_neg hdeferred, if_neg hdeferred]
    rfl

/-- **The accesses of an operation are what it does.** -/
theorem readView_broadcastStep (s : SharedState) (op : BroadcastOp) :
    (s.broadcastStep op).readView = (s.effectsOf op).foldl ReadView.perform s.readView := by
  cases op with
  | commit index => exact readView_broadcastCommittedEntries (s.storeCommitIndex index) index
  | retry => exact readView_retryDeferredBroadcast s
  | takeOffice =>
    unfold broadcastStep effectsOf
    split_ifs
    · exact readView_broadcastCommittedEntries s s.commitIndex
    · rfl

/-! ## The shape of the accesses -/

/-- The accesses after the commit index is stored: the version is bumped, or an entry of the log
at a position up to `limit` is offered to the bus. -/
def Offers (limit : ℕ) (log : List OwnedLogEntry) : ReadEffect → Prop
  | .storeCommitIndex _ => False
  | .bumpVersion => True
  | .attempt entry _ => ∃ i ≤ limit, log[i]? = some entry

/-- An entry that waits for the bus is offered within the limit. -/
theorem offers_retriesEffects {i : ℕ} {log : List OwnedLogEntry} {entry : OwnedLogEntry}
    (hi : i ≤ limit) (hentry : log[i]? = some entry) (m : ℕ) :
    ∀ s : SharedState, ∀ effect ∈ retriesEffects i entry m s, Offers limit log effect := by
  induction m with
  | zero => simp [retriesEffects]
  | succ m ih =>
    intro s effect heffect
    rw [retriesEffects] at heffect
    rcases haccepts : s.logEntryBus.accepts s.logEntryBus.attempts with _ | _
    · rw [tryBroadcast_of_refuses haccepts] at heffect
      rcases List.mem_cons.mp heffect with rfl | heffect
      · exact ⟨i, hi, hentry⟩
      · split_ifs at heffect
        · simp at heffect
        · rcases List.mem_cons.mp heffect with rfl | heffect
          · trivial
          · exact ih _ effect heffect
        · exact ih _ effect heffect
    · rw [tryBroadcast_of_accepts haccepts] at heffect
      obtain rfl := List.mem_singleton.mp heffect
      exact ⟨i, hi, hentry⟩

theorem offers_whenBusFullEffects (positions : List ℕ) : ∀ s : SharedState,
    (∀ i ∈ positions, i ≤ limit) →
      ∀ effect ∈ whenBusFullEffects positions s, Offers limit s.replicationLog effect := by
  induction positions with
  | nil => simp [whenBusFullEffects]
  | cons i rest ih =>
    intro s hle effect heffect
    rw [whenBusFullEffects] at heffect
    rcases hentry : s.replicationLog[i]? with _ | entry
    · simp [hentry] at heffect
    · rw [hentry] at heffect
      rcases List.mem_append.mp heffect with heffect | heffect
      · exact offers_retriesEffects (hle i (by simp)) hentry 100 s effect heffect
      · have hlog := replicationLog_broadcastWithRetries 100 hentry
        rcases hresult : broadcastWithRetries i entry 100 s with ⟨accepted, s₁⟩
        rw [hresult] at heffect hlog
        cases accepted with
        | true =>
          rw [← hlog]
          exact ih s₁ (fun j hj => hle j (by simp [hj])) effect heffect
        | false => simp at heffect

theorem offers_broadcastLoopEffects (positions : List ℕ) : ∀ s : SharedState,
    (∀ i ∈ positions, i ≤ limit) →
      ∀ effect ∈ broadcastLoopEffects limit positions s, Offers limit s.replicationLog effect := by
  induction positions with
  | nil => simp [broadcastLoopEffects]
  | cons i rest ih =>
    intro s hle effect heffect
    rw [broadcastLoopEffects] at heffect
    have hrest := fun j hj => hle j (List.mem_cons_of_mem i hj)
    rcases hentry : s.replicationLog[i]? with _ | entry
    · rw [hentry] at heffect
      exact ih s hrest effect heffect
    · rw [hentry] at heffect
      dsimp only at heffect
      rcases haccepts : s.logEntryBus.accepts s.logEntryBus.attempts with _ | _
      · rw [tryBroadcast_of_refuses haccepts] at heffect
        rcases List.mem_cons.mp heffect with rfl | heffect
        · exact ⟨i, hle i (by simp), hentry⟩
        · rcases List.mem_cons.mp heffect with rfl | heffect
          · trivial
          · have hpositions : ∀ j ∈ List.range' i (limit + 1 - i), j ≤ limit := fun j hj => by
              have := List.mem_range'_1.mp hj
              omega
            have hoffers := offers_whenBusFullEffects _ _ hpositions effect heffect
            exact hoffers
      · rw [tryBroadcast_of_accepts haccepts] at heffect
        rcases List.mem_cons.mp heffect with rfl | heffect
        · exact ⟨i, hle i (by simp), hentry⟩
        · have hoffers := ih _ hrest effect heffect
          exact hoffers

/-- `broadcast_committed_entries` offers committed entries and bumps the version last. -/
theorem broadcastEffects_shape (s : SharedState) (index : ℕ) :
    (∀ effect ∈ s.broadcastEffects index, Offers index s.replicationLog effect) ∧
      (s.broadcastEffects index = [] ∨
        (s.broadcastEffects index).getLast? = some .bumpVersion) := by
  unfold broadcastEffects
  split_ifs
  · simp
  · refine ⟨fun effect heffect => ?_, Or.inr (by simp)⟩
    rcases List.mem_append.mp heffect with heffect | heffect
    · refine offers_broadcastLoopEffects _ s (fun j hj => ?_) effect heffect
      have := List.mem_range'_1.mp hj
      omega
    · obtain rfl := List.mem_singleton.mp heffect
      trivial

/-- The loop of a retry offers entries until one is refused. -/
theorem retryLoopEffects_shape (positions : List ℕ) : ∀ (s : SharedState) (count : ℕ),
    (∀ i ∈ positions, i ≤ limit) →
    (∀ effect ∈ retryLoopEffects positions s, Offers limit s.replicationLog effect) ∧
    ∃ entries : List OwnedLogEntry,
      ((retryLoop positions s count).1 = true ∧
        (retryLoop positions s count).2.2 = count + entries.length ∧
        retryLoopEffects positions s = entries.map (.attempt · true)) ∨
      ((retryLoop positions s count).1 = false ∧ entries.length < positions.length ∧
        ∃ entry, retryLoopEffects positions s =
          entries.map (.attempt · true) ++ [.attempt entry false]) := by
  induction positions with
  | nil =>
    intro s count _
    exact ⟨by simp [retryLoopEffects], [], Or.inl ⟨rfl, rfl, rfl⟩⟩
  | cons i rest ih =>
    intro s count hle
    have hrest := fun j hj => hle j (List.mem_cons_of_mem i hj)
    rw [retryLoop, retryLoopEffects]
    rcases hentry : s.replicationLog[i]? with _ | entry
    · obtain ⟨hoffers, entries, hdone | ⟨hflag, hlength, hrefused⟩⟩ := ih s count hrest
      · exact ⟨hoffers, entries, Or.inl hdone⟩
      · exact ⟨hoffers, entries, Or.inr ⟨hflag, hlength.trans (by simp), hrefused⟩⟩
    · dsimp only
      rcases haccepts : s.logEntryBus.accepts s.logEntryBus.attempts with _ | _
      · rw [tryBroadcast_of_refuses haccepts]
        refine ⟨fun effect heffect => ?_, [], Or.inr ⟨rfl, by simp, entry, rfl⟩⟩
        obtain rfl := List.mem_singleton.mp heffect
        exact ⟨i, hle i (by simp), hentry⟩
      · rw [tryBroadcast_of_accepts haccepts]
        obtain ⟨hoffers, entries, hcases⟩ := ih { s with
          logEntryBus := Accepted s.logEntryBus i entry
          lastBroadcastIndex := some i } (count + 1) hrest
        refine ⟨fun effect heffect => ?_, entry :: entries, ?_⟩
        · rcases List.mem_cons.mp heffect with rfl | heffect
          · exact ⟨i, hle i (by simp), hentry⟩
          · exact hoffers effect heffect
        · rcases hcases with ⟨hflag, hcount, heffects⟩ | ⟨hflag, hlength, last, heffects⟩
          · left
            refine ⟨hflag, ?_, ?_⟩
            · dsimp only
              rw [hcount, List.length_cons]
              omega
            · dsimp only
              rw [heffects, List.map_cons]
          · right
            refine ⟨hflag, by simpa using hlength, last, ?_⟩
            dsimp only
            rw [heffects, List.map_cons, List.cons_append]

/-- **A retry** offers committed entries.  It bumps the version last, or it makes no access at
all, or it ends with a refusal after fewer than `MAX_BROADCAST_PER_TIMESTEP` entries. -/
theorem retryEffects_shape (s : SharedState) :
    (∀ effect ∈ s.retryEffects, Offers s.commitIndex s.replicationLog effect) ∧
      (s.retryEffects = [] ∨ s.retryEffects.getLast? = some .bumpVersion ∨
        ∃ (entries : List OwnedLogEntry) (entry : OwnedLogEntry),
          entries.length < maxBroadcastPerTimestep ∧
          s.retryEffects = entries.map (.attempt · true) ++ [.attempt entry false]) := by
  unfold retryEffects
  by_cases hdeferred : s.hasDeferredBroadcast = true
  · rw [if_pos hdeferred]
    by_cases hdone : s.commitIndex < s.nextBroadcastIndex
    · simp [hdone]
    · rw [if_neg hdone]
      have hlength : s.retryPositions.length ≤ maxBroadcastPerTimestep := by
        rw [retryPositions, List.length_range']
        have : 1 ≤ maxBroadcastPerTimestep := by decide
        omega
      obtain ⟨hoffers, entries, hcases⟩ := retryLoopEffects_shape s.retryPositions s 0
        (fun j hj => (by
          have := List.mem_range'_1.mp hj
          omega : j ≤ s.commitIndex))
      rcases hresult : retryLoop s.retryPositions s 0 with ⟨finished, s₁, count⟩
      rw [hresult] at hcases
      rcases hcases with ⟨hflag, hcount, heffects⟩ | ⟨hflag, hshort, entry, heffects⟩
      · obtain rfl : finished = true := hflag
        obtain rfl : count = entries.length := by simpa using hcount
        dsimp only
        by_cases hnone : 0 < entries.length
        · rw [if_pos hnone]
          refine ⟨fun effect heffect => ?_, Or.inr (Or.inl (by simp))⟩
          rcases List.mem_append.mp heffect with heffect | heffect
          · exact hoffers effect heffect
          · obtain rfl := List.mem_singleton.mp heffect
            trivial
        · rw [if_neg hnone, List.append_nil]
          refine ⟨hoffers, Or.inl ?_⟩
          rw [heffects, List.length_eq_zero_iff.mp (Nat.eq_zero_of_not_pos hnone)]
          rfl
      · obtain rfl : finished = false := hflag
        dsimp only
        rw [List.append_nil]
        exact ⟨hoffers, Or.inr (Or.inr ⟨entries, entry, hshort.trans_le hlength, heffects⟩)⟩
  · simp [hdeferred]

end SharedState

/-! ## The interleaving -/

/-- The state machine, the accesses its current operation has still to make, and the query
worker.  `sm` is the state after the operation, `memory` what the query worker sees. -/
structure ReadPath where
  sm : SharedState
  pending : List ReadEffect
  memory : ReadMemory
  worker : QueryWorker

/-- What can happen. -/
inductive ReadPathEvent
  /-- The state machine starts an operation. -/
  | call (op : BroadcastOp)
  /-- The state machine makes its next access. -/
  | act
  /-- The log changes between two operations. -/
  | relog (log : List OwnedLogEntry)
  /-- A client asks. -/
  | ask (query : QueryRequest)
  /-- The query worker goes on. -/
  | work

/-- One access. -/
def ReadMemory.perform (m : ReadMemory) : ReadEffect → ReadMemory
  | .storeCommitIndex index => { m with commitIndex := index }
  | .bumpVersion => { m with version := m.version + 1 }
  | .attempt entry true => { m with bus := m.bus ++ [entry] }
  | .attempt _ false => m

namespace ReadPath

/-- One event. -/
def step (r : ReadPath) : ReadPathEvent → ReadPath
  | .call op => { r with sm := r.sm.broadcastStep op, pending := r.sm.effectsOf op }
  | .act =>
    match r.pending with
    | [] => r
    | effect :: rest => { r with pending := rest, memory := r.memory.perform effect }
  | .relog log => { r with sm := { r.sm with replicationLog := log } }
  | .ask query =>
    { r with memory := { r.memory with pendingQueries := r.memory.pendingQueries ++ [query] } }
  | .work =>
    let next := r.worker.step r.memory
    { r with memory := next.1, worker := next.2 }

/-- The index of every entry is its position. -/
def Positions (log : List OwnedLogEntry) : Prop :=
  ∀ (i : ℕ) (entry : OwnedLogEntry), log[i]? = some entry → entry.index = i

instance (log : List OwnedLogEntry) : Decidable (Positions log) :=
  decidable_of_iff (∀ i : Fin log.length, (log.get i).index = i.val)
    ⟨fun h i entry hentry => by
      obtain ⟨hi, rfl⟩ := List.getElem?_eq_some_iff.mp hentry
      exact h ⟨i, hi⟩,
    fun h i => h i.val (log.get i) (List.getElem?_eq_getElem i.isLt)⟩

/-- The bus takes an entry exactly if it is not full. -/
def BusAnswers (capacity : ℕ) (m : ReadMemory) : ReadEffect → Prop
  | .attempt _ accepted => accepted = decide (m.bus.length < capacity)
  | _ => True

/-- What is assumed of an event: operations follow one another, the commit index only advances,
the bus has `capacity` places, and the index of an entry is its position. -/
def Admissible (capacity : ℕ) (r : ReadPath) : ReadPathEvent → Prop
  | .call (.commit index) => r.pending = [] ∧ r.sm.commitIndex ≤ index
  | .call .retry | .call .takeOffice => r.pending = []
  | .act => ∀ effect ∈ r.pending.head?, BusAnswers capacity r.memory effect
  | .relog log => r.pending = [] ∧ Positions log
  | _ => True

instance (capacity : ℕ) (m : ReadMemory) (effect : ReadEffect) :
    Decidable (BusAnswers capacity m effect) := by
  cases effect <;> unfold BusAnswers <;> infer_instance

instance (capacity : ℕ) (r : ReadPath) (event : ReadPathEvent) :
    Decidable (r.Admissible capacity event) := by
  rcases event with ⟨_ | _ | _⟩ | _ | _ | _ | _ <;> unfold Admissible <;> infer_instance

/-- The start: a state machine on a recovered log and a new query worker. -/
def start (recovered : Storage.RecoveredData) (identity quorumSize workers : ℕ)
    (accepts : ℕ → Bool) : ReadPath where
  sm := Storage.createSharedState recovered identity quorumSize workers accepts
  pending := []
  memory := ⟨0, 0, [], [], []⟩
  worker := .new

/-! ## The memory and the state of the state machine -/

/-- The shared memory is the state of the state machine without the accesses it has still to
make; `taken` are the entries the query worker has taken from the bus. -/
def Linked (r : ReadPath) : Prop :=
  ∃ taken, r.pending.foldl ReadView.perform
    ⟨r.memory.version, r.memory.commitIndex, taken ++ r.memory.bus⟩ = r.sm.readView

/-- The memory and the view change alike. -/
theorem readView_perform (m : ReadMemory) (taken : List OwnedLogEntry) (effect : ReadEffect) :
    ReadView.perform ⟨m.version, m.commitIndex, taken ++ m.bus⟩ effect =
      ⟨(m.perform effect).version, (m.perform effect).commitIndex,
        taken ++ (m.perform effect).bus⟩ := by
  cases effect with
  | storeCommitIndex index => rfl
  | bumpVersion => rfl
  | attempt entry accepted => cases accepted <;> simp [ReadView.perform, ReadMemory.perform]

/-- An operation starts when the one before is over. -/
theorem pending_of_call {r : ReadPath} {capacity : ℕ} {op : BroadcastOp}
    (hok : r.Admissible capacity (.call op)) : r.pending = [] := by
  cases op with
  | commit index => exact hok.1
  | retry => exact hok
  | takeOffice => exact hok

/-- Every event keeps the link. -/
theorem Linked.step {r : ReadPath} (h : Linked r) {capacity : ℕ} (event : ReadPathEvent)
    (hok : r.Admissible capacity event) : Linked (r.step event) := by
  obtain ⟨taken, h⟩ := h
  cases event with
  | call op =>
    refine ⟨taken, ?_⟩
    rw [pending_of_call hok, List.foldl_nil] at h
    simp only [ReadPath.step]
    rw [h, readView_broadcastStep]
  | act =>
    rcases hpending : r.pending with _ | ⟨effect, rest⟩
    · exact ⟨taken, by simpa only [ReadPath.step, hpending] using h⟩
    · refine ⟨taken, ?_⟩
      simp only [ReadPath.step, hpending]
      rwa [hpending, List.foldl_cons, readView_perform] at h
  | relog log => exact ⟨taken, h⟩
  | ask query => exact ⟨taken, h⟩
  | work =>
    obtain ⟨hversion, hcommit, next, hbus⟩ := QueryWorker.memory_step r.memory r.worker
    refine ⟨taken ++ next, ?_⟩
    simp only [ReadPath.step, hversion, hcommit, List.append_assoc]
    rwa [← hbus]

/-- **Between operations** the version and the commit index that the query worker reads are those
of the state machine, and the bus holds the last entries the state machine has sent. -/
theorem memory_between_operations {capacity : ℕ} (recovered : Storage.RecoveredData)
    (identity quorumSize workers : ℕ) (accepts : ℕ → Bool) (events : List ReadPathEvent)
    (hadmissible : Runs.AllSteps step (Admissible capacity)
      (start recovered identity quorumSize workers accepts) events) :
    let r := Runs.run step (start recovered identity quorumSize workers accepts) events
    r.pending = [] → r.memory.version = r.sm.version ∧
      r.memory.commitIndex = r.sm.publishedCommitIndex ∧
      r.memory.bus <:+ r.sm.logEntryBus.sent.map Prod.snd := by
  intro r hpending
  obtain ⟨taken, h⟩ : Linked r := hadmissible.invariant Linked
    (fun _ event hlinked hok => hlinked.step event hok) ⟨[], rfl⟩
  rw [hpending, List.foldl_nil] at h
  exact ⟨congrArg ReadView.version h, congrArg ReadView.commitIndex h, taken,
    congrArg ReadView.sent h⟩

/-! ## The invariant -/

/-- The rest of an operation that ends with a refusal, after fewer than `bound` further entries. -/
def Refusing (bound : ℕ) (pending : List ReadEffect) : Prop :=
  ∃ (entries : List OwnedLogEntry) (entry : OwnedLogEntry), entries.length < bound ∧
    pending = entries.map (.attempt · true) ++ [.attempt entry false]

/-- How an operation can end: it bumps the version, or it ends with a refusal. -/
def Ending (pending : List ReadEffect) : Prop :=
  pending = [] ∨ pending.getLast? = some .bumpVersion ∨ Refusing maxBroadcastPerTimestep pending

/-- The invariant.  The commit index is stored before the version is bumped and before entries
are sent, so entries on the bus are committed, and a query worker that has seen the current
version has either read the current commit index or will see another version. -/
structure ReadInv (r : ReadPath) : Prop where
  positions : Positions r.sm.replicationLog
  lastVersion : r.worker.lastVersion ≤ r.memory.version
  loading : ∀ v, r.worker.phase = .loadIndex v → v ≤ r.memory.version
  draining : ∀ v index, r.worker.phase = .drain v index →
    v ≤ r.memory.version ∧ r.worker.lastVersion = v ∧ r.worker.parked = none ∧
      (v = r.memory.version → .bumpVersion ∈ r.pending ∨ index = r.memory.commitIndex)
  commit : (∃ rest, r.pending = .storeCommitIndex r.sm.commitIndex :: .bumpVersion :: rest ∧
      r.memory.commitIndex ≤ r.sm.commitIndex ∧
      ∀ effect ∈ rest, Offers r.sm.commitIndex r.sm.replicationLog effect) ∨
    (r.memory.commitIndex = r.sm.commitIndex ∧
      ∀ effect ∈ r.pending, Offers r.sm.commitIndex r.sm.replicationLog effect)
  committed : ∀ entry ∈ r.worker.parked.toList ++ r.memory.bus,
    entry.index ≤ r.memory.commitIndex
  ending : Ending r.pending
  idle : ¬ r.worker.Draining → r.worker.lastVersion = r.memory.version →
    .bumpVersion ∉ r.pending → r.worker.parked = none ∧
      ((r.pending = [] ∧ r.memory.bus = []) ∨
        Refusing (maxBroadcastPerTimestep - r.memory.bus.length) r.pending)

variable {r : ReadPath} {capacity : ℕ}

/-- The first access of a broadcast that ends on a full bus. -/
theorem Refusing.cons {bound : ℕ} {effect : ReadEffect} (h : Refusing bound (effect :: rest)) :
    (∃ entry, effect = .attempt entry true ∧ Refusing (bound - 1) rest) ∨
      ∃ entry, effect = .attempt entry false ∧ rest = [] ∧ 0 < bound := by
  obtain ⟨entries, entry, hlength, heq⟩ := h
  cases entries with
  | nil =>
    obtain ⟨rfl, rfl⟩ := List.cons.inj heq
    exact Or.inr ⟨entry, rfl, rfl, hlength⟩
  | cons first entries =>
    obtain ⟨rfl, rfl⟩ := List.cons.inj heq
    refine Or.inl ⟨first, rfl, entries, entry, ?_, rfl⟩
    rw [List.length_cons] at hlength
    omega

/-- Without a bump an operation is over, or it ends with a refusal. -/
theorem Ending.of_not_mem {pending : List ReadEffect} (h : Ending pending)
    (hsilent : .bumpVersion ∉ pending) :
    pending = [] ∨ Refusing maxBroadcastPerTimestep pending := by
  rcases h with hnil | hbump | hrefusing
  · exact Or.inl hnil
  · exact absurd (List.mem_of_getLast? hbump) hsilent
  · exact Or.inr hrefusing

theorem Ending.tail {effect : ReadEffect} (h : Ending (effect :: rest)) : Ending rest := by
  rcases h with hnil | hbump | hrefusing
  · cases hnil
  · cases rest with
    | nil => exact Or.inl rfl
    | cons next rest => exact Or.inr (Or.inl (by rwa [List.getLast?_cons_cons] at hbump))
  · rcases hrefusing.cons with ⟨_, -, entries, last, hlength, heq⟩ | ⟨_, -, hnil, -⟩
    · exact Or.inr (Or.inr ⟨entries, last, by omega, heq⟩)
    · exact Or.inl hnil

/-- Every operation ends so. -/
theorem ending_effectsOf (s : SharedState) (op : BroadcastOp) : Ending (s.effectsOf op) := by
  cases op with
  | commit index =>
    right; left
    rcases (broadcastEffects_shape (s.storeCommitIndex index) index).2 with hnil | hbump
    · simp [effectsOf, hnil]
    · simp [effectsOf, List.getLast?_cons, hbump]
  | retry => exact (retryEffects_shape s).2
  | takeOffice =>
    unfold effectsOf
    split_ifs
    · exact (broadcastEffects_shape s s.commitIndex).2.imp_right Or.inl
    · exact Or.inl rfl

/-- **An operation starts.** -/
theorem ReadInv.call (h : ReadInv r) {op : BroadcastOp}
    (hok : r.Admissible capacity (.call op)) : ReadInv (r.step (.call op)) := by
  have hpending := pending_of_call hok
  have hnone : .bumpVersion ∉ r.pending := by simp [hpending]
  have hstored : r.memory.commitIndex = r.sm.commitIndex := by
    rcases h.commit with ⟨rest, heq, -⟩ | hcommit
    · simp [hpending] at heq
    · exact hcommit.1
  refine ⟨?_, h.lastVersion, h.loading, fun v index hphase => ?_, ?_, h.committed,
    ending_effectsOf r.sm op, fun hidle hversion hsilent => ?_⟩
  · show Positions (r.sm.broadcastStep op).replicationLog
    rw [replicationLog_broadcastStep]
    exact h.positions
  · obtain ⟨hle, hlast, hparked, hread⟩ := h.draining v index hphase
    refine ⟨hle, hlast, hparked, fun hv => Or.inr ((hread hv).resolve_left hnone)⟩
  · cases op with
    | commit index =>
      left
      refine ⟨broadcastEffects (r.sm.storeCommitIndex index) index, ?_, ?_, ?_⟩
      · simp [step, broadcastStep, effectsOf]
      · have hle := hok.2
        simp only [step, broadcastStep, broadcastCommittedEntries_unchanged]
        rw [hstored]
        exact hle
      · simpa [step, broadcastStep] using
          (broadcastEffects_shape (r.sm.storeCommitIndex index) index).1
    | retry =>
      right
      refine ⟨?_, ?_⟩
      · simpa [step, broadcastStep] using hstored
      · simpa [step, broadcastStep, effectsOf] using (retryEffects_shape r.sm).1
    | takeOffice =>
      right
      by_cases hpos : 0 < r.sm.commitIndex
      · simpa [step, broadcastStep, effectsOf, hpos, hstored] using
          (broadcastEffects_shape r.sm r.sm.commitIndex).1
      · simp [step, broadcastStep, effectsOf, hpos, hstored]
  · obtain ⟨hparked, hcases⟩ := h.idle hidle hversion hnone
    have hbus : r.memory.bus = [] := by
      rcases hcases with ⟨-, hbus⟩ | ⟨entries, entry, -, heq⟩
      · exact hbus
      · simp [hpending] at heq
    refine ⟨hparked, ?_⟩
    rcases (ending_effectsOf r.sm op).of_not_mem hsilent with hnil | hrefusing
    · exact Or.inl ⟨hnil, hbus⟩
    · right
      show Refusing (maxBroadcastPerTimestep - r.memory.bus.length) _
      rw [hbus]
      exact hrefusing

/-- The commit index is stored: the version is bumped next. -/
theorem ReadInv.act_storeCommitIndex (h : ReadInv r) {index : ℕ}
    (hpending : r.pending = .storeCommitIndex index :: rest) : ReadInv (r.step .act) := by
  rcases h.commit with ⟨later, heq, hle, hoffers⟩ | ⟨-, hoffers⟩
  · rw [hpending] at heq
    obtain ⟨hindex, rfl⟩ := List.cons.inj heq
    obtain rfl := ReadEffect.storeCommitIndex.inj hindex
    simp only [step, hpending, ReadMemory.perform]
    refine ⟨h.positions, h.lastVersion, h.loading, fun v index hphase => ?_,
      Or.inr ⟨rfl, fun effect heffect => ?_⟩, fun entry hentry => ?_,
      (hpending ▸ h.ending).tail, (fun _ _ hsilent => absurd (List.mem_cons_self ..) hsilent)⟩
    · obtain ⟨hv, hlast, hparked, -⟩ := h.draining v index hphase
      exact ⟨hv, hlast, hparked, fun _ => Or.inl (List.mem_cons_self ..)⟩
    · rcases List.mem_cons.mp heffect with rfl | heffect
      · trivial
      · exact hoffers effect heffect
    · exact (h.committed entry hentry).trans hle
  · exact (hoffers (.storeCommitIndex index) (by simp [hpending])).elim

/-- Behind the store of the commit index, all accesses are bumps and offers. -/
theorem ReadInv.offers (h : ReadInv r) {effect : ReadEffect}
    (hpending : r.pending = effect :: rest) (hstore : ∀ index, effect ≠ .storeCommitIndex index) :
    r.memory.commitIndex = r.sm.commitIndex ∧
      Offers r.sm.commitIndex r.sm.replicationLog effect ∧
      ∀ later ∈ rest, Offers r.sm.commitIndex r.sm.replicationLog later := by
  rcases h.commit with ⟨later, heq, -⟩ | ⟨hcommit, hoffers⟩
  · rw [hpending] at heq
    exact absurd (List.cons.inj heq).1 (hstore _)
  · rw [hpending] at hoffers
    exact ⟨hcommit, hoffers effect (by simp), fun later hlater => hoffers later (by simp [hlater])⟩

/-- The version is bumped: no query worker has seen it. -/
theorem ReadInv.act_bumpVersion (h : ReadInv r) (hpending : r.pending = .bumpVersion :: rest) :
    ReadInv (r.step .act) := by
  obtain ⟨hcommit, -, hoffers⟩ := h.offers hpending (fun _ heq => nomatch heq)
  have hlast := h.lastVersion
  simp only [step, hpending, ReadMemory.perform]
  refine ⟨h.positions, hlast.trans (Nat.le_succ _),
    (fun v hphase => (h.loading v hphase).trans (Nat.le_succ _)), fun v index hphase => ?_,
    Or.inr ⟨hcommit, hoffers⟩, h.committed, (hpending ▸ h.ending).tail, fun _ hversion => ?_⟩
  · obtain ⟨hv, hlast, hparked, -⟩ := h.draining v index hphase
    refine ⟨hv.trans (Nat.le_succ _), hlast, hparked, fun heq => ?_⟩
    dsimp only at heq
    omega
  · dsimp only at hversion
    omega

/-- An entry is offered to the bus. -/
theorem ReadInv.act_attempt (h : ReadInv r) {entry : OwnedLogEntry} {accepted : Bool}
    (hcapacity : maxBroadcastPerTimestep ≤ capacity)
    (hpending : r.pending = .attempt entry accepted :: rest)
    (hbus : BusAnswers capacity r.memory (.attempt entry accepted)) : ReadInv (r.step .act) := by
  obtain ⟨hcommit, ⟨i, hi, hentry⟩, hoffers⟩ := h.offers hpending (fun _ heq => nomatch heq)
  have hindex : entry.index ≤ r.memory.commitIndex := by
    rw [h.positions i entry hentry, hcommit]
    exact hi
  have hmem : .bumpVersion ∈ r.pending ↔ .bumpVersion ∈ rest := by simp [hpending]
  have hversion : (r.memory.perform (.attempt entry accepted)).version = r.memory.version := by
    cases accepted <;> rfl
  have hstored : (r.memory.perform (.attempt entry accepted)).commitIndex =
      r.memory.commitIndex := by
    cases accepted <;> rfl
  have hbusLength : (r.memory.perform (.attempt entry accepted)).bus.length ≤
      r.memory.bus.length + 1 := by
    cases accepted <;> simp [ReadMemory.perform]
  simp only [step, hpending]
  refine ⟨h.positions, by rw [hversion]; exact h.lastVersion, by rw [hversion]; exact h.loading,
    fun v index hphase => ?_, Or.inr ⟨hstored.trans hcommit, hoffers⟩, fun e he => ?_,
    (hpending ▸ h.ending).tail, fun hidle hlast hsilent => ?_⟩
  · rw [hversion, hstored, ← hmem]
    exact h.draining v index hphase
  · rw [hstored]
    cases accepted with
    | false => exact h.committed e he
    | true =>
      simp only [ReadMemory.perform, ← List.append_assoc] at he
      rcases List.mem_append.mp he with he | he
      · exact h.committed e he
      · rwa [List.mem_singleton.mp he]
  · -- the query worker has seen the version: the bus has room for the rest of the operation
    obtain ⟨hparked, hcases⟩ := h.idle hidle (hlast.trans hversion) (mt hmem.mp hsilent)
    refine ⟨hparked, ?_⟩
    rcases hcases with ⟨hnil, -⟩ | hrefusing
    · simp [hpending] at hnil
    · rw [hpending] at hrefusing
      rcases hrefusing.cons with ⟨_, -, entries, last, hlength, heq⟩ | ⟨_, heffect, -, hroom⟩
      · refine Or.inr ⟨entries, last, ?_, heq⟩
        dsimp only
        omega
      · obtain rfl : accepted = false := (ReadEffect.attempt.inj heffect).2
        have hfull : ¬ r.memory.bus.length < capacity := of_decide_eq_false (Eq.symm hbus)
        omega

/-- **The state machine makes its next access.** -/
theorem ReadInv.act (h : ReadInv r) (hcapacity : maxBroadcastPerTimestep ≤ capacity)
    (hok : r.Admissible capacity .act) : ReadInv (r.step .act) := by
  rcases hpending : r.pending with _ | ⟨effect, rest⟩
  · simpa only [step, hpending] using h
  · have hbus : BusAnswers capacity r.memory effect := hok effect (by simp [hpending])
    cases effect with
    | storeCommitIndex index => exact h.act_storeCommitIndex hpending
    | bumpVersion => exact h.act_bumpVersion hpending
    | attempt entry accepted => exact h.act_attempt hcapacity hpending hbus

/-- Outside its drain section the query worker does not touch what the invariant is about. -/
theorem ReadInv.work_idle (h : ReadInv r) {m : ReadMemory} {w : QueryWorker}
    (hversion : m.version = r.memory.version) (hcommit : m.commitIndex = r.memory.commitIndex)
    (hbus : m.bus = r.memory.bus) (hlast : w.lastVersion = r.worker.lastVersion)
    (hparked : w.parked = r.worker.parked) (hbefore : ¬ r.worker.Draining)
    (hafter : ¬ w.Draining) : ReadInv { r with memory := m, worker := w } where
  positions := h.positions
  lastVersion := by rw [hlast, hversion]; exact h.lastVersion
  loading := fun v hphase => absurd ⟨v, Or.inl hphase⟩ hafter
  draining := fun v index hphase => absurd ⟨v, Or.inr ⟨index, hphase⟩⟩ hafter
  commit := by rw [hcommit]; exact h.commit
  committed := by rw [hparked, hbus, hcommit]; exact h.committed
  ending := h.ending
  idle := by
    intro _ hseen hsilent
    rw [hlast, hversion] at hseen
    rw [hparked, hbus]
    exact h.idle hbefore hseen hsilent

theorem not_draining {w : QueryWorker}
    (h : w.phase = .top ∨ w.phase = .parkedQuery ∨ w.phase = .queries) : ¬ w.Draining := by
  rintro ⟨v, hphase | ⟨index, hphase⟩⟩ <;> simp [hphase] at h

/-- The version is read. -/
theorem ReadInv.work_top (h : ReadInv r) (hphase : r.worker.phase = .top) :
    ReadInv (r.step .work) := by
  have hbefore := not_draining (Or.inl hphase)
  by_cases hversion : r.memory.version = r.worker.lastVersion
  · simp only [step, QueryWorker.step, hphase, if_pos hversion]
    exact h.work_idle rfl rfl rfl rfl rfl hbefore (not_draining (Or.inr (Or.inl rfl)))
  · simp only [step, QueryWorker.step, hphase, if_neg hversion]
    refine ⟨h.positions, h.lastVersion, fun v heq => ?_, by rintro _ _ ⟨⟩, h.commit,
      h.committed, h.ending, fun hidle => absurd ⟨_, Or.inl rfl⟩ hidle⟩
    obtain rfl := QueryPhase.loadIndex.inj heq
    exact le_rfl

/-- The commit index is read, and a parked entry is applied. -/
theorem ReadInv.work_loadIndex (h : ReadInv r) {v : ℕ} (hphase : r.worker.phase = .loadIndex v) :
    ReadInv (r.step .work) := by
  have htaken : (r.worker.takeParked r.memory.commitIndex).parked = none := by
    rcases hparked : r.worker.parked with _ | entry
    · simp [QueryWorker.takeParked, hparked]
    · have hreached : entry.index ≤ r.memory.commitIndex :=
        h.committed entry (by simp [hparked])
      simp [QueryWorker.takeParked, hparked, hreached]
  simp only [step, QueryWorker.step, hphase]
  refine ⟨h.positions, h.loading v hphase, by rintro _ ⟨⟩, fun v' index heq => ?_,
    h.commit, fun entry hentry => ?_, h.ending, fun hidle => absurd ⟨v, Or.inr ⟨_, rfl⟩⟩ hidle⟩
  · obtain ⟨rfl, rfl⟩ := QueryPhase.drain.inj heq
    exact ⟨h.loading _ hphase, rfl, htaken, fun _ => Or.inr rfl⟩
  · refine h.committed entry (List.mem_append_right _ ?_)
    simpa [htaken] using hentry

/-- The bus is drained.  The worker ends its loop with the bus empty, or it parks an entry that
the commit index had not reached when it was read: then a bump is still to come. -/
theorem ReadInv.work_drain (h : ReadInv r) {v index : ℕ}
    (hphase : r.worker.phase = .drain v index) : ReadInv (r.step .work) := by
  obtain ⟨hv, hlast, hparked, hread⟩ := h.draining v index hphase
  rcases hbus : r.memory.bus with _ | ⟨entry, rest⟩
  · simp only [step, QueryWorker.step_drain_nil hphase hbus]
    refine ⟨h.positions, h.lastVersion, by rintro _ ⟨⟩, by rintro _ _ ⟨⟩,
      h.commit, h.committed, h.ending, fun _ _ hsilent => ⟨hparked, ?_⟩⟩
    rcases h.ending.of_not_mem hsilent with hnil | hrefusing
    · exact Or.inl ⟨hnil, hbus⟩
    · right
      show Refusing (maxBroadcastPerTimestep - r.memory.bus.length) r.pending
      rw [hbus]
      exact hrefusing
  · have hcommitted : entry.index ≤ r.memory.commitIndex := h.committed entry (by simp [hbus])
    have hrest : ∀ later ∈ rest, later.index ≤ r.memory.commitIndex := fun later hlater =>
      h.committed later (by simp [hbus, hlater])
    simp only [step, QueryWorker.step_drain_cons hphase hbus, QueryWorker.receive]
    by_cases hreached : entry.index ≤ index
    · rw [if_pos hreached]
      refine ⟨h.positions, h.lastVersion, fun v' heq => ?_, h.draining, h.commit,
        fun later hlater => ?_, h.ending, fun hidle => absurd ⟨v, Or.inr ⟨index, hphase⟩⟩ hidle⟩
      · rw [QueryWorker.applyEntry, hphase] at heq
        cases heq
      · refine hrest later ?_
        simpa [QueryWorker.applyEntry, hparked] using hlater
    · rw [if_neg hreached]
      by_cases hsignal : entry.term = truncateSignalTerm
      · rw [if_pos hsignal]
        refine ⟨h.positions, hv, h.loading, fun v' index' heq => ?_, h.commit,
          fun later hlater => ?_, h.ending, fun hidle => absurd ⟨v, Or.inr ⟨index, hphase⟩⟩ hidle⟩
        · obtain ⟨hv', -, hparked', hread'⟩ := h.draining v' index' heq
          have hsame : v = v' := (QueryPhase.drain.inj (hphase.symm.trans heq)).1
          exact ⟨hv', hsame, hparked', hread'⟩
        · refine hrest later ?_
          simpa [hparked] using hlater
      · rw [if_neg hsignal]
        refine ⟨h.positions, h.lastVersion, by rintro _ ⟨⟩, by rintro _ _ ⟨⟩,
          h.commit, fun later hlater => ?_, h.ending, fun _ hversion hsilent => ?_⟩
        · rcases List.mem_cons.mp hlater with rfl | hlater
          · exact hcommitted
          · exact hrest later hlater
        · obtain rfl : index = r.memory.commitIndex :=
            (hread (hlast.symm.trans hversion)).resolve_left hsilent
          exact absurd hcommitted hreached

/-- **The query worker goes on.** -/
theorem ReadInv.work (h : ReadInv r) : ReadInv (r.step .work) := by
  rcases hphase : r.worker.phase with _ | v | ⟨v, index⟩ | _ | _
  · exact h.work_top hphase
  · exact h.work_loadIndex hphase
  · exact h.work_drain hphase
  · have hbefore := not_draining (Or.inr (Or.inl hphase))
    simp only [step, QueryWorker.step, hphase]
    split
    · split_ifs
      · exact h.work_idle rfl rfl rfl rfl rfl hbefore (not_draining (Or.inr (Or.inr rfl)))
      · exact h.work_idle rfl rfl rfl rfl rfl hbefore (not_draining (Or.inl rfl))
    · exact h.work_idle rfl rfl rfl rfl rfl hbefore (not_draining (Or.inr (Or.inr rfl)))
  · have hbefore := not_draining (Or.inr (Or.inr hphase))
    simp only [step, QueryWorker.step, hphase]
    split
    · split_ifs
      · exact h.work_idle rfl rfl rfl rfl rfl hbefore hbefore
      · exact h.work_idle rfl rfl rfl rfl rfl hbefore (not_draining (Or.inl rfl))
    · exact h.work_idle rfl rfl rfl rfl rfl hbefore (not_draining (Or.inl rfl))

/-- **One event.** -/
theorem ReadInv.step (h : ReadInv r) (hcapacity : maxBroadcastPerTimestep ≤ capacity)
    (event : ReadPathEvent) (hok : r.Admissible capacity event) : ReadInv (r.step event) := by
  cases event with
  | call op => exact h.call hok
  | act => exact h.act hcapacity hok
  | relog log =>
    refine { h with positions := hok.2, commit := ?_ }
    rcases h.commit with ⟨rest, heq, -⟩ | ⟨hcommit, -⟩
    · simp [hok.1] at heq
    · exact Or.inr ⟨hcommit, by simp [ReadPath.step, hok.1]⟩
  | ask query => exact { h with }
  | work => exact h.work

/-- A node has just been started. -/
theorem readInv_start {recovered : Storage.RecoveredData} (identity quorumSize workers : ℕ)
    (accepts : ℕ → Bool) (hpositions : Positions recovered.replicationLog) :
    ReadInv (start recovered identity quorumSize workers accepts) where
  positions := hpositions
  lastVersion := le_rfl
  loading := fun _ heq => nomatch heq
  draining := fun _ _ heq => nomatch heq
  commit := Or.inr ⟨rfl, by simp [start]⟩
  committed := by simp [start, QueryWorker.new]
  ending := Or.inl rfl
  idle := fun _ _ _ => ⟨rfl, Or.inl ⟨rfl, rfl⟩⟩

/-! ## The result -/

/-- **No wake-up is lost.**  On a bus with at least `MAX_BROADCAST_PER_TIMESTEP` places, whenever
the state machine is between operations and the query worker, outside its drain section, has
seen the current version, the bus is empty and no entry is parked. -/
theorem no_lost_wakeup {capacity : ℕ} (hcapacity : maxBroadcastPerTimestep ≤ capacity)
    (recovered : Storage.RecoveredData) (identity quorumSize workers : ℕ) (accepts : ℕ → Bool)
    (hpositions : Positions recovered.replicationLog) (events : List ReadPathEvent)
    (hadmissible : Runs.AllSteps step (Admissible capacity)
      (start recovered identity quorumSize workers accepts) events) :
    let r := Runs.run step (start recovered identity quorumSize workers accepts) events
    r.pending = [] → ¬ r.worker.Draining → r.worker.lastVersion = r.memory.version →
      r.memory.bus = [] ∧ r.worker.parked = none := by
  intro r hpending hidle hversion
  have h : ReadInv r := hadmissible.invariant ReadInv
    (fun _ event hinv hok => hinv.step hcapacity event hok)
    (readInv_start identity quorumSize workers accepts hpositions)
  obtain ⟨hparked, hcases⟩ := h.idle hidle hversion (by simp [hpending])
  rcases hcases with ⟨-, hbus⟩ | ⟨entries, entry, -, heq⟩
  · exact ⟨hbus, hparked⟩
  · simp [hpending] at heq

/-- A log of two entries is recovered and committed.  The query worker reads the version before
the first entry is on the bus and drains the bus twice. -/
def commitAndDrain : List ReadPathEvent :=
  [.call (.commit 1), .act, .act, .work, .act, .work, .work, .act, .act, .work, .work, .work, .work,
    .work, .work, .work, .work]

/-- What recovery finds in a log of two entries of term 1. -/
def twoEntries : Storage.RecoveredData :=
  ⟨[ReadSystem.noopEntry, ReadSystem.writeEntry], AList.insert 1 0 ∅, 1, 1, ∅, 2, []⟩

/-- Two entries are committed while the worker drains. -/
theorem no_lost_wakeup_two_entries :
    let r := Runs.run step (start twoEntries 1 2 2 fun _ => true) commitAndDrain
    r.worker.lastVersion = r.memory.version ∧ r.memory.version = 2 ∧
      r.memory.bus = [] ∧ r.worker.parked = none :=
  ⟨by decide, by decide, no_lost_wakeup le_rfl twoEntries 1 2 2 (fun _ => true) (by decide) commitAndDrain
    (by decide) (by decide) (not_draining (by decide)) (by decide)⟩

end ReadPath

end Kraft
