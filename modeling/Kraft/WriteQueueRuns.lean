/-
# Calls of `next_write_batch` among pushes

Clients push batches on the work queue at any time, also while `next_write_batch` runs: the call
takes the shelved batch, pops batches one by one and returns.  `QueueRun` has the call with its
variables as part of the state, so that pushes fall between any two pops.

* `write_batching` : what was returned, what the current call has taken, the shelved batch and the
  queue are together what was pushed, in order; returned lists of several batches are within the
  limit; a call comes to its end, and of two calls one returns a batch if one waits.
* `undisturbed_call` : a call without pushes in between is `nextWriteBatch`.

The size of a batch is any number here: the code takes 0 for a message that it cannot read.
-/
import Kraft.WriteQueue

namespace Kraft

/-- A call of `next_write_batch` that has not returned, with its variables. -/
structure BatchCall where
  maxBatchSize : ℕ
  currentSize : ℕ
  responses : List WriteBatch
  deriving DecidableEq

/-- What a call returns. -/
structure BatchReturn where
  maxBatchSize : ℕ
  responses : List WriteBatch
  full : Bool
  deriving DecidableEq

/-- What happens to the queue. -/
inductive QueueEvent
  /-- A client pushes a batch. -/
  | push (batch : WriteBatch)
  /-- The write proxy calls `next_write_batch`. -/
  | call (maxBatchSize : ℕ)
  /-- The call goes on: it pops a batch or returns. -/
  | work
  deriving DecidableEq

/-- The queue, the call in progress and what earlier calls have returned. -/
structure QueueRun where
  queue : WriteQueue
  call : Option BatchCall
  returned : List BatchReturn

namespace QueueRun

def start : QueueRun := ⟨.new, none, []⟩

/-- The call returns. -/
@[simps] def finish (s : QueueRun) (c : BatchCall) (full : Bool) (queue : WriteQueue) : QueueRun where
  queue := queue
  call := none
  returned := s.returned ++ [⟨c.maxBatchSize, c.responses, full⟩]

/-- What the call in progress has taken. -/
def taken (s : QueueRun) : List WriteBatch := s.call.elim [] (·.responses)

/-- The batches pushed in a run, in order. -/
def pushed (events : List QueueEvent) : List WriteBatch :=
  events.filterMap fun
    | .push batch => some batch
    | _ => none

section Steps

variable (size : WriteBatch → ℕ)

/-- The start of a call: the shelved batch is taken, whatever its size. -/
def begin (s : QueueRun) (maxBatchSize : ℕ) : QueueRun :=
  match s.queue.shelvedBatch with
  | some val => ⟨⟨s.queue.workQueue, none⟩, some ⟨maxBatchSize, size val, [val]⟩, s.returned⟩
  | none => { s with call := some ⟨maxBatchSize, 0, []⟩ }

/-- One turn of the loop. -/
def turn (s : QueueRun) (c : BatchCall) : QueueRun :=
  if c.currentSize < c.maxBatchSize then
    match s.queue.workQueue with
    | next :: rest =>
      let newSize := size next + c.currentSize
      if newSize ≤ c.maxBatchSize then
        ⟨{ s.queue with workQueue := rest },
          some { c with currentSize := newSize, responses := c.responses ++ [next] }, s.returned⟩
      else s.finish c true ⟨rest, some next⟩
    | [] => s.finish c false s.queue
  else s.finish c true s.queue

/-- One event.  The queue is borrowed mutably by a call, so there is one call at a time. -/
def step (s : QueueRun) : QueueEvent → QueueRun
  | .push batch => { s with queue := { s.queue with workQueue := s.queue.workQueue ++ [batch] } }
  | .call maxBatchSize =>
    match s.call with
    | some _ => s
    | none => s.begin size maxBatchSize
  | .work =>
    match s.call with
    | some c => s.turn size c
    | none => s

/-- What a turn of the loop does. -/
theorem turn_cases (s : QueueRun) (c : BatchCall) :
    (∃ next rest, s.queue.workQueue = next :: rest ∧ size next + c.currentSize ≤ c.maxBatchSize ∧
      s.turn size c = ⟨{ s.queue with workQueue := rest },
        some { c with
          currentSize := size next + c.currentSize
          responses := c.responses ++ [next] }, s.returned⟩) ∨
    (∃ next rest, s.queue.workQueue = next :: rest ∧
      s.turn size c = s.finish c true ⟨rest, some next⟩) ∨
    (∃ full, s.turn size c = s.finish c full s.queue ∧
      (c.currentSize < c.maxBatchSize → s.queue.workQueue = [])) := by
  unfold turn
  by_cases hroom : c.currentSize < c.maxBatchSize
  · rw [if_pos hroom]
    cases hqueue : s.queue.workQueue with
    | nil => exact Or.inr (Or.inr ⟨false, rfl, fun _ => rfl⟩)
    | cons next rest =>
      by_cases hfits : size next + c.currentSize ≤ c.maxBatchSize
      · exact Or.inl ⟨next, rest, rfl, hfits, by simp [hfits]⟩
      · exact Or.inr (Or.inl ⟨next, rest, rfl, by simp [hfits]⟩)
  · rw [if_neg hroom]
    exact Or.inr (Or.inr ⟨true, rfl, fun h => absurd h hroom⟩)

/-- What a call begins with. -/
theorem begin_cases (s : QueueRun) (maxBatchSize : ℕ) :
    (∃ val, s.queue.shelvedBatch = some val ∧ s.begin size maxBatchSize =
      ⟨⟨s.queue.workQueue, none⟩, some ⟨maxBatchSize, size val, [val]⟩, s.returned⟩) ∨
    (s.queue.shelvedBatch = none ∧
      s.begin size maxBatchSize = { s with call := some ⟨maxBatchSize, 0, []⟩ }) := by
  unfold begin
  cases hshelved : s.queue.shelvedBatch with
  | some val => exact Or.inl ⟨val, rfl, rfl⟩
  | none => exact Or.inr ⟨rfl, rfl⟩

variable {size} {s : QueueRun} {c : BatchCall}

/-! ## Order and limits -/

/-- The shelf is empty during a call, and lists of several batches are within the limit. -/
structure Sound (size : WriteBatch → ℕ) (s : QueueRun) : Prop where
  unshelved : ∀ c ∈ s.call, s.queue.shelvedBatch = none
  counted : ∀ c ∈ s.call, c.currentSize = (c.responses.map size).sum
  fits : ∀ c ∈ s.call, 1 < c.responses.length → c.currentSize ≤ c.maxBatchSize
  limits : ∀ r ∈ s.returned, 1 < r.responses.length →
    (r.responses.map size).sum ≤ r.maxBatchSize

theorem sound_start : Sound size start :=
  ⟨by simp [start], by simp [start], by simp [start], by simp [start]⟩

/-- All batches, in the order in which the calls return them. -/
def order (s : QueueRun) : List WriteBatch :=
  s.returned.flatMap (·.responses) ++ s.taken ++ s.queue.pending

/-- A call ends. -/
theorem Sound.finish (h : Sound size s) (hc : s.call = some c) (full : Bool) (queue : WriteQueue) :
    Sound size (s.finish c full queue) := by
  refine ⟨by simp, by simp, by simp, fun r hr hlength => ?_⟩
  rw [finish_returned] at hr
  rcases List.mem_append.mp hr with hr | hr
  · exact h.limits r hr hlength
  · obtain rfl := List.mem_singleton.mp hr
    have hcounted := h.counted c hc
    have hfits := h.fits c hc hlength
    dsimp only at hlength ⊢
    omega

/-- A call takes the next batch. -/
theorem Sound.turn (h : Sound size s) (hc : s.call = some c) : Sound size (s.turn size c) := by
  have hcounted := h.counted c hc
  rcases turn_cases size s c with
    ⟨next, rest, -, hfits, heq⟩ | ⟨next, rest, -, heq⟩ | ⟨full, heq, -⟩
  · rw [heq]
    refine ⟨?_, ?_, ?_, h.limits⟩
    · rintro - -
      exact h.unshelved c hc
    · rintro - ⟨⟩
      simp [hcounted, Nat.add_comm]
    · rintro - ⟨⟩ -
      exact hfits
  · exact heq ▸ h.finish hc _ _
  · exact heq ▸ h.finish hc _ _

/-- A call begins. -/
theorem Sound.begin (h : Sound size s) (maxBatchSize : ℕ) : Sound size (s.begin size maxBatchSize) := by
  rcases begin_cases size s maxBatchSize with ⟨val, -, heq⟩ | ⟨hshelved, heq⟩ <;> rw [heq]
  · exact ⟨fun _ _ => rfl, by rintro - ⟨⟩; simp, by rintro - ⟨⟩; simp, h.limits⟩
  · exact ⟨fun _ _ => hshelved, by rintro - ⟨⟩; simp, by rintro - ⟨⟩; simp, h.limits⟩

/-- **One event.** -/
theorem Sound.step (h : Sound size s) (event : QueueEvent) : Sound size (s.step size event) := by
  cases event with
  | push batch => exact ⟨h.unshelved, h.counted, h.fits, h.limits⟩
  | call maxBatchSize =>
    unfold QueueRun.step
    cases s.call with
    | some c => exact h
    | none => exact h.begin maxBatchSize
  | work =>
    unfold QueueRun.step
    cases hc : s.call with
    | some c => exact h.turn hc
    | none => exact h

/-- A turn of the loop moves a batch within the order, or none. -/
theorem order_turn (h : Sound size s) (hc : s.call = some c) : (s.turn size c).order = s.order := by
  have hshelved := h.unshelved c hc
  rcases turn_cases size s c with
    ⟨next, rest, hqueue, -, heq⟩ | ⟨next, rest, hqueue, heq⟩ | ⟨full, heq, -⟩ <;> rw [heq]
  · simp [order, taken, WriteQueue.pending, hc, hshelved, hqueue]
  · simp [order, taken, WriteQueue.pending, hc, hshelved, hqueue]
  · simp [order, taken, WriteQueue.pending, hc, hshelved]

theorem order_begin (hc : s.call = none) (maxBatchSize : ℕ) :
    (s.begin size maxBatchSize).order = s.order := by
  rcases begin_cases size s maxBatchSize with ⟨val, hshelved, heq⟩ | ⟨hshelved, heq⟩ <;>
    rw [heq] <;> simp [order, taken, WriteQueue.pending, hc, hshelved]

/-- Only a push adds a batch, at the end. -/
theorem order_step (h : Sound size s) (event : QueueEvent) :
    (s.step size event).order = s.order ++ pushed [event] := by
  cases event with
  | push batch => simp [step, order, taken, WriteQueue.pending, pushed]
  | call maxBatchSize =>
    unfold step
    cases hc : s.call with
    | some c => simp [pushed]
    | none => simpa [pushed] using order_begin hc maxBatchSize
  | work =>
    unfold step
    cases hc : s.call with
    | some c => simpa [pushed] using order_turn h hc
    | none => simp [pushed]

/-- Batches are taken in the order in which they were pushed. -/
theorem order_run (h : Sound size s) (events : List QueueEvent) :
    (Runs.run (step size) s events).order = s.order ++ pushed events := by
  induction events generalizing s with
  | nil => simp [pushed]
  | cons event events ih =>
    have hpushed : pushed (event :: events) = pushed [event] ++ pushed events :=
      List.filterMap_append (l := [event])
    rw [Runs.run_cons, ih (h.step event), order_step h event, hpushed, List.append_assoc]

/-! ## Progress -/

/-- The call in progress, or else the next one, has a batch to return. -/
def Holds (s : QueueRun) : Prop :=
  (∃ c ∈ s.call, c.responses ≠ []) ∨ s.call = none ∧ s.queue.shelvedBatch ≠ none

/-- A batch waits in the queue, and the call in progress, if there is one, has taken none. -/
def Waits (s : QueueRun) : Prop :=
  s.queue.workQueue ≠ [] ∧ ∀ c ∈ s.call, c.currentSize = 0 ∧ 0 < c.maxBatchSize

/-- One of the calls that returned after the first `n` has returned a batch, the first or the
second of them. -/
def Served (n : ℕ) (s : QueueRun) : Prop :=
  ∃ i < 2, ∃ r, s.returned[n + i]? = some r ∧ r.responses ≠ []

/-- After `n` calls have returned, one of the next two returns a batch. -/
def Serves (n : ℕ) (s : QueueRun) : Prop :=
  s.Served n ∨ (s.Holds ∧ n ≤ s.returned.length ∧ s.returned.length ≤ n + 1) ∨
    s.Waits ∧ s.returned.length = n

theorem Served.finish {n : ℕ} (h : s.Served n) (full : Bool) (queue : WriteQueue) :
    (s.finish c full queue).Served n := by
  obtain ⟨i, hi, r, hr, hresponses⟩ := h
  have hlt := (List.getElem?_eq_some_iff.mp hr).1
  exact ⟨i, hi, r, by rw [finish_returned, List.getElem?_append_left hlt, hr], hresponses⟩

/-- A call that has taken a batch serves when it returns. -/
theorem served_finish {n : ℕ} (hresponses : c.responses ≠ []) (hle : n ≤ s.returned.length)
    (hlt : s.returned.length ≤ n + 1) (full : Bool) (queue : WriteQueue) :
    (s.finish c full queue).Served n := by
  refine ⟨s.returned.length - n, by omega, ⟨c.maxBatchSize, c.responses, full⟩, ?_, hresponses⟩
  rw [finish_returned, Nat.add_sub_cancel' hle, List.getElem?_concat_length]

/-- A turn serves the next batch. -/
theorem Serves.turn {n : ℕ} (h : s.Serves n) (hc : s.call = some c) : (s.turn size c).Serves n := by
  rcases h with hserved | ⟨hholds, hle, hlt⟩ | ⟨⟨hqueue, hfresh⟩, hlength⟩
  · rcases turn_cases size s c with ⟨_, _, -, -, heq⟩ | ⟨_, _, -, heq⟩ | ⟨_, heq, -⟩ <;> rw [heq]
    · exact Or.inl hserved
    · exact Or.inl (hserved.finish _ _)
    · exact Or.inl (hserved.finish _ _)
  · -- the call has a batch already, and keeps it until it returns
    have hresponses : c.responses ≠ [] := by
      rcases hholds with ⟨c', hc', hresponses⟩ | ⟨hnone, -⟩
      · obtain rfl := Option.some.inj (hc.symm.trans hc')
        exact hresponses
      · exact absurd (hc.symm.trans hnone) (by simp)
    rcases turn_cases size s c with ⟨_, _, -, -, heq⟩ | ⟨_, _, -, heq⟩ | ⟨_, heq, -⟩ <;> rw [heq]
    · exact Or.inr (Or.inl ⟨Or.inl ⟨_, rfl, by simp⟩, hle, hlt⟩)
    · exact Or.inl (served_finish hresponses hle hlt _ _)
    · exact Or.inl (served_finish hresponses hle hlt _ _)
  · -- the call has taken nothing, so that it has room and looks at the queue
    obtain ⟨hzero, hpositive⟩ := hfresh c hc
    rcases turn_cases size s c with ⟨_, _, -, -, heq⟩ | ⟨_, _, -, heq⟩ | ⟨_, -, hempty⟩
    · rw [heq]
      exact Or.inr (Or.inl ⟨Or.inl ⟨_, rfl, by simp⟩, hlength.ge, by rw [hlength]; omega⟩)
    · -- the batch is larger than the limit: it is shelved, for the next call
      rw [heq]
      refine Or.inr (Or.inl ⟨Or.inr ⟨rfl, by simp⟩, ?_⟩)
      rw [finish_returned, List.length_append, List.length_singleton]
      omega
    · exact absurd (hempty (hzero ▸ hpositive)) hqueue

theorem Serves.begin {n : ℕ} (h : s.Serves n) (hc : s.call = none) {maxBatchSize : ℕ}
    (hmax : 0 < maxBatchSize) : (s.begin size maxBatchSize).Serves n := by
  rcases begin_cases size s maxBatchSize with ⟨val, hshelved, heq⟩ | ⟨hshelved, heq⟩ <;> rw [heq]
  · rcases h with hserved | ⟨-, hle, hlt⟩ | ⟨-, hlength⟩
    · exact Or.inl hserved
    · exact Or.inr (Or.inl ⟨Or.inl ⟨_, rfl, by simp⟩, hle, hlt⟩)
    · exact Or.inr (Or.inl ⟨Or.inl ⟨_, rfl, by simp⟩, hlength.ge, by rw [hlength]; omega⟩)
  · rcases h with hserved | ⟨hholds, -⟩ | ⟨⟨hqueue, -⟩, hlength⟩
    · exact Or.inl hserved
    · rcases hholds with ⟨c, hc', -⟩ | ⟨-, hsome⟩
      · exact absurd (hc.symm.trans hc') (by simp)
      · exact absurd hshelved hsome
    · exact Or.inr (Or.inr ⟨⟨hqueue, by rintro - ⟨⟩; exact ⟨rfl, hmax⟩⟩, hlength⟩)

/-- One event. -/
theorem Serves.step {n : ℕ} (h : s.Serves n) {event : QueueEvent}
    (hpositive : ∀ maxBatchSize, event = .call maxBatchSize → 0 < maxBatchSize) :
    (s.step size event).Serves n := by
  cases event with
  | push batch =>
    rcases h with hserved | hholds | ⟨⟨-, hfresh⟩, hlength⟩
    · exact Or.inl hserved
    · exact Or.inr (Or.inl hholds)
    · exact Or.inr (Or.inr ⟨⟨by simp [QueueRun.step], hfresh⟩, hlength⟩)
  | call maxBatchSize =>
    unfold QueueRun.step
    cases hc : s.call with
    | some c => exact h
    | none => exact h.begin hc (hpositive maxBatchSize rfl)
  | work =>
    unfold QueueRun.step
    cases hc : s.call with
    | some c => exact h.turn hc
    | none => exact h

/-- Between calls. -/
theorem serves_of_pending (hc : s.call = none) (hpending : s.queue.pending ≠ []) :
    s.Serves s.returned.length := by
  by_cases hshelved : s.queue.shelvedBatch = none
  · refine Or.inr (Or.inr ⟨⟨?_, by simp [hc]⟩, rfl⟩)
    simpa [WriteQueue.pending, hshelved] using hpending
  · exact Or.inr (Or.inl ⟨Or.inr ⟨hc, hshelved⟩, le_rfl, Nat.le_succ _⟩)

/-- A call comes to its end. -/
theorem exists_return (s : QueueRun) :
    ∃ n, (Runs.run (step size) s (List.replicate n .work)).call = none := by
  -- every turn takes a batch from the queue or returns
  induction hlength : s.queue.workQueue.length using Nat.strong_induction_on generalizing s with
  | _ k ih =>
    cases hc : s.call with
    | none => exact ⟨0, hc⟩
    | some c =>
      have hstep : s.step size .work = s.turn size c := by simp [step, hc]
      rcases turn_cases size s c with ⟨_, rest, hqueue, -, heq⟩ | ⟨_, _, -, heq⟩ | ⟨_, heq, -⟩
      · have hrest : (s.turn size c).queue.workQueue.length < k := by
          rw [heq, ← hlength, hqueue]
          exact Nat.lt_succ_self rest.length
        obtain ⟨n, hn⟩ := ih _ hrest (s.turn size c) rfl
        exact ⟨n + 1, by rw [List.replicate_succ, Runs.run_cons, hstep, hn]⟩
      · exact ⟨1, by rw [List.replicate_one, Runs.run_cons, Runs.run_nil, hstep, heq, finish_call]⟩
      · exact ⟨1, by rw [List.replicate_one, Runs.run_cons, Runs.run_nil, hstep, heq, finish_call]⟩

end Steps

/-! ## A call without pushes -/

/-- The rest of a call. -/
theorem undisturbed_turns (c : BatchCall) (queue : List WriteBatch) (returned : List BatchReturn) :
    ∃ n, Runs.run (step WriteBatch.size) ⟨⟨queue, none⟩, some c, returned⟩
        (List.replicate n .work) =
      let result := WriteQueue.takeBatches c.maxBatchSize c.currentSize c.responses queue
      ⟨result.2, none, returned ++ [⟨c.maxBatchSize, result.1.1, result.1.2⟩]⟩ := by
  induction queue generalizing c with
  | nil =>
    refine ⟨1, ?_⟩
    by_cases hroom : c.currentSize < c.maxBatchSize
    · simp [step, turn, finish, WriteQueue.takeBatches, hroom]
    · simp [step, turn, finish, WriteQueue.takeBatches, hroom, Nat.not_lt.mp hroom]
  | cons next queue ih =>
    by_cases hroom : c.currentSize < c.maxBatchSize
    · by_cases hfits : next.size + c.currentSize ≤ c.maxBatchSize
      · obtain ⟨n, hn⟩ := ih { c with
          currentSize := next.size + c.currentSize
          responses := c.responses ++ [next] }
        refine ⟨n + 1, ?_⟩
        rw [List.replicate_succ, Runs.run_cons]
        simpa [step, turn, WriteQueue.takeBatches, hroom, hfits] using hn
      · exact ⟨1, by simp [step, turn, finish, WriteQueue.takeBatches, hroom, hfits]⟩
    · exact ⟨1, by simp [step, turn, finish, WriteQueue.takeBatches, hroom]⟩

/-- **A call without pushes in between** returns what `nextWriteBatch` returns. -/
theorem undisturbed_call {s : QueueRun} (hc : s.call = none) (maxBatchSize : ℕ) :
    ∃ n, Runs.run (step WriteBatch.size) s (.call maxBatchSize :: List.replicate n .work) =
      let result := s.queue.nextWriteBatch maxBatchSize
      ⟨result.2, none, s.returned ++ [⟨maxBatchSize, result.1.1, result.1.2⟩]⟩ := by
  obtain ⟨⟨queue, shelved⟩, call, returned⟩ := s
  obtain rfl : call = none := hc
  cases shelved with
  | some val => exact undisturbed_turns ⟨maxBatchSize, val.size, [val]⟩ queue returned
  | none => exact undisturbed_turns ⟨maxBatchSize, 0, []⟩ queue returned

end QueueRun

/-! ## The result -/

open QueueRun in
/-- **Write batching.**  In any interleaving of pushes and calls, what was returned, what the call in
progress has taken, the shelved batch and the queue are the pushed batches in order; a returned list
of several batches is within the limit of its call; if a batch waits between two calls and the limits
are positive, one of the next two calls returns a batch; and every call comes to its end. -/
theorem write_batching (size : WriteBatch → ℕ) (events later : List QueueEvent)
    (hpositive : ∀ maxBatchSize, .call maxBatchSize ∈ events ++ later → 0 < maxBatchSize) :
    let s := Runs.run (step size) start events
    let s' := Runs.run (step size) s later
    s.returned.flatMap (·.responses) ++ s.taken ++
        (s.queue.shelvedBatch.toList ++ s.queue.workQueue) = pushed events ∧
      (∀ r ∈ s.returned, 1 < r.responses.length →
        (r.responses.map size).sum ≤ r.maxBatchSize) ∧
      (s.call = none → s.queue.shelvedBatch ≠ none ∨ s.queue.workQueue ≠ [] →
        s.returned.length + 2 ≤ s'.returned.length →
          ∃ i < 2, ∃ r, s'.returned[s.returned.length + i]? = some r ∧ r.responses ≠ []) ∧
      ∃ n, (Runs.run (step size) s (List.replicate n .work)).call = none := by
  intro s s'
  have hsound : Sound size s := (Runs.allSteps_true start events).invariant (Sound size)
    (fun _ event h _ => h.step event) sound_start
  refine ⟨?_, hsound.limits, fun hc hwaiting htwo => ?_, exists_return s⟩
  · have horder : s.order = start.order ++ pushed events := order_run sound_start events
    exact horder
  · have hpending : s.queue.pending ≠ [] := by
      rw [WriteQueue.pending]
      rcases hwaiting with hshelved | hqueue
      · simpa using fun h => absurd h hshelved
      · simp [hqueue]
    have hlater : ∀ event ∈ later, ∀ maxBatchSize, event = .call maxBatchSize → 0 < maxBatchSize :=
      fun event hevent maxBatchSize heq =>
        hpositive maxBatchSize (heq ▸ List.mem_append_right events hevent)
    have hserves : s'.Serves s.returned.length :=
      ((Runs.allSteps_true s later).and_forall_mem hlater).invariant (Serves s.returned.length)
        (fun _ _ h hok => h.step hok.2) (serves_of_pending hc hpending)
    rcases hserves with hserved | ⟨-, -, hle⟩ | ⟨-, hlength⟩
    · exact hserved
    · omega
    · omega

/-- A batch of six bytes. -/
def sixBytes : WriteBatch := ⟨"batch", ⟨"batch", [⟨"put", [1, 2, 3, 4, 5, 6], 1⟩]⟩, 0⟩

/-- Two calls with a limit of four bytes. -/
def twoCalls : List QueueEvent := [.call 4, .work, .call 4, .push sixBytes, .work]

/-- The first call shelves the batch and returns nothing. -/
theorem write_batching_large :
    let s' := Runs.run (QueueRun.step WriteBatch.size)
      (Runs.run (QueueRun.step WriteBatch.size) .start [.push sixBytes]) twoCalls
    s'.returned.length = 2 ∧ ∃ i < 2, ∃ r, s'.returned[0 + i]? = some r ∧ r.responses ≠ [] := by
  intro s'
  have hlength : s'.returned.length = 2 := by decide
  have hserved := (write_batching WriteBatch.size [.push sixBytes] twoCalls
    (by simp [twoCalls])).2.2.1 rfl (Or.inr (by decide)) hlength.ge
  exact ⟨hlength, hserved⟩

end Kraft
