/-
# The write queue

`WriteQueue` of the write proxy.  Client batches wait in a queue; `next_write_batch` takes as
many from its front as fit `max_batch_size`, counted in payload bytes.  A batch that does not
fit is shelved and opens the next round, however large it is.

A client may push while `next_write_batch` runs; such a push counts as one before or after the
call.  Over any interleaving of pushes and rounds, the groups that are combined are exactly
the combinable segments of the order of arrival:

* `exists_combinable_of_mem_combined` : every combined batch comes from such a segment;
* `exists_run_of_combinable` : every such segment is combined in some interleaving.
-/
import Kraft.Runs
import Kraft.WriteRoute
import Mathlib.Algebra.GroupWithZero.Nat
import Mathlib.Data.List.Induction

namespace Kraft

/-- `WriteBatch::size`: the payload bytes. -/
def WriteBatch.size (batch : WriteBatch) : ℕ := (batch.message.requests.map (·.payload.length)).sum

/-- `WriteQueue`. -/
structure WriteQueue where
  workQueue : List WriteBatch
  shelvedBatch : Option WriteBatch

namespace WriteQueue

def new : WriteQueue := ⟨[], none⟩

/-- The loop of `next_write_batch`, with its two variables. -/
def takeBatches (maxBatchSize : ℕ) :
    ℕ → List WriteBatch → List WriteBatch → (List WriteBatch × Bool) × WriteQueue
  | currentSize, responses, [] => ((responses, decide (maxBatchSize ≤ currentSize)), ⟨[], none⟩)
  | currentSize, responses, next :: queue =>
    if currentSize < maxBatchSize then
      let newSize := next.size + currentSize
      if newSize ≤ maxBatchSize then takeBatches maxBatchSize newSize (responses ++ [next]) queue
      else ((responses, true), ⟨queue, some next⟩)
    else ((responses, true), ⟨next :: queue, none⟩)

/-- `next_write_batch`: the batches of the round, whether it was a full one, and the queue
after it. -/
def nextWriteBatch (maxBatchSize : ℕ) (q : WriteQueue) : (List WriteBatch × Bool) × WriteQueue :=
  match q.shelvedBatch with
  | some val => takeBatches maxBatchSize val.size [val] q.workQueue
  | none => takeBatches maxBatchSize 0 [] q.workQueue

/-- The batches that wait, in the order in which they are taken. -/
def pending (q : WriteQueue) : List WriteBatch := q.shelvedBatch.toList ++ q.workQueue

def totalSize (batches : List WriteBatch) : ℕ := (batches.map (·.size)).sum

/-- A group that one round can take: the whole fits, and before the last one there was room
left; or a single batch. -/
def Combinable (maxBatchSize : ℕ) (batches : List WriteBatch) : Prop :=
  batches ≠ [] ∧
    (totalSize batches ≤ maxBatchSize ∧ totalSize batches.dropLast < maxBatchSize ∨
      batches.length = 1)

@[simp] theorem totalSize_append (batches₁ batches₂ : List WriteBatch) :
    totalSize (batches₁ ++ batches₂) = totalSize batches₁ + totalSize batches₂ := by
  simp [totalSize]

@[simp] theorem totalSize_nil : totalSize [] = 0 := rfl

@[simp] theorem totalSize_cons (batch : WriteBatch) (batches : List WriteBatch) :
    totalSize (batch :: batches) = batch.size + totalSize batches := by
  simp [totalSize]

/-! ## One round -/

/-- What the loop has taken when it ends. -/
theorem takeBatches_spec (maxBatchSize : ℕ) (queue : List WriteBatch) :
    ∀ responses : List WriteBatch, ∃ taken,
      (takeBatches maxBatchSize (totalSize responses) responses queue).1.1 = responses ++ taken ∧
      queue = taken ++
        (takeBatches maxBatchSize (totalSize responses) responses queue).2.pending ∧
      (taken ≠ [] → totalSize (responses ++ taken) ≤ maxBatchSize ∧
        totalSize (responses ++ taken).dropLast < maxBatchSize) := by
  induction queue with
  | nil => exact fun responses => ⟨[], by simp [takeBatches], rfl, by simp⟩
  | cons next queue ih =>
    intro responses
    simp only [takeBatches]
    split_ifs with hroom hfits
    · obtain ⟨taken, hresponses, hqueue, hsize⟩ := ih (responses ++ [next])
      have hcurrent : totalSize (responses ++ [next]) = next.size + totalSize responses := by
        simp [Nat.add_comm]
      rw [hcurrent] at hresponses hqueue
      refine ⟨next :: taken, by simpa using hresponses, by simpa using hqueue, fun _ => ?_⟩
      rw [← List.append_cons] at hsize
      by_cases htaken : taken = []
      · subst htaken
        rw [List.dropLast_concat, hcurrent]
        exact ⟨hfits, hroom⟩
      · exact hsize htaken
    · exact ⟨[], by simp, by simp [pending], by simp⟩
    · exact ⟨[], by simp, by simp [pending], by simp⟩

/-- A batch alone is always taken. -/
theorem combinable_singleton (maxBatchSize : ℕ) (batch : WriteBatch) :
    Combinable maxBatchSize [batch] := ⟨by simp, Or.inr rfl⟩

/-- A round takes a combinable group from the front of what waits, or nothing. -/
theorem nextWriteBatch_spec (maxBatchSize : ℕ) (q : WriteQueue) :
    q.pending = (nextWriteBatch maxBatchSize q).1.1 ++ (nextWriteBatch maxBatchSize q).2.pending ∧
      ((nextWriteBatch maxBatchSize q).1.1 ≠ [] →
        Combinable maxBatchSize (nextWriteBatch maxBatchSize q).1.1) := by
  rcases q with ⟨queue, _ | shelved⟩
  · obtain ⟨taken, hresponses, hqueue, hsize⟩ := takeBatches_spec maxBatchSize queue []
    simp only [nextWriteBatch, totalSize_nil, List.nil_append] at hresponses hqueue hsize ⊢
    rw [hresponses]
    exact ⟨by simpa [pending] using hqueue, fun htaken => ⟨htaken, Or.inl (hsize htaken)⟩⟩
  · obtain ⟨taken, hresponses, hqueue, hsize⟩ := takeBatches_spec maxBatchSize queue [shelved]
    simp only [nextWriteBatch, totalSize_cons, totalSize_nil, Nat.add_zero] at hresponses hqueue ⊢
    rw [hresponses]
    refine ⟨by simpa [pending] using hqueue, fun _ => ?_⟩
    by_cases htaken : taken = []
    · subst htaken
      exact combinable_singleton maxBatchSize shelved
    · exact ⟨by simp, Or.inl (hsize htaken)⟩

/-- A group with room before its last batch is taken as a whole. -/
theorem takeBatches_all {maxBatchSize : ℕ} (group : List WriteBatch) :
    ∀ responses : List WriteBatch, totalSize (responses ++ group) ≤ maxBatchSize →
      (group ≠ [] → totalSize (responses ++ group).dropLast < maxBatchSize) →
      (takeBatches maxBatchSize (totalSize responses) responses group).1.1 = responses ++ group ∧
        (takeBatches maxBatchSize (totalSize responses) responses group).2 = new := by
  induction group with
  | nil => exact fun responses _ _ => ⟨by simp [takeBatches], rfl⟩
  | cons next group ih =>
    intro responses hfits hroom
    have hcurrent : totalSize (responses ++ [next]) = next.size + totalSize responses := by
      simp [Nat.add_comm]
    have hlast : (responses ++ next :: group).dropLast = responses ++ (next :: group).dropLast :=
      List.dropLast_append_of_ne_nil (by simp)
    have hroom' : totalSize responses < maxBatchSize := by
      have hbefore := hroom (by simp)
      rw [hlast, totalSize_append] at hbefore
      omega
    have hnext : next.size + totalSize responses ≤ maxBatchSize := by
      simp only [totalSize_append, totalSize_cons] at hfits
      omega
    simp only [takeBatches, if_pos hroom', if_pos hnext]
    rw [← hcurrent, List.append_cons responses next group]
    rw [List.append_cons responses next group] at hfits hroom
    exact ih (responses ++ [next]) hfits fun _ => hroom (by simp)

/-! ## Pushes and rounds in any order -/

end WriteQueue

/-- The write proxy's part of a run: a client pushes a batch, or the proxy takes its next round
and combines what it got under a new batch id. -/
inductive ProxyEvent
  | push (batch : WriteBatch)
  | round (batchId : String)

/-- The queue and the combined batches so far. -/
structure ProxyState where
  queue : WriteQueue
  combined : List OwnedWriteBatch

namespace ProxyState

def new : ProxyState := ⟨.new, []⟩

def step (maxBatchSize : ℕ) (s : ProxyState) : ProxyEvent → ProxyState
  | .push batch => { s with queue := { s.queue with workQueue := s.queue.workQueue ++ [batch] } }
  | .round batchId =>
    let ((batches, _), queue) := s.queue.nextWriteBatch maxBatchSize
    if batches.isEmpty then { s with queue := queue }
    else ⟨queue, s.combined ++ [(prepareBatchAndCallbacks batchId batches).1]⟩

/-- The batches pushed in a run, in order. -/
def pushed (events : List ProxyEvent) : List WriteBatch :=
  events.filterMap fun
    | .push batch => some batch
    | .round _ => none

variable {maxBatchSize : ℕ}

/-- A batch that is pushed waits. -/
theorem pending_push (s : ProxyState) (batch : WriteBatch) :
    (s.step maxBatchSize (.push batch)).queue.pending = s.queue.pending ++ [batch] := by
  simp [step, WriteQueue.pending]

/-- One round: nothing is combined, or a combinable group from the front of what waits. -/
theorem round_cases (s : ProxyState) (batchId : String) :
    (s.step maxBatchSize (.round batchId)).combined = s.combined ∧
        s.queue.pending = (s.step maxBatchSize (.round batchId)).queue.pending ∨
      ∃ group, WriteQueue.Combinable maxBatchSize group ∧
        (s.step maxBatchSize (.round batchId)).combined =
          s.combined ++ [(prepareBatchAndCallbacks batchId group).1] ∧
        s.queue.pending = group ++ (s.step maxBatchSize (.round batchId)).queue.pending := by
  obtain ⟨hpending, hgroup⟩ := WriteQueue.nextWriteBatch_spec maxBatchSize s.queue
  rw [step]
  by_cases hnone : (s.queue.nextWriteBatch maxBatchSize).1.1 = []
  · refine Or.inl ?_
    rw [hnone] at hpending
    simpa [hnone] using hpending
  · exact Or.inr ⟨_, hgroup hnone, by simp [hnone], by simpa [hnone] using hpending⟩

/-- The groups combined in a run, one after the other and then what still waits, are the
batches in the order of their arrival. -/
theorem run_groups (events : List ProxyEvent) : ∀ s : ProxyState,
    ∃ groups : List (String × List WriteBatch),
      (Runs.run (step maxBatchSize) s events).combined =
        s.combined ++ groups.map (fun g => (prepareBatchAndCallbacks g.1 g.2).1) ∧
      s.queue.pending ++ pushed events =
        (groups.map (·.2)).flatten ++ (Runs.run (step maxBatchSize) s events).queue.pending ∧
      ∀ g ∈ groups, .round g.1 ∈ events ∧ WriteQueue.Combinable maxBatchSize g.2 := by
  induction events with
  | nil => exact fun s => ⟨[], by simp, by simp [pushed], by simp⟩
  | cons e events ih =>
    intro s
    obtain ⟨groups, hcombined, hpending, hgroups⟩ := ih (s.step maxBatchSize e)
    replace hgroups : ∀ g ∈ groups, .round g.1 ∈ e :: events ∧
        WriteQueue.Combinable maxBatchSize g.2 :=
      fun g hg => ⟨List.mem_cons_of_mem _ (hgroups g hg).1, (hgroups g hg).2⟩
    cases e with
    | push batch =>
      refine ⟨groups, hcombined, ?_, hgroups⟩
      rw [pending_push] at hpending
      simpa [pushed] using hpending
    | round batchId =>
      rcases s.round_cases batchId with ⟨hsame, hwait⟩ | ⟨group, hgroup, hnew, hwait⟩
      · refine ⟨groups, by rw [Runs.run_cons, hcombined, hsame], ?_, hgroups⟩
        rw [hwait]
        simpa [pushed] using hpending
      · refine ⟨(batchId, group) :: groups, by simp [hcombined, hnew], ?_, ?_⟩
        · rw [hwait, List.append_assoc]
          simpa [pushed] using hpending
        · exact List.forall_mem_cons.mpr ⟨⟨List.mem_cons_self, hgroup⟩, hgroups⟩

/-- **Every combined batch comes from a combinable segment of the order of arrival.** -/
theorem exists_combinable_of_mem_combined {events : List ProxyEvent} {combined : OwnedWriteBatch}
    (h : combined ∈ (Runs.run (step maxBatchSize) new events).combined) :
    ∃ batchId group, .round batchId ∈ events ∧ group <:+: pushed events ∧
      WriteQueue.Combinable maxBatchSize group ∧
      combined = (prepareBatchAndCallbacks batchId group).1 := by
  obtain ⟨groups, hcombined, hpending, hgroups⟩ := @run_groups maxBatchSize events new
  rw [hcombined, show new.combined = [] from rfl, List.nil_append] at h
  obtain ⟨g, hg, rfl⟩ := List.mem_map.mp h
  refine ⟨g.1, g.2, (hgroups g hg).1, ?_, (hgroups g hg).2, rfl⟩
  have hpushed : pushed events = (groups.map (·.2)).flatten ++
      (Runs.run (step maxBatchSize) new events).queue.pending := by
    simpa [new, WriteQueue.new, WriteQueue.pending] using hpending
  rw [hpushed]
  exact (List.infix_of_mem_flatten (List.mem_map_of_mem hg)).trans
    (List.prefix_append _ _).isInfix

/-- A combinable group that waits alone is combined within two rounds: a batch that is too
large is shelved by the first. -/
theorem two_rounds {group : List WriteBatch} (hpos : 0 < maxBatchSize)
    (hgroup : WriteQueue.Combinable maxBatchSize group) (batchId : String)
    (combined : List OwnedWriteBatch) :
    Runs.run (step maxBatchSize) ⟨⟨group, none⟩, combined⟩ [.round batchId, .round batchId] =
      ⟨.new, combined ++ [(prepareBatchAndCallbacks batchId group).1]⟩ := by
  by_cases hfits : WriteQueue.totalSize group ≤ maxBatchSize ∧
      WriteQueue.totalSize group.dropLast < maxBatchSize
  · obtain ⟨htaken, hqueue⟩ := WriteQueue.takeBatches_all group [] hfits.1 fun _ => hfits.2
    simp only [WriteQueue.totalSize_nil, List.nil_append] at htaken hqueue
    have hfirst : step maxBatchSize ⟨⟨group, none⟩, combined⟩ (.round batchId) =
        ⟨.new, combined ++ [(prepareBatchAndCallbacks batchId group).1]⟩ := by
      simp [step, WriteQueue.nextWriteBatch, htaken, hqueue, hgroup.1]
    rw [Runs.run_cons, hfirst]
    rfl
  · obtain ⟨batch, rfl⟩ := List.length_eq_one_iff.mp (hgroup.2.resolve_left hfits)
    have hlarge : ¬batch.size ≤ maxBatchSize := by
      intro hsmall
      exact hfits ⟨by simpa using hsmall, by simpa using hpos⟩
    have hfirst : step maxBatchSize ⟨⟨[batch], none⟩, combined⟩ (.round batchId) =
        ⟨⟨[], some batch⟩, combined⟩ := by
      simp [step, WriteQueue.nextWriteBatch, WriteQueue.takeBatches, hpos, hlarge]
    rw [Runs.run_cons, hfirst]
    rfl

theorem run_push (group : List WriteBatch) : ∀ (queue : List WriteBatch)
    (combined : List OwnedWriteBatch),
    Runs.run (step maxBatchSize) ⟨⟨queue, none⟩, combined⟩ (group.map .push) =
      ⟨⟨queue ++ group, none⟩, combined⟩ := by
  induction group with
  | nil => simp
  | cons batch group ih =>
    intro queue combined
    rw [List.map_cons, Runs.run_cons, List.append_cons]
    exact ih (queue ++ [batch]) combined

/-- The events that push a group and give the proxy two rounds. -/
def pushAndTake (batchId : String) (group : List WriteBatch) : List ProxyEvent :=
  group.map .push ++ [.round batchId, .round batchId]

/-- A group that is pushed into an empty queue is taken as a whole. -/
theorem run_pushAndTake {group : List WriteBatch} (hpos : 0 < maxBatchSize)
    (hgroup : WriteQueue.Combinable maxBatchSize group) (batchId : String)
    (combined : List OwnedWriteBatch) :
    Runs.run (step maxBatchSize) ⟨.new, combined⟩ (pushAndTake batchId group) =
      ⟨.new, combined ++ [(prepareBatchAndCallbacks batchId group).1]⟩ := by
  rw [pushAndTake, Runs.run_append, show WriteQueue.new = ⟨[], none⟩ from rfl, run_push,
    List.nil_append, two_rounds hpos hgroup]
  rfl

theorem pushed_append (events₁ events₂ : List ProxyEvent) :
    pushed (events₁ ++ events₂) = pushed events₁ ++ pushed events₂ :=
  List.filterMap_append

theorem pushed_push (group : List WriteBatch) : pushed (group.map .push) = group := by
  simp [pushed, List.filterMap_map]

theorem pushed_pushAndTake (batchId : String) (group : List WriteBatch) :
    pushed (pushAndTake batchId group) = group := by
  rw [pushAndTake, pushed_append, pushed_push]
  simp [pushed]

/-- Batches that come one at a time are combined one at a time, and nothing is left. -/
theorem exists_run_drained (hpos : 0 < maxBatchSize) (batchId : String)
    (batches : List WriteBatch) :
    ∃ events, pushed events = batches ∧ (∀ id, .round id ∈ events → id = batchId) ∧
      Runs.run (step maxBatchSize) new events =
        ⟨.new, batches.map fun batch => (prepareBatchAndCallbacks batchId [batch]).1⟩ := by
  induction batches using List.reverseRecOn with
  | nil => exact ⟨[], rfl, by simp, rfl⟩
  | append_singleton batches batch ih =>
    obtain ⟨events, hpushed, hids, hrun⟩ := ih
    refine ⟨events ++ pushAndTake batchId [batch], ?_, ?_, ?_⟩
    · rw [pushed_append, hpushed, pushed_pushAndTake]
    · simpa [pushAndTake, or_imp, forall_and] using hids
    · rw [Runs.run_append, hrun, run_pushAndTake hpos
        (WriteQueue.combinable_singleton _ _), List.map_append]
      rfl

/-- **Every combinable segment of the order of arrival is combined in some run**, after the
batches before it, each by itself. -/
theorem exists_run_of_combinable (hpos : 0 < maxBatchSize) {group : List WriteBatch}
    (hgroup : WriteQueue.Combinable maxBatchSize group) (before after : List WriteBatch)
    (batchId : String) :
    ∃ events, pushed events = before ++ group ++ after ∧
      (∀ id, .round id ∈ events → id = batchId) ∧
      (Runs.run (step maxBatchSize) new events).combined =
        before.map (fun batch => (prepareBatchAndCallbacks batchId [batch]).1) ++
          [(prepareBatchAndCallbacks batchId group).1] := by
  obtain ⟨events, hpushed, hids, hrun⟩ := exists_run_drained hpos batchId before
  refine ⟨events ++ pushAndTake batchId group ++ after.map .push, ?_, ?_, ?_⟩
  · rw [pushed_append, pushed_append, hpushed, pushed_pushAndTake, pushed_push]
  · simpa [pushAndTake, or_imp, forall_and] using hids
  · rw [Runs.run_append, Runs.run_append, hrun, run_pushAndTake hpos hgroup,
      show WriteQueue.new = ⟨[], none⟩ from rfl, run_push]

end ProxyState

end Kraft
