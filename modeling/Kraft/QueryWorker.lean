/-
# The query worker

`query/worker.rs`: the thread that applies committed entries to the map that reads are
answered from.  Its loop reads the version counter, then the commit index, then the bus, at
different moments, so it is modelled as one step for every access to shared memory;
`QueryPhase` is the place in the loop.

* `ReadMemory` is what the worker shares with the other threads.
* `ReadSystem` is the worker with a state machine that raises the commit index, bumps the
  version and puts entries on the bus, as far as these are concerned, in any interleaving.
* `query_worker_correct` : the map is at all times the result of the entries up to the applied
  index, no entry is lost, repeated or reordered, and a query is answered from a map that
  includes all entries up to its index.
* `truncate_signal_clears_map` : this needs that no entry has the term `u64::MAX`.

The counters that only feed the backoff are left out.
-/
import Kraft.Messages
import Kraft.Runs

namespace Kraft

/-! ## The worker -/

/-- `query_structure`. -/
abbrev QueryMap := AList (fun _ : String => List UInt8)

/-- The commands of an entry, inserted one by one (`for_each_command`). -/
def insertCommands (map : QueryMap) (entry : OwnedLogEntry) : QueryMap :=
  entry.commands.foldl (fun map command => map.insert command.id command.payload) map

/-- The map after a list of entries. -/
def replayEntries (entries : List OwnedLogEntry) : QueryMap := entries.foldl insertCommands ∅

/-- `QueryRequest`. -/
structure QueryRequest where
  id : String
  index : ℕ
  callback : ℕ
  deriving DecidableEq

/-- The atomics of `commit_state`, the bus, `pending_queries`, and the answers sent. -/
structure ReadMemory where
  version : ℕ
  commitIndex : ℕ
  bus : List OwnedLogEntry
  pendingQueries : List QueryRequest
  answers : List (QueryRequest × Option (List UInt8))

/-- The place in the loop of `run`. -/
inductive QueryPhase
  /-- before the version is read -/
  | top
  /-- the version has changed, and the commit index is to be read -/
  | loadIndex (currentVersion : ℕ)
  /-- the loop over the bus -/
  | drain (currentVersion index : ℕ)
  /-- before the parked query is looked at -/
  | parkedQuery
  /-- the loop over the pending queries -/
  | queries
  deriving DecidableEq

/-- `QueryWorker` with the local variables of `run`. -/
structure QueryWorker where
  phase : QueryPhase
  lastVersion : ℕ
  parked : Option OwnedLogEntry
  parkedRequest : Option QueryRequest
  appliedIndex : ℕ
  queryStructure : QueryMap

variable {m : ReadMemory} {w : QueryWorker} {v : ℕ} {entry : OwnedLogEntry}

/-- The term that marks a truncate signal, `u64::MAX`. -/
def truncateSignalTerm : ℕ := UInt64.size - 1

namespace QueryWorker

/-- `QueryWorker::new` at the start of `run`. -/
def new : QueryWorker where
  phase := .top
  lastVersion := 0
  parked := none
  parkedRequest := none
  appliedIndex := 0
  queryStructure := ∅

/-- Applies an entry. -/
def applyEntry (w : QueryWorker) (entry : OwnedLogEntry) : QueryWorker :=
  { w with
    queryStructure := insertCommands w.queryStructure entry
    appliedIndex := entry.index }

/-- `match parked.take()`: the parked entry is applied if the commit index has reached it. -/
def takeParked (w : QueryWorker) (index : ℕ) : QueryWorker :=
  match w.parked with
  | some entry =>
    if entry.index ≤ index then { w.applyEntry entry with parked := none } else w
  | none => w

/-- An entry from the bus: it is applied, it is a truncate signal, or it is parked and the loop
over the bus ends. -/
def receive (w : QueryWorker) (currentVersion index : ℕ) (entry : OwnedLogEntry) : QueryWorker :=
  if entry.index ≤ index then w.applyEntry entry
  else if entry.term = truncateSignalTerm then
    { w with queryStructure := ∅, lastVersion := currentVersion, appliedIndex := 0 }
  else { w with parked := some entry, phase := .parkedQuery }

end QueryWorker

/-- `handle_query`. -/
def ReadMemory.handleQuery (m : ReadMemory) (map : QueryMap) (query : QueryRequest) : ReadMemory :=
  { m with answers := m.answers ++ [(query, map.lookup query.id)] }

namespace QueryWorker

/-- One step of the loop of `run`, up to the next access to shared memory. -/
def step (m : ReadMemory) (w : QueryWorker) : ReadMemory × QueryWorker :=
  match w.phase with
  | .top =>
    (m, { w with
      phase := if m.version = w.lastVersion then .parkedQuery else .loadIndex m.version })
  | .loadIndex currentVersion =>
    (m, { w.takeParked m.commitIndex with
      lastVersion := currentVersion
      phase := .drain currentVersion m.commitIndex })
  | .drain currentVersion index =>
    match m.bus with
    | entry :: rest => ({ m with bus := rest }, w.receive currentVersion index entry)
    | [] => (m, { w with phase := .parkedQuery })
  | .parkedQuery =>
    match w.parkedRequest with
    | some query =>
      if query.index ≤ w.appliedIndex then
        (m.handleQuery w.queryStructure query, { w with parkedRequest := none, phase := .queries })
      else (m, { w with phase := .top })
    | none => (m, { w with phase := .queries })
  | .queries =>
    match m.pendingQueries with
    | query :: rest =>
      if query.index ≤ w.appliedIndex then
        ({ m with pendingQueries := rest }.handleQuery w.queryStructure query, w)
      else ({ m with pendingQueries := rest }, { w with parkedRequest := some query, phase := .top })
    | [] => (m, { w with phase := .top })

theorem step_loadIndex_unparked (hphase : w.phase = .loadIndex v) (hparked : w.parked = none) :
    w.step m = (m, { w with lastVersion := v, phase := .drain v m.commitIndex }) := by
  simp only [step, hphase, takeParked, hparked]

theorem step_loadIndex_parked (hphase : w.phase = .loadIndex v) (hparked : w.parked = some entry)
    (hreached : entry.index ≤ m.commitIndex) :
    w.step m = (m, { w.applyEntry entry with
      parked := none
      lastVersion := v
      phase := .drain v m.commitIndex }) := by
  simp only [step, hphase, takeParked, hparked, if_pos hreached]

theorem step_drain_nil {index : ℕ} (hphase : w.phase = .drain v index) (hbus : m.bus = []) :
    w.step m = (m, { w with phase := .parkedQuery }) := by
  simp only [step, hphase, hbus]

theorem step_drain_cons {index : ℕ} {rest : List OwnedLogEntry}
    (hphase : w.phase = .drain v index) (hbus : m.bus = entry :: rest) :
    w.step m = ({ m with bus := rest }, w.receive v index entry) := by
  simp only [step, hphase, hbus]

/-- The query worker only takes entries from the bus. -/
theorem memory_step (m : ReadMemory) (w : QueryWorker) :
    (w.step m).1.version = m.version ∧ (w.step m).1.commitIndex = m.commitIndex ∧
      ∃ taken, m.bus = taken ++ (w.step m).1.bus := by
  unfold step
  split
  · exact ⟨rfl, rfl, [], rfl⟩
  · exact ⟨rfl, rfl, [], rfl⟩
  · split
    · next entry rest hbus => exact ⟨rfl, rfl, [entry], hbus⟩
    · exact ⟨rfl, rfl, [], rfl⟩
  · split
    · split_ifs <;> exact ⟨rfl, rfl, [], rfl⟩
    · exact ⟨rfl, rfl, [], rfl⟩
  · split
    · split_ifs <;> exact ⟨rfl, rfl, [], rfl⟩
    · exact ⟨rfl, rfl, [], rfl⟩

/-- The worker is in its drain section. -/
def Draining (w : QueryWorker) : Prop :=
  ∃ currentVersion, w.phase = .loadIndex currentVersion ∨ ∃ index, w.phase = .drain currentVersion index

end QueryWorker

/-! ## The worker and a state machine -/

/-- The query worker, what it shares, and all entries ever put on the bus. -/
structure ReadSystem where
  memory : ReadMemory
  worker : QueryWorker
  sent : List OwnedLogEntry

/-- What can happen. -/
inductive ReadEvent
  /-- The state machine stores a new commit index. -/
  | raise (index : ℕ)
  /-- The state machine increments the version. -/
  | bumpVersion
  /-- The state machine puts an entry on the bus. -/
  | put (entry : OwnedLogEntry)
  /-- A client asks. -/
  | ask (query : QueryRequest)
  /-- The query worker goes on. -/
  | work

namespace ReadSystem

/-- Nothing has happened. -/
def start : ReadSystem := ⟨⟨0, 0, [], [], []⟩, .new, []⟩

/-- One event. -/
def step (r : ReadSystem) : ReadEvent → ReadSystem
  | .raise index => { r with memory := { r.memory with commitIndex := index } }
  | .bumpVersion => { r with memory := { r.memory with version := r.memory.version + 1 } }
  | .put entry =>
    { r with memory := { r.memory with bus := r.memory.bus ++ [entry] }, sent := r.sent ++ [entry] }
  | .ask query =>
    { r with memory := { r.memory with pendingQueries := r.memory.pendingQueries ++ [query] } }
  | .work =>
    let next := r.worker.step r.memory
    { r with memory := next.1, worker := next.2 }

/-- A state machine that only raises the commit index, and that puts log entries on the bus in log
order, without gaps and each after the commit index has reached it. -/
def InLogOrder (r : ReadSystem) : ReadEvent → Prop
  | .raise index => r.memory.commitIndex ≤ index
  | .put entry => entry.index = r.sent.length ∧ entry.index ≤ r.memory.commitIndex
  | _ => True

/-- What is assumed of the state machine: it goes in log order, and no entry that it puts on the
bus has the term `u64::MAX`, which the query worker takes for the mark of a truncate signal. -/
def Committed (r : ReadSystem) : ReadEvent → Prop
  | .raise index => r.memory.commitIndex ≤ index
  | .put entry => entry.index = r.sent.length ∧ entry.index ≤ r.memory.commitIndex ∧
      entry.term ≠ truncateSignalTerm
  | _ => True

instance (r : ReadSystem) (event : ReadEvent) : Decidable (r.InLogOrder event) := by
  cases event <;> unfold InLogOrder <;> infer_instance

instance (r : ReadSystem) (event : ReadEvent) : Decidable (r.Committed event) := by
  cases event <;> unfold Committed <;> infer_instance

/-! ## The invariant -/

/-- The entries `applied` are those in the map, and the rest of what was sent is parked or on the
bus. -/
structure QueryInv (applied : List OwnedLogEntry) (r : ReadSystem) : Prop where
  split : r.sent = applied ++ (r.worker.parked.toList ++ r.memory.bus)
  map : r.worker.queryStructure = replayEntries applied
  appliedIndex : r.worker.appliedIndex = applied.length - 1
  positions : ∀ (i : ℕ) (entry : OwnedLogEntry), r.sent[i]? = some entry → entry.index = i
  noSignal : ∀ entry ∈ r.sent, entry.term ≠ truncateSignalTerm
  committed : ∀ entry ∈ r.sent, entry.index ≤ r.memory.commitIndex
  draining : ∀ v index, r.worker.phase = .drain v index → r.worker.parked = none
  answered : ∀ query value, (query, value) ∈ r.memory.answers → 1 ≤ query.index →
    ∃ k, query.index < k ∧ k ≤ r.sent.length ∧
      value = (replayEntries (r.sent.take k)).lookup query.id

variable {applied : List OwnedLogEntry} {r : ReadSystem}

theorem queryInv_start : QueryInv [] start :=
  ⟨rfl, rfl, rfl, by simp [start], by simp [start], by simp [start], fun _ _ _ => rfl,
    by simp [start]⟩

theorem replayEntries_concat (entries : List OwnedLogEntry) (entry : OwnedLogEntry) :
    replayEntries (entries ++ [entry]) = insertCommands (replayEntries entries) entry :=
  List.foldl_concat ..

/-- The first entry that is not in the map stands right behind those that are. -/
theorem QueryInv.index_next (h : QueryInv applied r) {rest : List OwnedLogEntry}
    (hnext : r.worker.parked.toList ++ r.memory.bus = entry :: rest) :
    entry ∈ r.sent ∧ entry.index = applied.length := by
  have hsent : r.sent = applied ++ entry :: rest := by rw [h.split, hnext]
  refine ⟨by simp [hsent], h.positions applied.length entry ?_⟩
  rw [hsent]
  simp

/-- The worker's own variables change, and nothing that was sent, applied, parked or
answered. -/
theorem QueryInv.worker (h : QueryInv applied r) (hbus : m.bus = r.memory.bus)
    (hcommit : m.commitIndex = r.memory.commitIndex) (hanswers : m.answers = r.memory.answers)
    (hparked : w.parked = r.worker.parked) (hmap : w.queryStructure = r.worker.queryStructure)
    (happlied : w.appliedIndex = r.worker.appliedIndex)
    (hdraining : ∀ v index, w.phase = .drain v index → r.worker.parked = none) :
    QueryInv applied ⟨m, w, r.sent⟩ where
  split := by rw [hparked, hbus]; exact h.split
  map := hmap.trans h.map
  appliedIndex := happlied.trans h.appliedIndex
  positions := h.positions
  noSignal := h.noSignal
  committed := by rw [hcommit]; exact h.committed
  draining := fun v index hphase => hparked.trans (hdraining v index hphase)
  answered := by rw [hanswers]; exact h.answered

/-- The next entry is applied. -/
theorem QueryInv.applyEntry (h : QueryInv applied r)
    (hnext : r.worker.parked.toList ++ r.memory.bus = entry :: m.bus)
    (hcommit : m.commitIndex = r.memory.commitIndex) (hanswers : m.answers = r.memory.answers)
    (hparked : w.parked = none)
    (hmap : w.queryStructure = insertCommands r.worker.queryStructure entry)
    (happlied : w.appliedIndex = entry.index) :
    QueryInv (applied ++ [entry]) ⟨m, w, r.sent⟩ where
  split := by
    rw [hparked, h.split, hnext]
    simp
  map := by rw [hmap, h.map, replayEntries_concat]
  appliedIndex := by
    rw [happlied, (h.index_next hnext).2]
    simp
  positions := h.positions
  noSignal := h.noSignal
  committed := by rw [hcommit]; exact h.committed
  draining := fun _ _ _ => hparked
  answered := by rw [hanswers]; exact h.answered

/-- A query is answered. -/
theorem QueryInv.handleQuery (h : QueryInv applied r) {query : QueryRequest}
    (hquery : query.index ≤ r.worker.appliedIndex) :
    QueryInv applied { r with memory := r.memory.handleQuery r.worker.queryStructure query } :=
  { h with
    answered := by
      intro query' value hmem hone
      rcases List.mem_append.mp hmem with hmem | hmem
      · exact h.answered query' value hmem hone
      · obtain ⟨rfl, rfl⟩ := Prod.mk.inj (List.mem_singleton.mp hmem)
        have hindex := h.appliedIndex
        refine ⟨applied.length, by omega, ?_, ?_⟩
        · rw [h.split]
          simp
        · rw [h.map]
          simp [h.split] }

/-- **The worker goes on.** -/
theorem QueryInv.work (h : QueryInv applied r) :
    ∃ applied', QueryInv applied' (r.step .work) := by
  obtain ⟨m, w, sent⟩ := r
  rcases hphase : w.phase with _ | v | ⟨v, index⟩ | _ | _
  · refine ⟨applied, ?_⟩
    simp only [step, QueryWorker.step, hphase]
    refine h.worker rfl rfl rfl rfl rfl rfl fun v index hdrain => ?_
    dsimp only at hdrain
    split_ifs at hdrain
  · -- the commit index has reached the parked entry, which was on the bus
    rcases hparked : w.parked with _ | entry
    · simp only [step, QueryWorker.step_loadIndex_unparked hphase hparked]
      exact ⟨applied, h.worker rfl rfl rfl rfl rfl rfl fun _ _ _ => hparked⟩
    · have hnext : w.parked.toList ++ m.bus = entry :: m.bus := by rw [hparked]; rfl
      have hreached : entry.index ≤ m.commitIndex :=
        h.committed entry (h.index_next hnext).1
      simp only [step, QueryWorker.step_loadIndex_parked hphase hparked hreached]
      exact ⟨applied ++ [entry], h.applyEntry hnext rfl rfl rfl rfl rfl⟩
  · have hparked := h.draining v index hphase
    rcases hbus : m.bus with _ | ⟨entry, rest⟩
    · simp only [step, QueryWorker.step_drain_nil hphase hbus]
      exact ⟨applied, h.worker rfl rfl rfl rfl rfl rfl fun _ _ hdrain => (nomatch hdrain)⟩
    · have hnext : w.parked.toList ++ m.bus = entry :: rest := by
        rw [show w.parked = none from hparked, hbus]
        rfl
      have hsignal := h.noSignal entry (h.index_next hnext).1
      simp only [step, QueryWorker.step_drain_cons hphase hbus, QueryWorker.receive, hsignal,
        if_false]
      split_ifs
      · exact ⟨applied ++ [entry], h.applyEntry hnext rfl rfl hparked rfl rfl⟩
      · -- the entry is parked
        refine ⟨applied, ⟨?_, h.map, h.appliedIndex, h.positions, h.noSignal, h.committed,
          (fun _ _ hdrain => nomatch hdrain), h.answered⟩⟩
        exact h.split.trans (congrArg (applied ++ ·) hnext)
  · simp only [step, QueryWorker.step, hphase]
    refine ⟨applied, ?_⟩
    split
    · next query hquery =>
      split_ifs with hindex
      · exact (h.handleQuery hindex).worker rfl rfl rfl rfl rfl rfl fun _ _ hdrain => nomatch hdrain
      · exact h.worker rfl rfl rfl rfl rfl rfl fun _ _ hdrain => nomatch hdrain
    · exact h.worker rfl rfl rfl rfl rfl rfl fun _ _ hdrain => nomatch hdrain
  · simp only [step, QueryWorker.step, hphase]
    refine ⟨applied, ?_⟩
    split
    · next query rest hquery =>
      split_ifs with hindex
      · refine (h.handleQuery hindex).worker rfl rfl rfl rfl rfl rfl fun _ _ hdrain => ?_
        rw [hphase] at hdrain
        cases hdrain
      · exact h.worker rfl rfl rfl rfl rfl rfl fun _ _ hdrain => nomatch hdrain
    · exact h.worker rfl rfl rfl rfl rfl rfl fun _ _ hdrain => nomatch hdrain

/-- The state machine puts the next entry on the bus. -/
theorem QueryInv.put (h : QueryInv applied r) (hok : r.Committed (.put entry)) :
    QueryInv applied (r.step (.put entry)) := by
  obtain ⟨hindex, hcommitted, hsignal⟩ := hok
  refine ⟨?_, h.map, h.appliedIndex, fun i e hentry => ?_, fun e he => ?_, fun e he => ?_,
    h.draining, fun query value hmem hone => ?_⟩
  · show r.sent ++ [entry] = applied ++ (r.worker.parked.toList ++ (r.memory.bus ++ [entry]))
    rw [h.split]
    simp
  · have hentry' : (r.sent ++ [entry])[i]? = some e := hentry
    rcases Nat.lt_or_ge i r.sent.length with hi | hi
    · rw [List.getElem?_append_left hi] at hentry'
      exact h.positions i e hentry'
    · have hlast := (List.getElem?_eq_some_iff.mp hentry').1
      rw [List.length_append, List.length_singleton] at hlast
      obtain rfl : i = r.sent.length := by omega
      obtain rfl : entry = e := by simpa using hentry'
      exact hindex
  · rcases List.mem_append.mp he with he | he
    · exact h.noSignal e he
    · rwa [List.mem_singleton.mp he]
  · rcases List.mem_append.mp he with he | he
    · exact h.committed e he
    · rwa [List.mem_singleton.mp he]
  · obtain ⟨k, hlt, hle, hvalue⟩ := h.answered query value hmem hone
    refine ⟨k, hlt, ?_, ?_⟩
    · show k ≤ (r.sent ++ [entry]).length
      rw [List.length_append]
      exact hle.trans (Nat.le_add_right _ _)
    · show value = (replayEntries ((r.sent ++ [entry]).take k)).lookup query.id
      rw [List.take_append_of_le_length hle]
      exact hvalue

/-- **One event.** -/
theorem QueryInv.step (h : QueryInv applied r) (event : ReadEvent) (hok : r.Committed event) :
    ∃ applied', QueryInv applied' (r.step event) := by
  cases event with
  | raise index =>
    exact ⟨applied, { h with committed := fun entry he => (h.committed entry he).trans hok }⟩
  | bumpVersion => exact ⟨applied, h.worker rfl rfl rfl rfl rfl rfl h.draining⟩
  | put entry => exact ⟨applied, h.put hok⟩
  | ask query => exact ⟨applied, h.worker rfl rfl rfl rfl rfl rfl h.draining⟩
  | work => exact h.work

/-! ## The result -/

/-- **The query worker is correct** in every interleaving with a state machine that only raises
the commit index and puts log entries on the bus in order, each once committed, none of them with
the term of a truncate signal.  The map is
empty before the first entry is applied and then holds exactly the entries up to the applied
index; the entries behind them are the parked one and those on the bus, in order; and the
answer to a query with a positive index includes every entry up to it. -/
theorem query_worker_correct (events : List ReadEvent)
    (hcommitted : Runs.AllSteps step Committed start events) :
    let r := Runs.run step start events
    (∃ k ≤ r.sent.length, r.sent = r.sent.take k ++ (r.worker.parked.toList ++ r.memory.bus) ∧
      r.worker.queryStructure = replayEntries (r.sent.take k) ∧
      (k = 0 ∧ r.worker.appliedIndex = 0 ∨ k = r.worker.appliedIndex + 1)) ∧
    (∀ (i : ℕ) (entry : OwnedLogEntry), r.sent[i]? = some entry → entry.index = i) ∧
    ∀ query value, (query, value) ∈ r.memory.answers → 1 ≤ query.index →
      ∃ k, query.index < k ∧ k ≤ r.sent.length ∧
        value = (replayEntries (r.sent.take k)).lookup query.id := by
  intro r
  obtain ⟨applied, h⟩ : ∃ applied, QueryInv applied r :=
    hcommitted.invariant (fun r => ∃ applied, QueryInv applied r)
      (fun _ event ⟨_, hinv⟩ hok => hinv.step event hok) ⟨[], queryInv_start⟩
  have htake : r.sent.take applied.length = applied := by
    rw [h.split]
    simp
  refine ⟨⟨applied.length, ?_, ?_, ?_, ?_⟩, h.positions, h.answered⟩
  · rw [h.split]
    simp
  · rw [htake]
    exact h.split
  · rw [htake]
    exact h.map
  · rw [h.appliedIndex]
    omega

/-- The no-op entry a leader of term 1 appends to an empty log. -/
def noopEntry : OwnedLogEntry := ⟨0, 1, 0, 0, 2, 50, []⟩

/-- A write that follows it. -/
def writeEntry : OwnedLogEntry := ⟨1, 1, 0, 1, 3, 60, [⟨"k", [7], 1⟩]⟩

/-- The entry at position 1 is committed and sent between the worker's reads of the commit index
and of the bus: it is parked, and applied when the version has changed again. -/
def parkAndApply : List ReadEvent :=
  [.bumpVersion, .put noopEntry, .work, .work, .raise 1, .bumpVersion, .put writeEntry, .work, .work,
    .ask ⟨"k", 1, 0⟩, .work, .work, .work, .work, .work, .work, .work]

theorem query_worker_correct_parked :
    let r := Runs.run step start parkAndApply
    r.memory.answers = [(⟨"k", 1, 0⟩, some [7])] ∧
      ∃ k, 1 < k ∧ k ≤ r.sent.length ∧
        some [7] = (replayEntries (r.sent.take k)).lookup "k" :=
  ⟨by decide, (query_worker_correct parkAndApply (by decide)).2.2 ⟨"k", 1, 0⟩ (some [7]) (by decide)
    (by decide)⟩

/-- An entry of term `u64::MAX` behind two writes. -/
def signalEntry : OwnedLogEntry := ⟨2, truncateSignalTerm, 1, 1, 4, 70, []⟩

/-- Two writes are committed, sent and applied.  While the worker is still in its loop over the bus,
the third entry is committed and sent, and the worker finds it above the commit index it has read. -/
def applyAndClear : List ReadEvent :=
  [.raise 1, .bumpVersion, .put { writeEntry with index := 0 }, .put writeEntry, .work, .work, .work,
    .work, .raise 2, .bumpVersion, .put signalEntry, .work]

/-- **An entry of term `u64::MAX` clears the map.**  The entries before it are lost, and the applied
index is back at 0, although all three entries were put on the bus in order. -/
theorem truncate_signal_clears_map :
    ¬ ∀ events, Runs.AllSteps step InLogOrder start events →
      let r := Runs.run step start events
      ∃ k ≤ r.sent.length, r.sent = r.sent.take k ++ (r.worker.parked.toList ++ r.memory.bus) ∧
        r.worker.queryStructure = replayEntries (r.sent.take k) ∧
        (k = 0 ∧ r.worker.appliedIndex = 0 ∨ k = r.worker.appliedIndex + 1) := by
  intro h
  obtain ⟨k, -, hsplit, -, happlied⟩ := h applyAndClear (by decide)
  have hsent : (Runs.run step start applyAndClear).sent.length = 3 := by decide
  have hrest : (Runs.run step start applyAndClear).worker.parked.toList ++
      (Runs.run step start applyAndClear).memory.bus = [] := by decide
  have hcleared : (Runs.run step start applyAndClear).worker.appliedIndex = 0 := by decide
  -- all three entries have been taken, and at most one of them would be in the map
  have hlength := congrArg List.length hsplit
  rw [hrest, List.append_nil, List.length_take, hsent] at hlength
  omega

end ReadSystem

end Kraft
