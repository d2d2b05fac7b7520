/-
# From node ids to quorum workers

The quorum workers and their task queues stand in vectors, in the order of the configured
list without the node itself.  Two places compute the position for a member from its id:
`get_quorum_worker_index`, for backfill and truncation, and `process_remote_batch`, for a
batch that goes to the leader.  Both assume that the members are numbered from 1 on and
listed in this order, which `validate` does not ask for.

`tasksReachPeers_iff` says for which accepted configurations both positions are those of the
member's worker.
-/
import Kraft.Cluster

namespace Kraft

/-- `create_quorum_workers`: one worker for every listed node, in order. -/
def createQuorumWorkers (clusterNodes : List ℕ) (nodeId : ℕ) : List QuorumWorker :=
  clusterNodes.map (QuorumWorker.new nodeId)

/-- These are the workers of a process. -/
theorem workers_start [Capnp] (cfg : AppConfig) (clock : Clock) (accepts : ℕ → Bool) :
    (Process.start cfg clock accepts).workers = createQuorumWorkers cfg.peers cfg.nodeId := rfl

/-- `a - b` on `u32`; below zero it panics, or wraps to a position that no vector has. -/
def subU32 (a b : ℕ) : Option ℕ := if b ≤ a then some (a - b) else none

/-- `leader_quorum_worker_index` of `process_remote_batch`. -/
def leaderQuorumWorkerIndex (currentLeaderId selfId : ℕ) : Option ℕ :=
  if currentLeaderId < selfId then subU32 currentLeaderId 1 else subU32 currentLeaderId 2

namespace AppConfig

/-- Position `k` is in bounds and the worker there talks to member `m`. -/
def WorkerAt (cfg : AppConfig) (k m : ℕ) : Prop :=
  ∃ worker, (createQuorumWorkers cfg.peers cfg.nodeId)[k]? = some worker ∧ worker.memberId = m

/-- Repairs of a member and batches for it as the leader are pushed on the queue of its own
worker. -/
def TasksReachPeers (cfg : AppConfig) : Prop :=
  ∀ m ∈ cfg.clusterNodes.map (·.nodeId), m ≠ cfg.nodeId →
    cfg.WorkerAt (Leader.getQuorumWorkerIndex m cfg.nodeId) m ∧
      ∃ k, leaderQuorumWorkerIndex m cfg.nodeId = some k ∧ cfg.WorkerAt k m

theorem workerAt_iff {cfg : AppConfig} {k m : ℕ} :
    cfg.WorkerAt k m ↔ cfg.peers[k]? = some m := by
  unfold WorkerAt createQuorumWorkers
  rw [List.getElem?_map]
  rcases cfg.peers[k]? with _ | peer
  · simp
  · simp [QuorumWorker.new]

theorem mem_peers {cfg : AppConfig} {m : ℕ} :
    m ∈ cfg.peers ↔ m ∈ cfg.clusterNodes.map (·.nodeId) ∧ m ≠ cfg.nodeId := by
  simp only [peers, List.mem_map, List.mem_filter, decide_eq_true_eq]
  constructor
  · rintro ⟨node, ⟨hmem, hne⟩, rfl⟩
    exact ⟨⟨node, hmem, rfl⟩, hne⟩
  · rintro ⟨⟨node, hmem, rfl⟩, hne⟩
    exact ⟨node, ⟨hmem, hne⟩, rfl⟩

theorem nodup_peers [ParsesSocketAddr] {cfg : AppConfig} (h : cfg.validate = []) :
    cfg.peers.Nodup :=
  (nodup_of_validate h).sublist (List.filter_sublist.map _)

/-- The member the formulas expect at position `k`. -/
def expectedMember (nodeId k : ℕ) : ℕ := if k + 1 < nodeId then k + 1 else k + 2

/-- The formulas find the expected member. -/
theorem index_expectedMember (nodeId k : ℕ) :
    Leader.getQuorumWorkerIndex (expectedMember nodeId k) nodeId = k ∧
      leaderQuorumWorkerIndex (expectedMember nodeId k) nodeId = some k := by
  unfold expectedMember Leader.getQuorumWorkerIndex leaderQuorumWorkerIndex subU32
  by_cases hlt : k + 1 < nodeId
  · have hnot : ¬nodeId < k + 1 := by omega
    simp [hlt, hnot]
  · have hpos : nodeId < k + 2 := by omega
    have hnot : ¬k + 2 < nodeId := by omega
    simp [hlt, hpos, hnot]

/-- A member other than the node that is found at position `k` is the expected one. -/
theorem eq_expectedMember {nodeId k m : ℕ} (hne : m ≠ nodeId)
    (h : leaderQuorumWorkerIndex m nodeId = some k) : m = expectedMember nodeId k := by
  unfold leaderQuorumWorkerIndex subU32 at h
  unfold expectedMember
  split_ifs at h with hlt hle hle <;> obtain rfl := Option.some.inj h <;> split_ifs <;> omega

/-- **When tasks reach the right peer.**  The listed nodes without the node itself are, in the
listed order, 1, 2, 3 and so on with the node's own id left out. -/
theorem tasksReachPeers_iff [ParsesSocketAddr] (cfg : AppConfig) (h : cfg.validate = []) :
    cfg.TasksReachPeers ↔
      ∀ (k : ℕ) (m : ℕ), cfg.peers[k]? = some m →
        m = if k + 1 < cfg.nodeId then k + 1 else k + 2 := by
  constructor
  · intro hreach k m hk
    have hmem := mem_peers.mp (List.mem_of_getElem? hk)
    obtain ⟨-, j, hj, hworker⟩ := hreach m hmem.1 hmem.2
    -- no node is listed twice, so the position found is the one we started from
    have hkj : k = j :=
      (List.getElem?_inj (List.getElem?_eq_some_iff.mp hk).1 (nodup_peers h)).mp
        (hk.trans (workerAt_iff.mp hworker).symm)
    exact eq_expectedMember hmem.2 (hkj ▸ hj)
  · intro hlist m hmem hne
    obtain ⟨k, hk⟩ := List.getElem?_of_mem (mem_peers.mpr ⟨hmem, hne⟩)
    obtain ⟨hrepair, hleader⟩ := index_expectedMember cfg.nodeId k
    have hm : m = expectedMember cfg.nodeId k := hlist k m hk
    rw [← hm] at hrepair hleader
    rw [hrepair]
    exact ⟨workerAt_iff.mpr hk, k, hleader, workerAt_iff.mpr hk⟩

end AppConfig

theorem tasksReachPeers_three :
    letI := sampleAddresses
    (sampleConfig [1, 2, 3] 2).TasksReachPeers :=
  letI := sampleAddresses
  ((sampleConfig [1, 2, 3] 2).tasksReachPeers_iff (by decide)).mpr (by
    intro k m hk
    have hpeers : (sampleConfig [1, 2, 3] 2).peers = [1, 3] := by decide
    rw [hpeers] at hk
    match k with
    | 0 => exact (Option.some.inj hk).symm
    | 1 => exact (Option.some.inj hk).symm
    | _ + 2 => simp at hk)

/-- **A listed order that swaps two peers.**  Node 1 lists 1, 3 and 2: what is meant for
node 2 is pushed on the queue of the worker for node 3. -/
theorem tasks_of_swapped_peers :
    ¬ ∀ [ParsesSocketAddr] (cfg : AppConfig), cfg.validate = [] → cfg.TasksReachPeers := by
  intro h
  let _addresses := sampleAddresses
  have hworker := (h (sampleConfig [1, 3, 2] 1) (by decide) 2 (by decide) (by decide)).1
  exact absurd (AppConfig.workerAt_iff.mp hworker) (by decide)

end Kraft
