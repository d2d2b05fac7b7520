/-
# Configuration

`config/config.rs` and the part of `main.rs` that turns a configuration into a quorum
size and a list of peers.  `ParsesSocketAddr` stands for the standard library's
`str::parse::<SocketAddr>`; the model only needs to know which texts it accepts.

`majority_iff` says when the quorum size of `main.rs` is a majority of the cluster: the
number of nodes is odd and the node lists itself.
-/
import Mathlib.Data.Finset.Card

namespace Kraft

/-- `str::parse::<SocketAddr>(..).is_ok()`. -/
class ParsesSocketAddr where
  parses : String → Bool

/-- `ClusterNode`. -/
structure ClusterNode where
  endpoint : String
  nodeId : ℕ
  deriving DecidableEq

/-- `AppConfig`, without the fields that `validate` and the start of a node do not read. -/
structure AppConfig where
  metricsPort : ℕ
  nodeId : ℕ
  clusterNodes : List ClusterNode
  maxMessageSizeBytes : ℕ
  minBatchIntervalMs : ℕ
  maxBatchSize : ℕ
  clusterPort : ℕ
  tcpDatastorePort : ℕ
  deriving DecidableEq

/-- `ConfigValidationError`. -/
structure ConfigValidationError where
  field : String
  message : String
  deriving DecidableEq

namespace AppConfig

/-- One error if the check fails. -/
def errorIf (failed : Bool) (field message : String) : List ConfigValidationError :=
  if failed then [⟨field, message⟩] else []

/-- A port must fit in 16 bits. -/
def checkPort (field : String) (port : ℕ) : List ConfigValidationError :=
  errorIf (65535 < port) field s!"Invalid port number: {port}"

/-- The duplicate check: one error for every node whose id was seen before. -/
def duplicateErrors : List ℕ → List ClusterNode → List ConfigValidationError
  | _, [] => []
  | seen, node :: rest =>
    errorIf (node.nodeId ∈ seen) "cluster_nodes" s!"Duplicate node_id: {node.nodeId}"
      ++ duplicateErrors (node.nodeId :: seen) rest

/-- The endpoint check of one node. -/
def endpointErrors [ParsesSocketAddr] (node : ClusterNode) : List ConfigValidationError :=
  if node.endpoint = "" then
    [⟨"cluster_nodes", s!"Node {node.nodeId} has empty endpoint"⟩]
  else errorIf (!ParsesSocketAddr.parses node.endpoint) "cluster_nodes"
    (s!"Node {node.nodeId} has invalid endpoint '{node.endpoint}': " ++
      "expected format 'host:port'")

/-- `validate_cluster_topology`. -/
def validateClusterTopology [ParsesSocketAddr] (cfg : AppConfig) : List ConfigValidationError :=
  duplicateErrors [] cfg.clusterNodes ++ cfg.clusterNodes.flatMap endpointErrors

/-- `AppConfig::validate`: the errors found, none meaning `Ok(())`. -/
def validate [ParsesSocketAddr] (cfg : AppConfig) : List ConfigValidationError :=
  errorIf (cfg.maxMessageSizeBytes < 1024) "max_message_size_bytes"
      s!"Must be at least 1024 bytes, got {cfg.maxMessageSizeBytes}"
    ++ errorIf (67108864 < cfg.maxMessageSizeBytes) "max_message_size_bytes"
      s!"Must be at most 67108864 bytes, got {cfg.maxMessageSizeBytes}"
    ++ errorIf (cfg.maxBatchSize = 0) "max_batch_size" "Must be greater than 0"
    ++ errorIf (10000 < cfg.maxBatchSize) "max_batch_size"
      s!"Must be at most 10000, got {cfg.maxBatchSize}"
    ++ errorIf (60000 < cfg.minBatchIntervalMs) "min_batch_interval_ms"
      s!"Must be at most 60000ms, got {cfg.minBatchIntervalMs}"
    ++ checkPort "metrics_port" cfg.metricsPort
    ++ checkPort "cluster_port" cfg.clusterPort
    ++ checkPort "tcp_datastore_port" cfg.tcpDatastorePort
    ++ cfg.validateClusterTopology

/-- `cluster_nodes_without_self` of `main`: the peers, in order. -/
def peers (cfg : AppConfig) : List ℕ :=
  (cfg.clusterNodes.filter (·.nodeId ≠ cfg.nodeId)).map (·.nodeId)

/-- `quorum_size` of `main`: half of the listed nodes, rounded up. -/
def quorumSize (cfg : AppConfig) : ℕ := (cfg.clusterNodes.length + 1) / 2

/-! ## What an accepted configuration looks like -/

theorem errorIf_eq_nil {failed : Bool} {field message : String} :
    errorIf failed field message = [] ↔ failed = false := by
  cases failed <;> simp [errorIf]

theorem duplicateErrors_eq_nil : ∀ (seen : List ℕ) (nodes : List ClusterNode),
    duplicateErrors seen nodes = [] ↔
      (nodes.map (·.nodeId)).Nodup ∧ ∀ node ∈ nodes, node.nodeId ∉ seen
  | _, [] => by simp [duplicateErrors]
  | seen, node :: rest => by
    rw [duplicateErrors, List.append_eq_nil_iff, errorIf_eq_nil,
      duplicateErrors_eq_nil (node.nodeId :: seen) rest]
    simp only [decide_eq_false_iff_not, List.map_cons, List.nodup_cons, List.mem_map,
      List.mem_cons, not_or, forall_eq_or_imp]
    constructor
    · rintro ⟨h₁, h₂, h₃⟩
      exact ⟨⟨fun ⟨n, hn, he⟩ => (h₃ n hn).1 he, h₂⟩, h₁, fun n hn => (h₃ n hn).2⟩
    · rintro ⟨⟨h₁, h₂⟩, h₃, h₄⟩
      exact ⟨h₃, h₂, fun n hn => ⟨fun he => h₁ ⟨n, hn, he⟩, h₄ n hn⟩⟩

/-- An accepted configuration lists no node twice. -/
theorem nodup_of_validate [ParsesSocketAddr] {cfg : AppConfig} (h : cfg.validate = []) :
    (cfg.clusterNodes.map (·.nodeId)).Nodup := by
  simp only [validate, List.append_eq_nil_iff, validateClusterTopology] at h
  exact ((duplicateErrors_eq_nil [] cfg.clusterNodes).mp h.2.1).1

theorem maxBatchSize_pos [ParsesSocketAddr] {cfg : AppConfig} (h : cfg.validate = []) :
    0 < cfg.maxBatchSize := by
  simp only [validate, List.append_eq_nil_iff, errorIf_eq_nil, decide_eq_false_iff_not] at h
  omega

/-- The nodes of the cluster as a node sees it: those it lists, and itself. -/
def members (cfg : AppConfig) : Finset ℕ :=
  insert cfg.nodeId (cfg.clusterNodes.map (·.nodeId)).toFinset

/-- The size of the cluster: the listed nodes, and one more if the node is not listed. -/
theorem card_members [ParsesSocketAddr] {cfg : AppConfig} (h : cfg.validate = []) :
    cfg.members.card = if cfg.nodeId ∈ cfg.clusterNodes.map (·.nodeId) then
      cfg.clusterNodes.length else cfg.clusterNodes.length + 1 := by
  have hcard : (cfg.clusterNodes.map (·.nodeId)).toFinset.card = cfg.clusterNodes.length := by
    rw [List.toFinset_card_of_nodup (nodup_of_validate h), List.length_map]
  unfold members
  split_ifs with hself
  · rw [Finset.insert_eq_of_mem (List.mem_toFinset.mpr hself), hcard]
  · rw [Finset.card_insert_of_notMem (fun hm => hself (List.mem_toFinset.mp hm)), hcard]

/-- **When the quorum size is a majority.**  `⌈k / 2⌉` of the `k` listed nodes is more than
half of the cluster exactly if the node counts itself among the listed ones and the
cluster has an odd number of nodes. -/
theorem majority_iff [ParsesSocketAddr] {cfg : AppConfig} (h : cfg.validate = []) :
    cfg.members.card < 2 * cfg.quorumSize ↔
      cfg.members.card % 2 = 1 ∧ cfg.nodeId ∈ cfg.clusterNodes.map (·.nodeId) := by
  have hcard := card_members h
  unfold quorumSize
  split_ifs at hcard with hself
  · constructor
    · exact fun hlt => ⟨by omega, hself⟩
    · intro hodd
      have := hodd.1
      omega
  · constructor
    · intro hlt
      omega
    · exact fun hlist => absurd hlist.2 hself

end AppConfig

/-! ## Sample configurations -/

/-- A parser of addresses that takes every text. -/
abbrev sampleAddresses : ParsesSocketAddr := ⟨fun _ => true⟩

/-- A configuration of node `a` that lists the given nodes. -/
def sampleConfig (nodes : List ℕ) (a : ℕ) : AppConfig where
  metricsPort := 9000
  nodeId := a
  clusterNodes := nodes.map fun b => ⟨"127.0.0.1:7000", b⟩
  maxMessageSizeBytes := 1048576
  minBatchIntervalMs := 1
  maxBatchSize := 100
  clusterPort := 8000
  tcpDatastorePort := 8001

end Kraft
