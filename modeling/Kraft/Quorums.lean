/-
# Quorums

Which sets of nodes can elect a leader and which can commit an entry, with the quorum size
that `main.rs` computes from a configuration.

* An election counts the candidate's own vote from the start, so a set of voters elects
  with `quorum_size` members.  A replication counts followers only, so an entry is
  committed by the leader and `quorum_size` others.
* Both are read off the counts of the code: a set elects if the responses it can give make an
  election `Elected`, and it commits if they put a message `OnQuorum`.
* `meet_iff` is the counting argument: two kinds of sets given by their least sizes always
  meet if and only if the sizes add up to more than the whole.
* `quorumsIntersect_iff` says for which accepted configurations quorums intersect.  The
  quorum size counts the listed nodes, and half of them rounded up is a majority only if
  the node is one of the listed ones and their number is odd.
-/
import Kraft.ElectionTally
import Kraft.ReplicationTally
import Mathlib.Data.Finset.Powerset

namespace Kraft

/-- **Sets of two sizes meet exactly if the sizes exceed the whole.** -/
theorem meet_iff {α : Type*} [DecidableEq α] {whole : Finset α} {a b : ℕ}
    (ha : a ≤ whole.card) :
    (∀ A ⊆ whole, ∀ B ⊆ whole, a ≤ A.card → b ≤ B.card → (A ∩ B).Nonempty) ↔
      whole.card < a + b := by
  constructor
  · intro hmeet
    by_contra hle
    obtain ⟨A, hA, hAcard⟩ := Finset.exists_subset_card_eq ha
    have hrest : b ≤ (whole \ A).card := by
      rw [Finset.card_sdiff_of_subset hA]
      omega
    obtain ⟨x, hx⟩ := hmeet A hA (whole \ A) Finset.sdiff_subset hAcard.ge hrest
    rw [Finset.inter_sdiff_self] at hx
    exact absurd hx (Finset.notMem_empty x)
  · intro hlt A hA B hB hAcard hBcard
    exact Finset.inter_nonempty_of_card_lt_card_add_card hA hB (by omega)

/-! ## Quorums of a configuration -/

namespace AppConfig

/-- One of the voters becomes leader once its own vote is stored and the others vote for it. -/
def CanElect (cfg : AppConfig) (voters : Finset ℕ) : Prop :=
  voters ⊆ cfg.members ∧ ∃ candidate ∈ voters, Elected cfg.quorumSize
    (.votePersisted :: List.replicate (voters.erase candidate).card (.voteResponse true))

/-- One of the holders commits its entry once it has stored it and the others acknowledge it.
Which id the message has makes no difference. -/
def CanCommit (cfg : AppConfig) (holders : Finset ℕ) : Prop :=
  holders ⊆ cfg.members ∧ ∃ leader ∈ holders, OnQuorum cfg.quorumSize 0
    (.logPersisted 0 :: List.replicate (holders.erase leader).card (.appendEntries 0 true))

/-- Two elections share a voter, and an election shares one with the holders of every
committed entry. -/
def QuorumsIntersect (cfg : AppConfig) : Prop :=
  (∀ A B, cfg.CanElect A → cfg.CanElect B → (A ∩ B).Nonempty) ∧
    ∀ A B, cfg.CanElect A → cfg.CanCommit B → (A ∩ B).Nonempty

/-- An election counts the candidate's own vote from the start. -/
theorem elected_replicate {quorum n : ℕ} :
    Elected quorum (.votePersisted :: List.replicate n (.voteResponse true)) ↔
      quorum ≤ 1 + n := by
  simp [Elected, List.countP_replicate, ElectionEvent.persists, ElectionEvent.grants]

/-- A replication counts the others only. -/
theorem onQuorum_replicate {quorum id n : ℕ} :
    OnQuorum quorum id (.logPersisted id :: List.replicate n (.appendEntries id true)) ↔
      quorum ≤ n := by
  simp [OnQuorum, List.countP_replicate, TallyResponse.acks]

/-- A set of voters elects with `quorum_size` members. -/
theorem canElect_iff {cfg : AppConfig} {voters : Finset ℕ} :
    cfg.CanElect voters ↔ voters ⊆ cfg.members ∧ max 1 cfg.quorumSize ≤ voters.card := by
  refine and_congr_right fun _ => ⟨?_, fun hcard => ?_⟩
  · rintro ⟨candidate, hmem, hsize⟩
    rw [elected_replicate, Finset.card_erase_of_mem hmem] at hsize
    have := Finset.card_pos.mpr ⟨candidate, hmem⟩
    omega
  · obtain ⟨candidate, hmem⟩ := Finset.card_pos.mp (show 0 < voters.card by omega)
    refine ⟨candidate, hmem, ?_⟩
    rw [elected_replicate, Finset.card_erase_of_mem hmem]
    omega

/-- A set of holders commits with one member more than `quorum_size`. -/
theorem canCommit_iff {cfg : AppConfig} {holders : Finset ℕ} :
    cfg.CanCommit holders ↔ holders ⊆ cfg.members ∧ cfg.quorumSize + 1 ≤ holders.card := by
  refine and_congr_right fun _ => ⟨?_, fun hcard => ?_⟩
  · rintro ⟨leader, hmem, hsize⟩
    rw [onQuorum_replicate, Finset.card_erase_of_mem hmem] at hsize
    have := Finset.card_pos.mpr ⟨leader, hmem⟩
    omega
  · obtain ⟨leader, hmem⟩ := Finset.card_pos.mp (show 0 < holders.card by omega)
    refine ⟨leader, hmem, ?_⟩
    rw [onQuorum_replicate, Finset.card_erase_of_mem hmem]
    omega

/-- **When quorums intersect.**  The node has to be listed together with an even number of
others, or nothing is listed and the node is alone. -/
theorem quorumsIntersect_iff [ParsesSocketAddr] (cfg : AppConfig) (h : cfg.validate = []) :
    cfg.QuorumsIntersect ↔ cfg.clusterNodes = [] ∨
      (cfg.clusterNodes.length % 2 = 1 ∧ cfg.nodeId ∈ cfg.clusterNodes.map (·.nodeId)) := by
  have hcard := card_members h
  have hpos : 1 ≤ cfg.members.card :=
    Finset.card_pos.mpr ⟨cfg.nodeId, Finset.mem_insert_self _ _⟩
  have hle : max 1 cfg.quorumSize ≤ cfg.members.card := by
    unfold quorumSize
    split_ifs at hcard <;> omega
  have helect := meet_iff (b := max 1 cfg.quorumSize) hle
  have hcommit := meet_iff (b := cfg.quorumSize + 1) hle
  constructor
  · rintro ⟨hvotes, -⟩
    have hlt := helect.mp fun A hA B hB hAcard hBcard =>
      hvotes A B (canElect_iff.mpr ⟨hA, hAcard⟩) (canElect_iff.mpr ⟨hB, hBcard⟩)
    unfold quorumSize at hlt
    split_ifs at hcard with hself
    · exact Or.inr ⟨by omega, hself⟩
    · exact Or.inl (List.length_eq_zero_iff.mp (by omega))
  · intro hcond
    have hlt : cfg.members.card < max 1 cfg.quorumSize + max 1 cfg.quorumSize := by
      unfold quorumSize
      rcases hcond with hnil | ⟨hodd, hself⟩
      · rw [hcard, hnil]
        simp
      · rw [if_pos hself] at hcard
        omega
    refine ⟨fun A B hA hB => ?_, fun A B hA hB => ?_⟩
    · obtain ⟨hA, hAcard⟩ := canElect_iff.mp hA
      obtain ⟨hB, hBcard⟩ := canElect_iff.mp hB
      exact helect.mpr hlt A hA B hB hAcard hBcard
    · obtain ⟨hA, hAcard⟩ := canElect_iff.mp hA
      obtain ⟨hB, hBcard⟩ := canCommit_iff.mp hB
      exact hcommit.mpr (by omega) A hA B hB hAcard hBcard

end AppConfig

/-- The three nodes of the shipped configuration: any two of them are a quorum. -/
theorem quorumsIntersect_three :
    letI := sampleAddresses
    (sampleConfig [1, 2, 3] 1).QuorumsIntersect :=
  letI := sampleAddresses
  ((sampleConfig [1, 2, 3] 1).quorumsIntersect_iff (by decide)).mpr (by decide)

/-- **Two nodes that list both of them elect without each other.**  The quorum size is 1, so
each node elects itself. -/
theorem quorums_of_two_disjoint :
    ¬ ∀ [ParsesSocketAddr] (cfg : AppConfig), cfg.validate = [] → cfg.QuorumsIntersect := by
  intro h
  let _addresses := sampleAddresses
  have hvotes := (h (sampleConfig [1, 2] 1) (by decide)).1 {1} {2}
    ⟨by decide, 1, by decide⟩ ⟨by decide, 2, by decide⟩
  exact absurd hvotes (by decide)

end Kraft
