/-
# Counting responses up to a quorum

A record waits for one report that it is stored and for the answers of `peers` peers, some of which
are grants.  It keeps whether it is stored, the grants counted, and how many responses are still to
come, and it is complete once it is stored and has the grants of a quorum.  A record that has seen
all its responses without being completed by an answer is dropped.

* `Met` : what completes a record, said of the responses alone;
* `tracks_run` : after any responses, of which at most one is the report and at most `peers` are
  answers, a record is complete exactly if they meet the quorum, and otherwise its fields are the
  counts of what has been seen;
* `waiting_of_grants` : if all answers are grants and the peers suffice for the quorum, a record
  is never dropped;
* `exists_first` : a property of prefixes that never stops holding starts to hold at one place.
-/
import Kraft.Runs
import Mathlib.Data.List.Infix
import Mathlib.Data.List.Induction

namespace Countdown

/-- What can be reported of a record: it is stored, or a peer has answered. -/
inductive Response
  | stored
  | answer (granted : Bool)
  deriving DecidableEq

/-- Whether a response is an answer. -/
def Response.isAnswer : Response → Bool
  | .stored => false
  | .answer _ => true

/-- A record that is waiting. -/
structure Record where
  stored : Bool
  grants : ℕ
  left : ℤ

/-- What has become of a record. -/
inductive Outcome
  | waiting (record : Record)
  | complete
  | dropped

/-- A record for `peers` peers, with the grants counted before any answer. -/
def start (own peers : ℕ) : Outcome := .waiting ⟨false, own, peers + 1⟩

/-- One response to a waiting record. -/
def Record.respond (quorum : ℕ) (record : Record) : Response → Outcome
  | .stored =>
    if quorum ≤ record.grants then .complete
    else .waiting ⟨true, record.grants, record.left - 1⟩
  | .answer granted =>
    let grants := record.grants + granted.toNat
    if quorum ≤ grants ∧ record.stored then .complete
    else if 0 < record.left - 1 then .waiting ⟨record.stored, grants, record.left - 1⟩
    else .dropped

/-- The report completes a record that has its grants, an answer one that is stored and gets them. -/
theorem Record.respond_eq_complete {quorum : ℕ} {record : Record} :
    (record.respond quorum .stored = .complete ↔ quorum ≤ record.grants) ∧
      ∀ granted, record.respond quorum (.answer granted) = .complete ↔
        quorum ≤ record.grants + granted.toNat ∧ record.stored = true := by
  refine ⟨?_, fun granted => ?_⟩
  · unfold Record.respond
    split_ifs with h <;> simp [h]
  · unfold Record.respond
    dsimp only
    split_ifs with h <;> simp [h]

/-- The grants that a response brings. -/
def Response.granted : Response → ℕ
  | .stored => 0
  | .answer granted => granted.toNat

/-- A record that goes on waiting has counted the response and is not complete. -/
theorem Record.of_waiting {quorum : ℕ} {record record' : Record} {response : Response}
    (h : record.respond quorum response = .waiting record') :
    record'.stored = (record.stored || !response.isAnswer) ∧
      record'.grants = record.grants + response.granted ∧
      ¬(quorum ≤ record'.grants ∧ record'.stored = true) := by
  unfold Record.respond at h
  cases response with
  | stored =>
    dsimp only at h
    split_ifs at h with hquorum
    obtain rfl := Outcome.waiting.inj h
    exact ⟨by simp [Response.isAnswer], rfl, fun hcomplete => hquorum hcomplete.1⟩
  | answer granted =>
    dsimp only at h
    split_ifs at h with hcomplete
    obtain rfl := Outcome.waiting.inj h
    exact ⟨by simp [Response.isAnswer], rfl, hcomplete⟩

/-- One response. -/
def step (quorum : ℕ) : Outcome → Response → Outcome
  | .waiting record, response => record.respond quorum response
  | .complete, _ => .complete
  | .dropped, _ => .dropped

/-- What becomes of a record after some responses. -/
abbrev outcome (quorum own peers : ℕ) (responses : List Response) : Outcome :=
  Runs.run (step quorum) (start own peers) responses

/-! ## What completes a record -/

/-- The grants among some responses. -/
def grants (responses : List Response) : ℕ := responses.count (.answer true)

/-- The record is stored and a quorum has granted it. -/
def Met (quorum own : ℕ) (responses : List Response) : Prop :=
  .stored ∈ responses ∧ quorum ≤ own + grants responses

instance (quorum own : ℕ) (responses : List Response) : Decidable (Met quorum own responses) :=
  inferInstanceAs (Decidable (_ ∧ _))

theorem not_met_nil (quorum own : ℕ) : ¬Met quorum own [] := fun h => nomatch h.1

theorem Met.append {quorum own : ℕ} {responses : List Response} (h : Met quorum own responses)
    (more : List Response) : Met quorum own (responses ++ more) := by
  refine ⟨List.mem_append_left more h.1, h.2.trans ?_⟩
  unfold grants
  rw [List.count_append]
  omega

theorem met_append_stored (quorum own : ℕ) (responses : List Response) :
    Met quorum own (responses ++ [.stored]) ↔ quorum ≤ own + grants responses := by
  unfold Met grants
  rw [List.count_append]
  simp

theorem grants_append_answer (responses : List Response) (granted : Bool) :
    grants (responses ++ [.answer granted]) = grants responses + granted.toNat := by
  unfold grants
  rw [List.count_append]
  cases granted <;> rfl

theorem met_append_answer (quorum own : ℕ) (responses : List Response) (granted : Bool) :
    Met quorum own (responses ++ [.answer granted]) ↔
      quorum ≤ own + grants responses + granted.toNat ∧ .stored ∈ responses := by
  unfold Met
  rw [grants_append_answer, Nat.add_assoc, and_comm]
  simp

/-- Every response is the report or an answer. -/
theorem count_stored_add_answers (responses : List Response) :
    responses.count .stored + responses.countP Response.isAnswer = responses.length := by
  induction responses with
  | nil => rfl
  | cons response rest ih =>
    rw [List.count_cons, List.countP_cons, List.length_cons, ← ih]
    cases response <;> simp [Response.isAnswer] <;> omega

/-! ## The record after any responses -/

/-- The outcome is what the responses say. -/
def Tracks (quorum own peers : ℕ) (responses : List Response) (o : Outcome) : Prop :=
  if Met quorum own responses then o = .complete
  else o = .waiting ⟨decide (.stored ∈ responses), own + grants responses,
      peers + 1 - responses.length⟩ ∨ (o = .dropped ∧ peers + 1 ≤ responses.length)

variable {quorum own peers : ℕ} {responses : List Response}

/-- The report that the record is stored. -/
theorem Tracks.stored {o : Outcome} (h : Tracks quorum own peers responses o)
    (hfirst : .stored ∉ responses) (hroom : responses.length < peers + 1) :
    Tracks quorum own peers (responses ++ [.stored]) (step quorum o .stored) := by
  unfold Tracks at h ⊢
  rw [if_neg fun hmet : Met quorum own responses => hfirst hmet.1] at h
  rcases h with rfl | ⟨-, hlong⟩
  · by_cases hquorum : quorum ≤ own + grants responses
    · rw [if_pos ((met_append_stored ..).mpr hquorum)]
      exact if_pos hquorum
    · rw [if_neg fun hmet => hquorum ((met_append_stored ..).mp hmet)]
      refine Or.inl ((if_neg hquorum).trans ?_)
      have hgrants : grants (responses ++ [.stored]) = grants responses := by
        unfold grants
        rw [List.count_append]
        rfl
      rw [hgrants, List.length_append]
      simp
      omega
  · omega

/-- The answer of a peer. -/
theorem Tracks.answer {o : Outcome} (h : Tracks quorum own peers responses o)
    (hroom : responses.length < peers + 1) (granted : Bool) :
    Tracks quorum own peers (responses ++ [.answer granted]) (step quorum o (.answer granted)) := by
  unfold Tracks at h ⊢
  by_cases hmet : Met quorum own responses
  · rw [if_pos hmet] at h
    rw [if_pos (hmet.append _), h]
    rfl
  rw [if_neg hmet] at h
  rcases h with rfl | ⟨-, hlong⟩
  · by_cases hquorum : quorum ≤ own + grants responses + granted.toNat ∧ .stored ∈ responses
    · rw [if_pos ((met_append_answer ..).mpr hquorum)]
      exact if_pos (by simpa using hquorum)
    · rw [if_neg fun h => hquorum ((met_append_answer ..).mp h)]
      have hstep : step quorum (.waiting ⟨decide (.stored ∈ responses), own + grants responses,
          peers + 1 - responses.length⟩) (.answer granted) =
          if 0 < (peers + 1 - responses.length : ℤ) - 1 then
            .waiting ⟨decide (.stored ∈ responses), own + grants responses + granted.toNat,
              (peers + 1 - responses.length : ℤ) - 1⟩
          else .dropped :=
        if_neg (by simpa using hquorum)
      rw [hstep]
      split_ifs with hleft
      · left
        rw [grants_append_answer, List.length_append, Nat.add_assoc]
        simp
        omega
      · right
        rw [List.length_append]
        exact ⟨rfl, by simp; omega⟩
  · omega

/-- **The record after any responses.** -/
theorem tracks_run (hstored : responses.count .stored ≤ 1)
    (hanswers : responses.countP Response.isAnswer ≤ peers) :
    Tracks quorum own peers responses (outcome quorum own peers responses) := by
  induction responses using List.reverseRecOn with
  | nil =>
    unfold Tracks
    rw [if_neg (not_met_nil quorum own)]
    left
    simp [outcome, start, grants]
  | append_singleton before response ih =>
    rw [List.count_append] at hstored
    rw [List.countP_append] at hanswers
    have hbefore := ih (by omega) (by omega)
    have hcount := count_stored_add_answers before
    rw [outcome, Runs.run_append]
    cases response with
    | stored =>
      have hfirst : .stored ∉ before := by
        intro hmem
        have := List.count_pos_iff.mpr hmem
        simp at hstored
        omega
      have hnone := List.count_eq_zero.mpr hfirst
      exact hbefore.stored hfirst (by omega)
    | answer granted =>
      refine hbefore.answer ?_ granted
      simp [Response.isAnswer] at hanswers
      omega

/-- **A record is complete exactly if the responses meet the quorum.** -/
theorem outcome_eq_complete_iff (hstored : responses.count .stored ≤ 1)
    (hanswers : responses.countP Response.isAnswer ≤ peers) :
    outcome quorum own peers responses = .complete ↔ Met quorum own responses := by
  have htracks : Tracks quorum own peers responses _ := tracks_run hstored hanswers
  unfold Tracks at htracks
  constructor
  · intro hcomplete
    by_contra hmet
    rw [if_neg hmet, hcomplete] at htracks
    rcases htracks with h | ⟨h, -⟩
    · cases h
    · cases h
  · intro hmet
    rwa [if_pos hmet] at htracks

/-- **A record that can only be granted waits until it is complete.** -/
theorem waiting_of_grants (hquorum : quorum ≤ own + peers)
    (hstored : responses.count .stored ≤ 1)
    (hanswers : responses.countP Response.isAnswer ≤ peers)
    (hgranted : .answer false ∉ responses) (hmet : ¬Met quorum own responses) :
    outcome quorum own peers responses = .waiting ⟨decide (.stored ∈ responses),
      own + grants responses, peers + 1 - responses.length⟩ := by
  have htracks : Tracks quorum own peers responses _ := tracks_run hstored hanswers
  unfold Tracks at htracks
  rw [if_neg hmet] at htracks
  refine htracks.resolve_right fun h => hmet ?_
  -- all responses have been seen, so the record is stored and all peers have granted it
  have hcount := count_stored_add_answers responses
  have hall : responses.countP Response.isAnswer = grants responses := by
    unfold grants List.count
    refine List.countP_congr fun response hmem => ?_
    rcases response with _ | granted
    · simp [Response.isAnswer]
    · cases granted
      · exact absurd hmem hgranted
      · simp [Response.isAnswer]
  refine ⟨List.count_pos_iff.mp (by omega), ?_⟩
  omega

/-! ## The first time -/

/-- A property of prefixes that never stops holding starts to hold with one element. -/
theorem exists_first {α : Type*} (P : List α → Prop) (hmono : ∀ before more, P before → P (before ++ more))
    (hnil : ¬P []) {list : List α} (hlist : P list) :
    ∃! before, ∃ x after, list = before ++ x :: after ∧ ¬P before ∧ P (before ++ [x]) := by
  have hexists : ∃ before x after, list = before ++ x :: after ∧ ¬P before ∧ P (before ++ [x]) := by
    induction list using List.reverseRecOn with
    | nil => exact absurd hlist hnil
    | append_singleton front x ih =>
      by_cases hfront : P front
      · obtain ⟨before, y, after, rfl, hnot, hthen⟩ := ih hfront
        exact ⟨before, y, after ++ [x], by simp, hnot, hthen⟩
      · exact ⟨front, x, [], rfl, hfront, hlist⟩
  obtain ⟨before, x, after, hsplit, hnot, hthen⟩ := hexists
  refine ⟨before, ⟨x, after, hsplit, hnot, hthen⟩, ?_⟩
  rintro other ⟨y, rest, hother, hnot', hthen'⟩
  -- of two prefixes one continues the other, and the longer one must not have `P` yet
  have hprefix : before ++ [x] <+: list := ⟨after, by rw [hsplit]; simp⟩
  have hprefix' : other ++ [y] <+: list := ⟨rest, by rw [hother]; simp⟩
  rcases lt_trichotomy other.length before.length with hlt | heq | hlt
  · obtain ⟨more, hmore⟩ := List.prefix_of_prefix_length_le hprefix'
      ((List.prefix_append before [x]).trans hprefix) (by simp; omega)
    exact absurd (hmore ▸ hmono _ more hthen') hnot
  · exact (List.prefix_of_prefix_length_le ((List.prefix_append other [y]).trans hprefix')
      ((List.prefix_append before [x]).trans hprefix) heq.le).eq_of_length heq
  · obtain ⟨more, hmore⟩ := List.prefix_of_prefix_length_le hprefix
      ((List.prefix_append other [y]).trans hprefix') (by simp; omega)
    exact absurd (hmore ▸ hmono _ more hthen) hnot'

end Countdown
