/-
# Leaders and promises

Why a leader has every entry that a majority has promised to keep, whatever the protocol is that
moves entries between the nodes.  A `Book` holds what has to be remembered of a run: the votes,
each with the log the voter had at the time, the leaders, each with the log it was elected with,
and the promises of nodes to keep an entry.

* `Sound` : a promise is honoured, in the log of its node and in the log behind every later vote,
  unless a later leader was elected without the entry.
* Votes, promises, elections and changes of the logs keep a book sound (`Sound.vote`,
  `Sound.promise`, `Sound.elect`, `Sound.relog`), each under one condition.
* `Sound.complete` : an entry that a majority has promised is in the log of every leader of a later
  term.
* `Settled` : a log agrees up to a position with a leader that has committed it; `Decided` : an entry
  is committed at a position, and by `Decided.unique` no other one is.

The leaders are taken in the order of their elections, not of their terms, so that a promise may be
broken for the sake of a leader without the entry: the first such leader is elected by a node that
still honours it.
-/
import Kraft.LeaderLogs
import Mathlib.Data.Finset.Card
import Mathlib.Data.Prod.Lex

namespace Reigns

open LeaderLogs

/-! ## Books -/

/-- A vote, with the log of the voter when it was cast. -/
structure Ballot (ι α : Type*) where
  voter : ι
  term : ℕ
  candidate : ι
  log : List α
  deriving DecidableEq

/-- A leader, with its log when it was elected. -/
structure Reign (ι α : Type*) where
  leader : ι
  term : ℕ
  log : List α
  deriving DecidableEq

/-- A node will keep the entry at a position of its log. -/
structure Promise (ι α : Type*) where
  node : ι
  index : ℕ
  entry : α
  deriving DecidableEq

/-- Votes, leaders and promises of a run.  The latest leader comes first. -/
structure Book (ι α : Type*) where
  ballots : List (Ballot ι α)
  reigns : List (Reign ι α)
  promises : List (Promise ι α)

variable {ι α : Type*} {term : α → ℕ} {llog : ℕ → List α} {l : List α}

/-- The log `l'` is as up to date as `l`: the terms of the last entries are compared, and for equal
terms the positions. -/
def NotBehind (term : α → ℕ) (l l' : List α) : Prop :=
  toLex (endOf term l).swap ≤ toLex (endOf term l').swap

instance (term : α → ℕ) (l l' : List α) : Decidable (NotBehind term l l') :=
  inferInstanceAs (Decidable (_ ≤ _))

theorem NotBehind.trans {l₁ l₂ l₃ : List α} (h₁ : NotBehind term l₁ l₂)
    (h₂ : NotBehind term l₂ l₃) : NotBehind term l₁ l₃ :=
  le_trans h₁ h₂

/-- One of the leaders is of a later term than the entry and was elected without it. -/
def Superseded (term : α → ℕ) (reigns : List (Reign ι α)) (p : Promise ι α) : Prop :=
  ∃ r ∈ reigns, term p.entry < r.term ∧ r.log[p.index]? ≠ some p.entry

instance [DecidableEq α] (term : α → ℕ) (reigns : List (Reign ι α)) (p : Promise ι α) :
    Decidable (Superseded term reigns p) :=
  inferInstanceAs (Decidable (∃ r ∈ reigns, _))

theorem Superseded.cons {reigns : List (Reign ι α)} {p : Promise ι α}
    (h : Superseded term reigns p) (r : Reign ι α) : Superseded term (r :: reigns) p := by
  obtain ⟨r', hr', hlater⟩ := h
  exact ⟨r', List.mem_cons_of_mem _ hr', hlater⟩

/-- The log has the promised entry, or need not have it any more. -/
def Honours (term : α → ℕ) (reigns : List (Reign ι α)) (p : Promise ι α) (log : List α) : Prop :=
  log[p.index]? = some p.entry ∨ Superseded term reigns p

theorem Honours.cons {reigns : List (Reign ι α)} {p : Promise ι α} {log : List α}
    (h : Honours term reigns p log) (r : Reign ι α) : Honours term (r :: reigns) p log :=
  h.imp_right fun h => h.cons r

/-- Promises are honoured by the logs of the nodes, by the logs behind later votes, and by those
behind a majority of the votes for a leader, the last up to the election of the leader. -/
structure Sound (term : α → ℕ) (members : Finset ι) (logs : ι → List α) (b : Book ι α) : Prop where
  kept : ∀ p ∈ b.promises, Honours term b.reigns p (logs p.node)
  voted : ∀ p ∈ b.promises, ∀ v ∈ b.ballots, v.voter = p.node → term p.entry < v.term →
    Honours term b.reigns p v.log
  backed : ∀ r older, r :: older <:+ b.reigns → ∃ voters ⊆ members,
    members.card < 2 * voters.card ∧ ∀ x ∈ voters, ∃ v ∈ b.ballots, v.voter = x ∧ v.term = r.term ∧
      NotBehind term v.log r.log ∧ ∀ p ∈ b.promises, p.node = x → term p.entry < r.term →
        Honours term older p v.log

/-! ## What keeps a book sound -/

namespace Sound

variable {members : Finset ι} {logs logs' : ι → List α} {b : Book ι α}

theorem empty (term : α → ℕ) (members : Finset ι) (logs : ι → List α) :
    Sound term members logs ⟨[], [], []⟩ where
  kept _ h := nomatch h
  voted _ h := nomatch h
  backed _ _ h := absurd (List.suffix_nil.mp h) (List.cons_ne_nil _ _)

/-- **The logs change**, and no promise is broken. -/
theorem relog (h : Sound term members logs b)
    (hkept : ∀ p ∈ b.promises, (logs p.node)[p.index]? = some p.entry →
      Honours term b.reigns p (logs' p.node)) : Sound term members logs' b :=
  { h with kept := fun p hp => (h.kept p hp).elim (hkept p hp) Or.inr }

/-- **Votes are cast.** -/
theorem vote (h : Sound term members logs b) {ballots : List (Ballot ι α)}
    (hlogs : ∀ v ∈ ballots, v.log = logs v.voter) :
    Sound term members logs { b with ballots := b.ballots ++ ballots } where
  kept := h.kept
  voted p hp v hv hvoter hterm := by
    rcases List.mem_append.mp hv with hv | hv
    · exact h.voted p hp v hv hvoter hterm
    · rw [hlogs v hv, hvoter]
      exact h.kept p hp
  backed r older hsuffix := by
    obtain ⟨voters, hsub, hmajority, hvotes⟩ := h.backed r older hsuffix
    refine ⟨voters, hsub, hmajority, fun x hx => ?_⟩
    obtain ⟨v, hv, hvote⟩ := hvotes x hx
    exact ⟨v, List.mem_append_left _ hv, hvote⟩

/-- **Promises are made**, for entries that the nodes have, by nodes that have not voted in a later
term than that of the entry. -/
theorem promise (h : Sound term members logs b) {promises : List (Promise ι α)}
    (hholds : ∀ p ∈ promises, (logs p.node)[p.index]? = some p.entry)
    (hfirst : ∀ p ∈ promises, ∀ v ∈ b.ballots, v.voter = p.node → v.term ≤ term p.entry) :
    Sound term members logs { b with promises := b.promises ++ promises } where
  kept p hp := by
    rcases List.mem_append.mp hp with hp | hp
    · exact h.kept p hp
    · exact Or.inl (hholds p hp)
  voted p hp v hv hvoter hterm := by
    rcases List.mem_append.mp hp with hp | hp
    · exact h.voted p hp v hv hvoter hterm
    · exact absurd (hfirst p hp v hv hvoter) hterm.not_ge
  backed r older hsuffix := by
    obtain ⟨voters, hsub, hmajority, hvotes⟩ := h.backed r older hsuffix
    refine ⟨voters, hsub, hmajority, fun x hx => ?_⟩
    obtain ⟨v, hv, hvoter, hvterm, hbehind, hpromises⟩ := hvotes x hx
    refine ⟨v, hv, hvoter, hvterm, hbehind, fun p hp hnode hterm => ?_⟩
    rcases List.mem_append.mp hp with hp | hp
    · exact hpromises p hp hnode hterm
    · have hle := hfirst p hp v hv (hvoter.trans hnode.symm)
      rw [hvterm] at hle
      exact absurd hle hterm.not_ge

/-- **A leader is elected** by a majority, with a log that is not behind those of its voters. -/
theorem elect (h : Sound term members logs b) {r : Reign ι α} {voters : Finset ι}
    (hsub : voters ⊆ members) (hmajority : members.card < 2 * voters.card)
    (hvotes : ∀ x ∈ voters, ∃ v ∈ b.ballots, v.voter = x ∧ v.term = r.term ∧
      NotBehind term v.log r.log) :
    Sound term members logs { b with reigns := r :: b.reigns } where
  kept p hp := (h.kept p hp).cons r
  voted p hp v hv hvoter hterm := (h.voted p hp v hv hvoter hterm).cons r
  backed r' older hsuffix := by
    rcases List.suffix_cons_iff.mp hsuffix with heq | hsuffix
    · obtain ⟨rfl, rfl⟩ := List.cons.inj heq
      refine ⟨voters, hsub, hmajority, fun x hx => ?_⟩
      obtain ⟨v, hv, hvoter, hvterm, hbehind⟩ := hvotes x hx
      refine ⟨v, hv, hvoter, hvterm, hbehind, fun p hp hnode hterm => ?_⟩
      exact h.voted p hp v hv (hvoter.trans hnode.symm) (hvterm ▸ hterm)
    · exact h.backed r' older hsuffix

end Sound

/-! ## Leader completeness -/

/-- Leaders in the order of their elections, the latest first: each was elected with a log that
follows the leaders before it, and its own log went on from there. -/
def Succession (term : α → ℕ) (llog : ℕ → List α) (reigns : List (Reign ι α)) : Prop :=
  ∀ r older, r :: older <:+ reigns → Coherent term llog r.log ∧ r.log <+: llog r.term ∧
    ∀ e ∈ r.log, term e < r.term ∧ ∃ r' ∈ older, r'.term = term e

theorem Succession.of_suffix {reigns older : List (Reign ι α)} (h : Succession term llog reigns)
    (hsuffix : older <:+ reigns) : Succession term llog older :=
  fun r rest hr => h r rest (hr.trans hsuffix)

theorem Succession.of_mem {reigns : List (Reign ι α)} (h : Succession term llog reigns)
    {r : Reign ι α} (hr : r ∈ reigns) : r.log <+: llog r.term ∧ ∀ e ∈ r.log, term e < r.term := by
  obtain ⟨newer, older, heq⟩ := List.append_of_mem hr
  obtain ⟨-, hextends, hbelow⟩ := h r older ⟨newer, heq.symm⟩
  exact ⟨hextends, fun e he => (hbelow e he).1⟩

/-- **A log that is not behind has the entry too**, if the leaders before have it. -/
theorem Succession.carries {r : Reign ι α} {older : List (Reign ι α)}
    (h : Succession term llog (r :: older)) {i : ℕ} {e : α} (hl : Coherent term llog l)
    (hsorted : ∀ x ∈ l, term x ≤ (endOf term l).2) (he : l[i]? = some e) (hpos : term e ≠ 0)
    (hbehind : NotBehind term l r.log)
    (holder : ∀ r' ∈ older, term e < r'.term → r'.log[i]? = some e) : r.log[i]? = some e := by
  obtain ⟨hcoherent, -, hbelow⟩ := h r older List.suffix_rfl
  have hle : term e ≤ (endOf term l).2 := hsorted e (List.mem_of_getElem? he)
  have hi : i ≤ (endOf term l).1 := by
    have := (List.getElem?_eq_some_iff.mp he).1
    rw [endOf_fst]
    omega
  have hends := Prod.Lex.toLex_le_toLex.mp hbehind
  simp only [Prod.fst_swap, Prod.snd_swap] at hends
  -- the last entry `x` of the log is not of an earlier term than `e`
  rcases List.eq_nil_or_concat r.log with hnil | ⟨init, x, hconcat⟩
  · rw [hnil, endOf_nil] at hends
    simp only at hends
    omega
  rw [List.concat_eq_append] at hconcat
  rw [hconcat, endOf_concat] at hends
  simp only at hends
  have hx : r.log[init.length]? = some x := by simp [hconcat]
  have hlog : r.log = (llog (term x)).take (init.length + 1) := by
    rw [← hcoherent _ x hx, List.take_of_length_le (by simp [hconcat])]
  -- so it is enough that the leader of the term of `x` has `e`, not after `x`
  suffices hsuff : i ≤ init.length ∧ (llog (term x))[i]? = some e by
    rw [hlog, List.getElem?_take_of_lt (by omega), hsuff.2]
  rcases Nat.lt_or_eq_of_le (show term e ≤ term x by omega) with hlt | heq
  · obtain ⟨r', hr', hterm⟩ := (hbelow x (List.mem_of_getElem? hx)).2
    obtain ⟨⟨rest, hrest⟩, hless⟩ := (h.of_suffix (List.suffix_cons r older)).of_mem hr'
    rw [hterm] at hrest hless
    have hentry := holder r' hr' (hterm.symm ▸ hlt)
    have hlength := (List.getElem?_eq_some_iff.mp hentry).1
    refine ⟨?_, by rw [← hrest, List.getElem?_append_left hlength, hentry]⟩
    -- the log that leader was elected with has entries of earlier terms only
    by_contra hbefore
    have hat := hcoherent.getElem? hx
    rw [← hrest, List.getElem?_append_left (by omega)] at hat
    exact absurd (hless x (List.mem_of_getElem? hat)) (lt_irrefl _)
  · exact ⟨by omega, heq ▸ hl.getElem? he⟩

/-- **Leader completeness.**  An entry that a majority has promised to keep is in the log of every
leader of a later term, at the moment of its election. -/
theorem Sound.complete [DecidableEq ι] {members : Finset ι} {logs : ι → List α} {b : Book ι α}
    (h : Sound term members logs b) (hreigns : Succession term llog b.reigns)
    (hballots : ∀ v ∈ b.ballots, Coherent term llog v.log ∧
      ∀ x ∈ v.log, term x ≤ (endOf term v.log).2) {i : ℕ} {e : α} (hpos : term e ≠ 0)
    {holders : Finset ι} (hsub : holders ⊆ members) (hmajority : members.card < 2 * holders.card)
    (hpromised : ∀ x ∈ holders, ⟨x, i, e⟩ ∈ b.promises) {r : Reign ι α} (hr : r ∈ b.reigns)
    (hlater : term e < r.term) : r.log[i]? = some e := by
  -- induction over the leaders, from the first one on
  suffices hall : ∀ reigns, reigns <:+ b.reigns → ∀ r ∈ reigns, term e < r.term →
      r.log[i]? = some e from hall _ List.suffix_rfl r hr hlater
  intro reigns
  induction reigns with
  | nil => exact fun _ r hr => nomatch hr
  | cons r older ih =>
    intro hsuffix
    have holder := ih ((List.suffix_cons r older).trans hsuffix)
    refine List.forall_mem_cons.mpr ⟨fun hlater => ?_, holder⟩
    obtain ⟨voters, hvsub, hvmajority, hvotes⟩ := h.backed r older hsuffix
    obtain ⟨x, hx⟩ := Finset.inter_nonempty_of_card_lt_card_add_card hsub hvsub (by omega)
    obtain ⟨hxholds, hxvotes⟩ := Finset.mem_inter.mp hx
    obtain ⟨v, hv, -, -, hbehind, hpromises⟩ := hvotes x hxvotes
    have hentry : v.log[i]? = some e := by
      rcases hpromises _ (hpromised x hxholds) rfl hlater with hentry | ⟨r', hr', hlater', hnot⟩
      · exact hentry
      · exact absurd (holder r' hr' hlater') hnot
    exact (hreigns.of_suffix hsuffix).carries (hballots v hv).1 (hballots v hv).2 hentry hpos hbehind
      holder

/-! ## Committed fronts -/

/-- The front of a log up to position `k` is that of a leader which has committed position `k` or a
later one; `decrees` are the terms and positions of all commits. -/
def Settled (llog : ℕ → List α) (decrees : List (ℕ × ℕ)) (l : List α) (k : ℕ) : Prop :=
  ∃ c ∈ decrees, k ≤ c.2 ∧ l.take (k + 1) = (llog c.1).take (k + 1)

/-- What a leader commits is in its log, -/
def InLogs (llog : ℕ → List α) (decrees : List (ℕ × ℕ)) : Prop :=
  ∀ c ∈ decrees, c.2 < (llog c.1).length

/-- and in the logs of all later leaders that commit something. -/
def Prevails (llog : ℕ → List α) (decrees : List (ℕ × ℕ)) : Prop :=
  ∀ c ∈ decrees, ∀ c' ∈ decrees, c.1 ≤ c'.1 →
    (llog c.1).take (c.2 + 1) = (llog c'.1).take (c.2 + 1)

namespace Settled

variable {llog llog' : ℕ → List α} {decrees decrees' : List (ℕ × ℕ)} {l l' : List α} {k k' : ℕ}

theorem of_le (h : Settled llog decrees l k) (hle : k' ≤ k) : Settled llog decrees l k' := by
  obtain ⟨c, hc, hk, htake⟩ := h
  refine ⟨c, hc, hle.trans hk, ?_⟩
  have hfront := congrArg (List.take (k' + 1)) htake
  rwa [List.take_take, List.take_take, min_eq_left (by omega)] at hfront

/-- The position is one of the log. -/
theorem lt_length (h : Settled llog decrees l k) (hinLogs : InLogs llog decrees) :
    k < l.length := by
  obtain ⟨c, hc, hk, htake⟩ := h
  have hlength := congrArg List.length htake
  have hlt := hinLogs c hc
  rw [List.length_take, List.length_take] at hlength
  omega

/-- It is about the front only. -/
theorem of_front (h : Settled llog decrees l k) (hinLogs : InLogs llog decrees)
    (hfront : ∀ (i : ℕ) (e : α), i ≤ k → l[i]? = some e → l'[i]? = some e) :
    Settled llog decrees l' k := by
  have hlt := h.lt_length hinLogs
  obtain ⟨c, hc, hk, htake⟩ := h
  refine ⟨c, hc, hk, htake ▸ List.ext_getElem? fun i => ?_⟩
  by_cases hi : i < k + 1
  · have hentry := List.getElem?_eq_getElem (show i < l.length by omega)
    rw [List.getElem?_take_of_lt hi, List.getElem?_take_of_lt hi, hentry]
    exact hfront i _ (by omega) hentry
  · rw [List.getElem?_eq_none (by rw [List.length_take]; omega),
      List.getElem?_eq_none (by rw [List.length_take]; omega)]

/-- More is committed, and the logs of the leaders grow. -/
theorem mono (h : Settled llog decrees l k) (hinLogs : InLogs llog decrees)
    (hdecrees : decrees ⊆ decrees') (hllog : ∀ t, llog t <+: llog' t) :
    Settled llog' decrees' l k := by
  obtain ⟨c, hc, hk, htake⟩ := h
  obtain ⟨rest, hrest⟩ := hllog c.1
  have hlt := hinLogs c hc
  exact ⟨c, hdecrees hc, hk, by rw [← hrest, List.take_append_of_le_length (by omega), htake]⟩

/-- It is the same for a log and for that of the leader of one of its entries, up to the entry. -/
theorem iff_of_entry (hl : Coherent term llog l) {i : ℕ} {e : α} (he : l[i]? = some e)
    (hk : k ≤ i) : Settled llog decrees (llog (term e)) k ↔ Settled llog decrees l k := by
  have hfront := congrArg (List.take (k + 1)) (hl i e he)
  rw [List.take_take, List.take_take, min_eq_left (by omega)] at hfront
  unfold Settled
  rw [hfront]

end Settled

/-- Entry `e` is at position `j` of the log of a leader that has committed the position or a later
one. -/
def Decided (llog : ℕ → List α) (decrees : List (ℕ × ℕ)) (j : ℕ) (e : α) : Prop :=
  ∃ c ∈ decrees, j ≤ c.2 ∧ (llog c.1)[j]? = some e

namespace Decided

variable {llog llog' : ℕ → List α} {decrees decrees' : List (ℕ × ℕ)} {j : ℕ} {e e' : α}

theorem of_settled {l : List α} {k : ℕ} (h : Settled llog decrees l k) (hj : j ≤ k)
    (he : l[j]? = some e) : Decided llog decrees j e := by
  obtain ⟨c, hc, hk, htake⟩ := h
  refine ⟨c, hc, hj.trans hk, ?_⟩
  have hat := congrArg (·[j]?) htake
  simp only [List.getElem?_take_of_lt (Nat.lt_succ_of_le hj)] at hat
  rw [← hat, he]

/-- More is committed, and the logs of the leaders grow. -/
theorem mono (h : Decided llog decrees j e) (hdecrees : decrees ⊆ decrees')
    (hllog : ∀ t, llog t <+: llog' t) : Decided llog' decrees' j e := by
  obtain ⟨c, hc, hj, he⟩ := h
  exact ⟨c, hdecrees hc, hj, getElem?_of_prefix (hllog c.1) he⟩

/-- **Nothing else is decided.** -/
theorem unique (h : Decided llog decrees j e) (h' : Decided llog decrees j e')
    (hprevails : Prevails llog decrees) : e = e' := by
  obtain ⟨c, hc, hj, he⟩ := h
  obtain ⟨c', hc', hj', he'⟩ := h'
  have hcut : ∀ (m : List α) (i : ℕ), j ≤ i → (m.take (i + 1))[j]? = m[j]? := fun m i hi =>
    List.getElem?_take_of_lt (Nat.lt_succ_of_le hi)
  have hleaders : (llog c.1)[j]? = (llog c'.1)[j]? := by
    rcases le_total c.1 c'.1 with hle | hle
    · rw [← hcut _ c.2 hj, hprevails c hc c' hc' hle, hcut _ c.2 hj]
    · rw [← hcut (llog c'.1) c'.2 hj', hprevails c' hc' c hc hle, hcut _ c'.2 hj']
  exact Option.some.inj (he.symm.trans (hleaders.trans he'))

end Decided

end Reigns
