/-
# Recovery after a crash

A crash may leave any first part of the bytes of a log file.  `recovery_exact_iff` says what a
restart makes of it: the loop of `deserialize_replication_log` ends, the recovered log consists of the
entries whose bytes are all there, with their offsets, the starts of their terms and the end of the
log, and the next term is above all terms in the log.  It is above all terms voted in as well, unless
one of them is the last `u64`: then the sum that gives the next term overflows
(`next_term_overflows`).

* `readLoop` is the loop with a bound on its iterations, which the model of `readEntries` cannot
  tell from an end of the file;
* `lookup_termStarts` : the starts of the terms of a log whose terms do not fall.
-/
import Kraft.Recovery

namespace Kraft

open Storage

variable {log : List OwnedLogEntry} {entry : OwnedLogEntry}

/-! ## The loop ends -/

section Loop

variable [Capnp]

/-- The loop of `deserialize_replication_log`, `none` if it has not ended after `fuel` iterations. -/
def Storage.readLoop : ℕ → ℕ → List UInt8 → Option (List (OwnedLogEntry × ℕ))
  | 0, _, _ => none
  | fuel + 1, offset, bytes =>
    if bytes = [] then some []
    else
      match Capnp.bytesLeft bytes with
      | none => some []
      | some left =>
        let consumed := bytes.length - left
        (readLoop fuel (offset + consumed) (bytes.drop consumed)).map fun rest =>
          match Capnp.decode (bytes.take consumed) with
          | some entry => (entry, offset + consumed) :: rest
          | none => rest

/-- The loop ends where nothing can be read. -/
theorem readLoop_of_unreadable {bytes : List UInt8}
    (h : bytes = [] ∨ Capnp.bytesLeft bytes = none) (fuel offset : ℕ) :
    readLoop (fuel + 1) offset bytes = some [] := by
  rw [readLoop]
  rcases h with hnil | hnone
  · rw [if_pos hnil]
  · rw [hnone]
    exact ite_self _

/-- The loop reads the entries in front of what cannot be read. -/
theorem readLoop_append [LawfulCapnp] (entries : List OwnedLogEntry) {tail : List UInt8}
    (htail : tail = [] ∨ Capnp.bytesLeft tail = none) :
    ∀ fuel offset : ℕ, entries.length < fuel →
      readLoop fuel offset (encodeAll entries ++ tail) =
        some (entries.zip (RecordFile.endsFrom offset (entries.map Capnp.encode))) := by
  induction entries with
  | nil =>
    intro fuel offset hfuel
    obtain ⟨fuel, rfl⟩ : ∃ m, fuel = m + 1 := ⟨fuel - 1, by simp at hfuel; omega⟩
    exact readLoop_of_unreadable htail fuel offset
  | cons entry rest ih =>
    intro fuel offset hfuel
    obtain ⟨fuel, rfl⟩ : ∃ m, fuel = m + 1 := ⟨fuel - 1, by simp at hfuel; omega⟩
    have hbytes : encodeAll (entry :: rest) ++ tail =
        Capnp.encode entry ++ (encodeAll rest ++ tail) := by
      simp [encodeAll]
    have hconsumed : (Capnp.encode entry ++ (encodeAll rest ++ tail)).length -
        (encodeAll rest ++ tail).length = (Capnp.encode entry).length := by
      rw [List.length_append]
      omega
    -- a message is self-delimiting, so the loop consumes exactly the first entry
    rw [hbytes, readLoop, if_neg (by simp [encode_ne_nil]), LawfulCapnp.bytesLeft_encode]
    dsimp only
    rw [hconsumed, List.take_left, List.drop_left, LawfulCapnp.decode_encode,
      ih fuel _ (by simpa using hfuel)]
    rfl

end Loop

/-! ## The starts of the terms -/

/-- The first position of a term. -/
def firstOfTerm (log : List OwnedLogEntry) (term : ℕ) : Option ℕ :=
  log.findIdx? fun entry => entry.term = term

theorem firstOfTerm_cons (entry : OwnedLogEntry) (rest : List OwnedLogEntry) (term : ℕ) :
    firstOfTerm (entry :: rest) term =
      if entry.term = term then some 0 else (firstOfTerm rest term).map (· + 1) := by
  unfold firstOfTerm
  rw [List.findIdx?_cons]
  simp

theorem firstOfTerm_eq_none {term : ℕ} (h : ∀ entry ∈ log, term < entry.term) :
    firstOfTerm log term = none := by
  unfold firstOfTerm
  rw [List.findIdx?_eq_none_iff]
  intro entry hentry
  simpa using (h entry hentry).ne'

/-- Positions in a log that starts at position `i`. -/
theorem map_firstOfTerm_rest (rest : List OwnedLogEntry) (term i : ℕ) :
    ((firstOfTerm rest term).map (· + 1)).map (i + ·) = (firstOfTerm rest term).map (i + 1 + ·) := by
  rw [Option.map_map]
  refine Option.map_congr fun j _ => ?_
  show i + (j + 1) = i + 1 + j
  omega

/-- The loop that builds `term_start_index`, on a log whose terms do not fall and start with
`prevTerm` or above: the terms above `prevTerm` get their first positions. -/
theorem lookup_termStarts (term : ℕ) :
    ∀ {i prevTerm : ℕ} {starts : HashMap ℕ}, log.Pairwise (fun a b => a.term ≤ b.term) →
      (∀ entry ∈ log, prevTerm ≤ entry.term) →
        (termStarts i prevTerm log starts).lookup term =
          if prevTerm < term then ((firstOfTerm log term).map (i + ·)).or (starts.lookup term)
          else starts.lookup term := by
  induction log with
  | nil =>
    intro i prevTerm starts _ _
    exact (ite_self _).symm
  | cons entry rest ih =>
    intro i prevTerm starts hsorted hle
    obtain ⟨hfirst, hrest⟩ := List.pairwise_cons.mp hsorted
    have hprev := hle entry (List.mem_cons_self ..)
    rw [firstOfTerm_cons, termStarts]
    by_cases hnew : entry.term ≠ prevTerm
    · rw [if_pos hnew, ih hrest hfirst]
      rcases lt_trichotomy term entry.term with hlt | rfl | hlt
      · -- an earlier term does not occur any more
        rw [if_neg hlt.not_gt, AList.lookup_insert_ne hlt.ne, if_neg hlt.ne', firstOfTerm_eq_none
          fun e he => hlt.trans_le (hfirst e he)]
        exact (ite_self _).symm
      · rw [if_neg (lt_irrefl _), AList.lookup_insert, if_pos (by omega), if_pos rfl]
        rfl
      · rw [if_pos hlt, AList.lookup_insert_ne hlt.ne', if_pos (by omega), if_neg hlt.ne,
          map_firstOfTerm_rest]
    · -- the term goes on, and its start is not touched
      have hsame : entry.term = prevTerm := not_not.mp hnew
      rw [if_neg hnew, ih hrest fun e he => hle e (List.mem_cons_of_mem _ he)]
      split_ifs with hlt heq
      · omega
      · rw [map_firstOfTerm_rest]
      · rfl

/-- **The starts of the terms** of a log whose terms are positive and do not fall. -/
theorem lookup_termStarts_recovered (hsorted : log.Pairwise fun a b => a.term ≤ b.term)
    (hpos : ∀ entry ∈ log, 1 ≤ entry.term) (term : ℕ) :
    (termStarts 0 0 log ∅).lookup term = firstOfTerm log term := by
  rw [lookup_termStarts term hsorted fun _ _ => Nat.zero_le _]
  split_ifs with hterm
  · rw [AList.lookup_empty, Option.or_none]
    simp
  · rw [AList.lookup_empty, firstOfTerm_eq_none]
    intro entry hentry
    have := hpos entry hentry
    omega

/-! ## The entries before a cut -/

section Cut

variable [Capnp]

/-- Of entries written from offset `base` on, those that end at offset `limit` or before. -/
def entriesBefore (base limit : ℕ) (entries : List OwnedLogEntry) : List OwnedLogEntry :=
  ((entries.zip (RecordFile.endsFrom base (entries.map Capnp.encode))).filter (·.2 ≤ limit)).map (·.1)

theorem entriesBefore_sublist (base limit : ℕ) (entries : List OwnedLogEntry) :
    (entriesBefore base limit entries).Sublist entries := by
  have hzip : (entries.zip (RecordFile.endsFrom base (entries.map Capnp.encode))).map (·.1) =
      entries := List.map_fst_zip (by simp)
  conv_rhs => rw [← hzip]
  exact List.filter_sublist.map _

/-- An entry that reaches beyond the limit, and all after it. -/
theorem entriesBefore_cons_of_lt {base limit : ℕ} (rest : List OwnedLogEntry)
    (h : limit < base + (Capnp.encode entry).length) :
    entriesBefore base limit (entry :: rest) = [] := by
  unfold entriesBefore
  rw [List.map_eq_nil_iff, List.filter_eq_nil_iff]
  rintro ⟨e, finish⟩ hmem
  have hends : finish ∈ RecordFile.endsFrom base ((entry :: rest).map Capnp.encode) :=
    (List.of_mem_zip hmem).2
  rw [List.map_cons, RecordFile.endsFrom, List.mem_cons] at hends
  have hle : base + (Capnp.encode entry).length ≤ finish := by
    rcases hends with rfl | hends
    · exact le_rfl
    · exact RecordFile.le_of_mem_endsFrom hends
  simp
  omega

theorem entriesBefore_cons_of_le {base limit : ℕ} (rest : List OwnedLogEntry)
    (h : base + (Capnp.encode entry).length ≤ limit) :
    entriesBefore base limit (entry :: rest) =
      entry :: entriesBefore (base + (Capnp.encode entry).length) limit rest := by
  unfold entriesBefore
  rw [List.map_cons, RecordFile.endsFrom, List.zip_cons_cons, List.filter_cons_of_pos (by simpa using h)]
  rfl

/-- **A cut leaves the entries before it**, followed by what cannot be read. -/
theorem exists_torn_of_cut [LawfulCapnp] (entries : List OwnedLogEntry) : ∀ base cut : ℕ,
    ∃ tail, (encodeAll entries).take cut =
        encodeAll (entriesBefore base (base + cut) entries) ++ tail ∧
      (tail = [] ∨ Capnp.bytesLeft tail = none) := by
  induction entries with
  | nil => exact fun base cut => ⟨[], List.take_nil, Or.inl rfl⟩
  | cons entry rest ih =>
    intro base cut
    have hcons : encodeAll (entry :: rest) = Capnp.encode entry ++ encodeAll rest := by
      simp [encodeAll]
    rw [hcons]
    rcases Nat.lt_or_ge cut (Capnp.encode entry).length with hlt | hge
    · -- the cut is within the first entry
      rw [entriesBefore_cons_of_lt rest (by omega), List.take_append_of_le_length hlt.le]
      exact ⟨_, rfl, Or.inr (LawfulCapnp.bytesLeft_torn entry cut hlt)⟩
    · -- the first entry is complete, and the cut is within the others
      obtain ⟨cut', rfl⟩ : ∃ c, cut = (Capnp.encode entry).length + c :=
        ⟨cut - (Capnp.encode entry).length, by omega⟩
      obtain ⟨tail, hrest, htail⟩ := ih (base + (Capnp.encode entry).length) cut'
      refine ⟨tail, ?_, htail⟩
      rw [entriesBefore_cons_of_le rest (by omega), List.take_length_add_append, hrest,
        ← Nat.add_assoc]
      simp [encodeAll]

end Cut

/-! ## The next term -/

/-- `next_term` as the `u64` that the sum gives in a release build. -/
def Storage.RecoveredData.nextTermWord (recovered : RecoveredData) : ℕ := recovered.nextTerm % 2 ^ 64

theorem foldl_max_le_iff (terms : List ℕ) : ∀ {start bound : ℕ},
    terms.foldl max start ≤ bound ↔ start ≤ bound ∧ ∀ term ∈ terms, term ≤ bound := by
  induction terms with
  | nil => simp
  | cons term rest ih =>
    intro start bound
    rw [List.foldl_cons, ih, max_le_iff, List.forall_mem_cons, and_assoc]

theorem highestVoteTerm_le_iff {rows : List VoteRow} {bound : ℕ} :
    highestVoteTerm rows ≤ bound ↔ ∀ row ∈ rows, row.term ≤ bound := by
  unfold highestVoteTerm
  rw [foldl_max_le_iff, List.forall_mem_map]
  exact and_iff_right (Nat.zero_le _)

/-- The last term of a log is its highest. -/
theorem term_le_lastTerm (hsorted : log.Pairwise fun a b => a.term ≤ b.term) (h : entry ∈ log) :
    entry.term ≤ (log.getLast?.map (·.term)).getD 0 := by
  rcases List.eq_nil_or_concat log with rfl | ⟨front, last, rfl⟩
  · cases h
  · rw [List.concat_eq_append] at hsorted h ⊢
    rw [List.getLast?_concat]
    rcases List.mem_append.mp h with hfront | hlast
    · exact (List.pairwise_append.mp hsorted).2.2 entry hfront last (List.mem_singleton_self last)
    · rw [List.mem_singleton.mp hlast]
      exact le_rfl

/-- **When the next term is above all others.**  The terms in the log are no problem. -/
theorem nextTermWord_gt_iff {votes : List VoteRow} (recovered : RecoveredData)
    (hnext : recovered.nextTerm =
      max (highestVoteTerm votes) ((log.getLast?.map (·.term)).getD 0) + 1)
    (hsorted : log.Pairwise fun a b => a.term ≤ b.term)
    (hterms : ∀ entry ∈ log, entry.term < 2 ^ 64 - 1) (hvotes : ∀ row ∈ votes, row.term < 2 ^ 64) :
    ((∀ entry ∈ log, entry.term < recovered.nextTermWord) ∧
        ∀ row ∈ votes, row.term < recovered.nextTermWord) ↔
      ∀ row ∈ votes, row.term < 2 ^ 64 - 1 := by
  have hlast : (log.getLast?.map (·.term)).getD 0 < 2 ^ 64 - 1 := by
    rcases hlog : log.getLast? with _ | last
    · decide
    · exact hterms last (List.mem_of_getLast? hlog)
  have hvoted := highestVoteTerm_le_iff.mp (le_refl (highestVoteTerm votes))
  unfold RecoveredData.nextTermWord
  rw [hnext]
  constructor
  · rintro ⟨-, habove⟩ row hrow
    by_contra hmax
    -- a vote in the last term makes the sum overflow
    have hhigh : highestVoteTerm votes ≤ 2 ^ 64 - 1 :=
      highestVoteTerm_le_iff.mpr fun other hother => Nat.le_sub_one_of_lt (hvotes other hother)
    have hrow' := hvoted row hrow
    have hzero : max (highestVoteTerm votes) ((log.getLast?.map (·.term)).getD 0) + 1 = 2 ^ 64 := by
      omega
    have hlt := habove row hrow
    rw [hzero, Nat.mod_self] at hlt
    exact absurd hlt (Nat.not_lt_zero _)
  · intro hbound
    have hhigh : highestVoteTerm votes ≤ 2 ^ 64 - 2 :=
      highestVoteTerm_le_iff.mpr fun row hrow => by
        have := hbound row hrow
        omega
    rw [Nat.mod_eq_of_lt (by omega)]
    refine ⟨fun entry hentry => ?_, fun row hrow => ?_⟩
    · have := term_le_lastTerm hsorted hentry
      omega
    · have := hvoted row hrow
      omega

/-! ## The result -/

/-- What a restart makes of the first `cut` bytes of a file of entries. -/
structure RecoversExactly [Capnp] (entries : List OwnedLogEntry) (cut : ℕ) (votes : List VoteRow)
    (recovered : RecoveredData) : Prop where
  /-- the loop ends, with what the model says -/
  terminates : ∃ fuel, readLoop fuel 0 ((encodeAll entries).take cut) =
    some (recovered.replicationLog.zip recovered.logEntryEndOffsets)
  /-- the log consists of the entries that are wholly before the cut -/
  log : recovered.replicationLog = entriesBefore 0 cut entries
  /-- the offsets are the sums of their lengths -/
  offsets : recovered.logEntryEndOffsets =
    RecordFile.endsFrom 0 ((entriesBefore 0 cut entries).map Capnp.encode)
  /-- every term starts at its first position -/
  starts : ∀ term, recovered.termStartIndex.lookup term =
    firstOfTerm (entriesBefore 0 cut entries) term
  /-- the end of the log is that of the last entry -/
  last : (recovered.lastLogIndex, recovered.lastLogTerm) =
    ((entriesBefore 0 cut entries).getLast?.map fun e => (e.index, e.term)).getD (0, 0)
  /-- and the next term is above all terms -/
  nextTerm : (∀ entry ∈ entriesBefore 0 cut entries, entry.term < recovered.nextTermWord) ∧
    ∀ row ∈ votes, row.term < recovered.nextTermWord

/-- The end of the recovered log is that of its last entry. -/
theorem last_recoverPersistedData [Capnp] (bytes : List UInt8) (votes : List VoteRow) :
    ((recoverPersistedData bytes votes).lastLogIndex, (recoverPersistedData bytes votes).lastLogTerm) =
      ((recoverPersistedData bytes votes).replicationLog.getLast?.map fun e =>
        (e.index, e.term)).getD (0, 0) := by
  have hlast : ∀ last : Option OwnedLogEntry, ((last.map (·.index)).getD 0, (last.map (·.term)).getD 0) =
      (last.map fun e => (e.index, e.term)).getD (0, 0) := by
    rintro (_ | last) <;> rfl
  exact hlast _

/-- **Recovery is exact on every first part of the file**, unless a vote for the last term there is
was cast. -/
theorem recovery_exact_iff [Capnp] [LawfulCapnp] {entries : List OwnedLogEntry}
    (hsorted : entries.Pairwise fun a b => a.term ≤ b.term)
    (hterms : ∀ entry ∈ entries, 1 ≤ entry.term ∧ entry.term < 2 ^ 64 - 1) (cut : ℕ)
    {votes : List VoteRow} (hvotes : ∀ row ∈ votes, row.term < 2 ^ 64) :
    RecoversExactly entries cut votes
        (recoverPersistedData ((encodeAll entries).take cut) votes) ↔
      ∀ row ∈ votes, row.term < 2 ^ 64 - 1 := by
  obtain ⟨tail, hbytes, htail⟩ := exists_torn_of_cut entries 0 cut
  rw [Nat.zero_add] at hbytes
  have hsub := entriesBefore_sublist 0 cut entries
  have hkept := hsorted.sublist hsub
  obtain ⟨hlog, hoffsets⟩ := recoverPersistedData_append (entriesBefore 0 cut entries) htail votes
  rw [← hbytes] at hlog hoffsets
  have hnext := nextTermWord_gt_iff (recoverPersistedData ((encodeAll entries).take cut) votes)
    (by rw [← hlog]; rfl) hkept (fun entry hentry => (hterms entry (hsub.subset hentry)).2) hvotes
  refine ⟨fun h => hnext.mp h.nextTerm, fun h => ⟨⟨(entriesBefore 0 cut entries).length + 1, ?_⟩,
    hlog, hoffsets, ?_, ?_, hnext.mpr h⟩⟩
  · rw [hlog, hoffsets, hbytes]
    exact readLoop_append _ htail _ 0 (Nat.lt_succ_self _)
  · intro term
    rw [← lookup_termStarts_recovered hkept fun entry hentry => (hterms entry (hsub.subset hentry)).1,
      ← hlog]
    rfl
  · rw [last_recoverPersistedData, hlog]

/-- Two entries, the second of which has lost its last bytes, and a vote. -/
theorem recovery_exact_torn : letI := digitCapnp
    RecoversExactly [⟨0, 1, 0, 0, 2, 50, []⟩, ⟨1, 2, 0, 1, 3, 60, []⟩]
      (Capnp.encode ⟨0, 1, 0, 0, 2, 50, []⟩).length.succ [⟨3, 1⟩]
      (recoverPersistedData ((encodeAll [⟨0, 1, 0, 0, 2, 50, []⟩, ⟨1, 2, 0, 1, 3, 60, []⟩]).take
        (Capnp.encode ⟨0, 1, 0, 0, 2, 50, []⟩).length.succ) [⟨3, 1⟩]) :=
  (@recovery_exact_iff digitCapnp lawful_digitCapnp
    [⟨0, 1, 0, 0, 2, 50, []⟩, ⟨1, 2, 0, 1, 3, 60, []⟩] (by decide) (by decide) _ [⟨3, 1⟩]
    (by decide)).mpr (by decide)

/-- **The sum overflows.**  The node has voted in the last term there is. -/
theorem next_term_overflows :
    ¬ ∀ (_ : Capnp) (_ : LawfulCapnp) (entries : List OwnedLogEntry) (cut : ℕ)
      (votes : List VoteRow), entries.Pairwise (fun a b => a.term ≤ b.term) →
      (∀ entry ∈ entries, 1 ≤ entry.term ∧ entry.term < 2 ^ 64 - 1) →
      (∀ row ∈ votes, row.term < 2 ^ 64) →
        RecoversExactly entries cut votes
          (recoverPersistedData ((encodeAll entries).take cut) votes) := by
  intro h
  let _capnp := digitCapnp
  have hexact := h digitCapnp lawful_digitCapnp [] 0 [⟨2 ^ 64 - 1, 1⟩] .nil (by simp) (by decide)
  exact absurd (hexact.nextTerm.2 ⟨2 ^ 64 - 1, 1⟩ (by simp)) (by decide)

end Kraft
