/-
# Logs that follow leaders

A general fact about replicated logs.  Entries carry a term, every term has at most one
leader, and `llog t` is the log of the leader of term `t`, which only grows.  A log is
`Coherent` if each of its entries, together with all before it, stands as it does in the log
of the leader of the entry's term.

* `Coherent.take_eq` : two coherent logs that have entries of one term at one position agree
  up to it.
* `eq_of_endOf_eq` : coherent logs that end at the same position with the same term are
  equal, so a consistency check on the end of a log is a check on the whole log.
-/
import Mathlib.Data.List.Basic
import Mathlib.Logic.Function.Basic

namespace LeaderLogs

variable {α : Type*} {term : α → ℕ} {llog : ℕ → List α} {l l' : List α}

/-- Position and term of the last entry, zero if there is none. -/
def endOf (term : α → ℕ) (l : List α) : ℕ × ℕ :=
  match l.getLast? with
  | some e => (l.length - 1, term e)
  | none => (0, 0)

@[simp] theorem endOf_nil : endOf term ([] : List α) = (0, 0) := rfl

@[simp] theorem endOf_concat (l : List α) (e : α) : endOf term (l ++ [e]) = (l.length, term e) := by
  simp [endOf]

theorem endOf_fst (l : List α) : (endOf term l).1 = l.length - 1 := by
  unfold endOf
  rcases h : l.getLast? with _ | e
  · rw [List.getLast?_eq_none_iff.mp h]
    rfl
  · rfl

/-- A log that goes on keeps its entries. -/
theorem getElem?_of_prefix (h : l <+: l') {i : ℕ} {e : α} (he : l[i]? = some e) : l'[i]? = some e := by
  obtain ⟨hi, rfl⟩ := List.getElem?_eq_some_iff.mp he
  exact List.prefix_iff_getElem?.mp h i hi

/-- Every entry stands as in the log of the leader of its term. -/
def Coherent (term : α → ℕ) (llog : ℕ → List α) (l : List α) : Prop :=
  ∀ i e, l[i]? = some e → l.take (i + 1) = (llog (term e)).take (i + 1)

/-- An entry is found in the log of the leader of its term. -/
theorem Coherent.getElem? (h : Coherent term llog l) {i : ℕ} {e : α} (he : l[i]? = some e) :
    (llog (term e))[i]? = some e := by
  have htake := congrArg (·[i]?) (h i e he)
  simp only [List.getElem?_take_of_lt (Nat.lt_succ_self i)] at htake
  rw [← htake, he]

theorem Coherent.of_prefix (h : Coherent term llog l) (hl : l' <+: l) : Coherent term llog l' := by
  intro i e he
  obtain ⟨rest, rfl⟩ := hl
  have hlt : i < l'.length := (List.getElem?_eq_some_iff.mp he).1
  rw [← h i e (by rw [List.getElem?_append_left hlt, he]), List.take_append_of_le_length hlt]

theorem Coherent.take (h : Coherent term llog l) (k : ℕ) : Coherent term llog (l.take k) :=
  h.of_prefix (List.take_prefix k l)

/-- **Log matching.** -/
theorem Coherent.take_eq (h : Coherent term llog l) (h' : Coherent term llog l') {i : ℕ} {e e' : α}
    (he : l[i]? = some e) (he' : l'[i]? = some e') (hterm : term e = term e') :
    l.take (i + 1) = l'.take (i + 1) := by
  rw [h i e he, h' i e' he', hterm]

/-- **Equal ends, equal logs**, if no entry has term zero. -/
theorem eq_of_endOf_eq (h : Coherent term llog l) (h' : Coherent term llog l')
    (hpos : ∀ e ∈ l, term e ≠ 0) (hpos' : ∀ e ∈ l', term e ≠ 0)
    (hend : endOf term l = endOf term l') : l = l' := by
  rcases List.eq_nil_or_concat l with rfl | ⟨init, e, rfl⟩
  · rcases List.eq_nil_or_concat l' with rfl | ⟨init', e', rfl⟩
    · rfl
    · rw [List.concat_eq_append] at hpos' hend
      rw [endOf_nil, endOf_concat, Prod.mk.injEq] at hend
      exact absurd hend.2.symm (hpos' e' (by simp))
  · rw [List.concat_eq_append] at h hpos hend ⊢
    rcases List.eq_nil_or_concat l' with rfl | ⟨init', e', rfl⟩
    · rw [endOf_nil, endOf_concat, Prod.mk.injEq] at hend
      exact absurd hend.2 (hpos e (by simp))
    · rw [List.concat_eq_append] at h' hend ⊢
      rw [endOf_concat, endOf_concat, Prod.mk.injEq] at hend
      have hat : (init ++ [e])[init.length]? = some e := by simp
      have hat' : (init' ++ [e'])[init.length]? = some e' := by simp [hend.1]
      have htake := h.take_eq h' hat hat' hend.2
      rwa [List.take_of_length_le (by simp), List.take_of_length_le (by simp [hend.1])] at htake

/-- One leader's log grows. -/
theorem prefix_update {t : ℕ} (h : llog t <+: l) (t' : ℕ) :
    llog t' <+: Function.update llog t l t' := by
  by_cases ht : t' = t
  · subst ht
    rwa [Function.update_self]
  · simp [Function.update_of_ne ht]

end LeaderLogs
