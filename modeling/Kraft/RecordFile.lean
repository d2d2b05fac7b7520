/-
# Files of records

A file that is written record by record, together with the list of the offsets at which
the records end.  `RecordFile.endsFrom base records` is that list for records written from
offset `base` on.  The lemmas say how the offsets and the contents follow an append and a
truncation, and where a record is found in the file:

* `endsFrom_append_singleton`, `endsFrom_take` : appending and truncating;
* `getElem?_endsFrom`, `suffix_flatten_take` : the file up to the end of a record ends with
  that record.
-/
import Mathlib.Data.List.Basic
import Mathlib.Data.List.Infix

namespace RecordFile

variable {α : Type*}

/-- A task in a list of two parts is in one of them. -/
theorem split_append {left right before after : List α} {x : α}
    (h : left ++ right = before ++ x :: after) :
    (∃ after', left = before ++ x :: after' ∧ after = after' ++ right) ∨
      ∃ before', before = left ++ before' ∧ right = before' ++ x :: after := by
  rcases List.append_eq_append_iff.mp h with ⟨before', hbefore, hright⟩ | ⟨rest, hleft, hrest⟩
  · exact Or.inr ⟨before', hbefore, hright⟩
  · cases rest with
    | nil => exact Or.inr ⟨[], by simpa using hleft.symm, by simpa using hrest.symm⟩
    | cons y rest =>
      obtain ⟨rfl, rfl⟩ := List.cons.inj hrest
      exact Or.inl ⟨rest, hleft, rfl⟩

theorem split_singleton {x y : α} {before after : List α} (h : [x] = before ++ y :: after) :
    before = [] ∧ x = y ∧ after = [] := by
  cases before with
  | nil =>
    obtain ⟨rfl, rfl⟩ := List.cons.inj h
    exact ⟨rfl, rfl, rfl⟩
  | cons z before =>
    have := congrArg List.length h
    simp at this

/-- A position of a list is still there after an append. -/
theorem getElem?_append_some {log : List α} {i : ℕ} {x : α} (h : log[i]? = some x)
    (more : List α) : (log ++ more)[i]? = some x := by
  obtain ⟨hi, -⟩ := List.getElem?_eq_some_iff.mp h
  rw [List.getElem?_append_left hi, h]

/-- The offsets at which the records end, in a file that starts at offset `base`. -/
def endsFrom (base : ℕ) : List (List α) → List ℕ
  | [] => []
  | record :: rest => (base + record.length) :: endsFrom (base + record.length) rest

@[simp] theorem endsFrom_nil (base : ℕ) : endsFrom base ([] : List (List α)) = [] := rfl

@[simp] theorem length_endsFrom (base : ℕ) (records : List (List α)) :
    (endsFrom base records).length = records.length := by
  induction records generalizing base with
  | nil => rfl
  | cons record rest ih => simp [endsFrom, ih]

theorem endsFrom_append_singleton (base : ℕ) (records : List (List α)) (record : List α) :
    endsFrom base (records ++ [record]) =
      endsFrom base records ++ [base + records.flatten.length + record.length] := by
  induction records generalizing base with
  | nil => simp [endsFrom]
  | cons first rest ih => simp [endsFrom, ih, Nat.add_assoc]

theorem endsFrom_take (base : ℕ) (records : List (List α)) (k : ℕ) :
    endsFrom base (records.take k) = (endsFrom base records).take k := by
  induction records generalizing base k with
  | nil => simp
  | cons record rest ih =>
    cases k with
    | zero => rfl
    | succ k => simp [endsFrom, ih]

theorem le_of_mem_endsFrom {base finish : ℕ} {records : List (List α)}
    (h : finish ∈ endsFrom base records) : base ≤ finish := by
  induction records generalizing base with
  | nil => cases h
  | cons record rest ih =>
    rcases List.mem_cons.mp h with rfl | h
    · exact Nat.le_add_right _ _
    · exact (Nat.le_add_right _ _).trans (ih h)

/-- The last offset is the length of the file. -/
theorem getLast?_endsFrom (records : List (List α)) :
    (endsFrom 0 records).getLast?.getD 0 = records.flatten.length := by
  rcases List.eq_nil_or_concat records with rfl | ⟨init, last, rfl⟩
  · rfl
  · rw [List.concat_eq_append, endsFrom_append_singleton, List.getLast?_concat]
    simp

theorem getElem?_endsFrom {base : ℕ} {records : List (List α)} {i : ℕ}
    (hi : i < records.length) :
    (endsFrom base records)[i]? = some (base + (records.take (i + 1)).flatten.length) := by
  induction records generalizing base i with
  | nil => simp at hi
  | cons record rest ih =>
    cases i with
    | zero => simp [endsFrom]
    | succ i =>
      have hrest : i < rest.length := by simpa using hi
      simp [endsFrom, ih hrest, Nat.add_assoc]

/-- The first records are the first part of the file. -/
theorem flatten_take_isPrefix (records : List (List α)) (k : ℕ) :
    (records.take k).flatten <+: records.flatten :=
  ⟨(records.drop k).flatten, by rw [← List.flatten_append, List.take_append_drop]⟩

theorem flatten_take (records : List (List α)) (k : ℕ) :
    records.flatten.take (records.take k).flatten.length = (records.take k).flatten :=
  (List.prefix_iff_eq_take.mp (flatten_take_isPrefix records k)).symm

/-- A record is the end of the file up to its own end. -/
theorem suffix_flatten_take {records : List (List α)} {i : ℕ} {record : List α}
    (hrecord : records[i]? = some record) : record <:+ (records.take (i + 1)).flatten := by
  obtain ⟨hi, rfl⟩ := List.getElem?_eq_some_iff.mp hrecord
  rw [List.take_add_one, List.getElem?_eq_getElem hi, Option.toList_some, List.flatten_append,
    List.flatten_singleton]
  exact List.suffix_append _ _

end RecordFile
