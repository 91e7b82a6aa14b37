/-
# Records behind a table of offsets

A file for random access: the number of its records, for each record the place where it begins,
counted from the end of the table, and then the records, one after the other.  A reader takes
slices; a slice that does not lie inside the file has no value.

* `slice_table`: the entry of a record says how long all records before it are;
* `slice_record`: what lies at that place is the record, however long the others are.
-/
import ZearchEngine.Lib.LengthPrefix

namespace OffsetTable

open LengthPrefix

/-! ## 1. Slices -/

/-- `data[start..stop]`. -/
def slice (data : Bytes) (start stop : Nat) : Option Bytes :=
  if start ≤ stop ∧ stop ≤ data.length then some ((data.drop start).take (stop - start)) else none

theorem slice_of_le {data : Bytes} {start stop : Nat} (hle : start ≤ stop)
    (hstop : stop ≤ data.length) :
    ∃ part, slice data start stop = some part ∧ part.length = stop - start := by
  refine ⟨_, if_pos ⟨hle, hstop⟩, ?_⟩
  rw [List.length_take, List.length_drop]
  omega

@[simp] theorem slice_self (data : Bytes) : slice data 0 data.length = some data := by
  simp [slice]

/-- A slice behind a front is one of what follows it. -/
theorem slice_append_right (front data : Bytes) (start stop : Nat) :
    slice (front ++ data) (front.length + start) (front.length + stop) = slice data start stop := by
  unfold slice
  rw [List.length_append, List.drop_append, List.drop_eq_nil_of_le (Nat.le_add_right _ _),
    List.nil_append, Nat.add_sub_cancel_left, Nat.add_sub_add_left]
  simp

/-- A slice that ends before the rest does not depend on it. -/
theorem slice_append_left {data : Bytes} (rest : Bytes) {start stop : Nat}
    (h : stop ≤ data.length) : slice (data ++ rest) start stop = slice data start stop := by
  unfold slice
  by_cases hle : start ≤ stop
  · have hlen : stop ≤ (data ++ rest).length := by
      rw [List.length_append]
      omega
    rw [if_pos ⟨hle, hlen⟩, if_pos ⟨hle, h⟩, List.drop_append, List.take_append_of_le_length]
    rw [List.length_drop]
    omega
  · rw [if_neg (fun hboth => hle hboth.1), if_neg (fun hboth => hle hboth.1)]

/-- The slice that a part takes up. -/
theorem slice_middle (front part rest : Bytes) :
    slice (front ++ (part ++ rest)) front.length (front.length + part.length) = some part := by
  have hright := slice_append_right front (part ++ rest) 0 part.length
  rw [Nat.add_zero, slice_append_left rest le_rfl, slice_self] at hright
  exact hright

/-! ## 2. The file -/

/-- Where a record begins: after those before it. -/
def startOf (records : List Bytes) (i : Nat) : Nat := (records.take i).flatten.length

/-- The table: eight bytes for each record. -/
def table (records : List Bytes) : Bytes :=
  (List.range records.length).flatMap (fun i => leBytes 8 (startOf records i))

/-- The number of records, the table, and the records. -/
def file (records : List Bytes) : Bytes :=
  leBytes 4 records.length ++ (table records ++ records.flatten)

theorem length_table (records : List Bytes) : (table records).length = 8 * records.length := by
  simp [table, List.length_flatMap, Nat.mul_comm]

theorem length_file (records : List Bytes) :
    (file records).length = 4 + 8 * records.length + records.flatten.length := by
  simp only [file, List.length_append, leBytes_length, length_table]
  omega

/-- A list around one of its elements. -/
theorem eq_take_append_cons_drop {α : Type} {l : List α} {i : Nat} {a : α} (h : l[i]? = some a) :
    l = l.take i ++ a :: l.drop (i + 1) := by
  obtain ⟨hi, rfl⟩ := List.getElem?_eq_some_iff.mp h
  rw [← List.drop_eq_getElem_cons hi, List.take_append_drop]

/-- A record begins and ends among the records. -/
theorem startOf_add_le {records : List Bytes} {i : Nat} {record : Bytes}
    (h : records[i]? = some record) :
    startOf records i + record.length ≤ records.flatten.length := by
  have hsplit := congrArg (fun l => (List.flatten l).length) (eq_take_append_cons_drop h)
  simp only [List.flatten_append, List.flatten_cons, List.length_append] at hsplit
  unfold startOf
  omega

theorem slice_count (records : List Bytes) :
    slice (file records) 0 4 = some (leBytes 4 records.length) := by
  have hmiddle := slice_middle [] (leBytes 4 records.length) (table records ++ records.flatten)
  rw [leBytes_length] at hmiddle
  exact hmiddle

/-- **The entry of a record** says where it begins. -/
theorem slice_table {records : List Bytes} {i : Nat} (h : i < records.length) :
    slice (file records) (4 + i * 8) (4 + i * 8 + 8) = some (leBytes 8 (startOf records i)) := by
  have hget : (List.range records.length)[i]? = some i := by simp [h]
  have hsplit := congrArg (List.flatMap (fun i => leBytes 8 (startOf records i)))
    (eq_take_append_cons_drop hget)
  rw [List.flatMap_append, List.flatMap_cons] at hsplit
  generalize hfront : List.flatMap (fun i => leBytes 8 (startOf records i))
    ((List.range records.length).take i) = front at hsplit
  generalize List.flatMap (fun i => leBytes 8 (startOf records i))
    ((List.range records.length).drop (i + 1)) = rest at hsplit
  have hlen : (leBytes 4 records.length ++ front).length = 4 + i * 8 := by
    rw [← hfront, List.length_append, leBytes_length, List.length_flatMap]
    simp [Nat.min_eq_left h.le]
  have hfile : file records = (leBytes 4 records.length ++ front)
      ++ (leBytes 8 (startOf records i) ++ (rest ++ records.flatten)) := by
    unfold file table
    rw [hsplit]
    simp only [List.append_assoc]
  have hmiddle := slice_middle (leBytes 4 records.length ++ front)
    (leBytes 8 (startOf records i)) (rest ++ records.flatten)
  rw [leBytes_length, hlen] at hmiddle
  rw [hfile, hmiddle]

/-- **What lies where a record begins** is the record. -/
theorem slice_record {records : List Bytes} {i : Nat} {record : Bytes}
    (h : records[i]? = some record) (start : Nat) {stop : Nat} (hstop : stop ≤ record.length) :
    slice (file records) (4 + 8 * records.length + startOf records i + start)
      (4 + 8 * records.length + startOf records i + stop) = slice record start stop := by
  have hsplit := congrArg List.flatten (eq_take_append_cons_drop h)
  rw [List.flatten_append, List.flatten_cons] at hsplit
  have hfile : file records = (leBytes 4 records.length ++ (table records ++
      (records.take i).flatten)) ++ (record ++ (records.drop (i + 1)).flatten) := by
    unfold file
    rw [hsplit]
    simp only [List.append_assoc]
  have hlen : (leBytes 4 records.length ++ (table records ++ (records.take i).flatten)).length
      = 4 + 8 * records.length + startOf records i := by
    simp only [List.length_append, leBytes_length, length_table, startOf]
    omega
  rw [hfile, ← hlen, slice_append_right, slice_append_left _ hstop]

end OffsetTable
