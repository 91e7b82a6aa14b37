/-
# Sequence numbers over the life of a log

A log that starts on a new path and sees appends, batches, truncations and restarts in any
order.  Within one `open` the numbers count up, and `truncate` keeps the counter.  A restart
rebuilds it from the last record in the file, so when the file is empty it starts at 0 again:
after a truncation and a restart the numbers already given out are given out once more.

That is the only way they repeat.  `numbers_increase_iff` gives the exact condition: the log
is never reopened on an empty file once a number has been returned, and fewer than `2 ^ 64`
entries are appended in all.
-/
import ZearchEngine.Wal.Log
import ZearchEngine.Wal.TornTail
import ZearchEngine.Lib.LabelledRun

namespace ZearchEngine

open LengthPrefix LabelledRun

/-! ## 1. Runs -/

/-- One operation on the log of one path. -/
inductive WalOp where
  | call (k : WalCall)
  | truncate
  | reopen

/-- The entries an operation appends. -/
def WalOp.entries : WalOp → List WalEntry
  | .call k => k.entries
  | .truncate => []
  | .reopen => []

/-- The open log, and every number it has returned so far, in order. -/
structure WalRun where
  returned : List UInt64
  wal : WriteAheadLog
deriving DecidableEq

namespace WalRun

variable (c : Codec WalRecord)

/-- One operation; closing and opening again keeps the bytes of the file. -/
def step (r : WalRun) : WalOp → WalRun
  | .call k => { returned := r.returned ++ (r.wal.call c k).1, wal := (r.wal.call c k).2 }
  | .truncate => { r with wal := r.wal.truncate }
  | .reopen => { r with wal := WriteAheadLog.openFile c r.wal.file }

/-- The log on a new path: `open` creates an empty file. -/
def start : WalRun where
  returned := []
  wal := WriteAheadLog.openFile c []

/-- The numbers returned so far are strictly increasing, and the next one is greater than each
of them. -/
structure Increasing (r : WalRun) : Prop where
  returned : r.returned.Pairwise (· < ·)
  nextSeq : ∀ seq ∈ r.returned, seq < r.wal.nextSeq

/-- The step does not reopen an empty file after a number has been returned. -/
def KeepsCounter (r : WalRun) : WalOp → Prop
  | .reopen => r.returned = [] ∨ r.wal.file ≠ []
  | _ => True

/-! ## 2. The counter in every state -/

/-- After `n` entries: the numbers `0, …, n - 1` have been returned, the next one is `n`, and
the last record in the file, if there is one, carries the number before it. -/
structure Counted (r : WalRun) (n : Nat) : Prop where
  returned : r.returned = (List.range n).map UInt64.ofNat
  nextSeq : r.wal.nextSeq = UInt64.ofNat n
  log : ∃ l : Log, l.Repr c r.wal ∧ ∀ last ∈ l.records.getLast?, last.seq + 1 = l.nextSeq

variable {c}

/-- The last record of a batch carries the number before the counter. -/
theorem getLast?_numbered : ∀ (es : List WalEntry) (seq : UInt64),
    ∀ last ∈ (numbered seq es).getLast?, last.seq + 1 = seq + UInt64.ofNat es.length
  | [], _, last, h => by simp [numbered] at h
  | [e], seq, last, h => by
    simp only [numbered, List.getLast?_singleton, Option.mem_def, Option.some.injEq] at h
    rw [← h]
    rfl
  | e :: e' :: es, seq, last, h => by
    have hlast : last ∈ (numbered (seq + 1) (e' :: es)).getLast? := by
      simpa only [numbered, List.getLast?_cons_cons] using h
    have hseq : seq + 1 + UInt64.ofNat (e' :: es).length
        = seq + UInt64.ofNat ((e :: e' :: es).length) := by
      rw [List.length_cons (a := e), UInt64.ofNat_add, UInt64.add_assoc, UInt64.add_comm 1]
      rfl
    rw [getLast?_numbered (e' :: es) (seq + 1) last hlast, hseq]

theorem counted_start : Counted c (start c) 0 where
  returned := rfl
  nextSeq := by
    rw [start, WriteAheadLog.openFile_nextSeq, scan_eq_nil_of_short_word c (by simp)]
    rfl
  log := by
    refine ⟨Log.openRecords [], ?_, by simp [Log.openRecords]⟩
    exact Log.repr_openRecords (by simp)

/-- The numbers of a batch continue the count. -/
theorem map_seq_numbered_ofNat (n : Nat) (es : List WalEntry) :
    (List.range n).map UInt64.ofNat ++ (numbered (UInt64.ofNat n) es).map WalRecord.seq
      = (List.range (n + es.length)).map UInt64.ofNat := by
  rw [WriteAheadLog.map_seq_numbered, List.range_add, List.map_append, List.map_map]
  simp only [Function.comp_def, UInt64.ofNat_add]

theorem Counted.call {r : WalRun} {n : Nat} (h : Counted c r n) (k : WalCall)
    (hfit : ∀ seq, ∀ e ∈ k.entries, Fits c ⟨seq, e⟩) :
    Counted c (r.step c (.call k)) (n + k.entries.length) := by
  obtain ⟨l, hl, hlast⟩ := h.log
  have hnum : ∀ rec ∈ numbered l.nextSeq k.entries, Fits c rec := by
    intro rec hrec
    have hmem : rec.entry ∈ k.entries := by
      rw [← map_entry_numbered l.nextSeq k.entries]
      exact List.mem_map_of_mem hrec
    exact hfit rec.seq rec.entry hmem
  refine ⟨?_, ?_, (l.appendBatch k.entries).2, ?_, ?_⟩
  · simp only [step, WriteAheadLog.call_eq, WriteAheadLog.appendBatch_eq, h.returned, h.nextSeq]
    exact map_seq_numbered_ofNat n k.entries
  · simp only [step, WriteAheadLog.call_eq, WriteAheadLog.appendBatch_eq, h.nextSeq,
      UInt64.ofNat_add]
  · simp only [step, WriteAheadLog.call_eq]
    exact (hl.appendBatch hnum).2
  · intro last hmem
    simp only [Log.appendBatch] at hmem ⊢
    rw [List.getLast?_append] at hmem
    cases hes : (numbered l.nextSeq k.entries).getLast? with
    | some last' =>
      obtain rfl : last' = last := by simpa [hes] using hmem
      exact getLast?_numbered k.entries l.nextSeq last' hes
    | none =>
      have hnil : k.entries.length = 0 := by
        simpa using congrArg List.length (List.getLast?_eq_none_iff.mp hes)
      rw [hnil]
      have hold : last ∈ l.records.getLast? := by simpa [hes] using hmem
      simpa using hlast last hold

theorem Counted.truncate {r : WalRun} {n : Nat} (h : Counted c r n) :
    Counted c (r.step c .truncate) n := by
  obtain ⟨l, hl, -⟩ := h.log
  exact ⟨h.returned, h.nextSeq, l.truncate, hl.truncate, by simp [Log.truncate]⟩

theorem Counted.reopen {r : WalRun} {n : Nat} (h : Counted c r n)
    (hkeep : r.returned = [] ∨ r.wal.file ≠ []) : Counted c (r.step c .reopen) n := by
  obtain ⟨l, hl, hlast⟩ := h.log
  have hopen : (Log.openRecords l.records).Repr c (WriteAheadLog.openFile c r.wal.file) := by
    rw [hl.file]
    exact Log.repr_openRecords hl.fits
  have hnext : (Log.openRecords l.records).nextSeq = UInt64.ofNat n := by
    cases hrec : l.records.getLast? with
    | some last => simp [Log.openRecords, hrec, hlast last hrec, ← hl.nextSeq, h.nextSeq]
    | none =>
      have hfile : r.wal.file = [] := by
        rw [hl.file, List.getLast?_eq_none_iff.mp hrec, frames_nil]
      have hret := hkeep.resolve_right (fun hne => hne hfile)
      have hn : n = 0 := by
        rw [h.returned] at hret
        simpa using hret
      simp [Log.openRecords, hrec, hn]
  refine ⟨h.returned, hopen.nextSeq.trans hnext, _, hopen, ?_⟩
  intro last hmem
  rw [Log.openRecords] at hmem
  rw [hnext, hlast last hmem, ← hl.nextSeq, h.nextSeq]

/-- **One step keeps the count**, unless it reopens an emptied file. -/
theorem Counted.step {r : WalRun} {n : Nat} (h : Counted c r n) (op : WalOp)
    (hfit : ∀ seq, ∀ e ∈ op.entries, Fits c ⟨seq, e⟩) (hkeep : r.KeepsCounter op) :
    Counted c (r.step c op) (n + op.entries.length) := by
  cases op with
  | call k => exact h.call k hfit
  | truncate => exact h.truncate
  | reopen => exact h.reopen hkeep

theorem ofNat_lt_ofNat {i j : Nat} (hi : i < 2 ^ 64) (hj : j < 2 ^ 64) :
    UInt64.ofNat i < UInt64.ofNat j ↔ i < j := by
  rw [UInt64.lt_iff_toNat_lt, UInt64.toNat_ofNat', UInt64.toNat_ofNat', Nat.mod_eq_of_lt hi,
    Nat.mod_eq_of_lt hj]

/-- The numbers below `2 ^ 64` that have been counted are increasing. -/
theorem Counted.increasing {r : WalRun} {n : Nat} (h : Counted c r n) (hn : n < 2 ^ 64) :
    r.Increasing where
  returned := by
    rw [h.returned, List.pairwise_map]
    refine List.pairwise_lt_range.imp_of_mem ?_
    intro i j hi hj hij
    have hi' : i < n := List.mem_range.mp hi
    have hj' : j < n := List.mem_range.mp hj
    exact (ofNat_lt_ofNat (by omega) (by omega)).mpr hij
  nextSeq := by
    intro seq hseq
    rw [h.returned] at hseq
    obtain ⟨i, hi, rfl⟩ := List.mem_map.mp hseq
    have hi' : i < n := List.mem_range.mp hi
    rw [h.nextSeq]
    exact (ofNat_lt_ofNat (by omega) hn).mpr hi'

/-! ## 3. Runs that keep the counter -/

/-- The entries of the operations of a run. -/
def entries (ops : List WalOp) : List WalEntry := ops.flatMap WalOp.entries

/-- **The count in every state of a run** that never reopens an emptied file. -/
theorem counted_run : ∀ (ops : List WalOp) (r : WalRun) (n : Nat), Counted c r n →
    (∀ op ∈ ops, ∀ seq, ∀ e ∈ op.entries, Fits c ⟨seq, e⟩) →
    Along (WalRun.step c) KeepsCounter r ops →
    Counted c (run (WalRun.step c) r ops) (n + (entries ops).length)
  | [], _, _, h, _, _ => h
  | op :: ops, r, n, h, hfit, hkeep => by
    have hstep := h.step op (hfit op List.mem_cons_self) hkeep.1
    have hrun := counted_run ops (r.step c op) (n + op.entries.length) hstep
      (fun o ho => hfit o (List.mem_cons_of_mem _ ho)) hkeep.2
    have hlen : n + op.entries.length + (entries ops).length
        = n + (entries (op :: ops)).length := by
      simp only [entries, List.flatMap_cons, List.length_append]
      omega
    rw [run_cons, ← hlen]
    exact hrun

/-- A step after which the numbers are still increasing did not reopen an emptied file: that
puts the counter back to 0. -/
theorem keepsCounter_of_increasing {r : WalRun} {op : WalOp} (h : (r.step c op).Increasing) :
    r.KeepsCounter op := by
  cases op with
  | call k => trivial
  | truncate => trivial
  | reopen =>
    by_contra hbad
    simp only [KeepsCounter, not_or, not_not] at hbad
    obtain ⟨seq, hseq⟩ := List.exists_mem_of_ne_nil _ hbad.1
    have hlt := h.nextSeq seq hseq
    have hzero : (r.step c .reopen).wal.nextSeq = 0 := by
      rw [step, WriteAheadLog.openFile_nextSeq, hbad.2,
        scan_eq_nil_of_short_word c (by simp)]
      rfl
    rw [hzero] at hlt
    exact absurd hlt (by simp)

/-- The largest number is never returned while the numbers are increasing: none is above it. -/
theorem Counted.lt_of_increasing {r : WalRun} {n : Nat} (h : Counted c r n)
    (hinc : r.Increasing) : n < 2 ^ 64 := by
  by_contra hge
  have hmem : UInt64.ofNat (2 ^ 64 - 1) ∈ r.returned := by
    rw [h.returned]
    exact List.mem_map_of_mem (List.mem_range.mpr (by omega))
  have hlt := UInt64.lt_iff_toNat_lt.mp (hinc.nextSeq _ hmem)
  rw [UInt64.toNat_ofNat_of_lt' (by decide)] at hlt
  have hmax := r.wal.nextSeq.toNat_lt
  omega

/-- **When sequence numbers never repeat.**  In every state of a run on a new path the numbers
returned so far are strictly increasing and below the next one, if and only if the run never
reopens an empty file after it has returned a number, and appends fewer than `2 ^ 64` entries.
The records are taken to fit their `u32` length word. -/
theorem numbers_increase_iff (ops : List WalOp)
    (hfit : ∀ op ∈ ops, ∀ seq, ∀ e ∈ op.entries, Fits c ⟨seq, e⟩) :
    (∀ k, (run (WalRun.step c) (start c) (ops.take k)).Increasing) ↔
      Along (WalRun.step c) KeepsCounter (start c) ops ∧ (entries ops).length < 2 ^ 64 := by
  constructor
  · intro h
    have hkeep : Along (WalRun.step c) KeepsCounter (start c) ops :=
      Along.imp (fun r op hr => keepsCounter_of_increasing hr.2) _ _ (along_of_take ops _ h)
    have hcount := counted_run ops (start c) 0 counted_start hfit hkeep
    have hfinal : (run (WalRun.step c) (start c) ops).Increasing := by
      simpa using h ops.length
    have hlt := hcount.lt_of_increasing hfinal
    exact ⟨hkeep, by omega⟩
  · rintro ⟨hkeep, hlen⟩ k
    have hcount := counted_run (ops.take k) (start c) 0 counted_start
      (fun op hop => hfit op (List.mem_of_mem_take hop)) (hkeep.take k)
    have hle : (entries (ops.take k)).length ≤ (entries ops).length := by
      have hsplit : entries ops = entries (ops.take k) ++ entries (ops.drop k) := by
        rw [entries, entries, entries, ← List.flatMap_append, List.take_append_drop]
      rw [hsplit, List.length_append]
      omega
    exact hcount.increasing (by omega)

/-- A log that is reopened with a record in it goes on counting. -/
theorem numbers_increase_reopened :
    let ops : List WalOp := [.call (.append (.delete 9)), .truncate,
      .call (.appendBatch [.delete 3, .delete 4]), .reopen, .call (.append (.delete 5))]
    ∀ k, (run (WalRun.step Bincode.walCodec) (start Bincode.walCodec) (ops.take k)).Increasing := by
  intro ops
  have hfit : ∀ op ∈ ops, ∀ seq, ∀ e ∈ op.entries, Fits Bincode.walCodec ⟨seq, e⟩ := by
    intro op hop seq e he
    have hmem : e ∈ [.delete 9, .delete 3, .delete 4, .delete 5] :=
      List.mem_flatMap.mpr ⟨op, hop, he⟩
    simp only [List.mem_cons, List.not_mem_nil, or_false] at hmem
    rcases hmem with rfl | rfl | rfl | rfl <;>
      exact WriteAheadLog.fits_delete Bincode.deleteLayout seq _
  have hfile : ∀ r : WalRun, (r.step Bincode.walCodec
      (.call (.appendBatch [.delete 3, .delete 4]))).wal.file ≠ [] := by
    intro r h
    have hlen := congrArg List.length h
    simp only [step, WriteAheadLog.call_eq, WriteAheadLog.appendBatch_eq, WalCall.entries,
      numbered, frames_cons, List.length_append, frame_length, List.length_nil] at hlen
    omega
  exact (numbers_increase_iff ops hfit).mpr
    ⟨⟨trivial, trivial, trivial, .inr (hfile _), trivial, trivial⟩, by decide⟩

/-- **A number given out twice.**  A deletion is logged, the log is truncated, as a flush does,
and reopened: `next_seq` is not above the number already returned, and the next entry is given
that number again. -/
theorem numbers_repeat_after_truncate :
    let ops : List WalOp := [.call (.append (.delete 9)), .truncate, .reopen]
    let r := run (WalRun.step Bincode.walCodec) (start Bincode.walCodec) ops
    ¬ r.Increasing ∧
    ¬ (r.step Bincode.walCodec (.call (.append (.delete 7)))).Increasing ∧
    (r.step Bincode.walCodec (.call (.append (.delete 7)))).returned = [0, 0] := by
  intro ops r
  have hopen : WriteAheadLog.openFile Bincode.walCodec [] = { file := [], nextSeq := 0 } := by
    rw [WriteAheadLog.openFile, WriteAheadLog.readRecords,
      scan_eq_nil_of_short_word Bincode.walCodec (by decide)]
    rfl
  have hr : r = { returned := [0], wal := { file := [], nextSeq := 0 } } := by
    simp only [r, ops, run_cons, run_nil, start, step, WriteAheadLog.truncate, hopen]
    rfl
  have hnext : (r.step Bincode.walCodec (.call (.append (.delete 7)))).returned = [0, 0] := by
    rw [hr]
    rfl
  refine ⟨fun h => ?_, fun h => ?_, hnext⟩
  · rw [hr] at h
    exact absurd (h.nextSeq 0 List.mem_cons_self) (by decide)
  · exact absurd (hnext ▸ h.returned) (by decide)

end WalRun

end ZearchEngine
