/-
# Names of segments

`next_segment_id` names a segment `format!("seg-{:06}", seq)`; `SegmentList::open` reads the
numbers back from the names of the directories (`strip_prefix("seg-")`, `parse::<u64>`) and
opens the directories in the order of their names.

The number that is read back is the one that was written, for every `u64` (`parseSeq_name`), so
the name after the largest number is in no directory (`next_name_notMem`).  The names are in the
order of the numbers as long as six digits are enough (`nameLe_iff`).
-/
import ZearchEngine.Disk
import ZearchEngine.Lib.Digits

namespace ZearchEngine

/-! ## 1. Reading a number back -/

/-- `strip_prefix("seg-")`. -/
def stripSegPrefix : List Char → Option (List Char)
  | 's' :: 'e' :: 'g' :: '-' :: rest => some rest
  | _ => none

/-- `parse::<u64>`: decimal digits, which may follow a plus sign, for a number that fits. -/
def parseU64 (text : List Char) : Option Nat :=
  let digits := match text with
    | '+' :: rest => rest
    | _ => text
  if digits ≠ [] ∧ digits.all Char.isDigit ∧ Nat.ofDigitChars 10 digits 0 < 2 ^ 64 then
    some (Nat.ofDigitChars 10 digits 0)
  else none

/-- The text after a plus sign, if there is one. -/
def withoutPlus (text : List Char) : List Char :=
  match text with
  | '+' :: rest => rest
  | _ => text

theorem withoutPlus_of_isDigit {text : List Char} (h : ∀ c ∈ text, c.isDigit = true) :
    withoutPlus text = text := by
  unfold withoutPlus
  split
  · have hdigit : ('+' : Char).isDigit = true := h '+' List.mem_cons_self
    cases hdigit
  · rfl

theorem parseU64_eq_some_iff {text : List Char} {n : Nat} :
    parseU64 text = some n ↔
      (withoutPlus text ≠ [] ∧ (∀ c ∈ withoutPlus text, c.isDigit = true) ∧ n < 2 ^ 64) ∧
        Nat.ofDigitChars 10 (withoutPlus text) 0 = n := by
  have hparse : parseU64 text
      = if withoutPlus text ≠ [] ∧ (withoutPlus text).all Char.isDigit ∧
          Nat.ofDigitChars 10 (withoutPlus text) 0 < 2 ^ 64 then
        some (Nat.ofDigitChars 10 (withoutPlus text) 0) else none := rfl
  rw [hparse, Option.ite_none_right_eq_some, Option.some_inj, List.all_eq_true]
  constructor
  · rintro ⟨hvalid, rfl⟩
    exact ⟨hvalid, rfl⟩
  · rintro ⟨hvalid, rfl⟩
    exact ⟨hvalid, rfl⟩

/-- The number in the name of a directory. -/
def parseSeq (name : List Char) : Option Nat := stripSegPrefix name >>= parseU64

/-- `max_seq` after one more name. -/
def countSeq (acc : Nat) (name : List Char) : Nat :=
  match parseSeq name with
  | some seq => max acc seq
  | none => acc

/-- `max_seq` after the names of all directories. -/
def maxSeq (names : List (List Char)) : Nat := names.foldl countSeq 0

theorem SegmentId.name_eq (id : SegmentId) :
    id.name = 's' :: 'e' :: 'g' :: '-' :: Digits.padded 6 id.seq := rfl

/-- **The number of a segment is read back from its name.** -/
theorem parseSeq_name {id : SegmentId} (h : id.seq < 2 ^ 64) : parseSeq id.name = some id.seq := by
  have hplus : withoutPlus (Digits.padded 6 id.seq) = Digits.padded 6 id.seq :=
    withoutPlus_of_isDigit (fun _ => Digits.isDigit_of_mem_padded)
  unfold parseSeq
  rw [SegmentId.name_eq]
  show parseU64 (Digits.padded 6 id.seq) = some id.seq
  rw [parseU64_eq_some_iff, hplus]
  exact ⟨⟨Digits.padded_ne_nil 6 id.seq, fun _ => Digits.isDigit_of_mem_padded, h⟩,
    Digits.ofDigitChars_padded 6 id.seq⟩

/-- Different segments have different names. -/
theorem SegmentId.name_injective : Function.Injective SegmentId.name := by
  intro a b h
  have hdigits : Digits.padded 6 a.seq = Digits.padded 6 b.seq := by
    simpa [SegmentId.name_eq] using h
  cases a
  cases b
  exact congrArg SegmentId.mk (Digits.padded_injective 6 hdigits)

theorem le_countSeq (acc : Nat) (name : List Char) : acc ≤ countSeq acc name := by
  unfold countSeq
  split
  · exact le_max_left _ _
  · exact le_rfl

/-- The largest number covers every name that has one. -/
theorem le_foldl_countSeq {names : List (List Char)} {acc : Nat} :
    acc ≤ names.foldl countSeq acc ∧
    ∀ name ∈ names, ∀ seq, parseSeq name = some seq → seq ≤ names.foldl countSeq acc := by
  induction names generalizing acc with
  | nil => exact ⟨le_rfl, fun _ h => by cases h⟩
  | cons first names ih =>
    obtain ⟨hacc, hnames⟩ := @ih (countSeq acc first)
    rw [List.foldl_cons]
    refine ⟨(le_countSeq acc first).trans hacc, fun name hname seq hseq => ?_⟩
    rcases List.mem_cons.mp hname with rfl | hmem
    · refine le_trans ?_ hacc
      unfold countSeq
      rw [hseq]
      exact le_max_right acc seq
    · exact hnames name hmem seq hseq

/-- **The name after the largest number is new**, whatever else the directory holds. -/
theorem next_name_notMem {names : List (List Char)} (h : maxSeq names + 1 < 2 ^ 64) :
    SegmentId.name ⟨maxSeq names + 1⟩ ∉ names := by
  intro hmem
  have hseq : parseSeq (SegmentId.name ⟨maxSeq names + 1⟩) = some (maxSeq names + 1) :=
    parseSeq_name h
  have hle : maxSeq names + 1 ≤ maxSeq names := le_foldl_countSeq.2 _ hmem _ hseq
  omega

/-! ## 2. The order of the names -/

namespace SegmentId

theorem nameLe_trans {a b c : SegmentId} (hab : a.nameLe b) (hbc : b.nameLe c) : a.nameLe c :=
  le_trans (b := b.name) hab hbc

theorem nameLe_total (a b : SegmentId) : a.nameLe b ∨ b.nameLe a :=
  le_total a.name b.name

theorem nameLe_antisymm {a b : SegmentId} (hab : a.nameLe b) (hba : b.nameLe a) : a = b :=
  name_injective (le_antisymm (α := List Char) hab hba)

/-- **Up to six digits, names are in the order of the numbers.** -/
theorem nameLe_iff {a b : SegmentId} (ha : a.seq < 1000000) (hb : b.seq < 1000000) :
    a.nameLe b ↔ a.seq ≤ b.seq := by
  have hcons : ∀ (c : Char) (xs ys : List Char), c :: xs ≤ c :: ys ↔ xs ≤ ys := by
    intro c xs ys
    rw [← not_lt, ← not_lt, List.cons_lt_cons_iff]
    simp
  unfold nameLe
  rw [name_eq, name_eq, hcons, hcons, hcons, hcons]
  exact Digits.padded_le_iff (by decide) ha hb

end SegmentId

/-- With the seventh digit they are not. -/
example : ¬ SegmentId.nameLe ⟨999999⟩ ⟨1000000⟩ ∧ SegmentId.nameLe ⟨1000000⟩ ⟨999999⟩ := by decide

end ZearchEngine
