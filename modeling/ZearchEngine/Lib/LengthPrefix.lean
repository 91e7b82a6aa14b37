/-
# Length-prefixed record streams

A stream of records, each written as the little-endian length of its encoding followed by the
encoding.  The encoding itself is a parameter (`Codec`): all that is asked of it is that
decoding an encoding of fewer than `2 ^ 32` bytes gives the value back.  `scan` reads a stream
and stops at the first record it cannot read: a length word that is cut short, a body that is
cut short, or a body that does not decode.

What the stream promises:

* `scan_frames_append`: whole records are read back, whatever follows them;
* `scan_eq_nil_of_torn`: a proper prefix of one record reads as nothing;
* `take_frames`: every cut of a stream is some of its records, whole, and a torn one;
* `scan_take_frames`: reading a cut returns exactly the records that lie within it;
* `recordAt_append`: one record is read back from the place where it starts.
-/
import Mathlib.Data.List.Basic
import Mathlib.Data.List.TakeDrop
import Mathlib.Tactic.Ring

namespace LengthPrefix

/-- A file's contents, or a piece of one. -/
abbrev Bytes := List UInt8

/-! ## 1. Little-endian words -/

/-- The `w` low bytes of `n`, least significant first. -/
def leBytes : Nat → Nat → Bytes
  | 0, _ => []
  | w + 1, n => UInt8.ofNat n :: leBytes w (n / 256)

/-- The number a little-endian word denotes. -/
def leNat : Bytes → Nat
  | [] => 0
  | b :: bs => b.toNat + 256 * leNat bs

@[simp] theorem leBytes_length : ∀ (w n : Nat), (leBytes w n).length = w
  | 0, _ => rfl
  | w + 1, n => by simp [leBytes, leBytes_length w]

/-- A word holds its number modulo the word size. -/
theorem leNat_leBytes : ∀ (w n : Nat), leNat (leBytes w n) = n % 256 ^ w
  | 0, n => by simp [leBytes, leNat, Nat.mod_one]
  | w + 1, n => by
    have hb : (UInt8.ofNat n).toNat = n % 256 := by simp
    rw [leBytes, leNat, leNat_leBytes w, hb, pow_succ, Nat.mul_comm (256 ^ w) 256, Nat.mod_mul]

theorem leNat_leBytes_of_lt {w n : Nat} (h : n < 256 ^ w) : leNat (leBytes w n) = n := by
  rw [leNat_leBytes, Nat.mod_eq_of_lt h]

theorem leNat_lt : ∀ w : Bytes, leNat w < 256 ^ w.length
  | [] => Nat.one_pos
  | b :: w => by
    have hb : b.toNat < 256 := b.toNat_lt
    have ih := leNat_lt w
    rw [leNat, List.length_cons, pow_succ]
    omega

/-- Every byte string is the word of the number it denotes. -/
theorem leBytes_leNat : ∀ w : Bytes, leBytes w.length (leNat w) = w
  | [] => rfl
  | b :: w => by
    have hb : b.toNat < 256 := b.toNat_lt
    have hdiv : (b.toNat + 256 * leNat w) / 256 = leNat w := by omega
    rw [List.length_cons, leNat, leBytes, hdiv, leBytes_leNat w, UInt8.ofNat_add, UInt8.ofNat_mul]
    simp

/-- The first byte of a word is the number modulo 256. -/
theorem leBytes_head (w n : Nat) : (leBytes (w + 1) n)[0]? = some (UInt8.ofNat n) := rfl

/-! ## 2. Records -/

/-- An encoding of `α` as bytes.  Decoding an encoding that fits a record gives the value
back; nothing is said about bytes that no value encodes to. -/
structure Codec (α : Type) where
  serialize : α → Bytes
  deserialize : Bytes → Option α
  roundtrip : ∀ a, (serialize a).length < 2 ^ 32 → deserialize (serialize a) = some a

variable {α : Type} (c : Codec α)

/-- The encoding is short enough for its length to fit the four bytes of the length word. -/
def Fits (a : α) : Prop := (c.serialize a).length < 2 ^ 32

instance (a : α) : Decidable (Fits c a) := inferInstanceAs (Decidable (_ < _))

/-- One record: its length in four bytes, then its encoding. -/
def frame (a : α) : Bytes := leBytes 4 (c.serialize a).length ++ c.serialize a

/-- A stream of whole records. -/
def frames (as : List α) : Bytes := as.flatMap (frame c)

@[simp] theorem frames_nil : frames c [] = [] := rfl

@[simp] theorem frames_cons (a : α) (as : List α) :
    frames c (a :: as) = frame c a ++ frames c as := rfl

@[simp] theorem frames_append (as bs : List α) :
    frames c (as ++ bs) = frames c as ++ frames c bs := List.flatMap_append

theorem frame_length (a : α) : (frame c a).length = 4 + (c.serialize a).length := by
  simp [frame]

/-! ## 3. Reading -/

/-- Read records until one cannot be read. -/
def scan (bs : Bytes) : List α :=
  if bs.length < 4 then []
  else if (bs.drop 4).length < leNat (bs.take 4) then []
  else match c.deserialize ((bs.drop 4).take (leNat (bs.take 4))) with
    | none => []
    | some a => a :: scan ((bs.drop 4).drop (leNat (bs.take 4)))
termination_by bs.length
decreasing_by simp only [List.length_drop]; omega

theorem scan_eq_nil_of_short_word {bs : Bytes} (h : bs.length < 4) : scan c bs = [] := by
  rw [scan, if_pos h]

theorem scan_eq_nil_of_short_body {bs : Bytes}
    (h : (bs.drop 4).length < leNat (bs.take 4)) : scan c bs = [] := by
  rw [scan]
  split
  · rfl
  · rfl

/-- The one step of the reader: a length word `w` and a body of that length. -/
theorem scan_word_body {w body rest : Bytes} (hw : w.length = 4) (hb : leNat w = body.length) :
    scan c (w ++ (body ++ rest)) =
      match c.deserialize body with
      | none => []
      | some a => a :: scan c rest := by
  have htake : (w ++ (body ++ rest)).take 4 = w := by rw [← hw]; exact List.take_left
  have hdrop : (w ++ (body ++ rest)).drop 4 = body ++ rest := by rw [← hw]; exact List.drop_left
  have hlen : ¬ (w ++ (body ++ rest)).length < 4 := by simp [hw]
  rw [scan, if_neg hlen, htake, hdrop, hb, List.take_left, List.drop_left]
  simp

/-- The first record read was decoded from the bytes that follow the first length word. -/
theorem deserialize_of_scan_eq_cons {bs : Bytes} {a : α} {as : List α}
    (h : scan c bs = a :: as) :
    c.deserialize ((bs.drop 4).take (leNat (bs.take 4))) = some a := by
  rw [scan] at h
  split at h
  · cases h
  · split at h
    · cases h
    · split at h
      · cases h
      · rename_i b hb
        rw [hb, (List.cons.inj h).1]

/-- A whole record is read, and reading goes on after it. -/
theorem scan_frame_append {a : α} (ha : Fits c a) (rest : Bytes) :
    scan c (frame c a ++ rest) = a :: scan c rest := by
  have hb : leNat (leBytes 4 (c.serialize a).length) = (c.serialize a).length :=
    leNat_leBytes_of_lt ha
  rw [frame, List.append_assoc, scan_word_body c (leBytes_length 4 _) hb, c.roundtrip a ha]

/-- **Whole records are read back, whatever follows them.** -/
theorem scan_frames_append : ∀ (as : List α) (_ : ∀ a ∈ as, Fits c a) (rest : Bytes),
    scan c (frames c as ++ rest) = as ++ scan c rest
  | [], _, rest => by simp
  | a :: as, h, rest => by
    rw [frames_cons, List.append_assoc, scan_frame_append c (h a List.mem_cons_self),
      scan_frames_append as (fun b hb => h b (List.mem_cons_of_mem _ hb)), List.cons_append]

theorem scan_frames {as : List α} (h : ∀ a ∈ as, Fits c a) : scan c (frames c as) = as := by
  have hnil : scan c [] = [] := scan_eq_nil_of_short_word c (by simp)
  have hscan := scan_frames_append c as h []
  rwa [hnil, List.append_nil, List.append_nil] at hscan

/-- **A torn record reads as nothing**, wherever it is cut: in its length word or in its
body. -/
theorem scan_eq_nil_of_torn {a : α} (ha : Fits c a) {p : Bytes} (hp : p <+: frame c a)
    (hlt : p.length < (frame c a).length) : scan c p = [] := by
  by_cases hshort : p.length < 4
  · exact scan_eq_nil_of_short_word c hshort
  · -- the length word is whole, and it asks for more than what is left of the body
    have hword : p.take 4 = leBytes 4 (c.serialize a).length := by
      have h4 : (frame c a).take 4 = leBytes 4 (c.serialize a).length := by
        rw [frame, ← leBytes_length 4 (c.serialize a).length]; exact List.take_left
      rw [← h4, List.prefix_iff_eq_take.mp hp, List.take_take]
      congr 1
      omega
    apply scan_eq_nil_of_short_body
    rw [hword, leNat_leBytes_of_lt ha, List.length_drop]
    rw [frame_length] at hlt
    omega

/-! ## 4. Cutting a stream -/

/-- **Every cut of a stream is some of its records, whole, and a torn one.** -/
theorem take_frames : ∀ (as : List α) (m : Nat), ∃ (k : Nat) (p : Bytes),
    (frames c as).take m = frames c (as.take k) ++ p ∧
    (p = [] ∨ ∃ a ∈ as, p <+: frame c a ∧ p.length < (frame c a).length) ∧
    ∀ j < as.length, (j < k ↔ (frames c (as.take (j + 1))).length ≤ m)
  | [], m => ⟨0, [], by simp⟩
  | a :: as, m => by
    by_cases hm : (frame c a).length ≤ m
    · obtain ⟨k, p, htake, hp, hk⟩ := take_frames as (m - (frame c a).length)
      refine ⟨k + 1, p, ?_, ?_, ?_⟩
      · rw [frames_cons, List.take_append, List.take_of_length_le hm, htake, List.take_succ_cons,
          frames_cons, List.append_assoc]
      · exact hp.imp id (fun ⟨b, hb, h⟩ => ⟨b, List.mem_cons_of_mem _ hb, h⟩)
      · intro j hj
        cases j with
        | zero => simpa using hm
        | succ j =>
          have hj' : j < as.length := by simpa using hj
          rw [Nat.add_lt_add_iff_right, hk j hj', List.take_succ_cons, frames_cons,
            List.length_append]
          omega
    · refine ⟨0, (frame c a).take m, ?_, Or.inr ⟨a, List.mem_cons_self, ?_, ?_⟩, ?_⟩
      · rw [frames_cons, List.take_append]
        have hz : m - (frame c a).length = 0 := by omega
        simp [hz]
      · exact List.take_prefix _ _
      · rw [List.length_take]; omega
      · intro j _
        rw [List.take_succ_cons, frames_cons, List.length_append]
        omega

/-- **Reading a cut returns exactly the records that lie wholly within it**: those whose
encoding ends at or before the cut. -/
theorem scan_take_frames {as : List α} (h : ∀ a ∈ as, Fits c a) (m : Nat) :
    ∃ k, scan c ((frames c as).take m) = as.take k ∧
      ∀ j < as.length, (j < k ↔ (frames c (as.take (j + 1))).length ≤ m) := by
  obtain ⟨k, p, htake, hp, hk⟩ := take_frames c as m
  refine ⟨k, ?_, hk⟩
  rw [htake, scan_frames_append c (as.take k) (fun a ha => h a (List.mem_of_mem_take ha))]
  rcases hp with rfl | ⟨a, ha, hpre, hlt⟩
  · rw [scan_eq_nil_of_short_word c (by simp), List.append_nil]
  · rw [scan_eq_nil_of_torn c (h a ha) hpre hlt, List.append_nil]

/-! ## 5. Records at known places -/

/-- The record that starts at an offset. -/
def recordAt (bs : Bytes) (offset : Nat) : Option α :=
  let word := (bs.drop offset).take 4
  let body := (bs.drop offset).drop 4
  if word.length < 4 ∨ body.length < leNat word then none
  else c.deserialize (body.take (leNat word))

/-- A record is found where its stream begins. -/
theorem recordAt_append {a : α} (ha : Fits c a) (before rest : Bytes) :
    recordAt c (before ++ (frame c a ++ rest)) before.length = some a := by
  have hword : (frame c a ++ rest).take 4 = leBytes 4 (c.serialize a).length := by
    rw [frame, List.append_assoc]
    exact List.take_left' (leBytes_length 4 _)
  have hbody : (frame c a ++ rest).drop 4 = c.serialize a ++ rest := by
    rw [frame, List.append_assoc]
    exact List.drop_left' (leBytes_length 4 _)
  rw [recordAt, List.drop_left, hword, hbody, leNat_leBytes_of_lt ha, if_neg (by simp),
    List.take_left, c.roundtrip a ha]

end LengthPrefix
