/-
# Varints

A number below `2 ^ 64` as groups of seven bits, the lowest first, each in a byte; all bytes but
the last have their high bit set.  Reading stops at the first byte without it.  It fails where
the input ends inside a number, and where a number has more groups than 64 bits have room for.
-/
import ZearchEngine.Lib.LengthPrefix
import Mathlib.Tactic.Ring

namespace LengthPrefix

/-- The bytes of a number. -/
def encodeVarint (value : Nat) : Bytes :=
  let byte := value &&& 0x7F
  let rest := value >>> 7
  if rest = 0 then [UInt8.ofNat byte] else UInt8.ofNat (byte ||| 0x80) :: encodeVarint rest
termination_by value
decreasing_by
  rename_i hrest
  have hpos : value ≠ 0 := fun h => hrest (by simp [rest, h])
  simp only [Nat.shiftRight_eq_div_pow]
  omega

/-- The loop of the reader: `shift` bits have been read into `result`. -/
def decodeLoop (shift result : Nat) : Bytes → Option (Nat × Bytes)
  | [] => none
  | b :: data =>
    if 64 ≤ shift then none
    else
      let result := result ||| ((b.toNat &&& 0x7F) <<< shift) % 2 ^ 64
      if b.toNat &&& 0x80 = 0 then some (result, data) else decodeLoop (shift + 7) result data

/-- The number at the front of some bytes, and the bytes after it. -/
def decodeVarint (data : Bytes) : Option (Nat × Bytes) := decodeLoop 0 0 data

/-- One byte of a number. -/
theorem encodeVarint_eq (value : Nat) : encodeVarint value =
    if value < 128 then [UInt8.ofNat value]
    else UInt8.ofNat (value % 128 + 128) :: encodeVarint (value / 128) := by
  have hlow : value &&& 0x7F = value % 128 := Nat.and_two_pow_sub_one_eq_mod value 7
  have hhigh : value % 128 ||| 0x80 = value % 128 + 128 := by
    rw [Nat.or_comm, Nat.add_comm]
    exact (Nat.two_pow_add_eq_or_of_lt (i := 7) (Nat.mod_lt _ (by decide)) 1).symm
  have hshift : value >>> 7 = value / 128 := Nat.shiftRight_eq_div_pow value 7
  rw [encodeVarint]
  simp only [hlow, hhigh, hshift]
  by_cases hlt : value < 128
  · rw [if_pos hlt, if_pos (Nat.div_eq_of_lt hlt), Nat.mod_eq_of_lt hlt]
  · rw [if_neg hlt, if_neg (by omega)]

/-- The high bit of a byte says whether it is the last one. -/
theorem highBit_eq_zero_iff {byte : Nat} (hbyte : byte < 256) :
    byte &&& 0x80 = 0 ↔ byte < 128 := by
  have hall : ∀ b : Fin 256, b.val &&& 0x80 = 0 ↔ b.val < 128 := by decide +kernel
  exact hall ⟨byte, hbyte⟩

/-- One round of the reader. -/
theorem decodeLoop_cons {shift result byte : Nat} (hbyte : byte < 256) (hshift : shift < 64)
    (hresult : result < 2 ^ shift) (hfits : byte % 128 * 2 ^ shift < 2 ^ 64) (data : Bytes) :
    decodeLoop shift result (UInt8.ofNat byte :: data) =
      if byte < 128 then some (result + byte % 128 * 2 ^ shift, data)
      else decodeLoop (shift + 7) (result + byte % 128 * 2 ^ shift) data := by
  have hnat : (UInt8.ofNat byte).toNat = byte := UInt8.toNat_ofNat_of_lt' hbyte
  have hlow : byte &&& 0x7F = byte % 128 := Nat.and_two_pow_sub_one_eq_mod byte 7
  have hor : result ||| (byte % 128 * 2 ^ shift) = result + byte % 128 * 2 ^ shift := by
    rw [Nat.or_comm, Nat.mul_comm, ← Nat.two_pow_add_eq_or_of_lt hresult, Nat.add_comm]
  rw [decodeLoop, if_neg (Nat.not_le.mpr hshift)]
  simp only [hnat, hlow, Nat.shiftLeft_eq, Nat.mod_eq_of_lt hfits, hor, highBit_eq_zero_iff hbyte]

/-- The reader takes in the number from where it stands. -/
theorem decodeLoop_encodeVarint (data : Bytes) (value : Nat) : ∀ shift result : Nat,
    shift < 64 → result < 2 ^ shift → value * 2 ^ shift < 2 ^ 64 →
    decodeLoop shift result (encodeVarint value ++ data)
      = some (result + value * 2 ^ shift, data) := by
  induction value using Nat.strongRecOn with
  | ind value ih =>
    intro shift result hshift hresult hfits
    rw [encodeVarint_eq]
    split
    · next hlast =>
      have hmod : value % 128 = value := Nat.mod_eq_of_lt hlast
      rw [List.cons_append, List.nil_append,
        decodeLoop_cons (by omega) hshift hresult (by rwa [hmod]), if_pos hlast, hmod]
    · next hmore =>
      have hmod : (value % 128 + 128) % 128 = value % 128 := by omega
      have hsplit : value * 2 ^ shift
          = value % 128 * 2 ^ shift + value / 128 * 2 ^ (shift + 7) := by
        have hvalue : value = value % 128 + 128 * (value / 128) := (Nat.mod_add_div _ _).symm
        rw [pow_add]
        nth_rewrite 1 [hvalue]
        ring
      have hroom : shift + 7 < 64 := by
        by_contra hfull
        have hone : 2 ^ 64 ≤ 2 ^ (shift + 7) := Nat.pow_le_pow_right (by decide) (by omega)
        have hdiv : 1 ≤ value / 128 := by omega
        have hle := Nat.mul_le_mul hdiv hone
        omega
      have hresult' : result + value % 128 * 2 ^ shift < 2 ^ (shift + 7) := by
        have hle : value % 128 * 2 ^ shift ≤ 127 * 2 ^ shift :=
          Nat.mul_le_mul_right _ (by omega)
        rw [pow_add]
        omega
      rw [List.cons_append, decodeLoop_cons (by omega) hshift hresult (by rw [hmod]; omega),
        if_neg (by omega), hmod, ih (value / 128) (by omega) (shift + 7) _ hroom hresult'
          (by omega), hsplit, Nat.add_assoc]

/-- **A number is read back**, whatever follows it. -/
theorem decodeVarint_encodeVarint {value : Nat} (h : value < 2 ^ 64) (data : Bytes) :
    decodeVarint (encodeVarint value ++ data) = some (value, data) := by
  rw [decodeVarint, decodeLoop_encodeVarint data value 0 0 (by decide) (by decide) (by omega)]
  simp

/-- A number of `7 * k` bits takes `k` bytes, or fewer. -/
theorem encodeVarint_length_le : ∀ (k value : Nat), value < 2 ^ (7 * (k + 1)) →
    (encodeVarint value).length ≤ k + 1
  | 0, value, h => by
    have hlt : value < 128 := h
    rw [encodeVarint_eq, if_pos hlt]
    exact Nat.le_refl 1
  | k + 1, value, h => by
    rw [encodeVarint_eq]
    split
    · exact Nat.succ_le_succ (Nat.zero_le _)
    · have hrest : value / 128 < 2 ^ (7 * (k + 1)) := by
        refine Nat.div_lt_of_lt_mul ?_
        rwa [show 7 * (k + 1 + 1) = 7 + 7 * (k + 1) by ring, pow_add] at h
      exact Nat.succ_le_succ (encodeVarint_length_le k _ hrest)

end LengthPrefix
