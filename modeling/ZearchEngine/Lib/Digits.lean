/-
# Decimal digit strings

The number a string of decimal digits stands for is `Nat.ofDigitChars 10`.  Strings of one
length are ordered as their numbers are (`le_iff_ofDigitChars_le`), so numbers padded with zeros
to a width are ordered as their strings, as long as they fit in the width (`padded_le_iff`).
Strings of any length stand for the same number exactly if they are the same but for leading
zeros (`ofDigitChars_eq_iff`).
-/
import Mathlib.Data.Nat.Basic
import Mathlib.Data.Char
import Mathlib.Data.List.Lex
import Mathlib.Tactic.Linarith

namespace Digits

/-! ## 1. Digits -/

/-- A digit lies between those of 0 and 9. -/
theorem toNat_of_isDigit {c : Char} (h : c.isDigit = true) : 48 ≤ c.toNat ∧ c.toNat ≤ 57 :=
  Char.isDigit_iff_toNat.mp h

/-- Digits are ordered by their values. -/
theorem digit_lt_iff {c d : Char} (hc : c.isDigit = true) (hd : d.isDigit = true) :
    c < d ↔ c.toNat - '0'.toNat < d.toNat - '0'.toNat := by
  have hlt : c < d ↔ c.toNat < d.toNat := Iff.rfl
  have hc' := toNat_of_isDigit hc
  have hd' := toNat_of_isDigit hd
  have hzero : '0'.toNat = 48 := rfl
  rw [hlt]
  omega

/-- Digits with one value are the same. -/
theorem digit_eq_iff {c d : Char} (hc : c.isDigit = true) (hd : d.isDigit = true) :
    c = d ↔ c.toNat - '0'.toNat = d.toNat - '0'.toNat := by
  have hc' := toNat_of_isDigit hc
  have hd' := toNat_of_isDigit hd
  have hzero : '0'.toNat = 48 := rfl
  rw [← Char.toNat_inj]
  omega

/-! ## 2. Strings of one length -/

/-- The first digit counts most. -/
theorem ofDigitChars_cons (c : Char) (cs : List Char) :
    Nat.ofDigitChars 10 (c :: cs) 0
      = 10 ^ cs.length * (c.toNat - '0'.toNat) + Nat.ofDigitChars 10 cs 0 := by
  rw [Nat.ofDigitChars_cons, Nat.ofDigitChars_eq_ofDigitChars_zero, Nat.mul_zero, Nat.zero_add]

/-- A string of `n` digits stands for less than `10 ^ n`. -/
theorem ofDigitChars_lt {cs : List Char} (h : ∀ c ∈ cs, c.isDigit = true) :
    Nat.ofDigitChars 10 cs 0 < 10 ^ cs.length := by
  induction cs with
  | nil => simp
  | cons c cs ih =>
    have hrest := ih (fun d hd => h d (List.mem_cons_of_mem c hd))
    have hdigit : c.toNat - '0'.toNat ≤ 9 := by
      have hle := toNat_of_isDigit (h c List.mem_cons_self)
      have hzero : '0'.toNat = 48 := rfl
      omega
    rw [ofDigitChars_cons, List.length_cons, Nat.pow_succ]
    nlinarith [Nat.mul_le_mul_left (10 ^ cs.length) hdigit]

/-- Two-digit numbers to the base `b` are ordered by their first digit, then by the second. -/
theorem add_lt_add_iff_lex {b m n r s : Nat} (hr : r < b) (hs : s < b) :
    b * m + r < b * n + s ↔ m < n ∨ m = n ∧ r < s := by
  rcases Nat.lt_trichotomy m n with hlt | rfl | hgt
  · have hstep := Nat.mul_le_mul_left b hlt
    rw [Nat.mul_succ] at hstep
    exact iff_of_true (by omega) (Or.inl hlt)
  · simp
  · have hstep := Nat.mul_le_mul_left b hgt
    rw [Nat.mul_succ] at hstep
    exact iff_of_false (by omega) (by omega)

/-- **Strings of one length are ordered as their numbers.** -/
theorem lt_iff_ofDigitChars_lt {xs ys : List Char} (hlen : xs.length = ys.length)
    (hxs : ∀ c ∈ xs, c.isDigit = true) (hys : ∀ c ∈ ys, c.isDigit = true) :
    xs < ys ↔ Nat.ofDigitChars 10 xs 0 < Nat.ofDigitChars 10 ys 0 := by
  induction xs generalizing ys with
  | nil =>
    obtain rfl := List.length_eq_zero_iff.mp hlen.symm
    simp
  | cons x xs ih =>
    cases ys with
    | nil => cases hlen
    | cons y ys =>
      have hlen' : xs.length = ys.length := by simpa using hlen
      have hxs' : ∀ c ∈ xs, c.isDigit = true := fun c hc => hxs c (List.mem_cons_of_mem x hc)
      have hys' : ∀ c ∈ ys, c.isDigit = true := fun c hc => hys c (List.mem_cons_of_mem y hc)
      have hltx := ofDigitChars_lt hxs'
      rw [hlen'] at hltx
      rw [List.cons_lt_cons_iff, ih hlen' hxs' hys', ofDigitChars_cons, ofDigitChars_cons, hlen',
        add_lt_add_iff_lex hltx (ofDigitChars_lt hys'),
        digit_lt_iff (hxs x List.mem_cons_self) (hys y List.mem_cons_self),
        digit_eq_iff (hxs x List.mem_cons_self) (hys y List.mem_cons_self)]

theorem le_iff_ofDigitChars_le {xs ys : List Char} (hlen : xs.length = ys.length)
    (hxs : ∀ c ∈ xs, c.isDigit = true) (hys : ∀ c ∈ ys, c.isDigit = true) :
    xs ≤ ys ↔ Nat.ofDigitChars 10 xs 0 ≤ Nat.ofDigitChars 10 ys 0 := by
  rw [← not_lt, ← Nat.not_lt, lt_iff_ofDigitChars_lt hlen.symm hys hxs]

/-! ## 3. Padding -/

/-- `n` with leading zeros, at least `width` digits long. -/
def padded (width n : Nat) : List Char :=
  List.replicate (width - (Nat.toDigits 10 n).length) '0' ++ Nat.toDigits 10 n

/-- The zeros do not count. -/
@[simp] theorem ofDigitChars_padded (width n : Nat) :
    Nat.ofDigitChars 10 (padded width n) 0 = n := by
  rw [padded, Nat.ofDigitChars_append, Nat.ofDigitChars_replicate_zero, Nat.mul_zero,
    Nat.ofDigitChars_ten_toDigits]

theorem isDigit_of_mem_padded {width n : Nat} {c : Char} (h : c ∈ padded width n) :
    c.isDigit = true := by
  rcases List.mem_append.mp h with hzero | hdigit
  · rw [List.eq_of_mem_replicate hzero]
    rfl
  · exact Nat.isDigit_of_mem_toDigits (by decide) (by decide) hdigit

theorem padded_ne_nil (width n : Nat) : padded width n ≠ [] :=
  List.append_ne_nil_of_right_ne_nil _ Nat.toDigits_ne_nil

theorem padded_injective (width : Nat) : Function.Injective (padded width) := by
  intro m n h
  rw [← ofDigitChars_padded width m, h, ofDigitChars_padded]

/-- A number that fits is padded to the width. -/
theorem length_padded {width n : Nat} (hwidth : 0 < width) (h : n < 10 ^ width) :
    (padded width n).length = width := by
  have hle : (Nat.toDigits 10 n).length ≤ width :=
    (Nat.length_toDigits_le_iff (by decide) hwidth).mpr h
  rw [padded, List.length_append, List.length_replicate]
  omega

/-- **Numbers that fit in the width are ordered as their strings.** -/
theorem padded_le_iff {width m n : Nat} (hwidth : 0 < width) (hm : m < 10 ^ width)
    (hn : n < 10 ^ width) : padded width m ≤ padded width n ↔ m ≤ n := by
  have hlen : (padded width m).length = (padded width n).length :=
    (length_padded hwidth hm).trans (length_padded hwidth hn).symm
  rw [le_iff_ofDigitChars_le hlen (fun _ => isDigit_of_mem_padded)
    (fun _ => isDigit_of_mem_padded), ofDigitChars_padded, ofDigitChars_padded]

/-! ## 4. Leading zeros -/

/-- The digits after the leading zeros. -/
def significant (cs : List Char) : List Char := cs.dropWhile (· = '0')

@[simp] theorem significant_zero_cons (cs : List Char) :
    significant ('0' :: cs) = significant cs := by
  simp [significant]

@[simp] theorem significant_cons_of_ne {c : Char} (cs : List Char) (h : c ≠ '0') :
    significant (c :: cs) = c :: cs := by
  simp [significant, h]

theorem isDigit_of_mem_significant {cs : List Char} (h : ∀ c ∈ cs, c.isDigit = true) :
    ∀ c ∈ significant cs, c.isDigit = true :=
  fun c hc => h c ((List.dropWhile_sublist _).subset hc)

/-- Leading zeros do not count. -/
@[simp] theorem ofDigitChars_significant (cs : List Char) :
    Nat.ofDigitChars 10 (significant cs) 0 = Nat.ofDigitChars 10 cs 0 := by
  induction cs with
  | nil => rfl
  | cons c cs ih =>
    by_cases hc : c = '0'
    · rw [hc, significant_zero_cons, ih, ofDigitChars_cons, Nat.sub_self, Nat.mul_zero,
        Nat.zero_add]
    · rw [significant_cons_of_ne cs hc]

/-- What is left starts with a digit that counts. -/
theorem significant_head_ne {cs rest : List Char} {c : Char} (h : significant cs = c :: rest) :
    c ≠ '0' := by
  induction cs with
  | nil => cases h
  | cons d cs ih =>
    by_cases hd : d = '0'
    · rw [hd, significant_zero_cons] at h
      exact ih h
    · rw [significant_cons_of_ne cs hd] at h
      cases h
      exact hd

/-- A string that starts with a digit other than 0 stands for as much as its length says. -/
theorem le_ofDigitChars {c : Char} {cs : List Char} (hc : c.isDigit = true) (hne : c ≠ '0') :
    10 ^ cs.length ≤ Nat.ofDigitChars 10 (c :: cs) 0 := by
  have hbounds := toNat_of_isDigit hc
  have hzero : '0'.toNat = 48 := rfl
  have hpos : 1 ≤ c.toNat - '0'.toNat := by
    rw [Ne, digit_eq_iff hc rfl] at hne
    omega
  rw [ofDigitChars_cons]
  exact (Nat.le_mul_of_pos_right _ hpos).trans (Nat.le_add_right _ _)

/-- Without leading zeros, a longer string stands for more. -/
theorem length_significant_le {xs ys : List Char} (hxs : ∀ c ∈ xs, c.isDigit = true)
    (hys : ∀ c ∈ ys, c.isDigit = true)
    (h : Nat.ofDigitChars 10 xs 0 ≤ Nat.ofDigitChars 10 ys 0) :
    (significant xs).length ≤ (significant ys).length := by
  cases hsig : significant xs with
  | nil => exact Nat.zero_le _
  | cons c rest =>
    have hc : c.isDigit = true :=
      isDigit_of_mem_significant hxs c (hsig ▸ List.mem_cons_self)
    have hlow := @le_ofDigitChars c rest hc (significant_head_ne hsig)
    rw [← hsig, ofDigitChars_significant] at hlow
    have hhigh := ofDigitChars_lt (isDigit_of_mem_significant hys)
    rw [ofDigitChars_significant] at hhigh
    exact (Nat.pow_lt_pow_iff_right (by decide)).mp ((hlow.trans h).trans_lt hhigh)

/-- **Digit strings stand for the same number** exactly if they are the same but for leading
zeros. -/
theorem ofDigitChars_eq_iff {xs ys : List Char} (hxs : ∀ c ∈ xs, c.isDigit = true)
    (hys : ∀ c ∈ ys, c.isDigit = true) :
    Nat.ofDigitChars 10 xs 0 = Nat.ofDigitChars 10 ys 0 ↔ significant xs = significant ys := by
  constructor
  · intro h
    have hlen : (significant xs).length = (significant ys).length :=
      le_antisymm (length_significant_le hxs hys h.le) (length_significant_le hys hxs h.ge)
    have hxs' := isDigit_of_mem_significant hxs
    have hys' := isDigit_of_mem_significant hys
    have hle := le_iff_ofDigitChars_le hlen hxs' hys'
    have hge := le_iff_ofDigitChars_le hlen.symm hys' hxs'
    rw [ofDigitChars_significant, ofDigitChars_significant] at hle hge
    exact le_antisymm (hle.mpr h.le) (hge.mpr h.ge)
  · intro h
    rw [← ofDigitChars_significant xs, h, ofDigitChars_significant]

end Digits
