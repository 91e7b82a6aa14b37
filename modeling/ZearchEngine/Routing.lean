/-
# The shard of a document

`jump_consistent_hash` (`crates/router/src/routing.rs`).  Its loop jumps forward through the bucket
numbers, each jump the quotient of two `f64`s; of that arithmetic only this is used, that rounding
is monotone and leaves the integers that occur as they are (`Rounding`).

Where a key jumps does not depend on the number of buckets.  The loop stops at the last place
below that number (`jumpLoop_isGreatest`).  So it ends, in range, and one bucket more changes the
bucket of a key to the new one or not at all (`jump_consistent`).
-/
import ZearchEngine.Suggest
import Mathlib

namespace ZearchEngine

namespace Routing

/-! ## 1. The loop -/

/-- A rounding of exact results, as far as the loop depends on it. -/
structure Rounding where
  round : ℚ → ℚ
  mono : Monotone round
  intCast : ∀ n : ℤ, round n = n

/-- Nothing is rounded. -/
def Rounding.exact : Rounding := ⟨id, monotone_id, fun _ => rfl⟩

@[simp] theorem Rounding.exact_round (x : ℚ) : Rounding.exact.round x = x := rfl

/-- `x as i64`: towards zero, and within the range of the type. -/
def asI64 (x : ℚ) : ℤ :=
  if 0 ≤ x then min ⌊x⌋ (2 ^ 63 - 1) else max ⌈x⌉ (-2 ^ 63)

/-- One step of the generator. -/
def nextKey (k : UInt64) : UInt64 := k * 2862933555777941757 + 1

/-- Where the loop goes from bucket `b`, with the new state `k` of the generator. -/
def jump (f : Rounding) (k : UInt64) (b : ℤ) : ℤ :=
  asI64 (f.round (f.round (f.round ((b + 1 : ℤ) : ℚ) * f.round ((2 ^ 31 : ℤ) : ℚ))
    / f.round ((((k >>> 33).toNat + 1 : Nat) : ℤ) : ℚ)))

/-- The loop of `jump_consistent_hash`; none if it has not ended within `fuel` turns. -/
def jumpLoop (f : Rounding) (numBuckets : ℤ) : Nat → UInt64 → ℤ → ℤ → Option ℤ
  | 0, _, _, _ => none
  | fuel + 1, k, b, j =>
    if j < numBuckets then
      jumpLoop f numBuckets fuel (nextKey k) j (jump f (nextKey k) j)
    else some b

/-- `jump_consistent_hash`, within `fuel` turns. -/
def jumpConsistentHash (f : Rounding) (fuel : Nat) (key : UInt64) (numBuckets : UInt32) :
    Option UInt32 :=
  (jumpLoop f numBuckets.toNat fuel key (-1) 0).map (fun b => UInt32.ofInt b)

/-! ## 2. Jumps go forward -/

theorem asI64_of_nonneg {x : ℚ} (hx : 0 ≤ x) : asI64 x = min ⌊x⌋ (2 ^ 63 - 1) := if_pos hx

/-- The divisor is no more than what the bucket is multiplied with. -/
theorem shifted_lt (k : UInt64) : (k >>> 33).toNat + 1 ≤ 2 ^ 31 := by
  have hword := k.toNat_lt
  rw [UInt64.toNat_shiftRight, Nat.shiftRight_eq_div_pow]
  exact Nat.div_lt_of_lt_mul (by simpa using hword)

/-- The quotient, with nothing rounded but itself. -/
theorem jump_eq (f : Rounding) (k : UInt64) (b : ℤ) :
    jump f k b = asI64 (f.round (((b + 1) * 2 ^ 31 : ℤ) / (((k >>> 33).toNat + 1 : Nat) : ℚ))) := by
  have hprod : f.round (((b + 1 : ℤ) : ℚ) * ((2 ^ 31 : ℤ) : ℚ)) = ((b + 1) * 2 ^ 31 : ℤ) := by
    rw [← Int.cast_mul, f.intCast]
  rw [jump, f.intCast (b + 1), f.intCast (2 ^ 31), f.intCast ((_ : Nat) : ℤ), hprod]
  norm_cast

/-- **A jump goes at least one bucket on**, as far as the type goes. -/
theorem le_jump (f : Rounding) (k : UInt64) {b : ℤ} (hb : 0 ≤ b) :
    min (b + 1) (2 ^ 63 - 1) ≤ jump f k b := by
  have hdiv : (0 : ℚ) < (((k >>> 33).toNat + 1 : Nat) : ℚ) := by positivity
  have hquot : ((b + 1 : ℤ) : ℚ) ≤ ((b + 1) * 2 ^ 31 : ℤ) / (((k >>> 33).toNat + 1 : Nat) : ℚ) := by
    have hshift : (((k >>> 33).toNat + 1 : Nat) : ℚ) ≤ 2 ^ 31 := by exact_mod_cast shifted_lt k
    have hpos : (0 : ℚ) ≤ ((b + 1 : ℤ) : ℚ) := by exact_mod_cast (by omega : 0 ≤ b + 1)
    rw [le_div_iff₀ hdiv, Int.cast_mul]
    exact mul_le_mul_of_nonneg_left (by exact_mod_cast hshift) hpos
  have hround := f.mono hquot
  rw [f.intCast] at hround
  have hnonneg : (0 : ℚ) ≤ ((b + 1 : ℤ) : ℚ) := by exact_mod_cast (by omega : 0 ≤ b + 1)
  rw [jump_eq, asI64_of_nonneg (hnonneg.trans hround)]
  exact min_le_min_right _ (Int.le_floor.mpr hround)

/-! ## 3. The places a key visits -/

/-- From the state `k`, `j` of the loop a key comes to `x`, whatever the number of buckets. -/
inductive Visits (f : Rounding) : UInt64 → ℤ → ℤ → Prop
  | here (k : UInt64) (j : ℤ) : Visits f k j j
  | later {k : UInt64} {j x : ℤ} (h : Visits f (nextKey k) (jump f (nextKey k) j) x) :
      Visits f k j x

theorem visits_iff {f : Rounding} {k : UInt64} {j x : ℤ} :
    Visits f k j x ↔ x = j ∨ Visits f (nextKey k) (jump f (nextKey k) j) x := by
  constructor
  · intro h
    cases h with
    | here => exact .inl rfl
    | later h => exact .inr h
  · rintro (rfl | h)
    · exact .here k x
    · exact .later h

/-- A key does not come back. -/
theorem Visits.le {f : Rounding} {k : UInt64} {j x : ℤ} (h : Visits f k j x) (hj : 0 ≤ j) :
    min j (2 ^ 63 - 1) ≤ x := by
  induction h with
  | here k j => exact min_le_left _ _
  | @later k j x _ ih =>
    have hjump := le_jump f (nextKey k) hj
    have := ih (by omega)
    omega

/-- **The loop ends at the last place below the number of buckets**, or where it was before. -/
theorem jumpLoop_isGreatest (f : Rounding) {n : ℤ} (hn : n < 2 ^ 63) :
    ∀ (fuel : Nat) (k : UInt64) (b j : ℤ), 0 ≤ j → b < j → 0 < fuel → n < j + fuel →
      ∃ r, jumpLoop f n fuel k b j = some r ∧
        IsGreatest (insert b {x | Visits f k j x ∧ x < n}) r
  | 0, _, _, _, _, _, hpos, _ => absurd hpos (Nat.lt_irrefl 0)
  | fuel + 1, k, b, j, hj, hbj, _, hfuel => by
    rw [jumpLoop]
    by_cases hlt : j < n
    · have hjump := le_jump f (nextKey k) hj
      obtain ⟨r, hr, hmem, hmax⟩ := jumpLoop_isGreatest f hn fuel (nextKey k) j
        (jump f (nextKey k) j) (by omega) (by omega) (by omega) (by omega)
      have hjr : j ≤ r := hmax (Set.mem_insert j _)
      rw [if_pos hlt]
      refine ⟨r, hr, ?_, ?_⟩
      · rcases hmem with rfl | ⟨hvisits, hrn⟩
        · exact .inr ⟨.here k r, hlt⟩
        · exact .inr ⟨.later hvisits, hrn⟩
      · rintro x (rfl | ⟨hvisits, hxn⟩)
        · omega
        · rcases visits_iff.mp hvisits with rfl | hvisits
          · exact hjr
          · exact hmax (.inr ⟨hvisits, hxn⟩)
    · rw [if_neg hlt]
      refine ⟨b, rfl, Set.mem_insert b _, ?_⟩
      rintro x (rfl | ⟨hvisits, hxn⟩)
      · exact le_refl x
      · have := hvisits.le hj
        omega

/-! ## 4. The bucket of a key -/

/-- The places below a number of buckets, of which the bucket of a key is the last. -/
theorem jumpConsistentHash_isGreatest (f : Rounding) (key : UInt64) {n : UInt32} (hn : 1 ≤ n)
    {fuel : Nat} (hfuel : n.toNat < fuel) :
    ∃ r, jumpConsistentHash f fuel key n = some r ∧ r < n ∧
      IsGreatest {x : ℤ | Visits f key 0 x ∧ x < n.toNat} r.toNat := by
  have hword := n.toNat_lt
  have hpos : 1 ≤ n.toNat := UInt32.le_iff_toNat_le.mp hn
  obtain ⟨r, hr, hmem, hmax⟩ := jumpLoop_isGreatest f (n := n.toNat) (by omega) fuel key (-1) 0
    (Int.le_refl 0) (by omega) (by omega) (by omega)
  have hzero : 0 ≤ r := hmax (.inr ⟨.here key 0, by omega⟩)
  rcases hmem with rfl | ⟨hvisits, hrn⟩
  · omega
  have hcast : ((UInt32.ofInt r).toNat : ℤ) = r := by
    have hkeep : (UInt32.ofInt r).toNat = (r % 2 ^ 32).toNat := UInt32.toNat_ofNat_of_lt' (by
      rw [UInt32.size]
      omega)
    omega
  refine ⟨UInt32.ofInt r, by rw [jumpConsistentHash, hr, Option.map_some], ?_, ?_, ?_⟩
  · rw [UInt32.lt_iff_toNat_lt]
    omega
  · rw [hcast]
    exact ⟨hvisits, hrn⟩
  · intro x hx
    rw [hcast]
    exact hmax (.inr hx)

/-- However many turns are allowed beyond the buckets, the bucket is the same. -/
theorem jumpConsistentHash_ends (f : Rounding) (key : UInt64) {n : UInt32} (hn : 1 ≤ n) :
    ∃ r, (∀ fuel, n.toNat < fuel → jumpConsistentHash f fuel key n = some r) ∧ r < n ∧
      IsGreatest {x : ℤ | Visits f key 0 x ∧ x < n.toNat} r.toNat := by
  obtain ⟨r, -, hrn, hmax⟩ := jumpConsistentHash_isGreatest f key hn (Nat.lt_succ_self _)
  refine ⟨r, fun fuel hfuel => ?_, hrn, hmax⟩
  obtain ⟨r', hr', -, hmax'⟩ := jumpConsistentHash_isGreatest f key hn hfuel
  have heq : r'.toNat = r.toNat := by exact_mod_cast hmax'.unique hmax
  rw [hr', UInt32.toNat_inj.mp heq]

/-- **Jump hash is consistent**: it ends, at a bucket below the number of buckets, and with one
bucket more a key stays where it is or goes to the new one. -/
theorem jump_consistent (f : Rounding) (key : UInt64) (n : UInt32) (hn : 1 ≤ n) :
    ∃ r, (∀ fuel, n.toNat < fuel → jumpConsistentHash f fuel key n = some r) ∧ r < n ∧
      (n.toNat + 1 < 2 ^ 32 → ∃ r', (r' = r ∨ r' = n) ∧
        ∀ fuel, (n + 1).toNat < fuel → jumpConsistentHash f fuel key (n + 1) = some r') := by
  obtain ⟨r, hends, hrn, ⟨hvisits, hlt⟩, hmax⟩ := jumpConsistentHash_ends f key hn
  refine ⟨r, hends, hrn, fun hword => ?_⟩
  have hsucc : (n + 1).toNat = n.toNat + 1 := by
    rw [UInt32.toNat_add]
    exact Nat.mod_eq_of_lt hword
  have hn' : 1 ≤ n + 1 := by
    rw [UInt32.le_iff_toNat_le, hsucc]
    exact Nat.succ_le_succ (Nat.zero_le _)
  obtain ⟨r', hends', hrn', ⟨hvisits', -⟩, hmax'⟩ := jumpConsistentHash_ends f key hn'
  refine ⟨r', ?_, hends'⟩
  rw [UInt32.lt_iff_toNat_lt, hsucc] at hrn'
  rcases Nat.lt_succ_iff_lt_or_eq.mp hrn' with hbelow | hnew
  · -- a place below `n` is one of both loops
    have hle : (r'.toNat : ℤ) ≤ r.toNat := hmax ⟨hvisits', by omega⟩
    have hge : (r.toNat : ℤ) ≤ r'.toNat := hmax' ⟨hvisits, by omega⟩
    exact .inl (UInt32.toNat_inj.mp (by omega))
  · exact .inr (UInt32.toNat_inj.mp hnew)

/-- From four buckets to five. -/
theorem jump_consistent_four :
    ∃ r, (∀ fuel, 4 < fuel → jumpConsistentHash .exact fuel 42 4 = some r) ∧ r < 4 ∧
      ∃ r', (r' = r ∨ r' = 4) ∧
        ∀ fuel, 5 < fuel → jumpConsistentHash .exact fuel 42 5 = some r' := by
  obtain ⟨r, hfour, hlt, hfive⟩ := jump_consistent .exact 42 4 (by decide)
  exact ⟨r, hfour, hlt, hfive (by decide)⟩

/-! ## 5. Without rounding -/

/-- A jump in natural numbers. -/
theorem jump_exact (k : UInt64) {j : Nat} (hj : j + 1 < 2 ^ 32) :
    jump .exact k j = ((j + 1) * 2 ^ 31 / ((k >>> 33).toNat + 1) : Nat) := by
  have hnonneg : (0 : ℚ) ≤ (((j + 1) * 2 ^ 31 : Nat) : ℚ) / (((k >>> 33).toNat + 1 : Nat) : ℚ) := by
    positivity
  have hfloor := Rat.floor_intCast_div_natCast (((j + 1) * 2 ^ 31 : Nat) : ℤ)
    ((k >>> 33).toNat + 1)
  rw [Int.cast_natCast] at hfloor
  have hle : (j + 1) * 2 ^ 31 / ((k >>> 33).toNat + 1) ≤ (j + 1) * 2 ^ 31 := Nat.div_le_self _ _
  have hcast : (((j : ℤ) + 1) * 2 ^ 31 : ℤ) = (((j + 1) * 2 ^ 31 : Nat) : ℤ) := by push_cast; ring
  rw [jump_eq, Rounding.exact_round, hcast, Int.cast_natCast, asI64_of_nonneg hnonneg, hfloor,
    ← Int.natCast_div]
  omega

/-- **Without rounding** the loop is the one of natural numbers. -/
theorem jumpLoop_exact {n : Nat} (hn : n < 2 ^ 32) : ∀ (fuel : Nat) (k : UInt64) (b j : Nat),
    n ≤ j + fuel →
    jumpLoop .exact n (fuel + 1) k b j = some (ZearchEngine.jumpLoop n fuel k b j : ℤ)
  | 0, k, b, j, hfuel => by
    rw [jumpLoop, if_neg (by omega), ZearchEngine.jumpLoop]
  | fuel + 1, k, b, j, hfuel => by
    rw [jumpLoop, ZearchEngine.jumpLoop]
    by_cases hlt : j < n
    · have hjump := le_jump .exact (nextKey k) (b := j) (by omega)
      rw [jump_exact _ (by omega)] at hjump
      rw [if_pos (by omega), if_pos hlt, jump_exact _ (by omega)]
      exact jumpLoop_exact hn fuel (nextKey k) j _ (by omega)
    · rw [if_neg (by omega), if_neg hlt]

/-- The two forms of `jump_consistent_hash` agree where nothing is rounded. -/
theorem jumpConsistentHash_exact (key : UInt64) {n : UInt32} (hn : 1 ≤ n) :
    jumpConsistentHash .exact (n.toNat + 1) key n
      = some (UInt32.ofNat (ZearchEngine.jumpConsistentHash key n.toNat)) := by
  have hword := n.toNat_lt
  obtain ⟨m, hm⟩ := Nat.exists_eq_succ_of_ne_zero
    (Nat.one_le_iff_ne_zero.mp (UInt32.le_iff_toNat_le.mp hn))
  have hjump := le_jump .exact (nextKey key) (Int.le_refl 0)
  have hexact := jump_exact (nextKey key) (j := 0) (by omega)
  rw [Nat.cast_zero] at hexact
  have hfirst := jumpLoop_exact hword m (nextKey key) 0
    ((0 + 1) * 2 ^ 31 / ((nextKey key >>> 33).toNat + 1)) (by omega)
  have hrun : jumpLoop .exact n.toNat (n.toNat + 1) key (-1) 0
      = some (ZearchEngine.jumpConsistentHash key n.toNat : ℤ) := by
    rw [jumpLoop, if_pos (by omega), hexact, ZearchEngine.jumpConsistentHash]
    conv_rhs => rw [hm, ZearchEngine.jumpLoop, if_pos (by omega), ← hm]
    rw [← Nat.succ_eq_add_one, ← hm] at hfirst
    exact hfirst
  have hlt : ZearchEngine.jumpConsistentHash key n.toNat < n.toNat :=
    jumpLoop_lt n.toNat n.toNat key 0 0 (by omega)
  have hcast : ((ZearchEngine.jumpConsistentHash key n.toNat : ℤ) % 2 ^ 32).toNat
      = ZearchEngine.jumpConsistentHash key n.toNat := by omega
  rw [jumpConsistentHash, hrun, Option.map_some, UInt32.ofInt, hcast]

end Routing

end ZearchEngine
