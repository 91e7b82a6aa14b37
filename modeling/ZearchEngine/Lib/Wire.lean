/-
# Sequential wire formats

A `Wire α` writes a value as bytes and reads it back from the front of a byte string, handing
on what it did not consume.  The one law, `get_put`, is asked only of values whose encoding is
shorter than `2 ^ 64` bytes, so that a format may write lengths and counts in eight bytes.

The formats are the fixed-width little-endian ones: words, strings and sequences with a
64-bit length in front, records as their fields in order.  `Wire.codec` forgets the remaining
bytes, which is how a decoder that tolerates trailing bytes reads one value.
-/
import ZearchEngine.Lib.LengthPrefix
import Mathlib.Data.String.Basic

namespace LengthPrefix

/-- A format for `α`, read from the front of a byte string. -/
structure Wire (α : Type) where
  put : α → Bytes
  get : Bytes → Option (α × Bytes)
  pos : ∀ a, 0 < (put a).length
  get_put : ∀ a rest, (put a).length < 2 ^ 64 → get (put a ++ rest) = some (a, rest)

/-- Take `n` bytes, if there are that many. -/
def takeBytes (n : Nat) (bs : Bytes) : Option (Bytes × Bytes) :=
  if n ≤ bs.length then some (bs.take n, bs.drop n) else none

theorem takeBytes_append {n : Nat} {w : Bytes} (h : w.length = n) (rest : Bytes) :
    takeBytes n (w ++ rest) = some (w, rest) := by
  subst h
  simp [takeBytes]

theorem takeBytes_eq_some {n : Nat} {bs w rest : Bytes} (h : takeBytes n bs = some (w, rest)) :
    w.length = n ∧ bs = w ++ rest := by
  unfold takeBytes at h
  split at h
  · rename_i hn
    cases h
    exact ⟨List.length_take_of_le hn, (List.take_append_drop n bs).symm⟩
  · cases h

namespace Wire

variable {α β : Type}

/-! ## 1. Words -/

/-- A 32-bit word. -/
def u32 : Wire UInt32 where
  put x := leBytes 4 x.toNat
  get bs := (takeBytes 4 bs).map fun p => (UInt32.ofNat (leNat p.1), p.2)
  pos x := by simp
  get_put x rest _ := by
    have hx : x.toNat < 256 ^ 4 := x.toNat_lt
    rw [takeBytes_append (leBytes_length 4 _), Option.map_some, leNat_leBytes_of_lt hx]
    simp

/-- A 64-bit word. -/
def u64 : Wire UInt64 where
  put x := leBytes 8 x.toNat
  get bs := (takeBytes 8 bs).map fun p => (UInt64.ofNat (leNat p.1), p.2)
  pos x := by simp
  get_put x rest _ := by
    have hx : x.toNat < 256 ^ 8 := x.toNat_lt
    rw [takeBytes_append (leBytes_length 8 _), Option.map_some, leNat_leBytes_of_lt hx]
    simp

/-- A word is read from its own bytes and no others. -/
theorem u32_get_eq_some {bs rest : Bytes} {x : UInt32} (h : u32.get bs = some (x, rest)) :
    bs = u32.put x ++ rest := by
  obtain ⟨⟨w, rest'⟩, hw, heq⟩ := Option.map_eq_some_iff.mp h
  obtain ⟨hlen, rfl⟩ := takeBytes_eq_some hw
  cases heq
  have hlt : leNat w < 2 ^ 32 := by have := leNat_lt w; rwa [hlen] at this
  have hput : u32.put (UInt32.ofNat (leNat w)) = w := by
    have hnat : (UInt32.ofNat (leNat w)).toNat = leNat w := UInt32.toNat_ofNat_of_lt' hlt
    show leBytes 4 (UInt32.ofNat (leNat w)).toNat = w
    rw [hnat, ← hlen, leBytes_leNat]
  rw [hput]

theorem u64_get_eq_some {bs rest : Bytes} {x : UInt64} (h : u64.get bs = some (x, rest)) :
    bs = u64.put x ++ rest := by
  obtain ⟨⟨w, rest'⟩, hw, heq⟩ := Option.map_eq_some_iff.mp h
  obtain ⟨hlen, rfl⟩ := takeBytes_eq_some hw
  cases heq
  have hlt : leNat w < 2 ^ 64 := by have := leNat_lt w; rwa [hlen] at this
  have hput : u64.put (UInt64.ofNat (leNat w)) = w := by
    have hnat : (UInt64.ofNat (leNat w)).toNat = leNat w := UInt64.toNat_ofNat_of_lt' hlt
    show leBytes 8 (UInt64.ofNat (leNat w)).toNat = w
    rw [hnat, ← hlen, leBytes_leNat]
  rw [hput]

/-- A truth value, in one byte. -/
def bool : Wire Bool where
  put b := [if b then 1 else 0]
  get
    | 0 :: rest => some (false, rest)
    | 1 :: rest => some (true, rest)
    | _ => none
  pos b := by simp
  get_put b rest _ := by cases b <;> rfl

/-! ## 2. Strings and sequences -/

/-- A length in eight bytes. -/
def count (n : Nat) : Bytes := leBytes 8 n

/-- Read a length. -/
def getCount (bs : Bytes) : Option (Nat × Bytes) :=
  (takeBytes 8 bs).map fun p => (leNat p.1, p.2)

theorem getCount_append {n : Nat} (h : n < 2 ^ 64) (rest : Bytes) :
    getCount (count n ++ rest) = some (n, rest) := by
  have hn : n < 256 ^ 8 := h
  rw [getCount, count, takeBytes_append (leBytes_length 8 _), Option.map_some,
    leNat_leBytes_of_lt hn]

/-- The UTF-8 bytes of a string. -/
def utf8 (s : String) : Bytes := s.toByteArray.data.toList

/-- The string with these UTF-8 bytes, if they are valid. -/
def ofUtf8 (bs : Bytes) : Option String :=
  if h : (ByteArray.mk bs.toArray).IsValidUTF8 then some (String.ofByteArray _ h) else none

theorem ofUtf8_utf8 (s : String) : ofUtf8 (utf8 s) = some s := by
  have hb : ByteArray.mk (utf8 s).toArray = s.toByteArray := by simp [utf8]
  have hv : (ByteArray.mk (utf8 s).toArray).IsValidUTF8 := by rw [hb]; exact s.isValidUTF8
  rw [ofUtf8, dif_pos hv, Option.some.injEq]
  exact String.toByteArray_inj.mp hb

/-- A string: its length in bytes, then its UTF-8 bytes. -/
def str : Wire String where
  put s := count (utf8 s).length ++ utf8 s
  get bs := do
    let (n, bs) ← getCount bs
    let (w, rest) ← takeBytes n bs
    let s ← ofUtf8 w
    some (s, rest)
  pos s := by simp [count]
  get_put s rest h := by
    have hlen : (utf8 s).length < 2 ^ 64 := by simp only [List.length_append] at h; omega
    rw [List.append_assoc, getCount_append hlen]
    simp [takeBytes_append rfl, ofUtf8_utf8]

/-- Read `n` values, one after the other. -/
def getN (w : Wire α) : Nat → Bytes → Option (List α × Bytes)
  | 0, bs => some ([], bs)
  | n + 1, bs => do
    let (a, bs) ← w.get bs
    let (as, rest) ← getN w n bs
    some (a :: as, rest)

theorem getN_append (w : Wire α) : ∀ (as : List α) (rest : Bytes),
    (as.flatMap w.put).length < 2 ^ 64 →
    getN w as.length (as.flatMap w.put ++ rest) = some (as, rest)
  | [], _, _ => rfl
  | a :: as, rest, h => by
    simp only [List.flatMap_cons, List.length_append] at h
    rw [List.length_cons, getN, List.flatMap_cons, List.append_assoc,
      w.get_put a _ (by omega)]
    simp [getN_append w as rest (by omega)]

/-- Every value takes at least a byte, so a sequence is no longer than its encoding. -/
theorem length_le_flatMap (w : Wire α) : ∀ as : List α, as.length ≤ (as.flatMap w.put).length
  | [] => Nat.le_refl _
  | a :: as => by
    have h1 := length_le_flatMap w as
    have h2 := w.pos a
    simp only [List.flatMap_cons, List.length_append, List.length_cons]
    omega

/-- A sequence: its length, then its elements. -/
def seq (w : Wire α) : Wire (List α) where
  put as := count as.length ++ as.flatMap w.put
  get bs := do
    let (n, bs) ← getCount bs
    getN w n bs
  pos as := by simp [count]
  get_put as rest h := by
    simp only [List.length_append] at h
    have hle := length_le_flatMap w as
    rw [List.append_assoc, getCount_append (by omega)]
    exact getN_append w as rest (by omega)

/-! ## 3. Records -/

/-- Two fields, one after the other. -/
def pair (v : Wire α) (w : Wire β) : Wire (α × β) where
  put p := v.put p.1 ++ w.put p.2
  get bs := do
    let (a, bs) ← v.get bs
    let (b, rest) ← w.get bs
    some ((a, b), rest)
  pos p := by have := v.pos p.1; simp only [List.length_append]; omega
  get_put p rest h := by
    simp only [List.length_append] at h
    rw [List.append_assoc, v.get_put p.1 _ (by omega)]
    simp [w.get_put p.2 rest (by omega)]

/-- The same bytes, read as another type: `dec` may refuse what `enc` never produces. -/
def iso (w : Wire α) (enc : β → α) (dec : α → Option β) (h : ∀ b, dec (enc b) = some b) :
    Wire β where
  put b := w.put (enc b)
  get bs := do
    let (a, rest) ← w.get bs
    let b ← dec a
    some (b, rest)
  pos b := w.pos (enc b)
  get_put b rest hlt := by
    rw [w.get_put (enc b) rest hlt]
    simp [h b]

/-- Reading one value from the front and forgetting what follows it. -/
def codec (w : Wire α) : Codec α where
  serialize := w.put
  deserialize bs := (w.get bs).map Prod.fst
  roundtrip a h := by
    have hput := w.get_put a [] (by omega)
    rw [List.append_nil] at hput
    rw [hput, Option.map_some]

end Wire

end LengthPrefix
