/-
# bincode for log records

The bytes bincode 1.3 documents for a `WalRecord` with its default options: fixed-width
little-endian integers, a `u32` variant index in front of an enum's payload, a `u64` length in
front of a string, a sequence or a map, fields in declaration order, trailing bytes tolerated.

The log's theorems take the codec as a parameter; `walCodec` is the instance they are tried
on, and it shows that what they ask of the codec can be had.
-/
import ZearchEngine.Wal.File
import ZearchEngine.Lib.Wire

namespace ZearchEngine.Bincode

open LengthPrefix LengthPrefix.Wire

/-- An `f64`: its eight bytes. -/
def f64 : Wire F64 := u64.iso F64.bits (fun b => some ⟨b⟩) (fun _ => rfl)

/-- A `Value`: the variant index, then the payload. -/
def value : Wire Value where
  put
    | .string s => u32.put 0 ++ str.put s
    | .number n => u32.put 1 ++ f64.put n
    | .bool b => u32.put 2 ++ bool.put b
    | .stringArray ss => u32.put 3 ++ (seq str).put ss
  get bs := do
    let (tag, bs) ← u32.get bs
    match tag.toNat with
    | 0 => (str.get bs).map fun p => (.string p.1, p.2)
    | 1 => (f64.get bs).map fun p => (.number p.1, p.2)
    | 2 => (bool.get bs).map fun p => (.bool p.1, p.2)
    | 3 => ((seq str).get bs).map fun p => (.stringArray p.1, p.2)
    | _ => none
  pos v := by
    have := u32.pos
    cases v <;> (simp only [List.length_append]; exact Nat.add_pos_left (this _) _)
  get_put v rest h := by
    cases v <;> simp only [List.length_append] at h
    case string s => simp [u32.get_put 0 _ (by omega), str.get_put s rest (by omega)]
    case number n => simp [u32.get_put 1 _ (by omega), f64.get_put n rest (by omega)]
    case bool b => simp [u32.get_put 2 _ (by omega), bool.get_put b rest (by omega)]
    case stringArray ss =>
      simp [u32.get_put 3 _ (by omega), (seq str).get_put ss rest (by omega)]

/-- The attributes: the entries of the map, key then value. -/
def attributes : Wire Attributes :=
  (seq (pair str value)).iso Attributes.entries
    (fun es => if h : (es.map Prod.fst).Nodup then some ⟨es, h⟩ else none)
    (fun a => by rw [dif_pos a.nodup])

/-- A `Document`: its fields in declaration order. -/
def document : Wire Document :=
  (pair u64 (pair str (pair str (pair f64 (pair str attributes))))).iso
    (fun d => (d.id, d.title, d.description, d.price, d.category, d.attributes))
    (fun (id, title, description, price, category, attributes) =>
      some { id, title, description, price, category, attributes })
    (fun _ => rfl)

/-- A `WalEntry`: the variant index, then the payload. -/
def walEntry : Wire WalEntry where
  put
    | .index doc => u32.put 0 ++ document.put doc
    | .delete docId => u32.put 1 ++ u64.put docId
  get bs := do
    let (tag, bs) ← u32.get bs
    match tag.toNat with
    | 0 => (document.get bs).map fun p => (.index p.1, p.2)
    | 1 => (u64.get bs).map fun p => (.delete p.1, p.2)
    | _ => none
  pos e := by
    have := u32.pos
    cases e <;> (simp only [List.length_append]; exact Nat.add_pos_left (this _) _)
  get_put e rest h := by
    cases e <;> simp only [List.length_append] at h
    case index doc => simp [u32.get_put 0 _ (by omega), document.get_put doc rest (by omega)]
    case delete docId => simp [u32.get_put 1 _ (by omega), u64.get_put docId rest (by omega)]

/-- A `WalRecord`: the sequence number, then the entry. -/
def walRecord : Wire WalRecord :=
  (pair u64 walEntry).iso (fun r => (r.seq, r.entry)) (fun (seq, entry) => some { seq, entry })
    (fun _ => rfl)

/-- `bincode::serialize` and `bincode::deserialize` at `WalRecord`. -/
def walCodec : Codec WalRecord := walRecord.codec

/-! ## Deletions

A deletion is twenty bytes whatever it deletes, and a decoder reads it from the front. -/

theorem serialize_delete (seq : UInt64) (docId : DocId) :
    walCodec.serialize ⟨seq, .delete docId⟩
      = leBytes 8 seq.toNat ++ (leBytes 4 1 ++ leBytes 8 docId.toNat) := rfl

/-- Bytes that read as a deletion are the deletion's encoding and what follows it. -/
theorem walEntry_get_delete {bs rest : Bytes} {docId : DocId}
    (h : walEntry.get bs = some (.delete docId, rest)) :
    bs = u32.put 1 ++ (u64.put docId ++ rest) := by
  simp only [walEntry, Option.bind_eq_bind, Option.bind_eq_some_iff, Prod.exists] at h
  obtain ⟨tag, bs', htag, harm⟩ := h
  split at harm
  · simp at harm
  · rename_i hone
    have hid : u64.get bs' = some (docId, rest) := by simpa using harm
    have htagEq : tag = 1 := UInt32.toNat_inj.mp hone
    rw [u32_get_eq_some htag, u64_get_eq_some hid, htagEq]
  · simp at harm

theorem walRecord_get_delete {bs rest : Bytes} {seq : UInt64} {docId : DocId}
    (h : walRecord.get bs = some (⟨seq, .delete docId⟩, rest)) :
    bs = u64.put seq ++ (u32.put 1 ++ (u64.put docId ++ rest)) := by
  simp only [walRecord, iso, pair, Option.bind_eq_bind, Option.bind_eq_some_iff,
    Option.some.injEq, Prod.mk.injEq, Prod.exists] at h
  obtain ⟨_, _, _, ⟨_, bs', hseq, _, _, hentry, ⟨rfl, rfl⟩, rfl⟩, _, rfl, ⟨rfl, rfl⟩, rfl⟩ := h
  rw [u64_get_eq_some hseq, walEntry_get_delete hentry]

theorem deserialize_delete {bs : Bytes} {seq : UInt64} {docId : DocId}
    (h : walCodec.deserialize bs = some ⟨seq, .delete docId⟩) :
    walCodec.serialize ⟨seq, .delete docId⟩ <+: bs := by
  obtain ⟨⟨r, rest⟩, hget, rfl : r = ⟨seq, .delete docId⟩⟩ := Option.map_eq_some_iff.mp h
  refine ⟨rest, ?_⟩
  rw [walRecord_get_delete hget, serialize_delete]
  simp only [List.append_assoc]
  rfl

end ZearchEngine.Bincode
