/-
# The inverted index as bytes

`PostingList::encode` and `decode` (`crates/index/src/posting.rs`), and the two files of an
inverted index, as `InvertedIndexWriter::write` writes them and `InvertedIndexReader` reads them
(`inverted.rs`).  A posting list is varints and block headers, the document ids by their
distances.  `inverted.post` is one such list after the other, each behind its length, and
`inverted.fst` leads from a term to the place of its list.

What is written is read back, by the bytes (`decode_encode`) and by the term
(`getPostings_write`).  So the documents of a segment come back under their terms as they were
counted (`searchTerm_written`), and the index of `ZearchEngine.Inverted`, which leaves the bytes
out, is what these files hold (`searchTerm_eq_map`).

A computation that panics has no result.  The impacts of the block headers are rounded to `f32`
when they are written; `round` is a parameter, and so is the `fst` crate.
-/
import ZearchEngine.Float
import ZearchEngine.Inverted
import ZearchEngine.Lib.Varint
import ZearchEngine.Lib.Wire

namespace ZearchEngine

open LengthPrefix

/-! ## 1. Posting lists -/

namespace PostingList

/-- The block headers of a list, rounded to `f32`. -/
def toF32 {R : Type} (round : R → F32) (pl : PostingList R) : PostingList F32 :=
  ⟨pl.postings, pl.blocks.map (fun b => ⟨round b.maxImpact⟩)⟩

/-- The loop of `encode` over the postings.  It fails where `doc_id - prev` would be negative. -/
def encodePostings : LocalDocId → List Posting → Option Bytes
  | _, [] => some []
  | prev, p :: ps =>
    if p.docId < prev then none
    else (encodePostings p.docId ps).map (fun bytes =>
      encodeVarint (p.docId - prev)
        ++ (encodeVarint p.termFreq ++ (encodeVarint p.docLen ++ bytes)))

/-- `encode`. -/
def encode (pl : PostingList F32) : Option Bytes :=
  (encodePostings 0 pl.postings).map (fun bytes =>
    encodeVarint pl.blocks.length ++ (pl.blocks.flatMap (fun b => b.maxImpact.toLeBytes) ++
      (encodeVarint pl.postings.length ++ bytes)))

/-- The loop of `decode` over the postings: `delta as u32`, `tf as u8`, `dl as u16`.  It fails
where `prev + delta` overflows. -/
def decodePostings : Nat → LocalDocId → Bytes → Option (List Posting × Bytes)
  | 0, _, data => some ([], data)
  | count + 1, prev, data => do
    let (delta, data) ← decodeVarint data
    let (tf, data) ← decodeVarint data
    let (dl, data) ← decodeVarint data
    let docId := prev + delta % 2 ^ 32
    if docId < 2 ^ 32 then
      let (ps, data) ← decodePostings count docId data
      some (⟨docId, tf % 2 ^ 8, dl % 2 ^ 16⟩ :: ps, data)
    else none

/-- A block header, in four bytes. -/
def blockWire : Wire F32 :=
  Wire.iso Wire.u32 F32.bits (fun bits => some ⟨bits⟩) (fun _ => rfl)

/-- `decode`. -/
def decode (data : Bytes) : Option (PostingList F32) := do
  let (numBlocks, data) ← decodeVarint data
  let (blocks, data) ← Wire.getN blockWire numBlocks data
  let (count, data) ← decodeVarint data
  let (postings, _) ← decodePostings count 0 data
  some ⟨postings, blocks.map PostingBlock.mk⟩

/-- The postings that the types of the source allow, in order: ids, frequencies and lengths are
`u32`, `u8` and `u16`. -/
structure Storable (ps : List Posting) : Prop where
  sorted : ps.Pairwise (fun p q => p.docId ≤ q.docId)
  docId : ∀ p ∈ ps, p.docId < 2 ^ 32
  termFreq : ∀ p ∈ ps, p.termFreq < 2 ^ 8
  docLen : ∀ p ∈ ps, p.docLen < 2 ^ 16

theorem Storable.tail {p : Posting} {ps : List Posting} (h : Storable (p :: ps)) : Storable ps where
  sorted := (List.pairwise_cons.mp h.sorted).2
  docId q hq := h.docId q (List.mem_cons_of_mem _ hq)
  termFreq q hq := h.termFreq q (List.mem_cons_of_mem _ hq)
  docLen q hq := h.docLen q (List.mem_cons_of_mem _ hq)

/-- A distance leads back to the id, and is a `u64`. -/
theorem add_delta {prev id : Nat} (hle : prev ≤ id) (hid : id < 2 ^ 32) :
    prev + (id - prev) % 2 ^ 32 = id ∧ id - prev < 2 ^ 64 := by
  rw [Nat.mod_eq_of_lt (by omega)]
  omega

/-- The distances lead back to the ids. -/
theorem encodePostings_spec (rest : Bytes) : ∀ (ps : List Posting) (prev : LocalDocId),
    Storable ps → (∀ p ∈ ps, prev ≤ p.docId) →
    ∃ bytes, encodePostings prev ps = some bytes ∧
      decodePostings ps.length prev (bytes ++ rest) = some (ps, rest)
  | [], _, _, _ => ⟨[], rfl, rfl⟩
  | p :: ps, prev, h, hprev => by
    have hhead := List.mem_cons_self (a := p) (l := ps)
    obtain ⟨bytes, hencode, hdecode⟩ := encodePostings_spec rest ps p.docId h.tail
      (List.pairwise_cons.mp h.sorted).1
    have hle := hprev p hhead
    have hid := h.docId p hhead
    have htf := h.termFreq p hhead
    have hdl := h.docLen p hhead
    obtain ⟨hback, hdelta⟩ := add_delta hle hid
    refine ⟨_, by rw [encodePostings, if_neg (Nat.not_lt.mpr hle), hencode]; rfl, ?_⟩
    rw [List.length_cons, decodePostings]
    simp only [List.append_assoc]
    rw [decodeVarint_encodeVarint hdelta]
    simp only [Option.bind_eq_bind, Option.bind_some]
    rw [decodeVarint_encodeVarint (by omega)]
    simp only [Option.bind_some]
    rw [decodeVarint_encodeVarint (by omega)]
    simp only [Option.bind_some, hback, if_pos hid, hdecode, Nat.mod_eq_of_lt htf,
      Nat.mod_eq_of_lt hdl]

/-- **What a posting list is encoded to decodes to it**, whatever follows. -/
theorem encode_spec (pl : PostingList F32) (h : Storable pl.postings)
    (hlen : pl.postings.length < 2 ^ 64) (hblocks : pl.blocks.length < 2 ^ 62) :
    ∃ bytes, pl.encode = some bytes ∧ ∀ rest, decode (bytes ++ rest) = some pl := by
  obtain ⟨bytes, hencode, -⟩ := encodePostings_spec [] pl.postings 0 h (fun _ _ => Nat.zero_le _)
  refine ⟨_, by rw [encode, hencode]; rfl, fun rest => ?_⟩
  obtain ⟨bytes', hencode', hdecode⟩ :=
    encodePostings_spec rest pl.postings 0 h (fun _ _ => Nat.zero_le _)
  obtain rfl := Option.some.inj (hencode.symm.trans hencode')
  have hput : pl.blocks.flatMap (fun b => b.maxImpact.toLeBytes)
      = (pl.blocks.map PostingBlock.maxImpact).flatMap blockWire.put := by
    rw [List.flatMap_map]
    rfl
  have hsize : ((pl.blocks.map PostingBlock.maxImpact).flatMap blockWire.put).length < 2 ^ 64 := by
    have hfour : ∀ x : F32, (blockWire.put x).length = 4 := fun _ => leBytes_length 4 _
    simp only [List.length_flatMap, hfour, List.map_const', List.sum_replicate, List.length_map,
      smul_eq_mul]
    omega
  have hget := Wire.getN_append blockWire (pl.blocks.map PostingBlock.maxImpact)
    (encodeVarint pl.postings.length ++ (bytes ++ rest)) hsize
  rw [List.length_map] at hget
  have hback : (pl.blocks.map PostingBlock.maxImpact).map PostingBlock.mk = pl.blocks := by
    rw [List.map_map]
    exact List.map_id _
  simp only [List.append_assoc, decode]
  rw [decodeVarint_encodeVarint (by omega), hput]
  simp only [Option.bind_eq_bind, Option.bind_some, hget]
  rw [decodeVarint_encodeVarint hlen]
  simp only [Option.bind_some, hdecode, hback]

/-- What a `Vec` can hold: `isize::MAX` bytes, with eight for a posting and four for a block
header. -/
structure Allocated (pl : PostingList F32) : Prop where
  postings : pl.postings.length * 8 < 2 ^ 63
  blocks : pl.blocks.length * 4 < 2 ^ 63

/-- **The codec round trip.**  A posting list whose ids do not decrease is encoded, and what it is
encoded to decodes to its postings and its blocks, whatever bytes follow: no read leaves the
bytes, no shift is too wide and no id overflows. -/
theorem decode_encode (pl : PostingList F32) (h : Storable pl.postings) (hsize : pl.Allocated) :
    ∃ bytes, pl.encode = some bytes ∧ ∀ rest, decode (bytes ++ rest) = some pl := by
  have hpostings := hsize.postings
  have hblocks := hsize.blocks
  exact encode_spec pl h (by omega) (by omega)

/-- The same id twice, the largest one, and a block header that is not a number. -/
theorem decode_encode_repeated :
    ∃ bytes, (⟨[⟨7, 1, 3⟩, ⟨7, 255, 65535⟩, ⟨4294967295, 0, 0⟩], [⟨⟨0x7fc00000⟩⟩]⟩ :
        PostingList F32).encode = some bytes ∧
      decode (bytes ++ [0x80, 0xff])
        = some ⟨[⟨7, 1, 3⟩, ⟨7, 255, 65535⟩, ⟨4294967295, 0, 0⟩], [⟨⟨0x7fc00000⟩⟩]⟩ := by
  obtain ⟨bytes, hencode, hdecode⟩ := decode_encode
    ⟨[⟨7, 1, 3⟩, ⟨7, 255, 65535⟩, ⟨4294967295, 0, 0⟩], [⟨⟨0x7fc00000⟩⟩]⟩
    ⟨by decide, by decide, by decide, by decide⟩ ⟨by decide, by decide⟩
  exact ⟨bytes, hencode, hdecode _⟩

/-- A posting takes ten bytes at most. -/
theorem encodePostings_length_le : ∀ {ps : List Posting} {prev : LocalDocId} {bytes : Bytes},
    Storable ps → encodePostings prev ps = some bytes → bytes.length ≤ 10 * ps.length
  | [], _, _, _, h => by
    obtain rfl := Option.some.inj h
    exact Nat.le_refl 0
  | p :: ps, prev, _, hps, h => by
    have hhead := List.mem_cons_self (a := p) (l := ps)
    rw [encodePostings] at h
    split at h
    · cases h
    · obtain ⟨bytes, hbytes, rfl⟩ := Option.map_eq_some_iff.mp h
      have hrest := encodePostings_length_le hps.tail hbytes
      have hid : (encodeVarint (p.docId - prev)).length ≤ 5 :=
        encodeVarint_length_le 4 _ (((Nat.sub_le _ _).trans_lt (hps.docId p hhead)).trans
          (by decide))
      have htf : (encodeVarint p.termFreq).length ≤ 2 :=
        encodeVarint_length_le 1 _ ((hps.termFreq p hhead).trans (by decide))
      have hdl : (encodeVarint p.docLen).length ≤ 3 :=
        encodeVarint_length_le 2 _ ((hps.docLen p hhead).trans (by decide))
      simp only [List.length_append, List.length_cons]
      omega

/-- **How long an encoding is.** -/
theorem encode_length_le (pl : PostingList F32) {bytes : Bytes} (h : Storable pl.postings)
    (hlen : pl.postings.length < 2 ^ 35) (hblocks : pl.blocks.length < 2 ^ 35)
    (hencode : pl.encode = some bytes) :
    bytes.length ≤ 10 + 4 * pl.blocks.length + 10 * pl.postings.length := by
  obtain ⟨body, hbody, rfl⟩ := Option.map_eq_some_iff.mp hencode
  have hpostings := encodePostings_length_le h hbody
  have hcount := encodeVarint_length_le 4 _ hlen
  have hnum := encodeVarint_length_le 4 _ hblocks
  have hfour : ∀ b : PostingBlock F32, b.maxImpact.toLeBytes.length = 4 := fun _ =>
    leBytes_length 4 _
  simp only [List.length_append, List.length_flatMap, hfour, List.map_const', List.sum_replicate,
    smul_eq_mul]
  omega

end PostingList

/-! ## 2. Files -/

/-- The `fst` crate, as far as the term dictionary uses it. -/
structure FstCrate where
  /-- The bytes of a map. -/
  File : Type
  Map : Type
  /-- `MapBuilder::memory`, an `insert` of each key and value, and `into_inner`. -/
  build : List (String × Nat) → Option File
  /-- `Map::new`. -/
  load : File → Option Map
  get : Map → String → Option Nat
  /-- A map built from keys in ascending order leads from each key to its value. -/
  get_load : ∀ entries : List (String × Nat), entries.Pairwise (fun a b => a.1 < b.1) →
    ∃ file map, build entries = some file ∧ load file = some map ∧
      ∀ key value, get map key = some value ↔ (key, value) ∈ entries

/-- The contents of `inverted.fst` and `inverted.post`. -/
structure InvertedFiles (fst : FstCrate) where
  fst : fst.File
  post : Bytes

/-- The loop of `write`: `postingData` so far, and what has been inserted. -/
def InvertedIndexWriter.writeLoop : List (String × PostingList F32) → Bytes →
    List (String × Nat) → Option (Bytes × List (String × Nat))
  | [], postingData, inserted => some (postingData, inserted)
  | (term, pl) :: rest, postingData, inserted =>
    let offset := postingData.length
    match pl.encode with
    | some encoded =>
      writeLoop rest (postingData ++ (leBytes 4 encoded.length ++ encoded))
        (inserted ++ [(term, offset)])
    | none => none

/-- `InvertedIndexWriter::write`, of lists whose blocks have been rebuilt. -/
def InvertedIndexWriter.write (fst : FstCrate) (terms : TermPostings F32) :
    Option (InvertedFiles fst) := do
  let (postingData, inserted) ← writeLoop terms.toList [] []
  let fstFile ← fst.build inserted
  some ⟨fstFile, postingData⟩

/-- The part of `SegmentWriter::write` that writes the inverted index. -/
def SegmentWriter.writeInverted {R : Type} [Field R] [LinearOrder R] (fst : FstCrate)
    (round : R → F32) (schema : IndexSchema R) (analysis : TextAnalysis) (docs : List Document) :
    Option (InvertedFiles fst) :=
  InvertedIndexWriter.write fst
    ((invertedIndex schema analysis docs).map (fun _ pl => pl.toF32 round))

/-- `InvertedIndexReader`. -/
structure InvertedIndexReader (fst : FstCrate) where
  fstMap : fst.Map
  postingData : Bytes

namespace InvertedIndexReader

variable {fst : FstCrate}

/-- `open`. -/
def openFiles (fst : FstCrate) (files : InvertedFiles fst) : Option (InvertedIndexReader fst) :=
  (fst.load files.fst).map (fun fstMap => ⟨fstMap, files.post⟩)

/-- The bytes of a posting list, as they are. -/
def body : Codec Bytes := ⟨id, some, fun _ _ => rfl⟩

/-- `read_at`. -/
def readAt (reader : InvertedIndexReader fst) (offset : Nat) : Option (PostingList F32) :=
  (recordAt body reader.postingData offset).bind PostingList.decode

/-- `get_postings`. -/
def getPostings (reader : InvertedIndexReader fst) (term : String) :
    Option (Option (PostingList F32)) :=
  match fst.get reader.fstMap term with
  | some offset => (reader.readAt offset).map some
  | none => some none

/-- `SegmentReader::search_term`, on a segment with this index and these documents. -/
def searchTerm (reader : InvertedIndexReader fst) (docs : DocStoreReader) (term : String) :
    Option (Option (PostingList F32)) :=
  (reader.getPostings term).map (Option.map (fun pl =>
    { pl with postings := pl.postings.filter (fun p => p.docId ∉ docs.deletionBitmap) }))

end InvertedIndexReader

/-! ## 3. Reading back -/

open InvertedIndexReader

/-- **What the loop writes**: the lists one after the other, and for each term where its list
begins. -/
theorem writeLoop_spec : ∀ (lists : List (String × PostingList F32)) (data : Bytes)
    (inserted : List (String × Nat)),
    (∀ e ∈ lists, ∃ encoded, e.2.encode = some encoded ∧ encoded.length < 2 ^ 32) →
    ∃ (more : Bytes) (entries : List (String × Nat)),
      InvertedIndexWriter.writeLoop lists data inserted
        = some (data ++ more, inserted ++ entries) ∧
      entries.map Prod.fst = lists.map Prod.fst ∧
      ∀ e ∈ entries, ∃ pl encoded, (e.1, pl) ∈ lists ∧ pl.encode = some encoded ∧
        recordAt body (data ++ more) e.2 = some encoded
  | [], data, inserted, _ => ⟨[], [], by simp [InvertedIndexWriter.writeLoop], rfl, by simp⟩
  | (term, pl) :: rest, data, inserted, h => by
    obtain ⟨encoded, hencode, hfits⟩ := h (term, pl) List.mem_cons_self
    obtain ⟨more, entries, hloop, hkeys, hread⟩ :=
      writeLoop_spec rest (data ++ (leBytes 4 encoded.length ++ encoded))
        (inserted ++ [(term, data.length)]) (fun e he => h e (List.mem_cons_of_mem _ he))
    refine ⟨leBytes 4 encoded.length ++ encoded ++ more, (term, data.length) :: entries, ?_, ?_,
      ?_⟩
    · rw [InvertedIndexWriter.writeLoop]
      simp only [hencode, hloop, List.append_assoc, List.cons_append, List.nil_append]
    · rw [List.map_cons, List.map_cons, hkeys]
    · intro e he
      rcases List.mem_cons.mp he with rfl | he
      · exact ⟨pl, encoded, List.mem_cons_self, hencode,
          recordAt_append body (a := encoded) hfits data more⟩
      · obtain ⟨pl', encoded', hmem, hencode', hrecord⟩ := hread e he
        rw [List.append_assoc] at hrecord
        exact ⟨pl', encoded', List.mem_cons_of_mem _ hmem, hencode', hrecord⟩

/-- A posting list that is read back, if its encoding fits its length prefix. -/
def ReadsBack (pl : PostingList F32) : Prop :=
  ∃ encoded, pl.encode = some encoded ∧ encoded.length < 2 ^ 32 ∧
    PostingList.decode encoded = some pl

/-- **An index reads back as it was written.** -/
theorem getPostings_write (fst : FstCrate) (terms : TermPostings F32)
    (hterms : ∀ (term : String) (pl : PostingList F32), terms[term]? = some pl → ReadsBack pl) :
    ∃ files reader, InvertedIndexWriter.write fst terms = some files ∧
      openFiles fst files = some reader ∧
      ∀ term, reader.getPostings term = some terms[term]? := by
  have hmem : ∀ e, e ∈ terms.toList ↔ terms[e.1]? = some e.2 := fun e =>
    Std.TreeMap.mem_toList_iff_getElem?_eq_some
  obtain ⟨data, entries, hloop, hkeys, hread⟩ := writeLoop_spec terms.toList [] [] (fun e he =>
    (hterms e.1 e.2 ((hmem e).mp he)).imp fun _ h => ⟨h.1, h.2.1⟩)
  rw [List.nil_append, List.nil_append] at hloop
  have hsorted : entries.Pairwise (fun a b => a.1 < b.1) := by
    rw [← List.pairwise_map (f := Prod.fst) (R := fun a b : String => a < b), hkeys,
      List.pairwise_map]
    exact Std.TreeMap.ordered_keys_toList.imp fun hlt => compare_lt_iff_lt.mp hlt
  obtain ⟨file, map, hbuild, hload, hget⟩ := fst.get_load entries hsorted
  refine ⟨⟨file, data⟩, ⟨map, data⟩, ?_, ?_, fun term => ?_⟩
  · rw [InvertedIndexWriter.write, hloop]
    simp only [Option.bind_eq_bind, Option.bind_some, hbuild]
  · rw [openFiles, hload]
    rfl
  · rw [getPostings]
    cases hoffset : fst.get map term with
    | none =>
      -- no entry, so no list
      cases hterm : terms[term]? with
      | none => rfl
      | some pl =>
        have hkey : term ∈ entries.map Prod.fst := by
          rw [hkeys]
          exact List.mem_map_of_mem ((hmem (term, pl)).mpr hterm)
        obtain ⟨e, he, rfl⟩ := List.mem_map.mp hkey
        rw [(hget e.1 e.2).mpr he] at hoffset
        cases hoffset
    | some offset =>
      obtain ⟨pl, encoded, hlist, hencode, hrecord⟩ := hread _ ((hget term offset).mp hoffset)
      have hterm := (hmem _).mp hlist
      obtain ⟨encoded', hencode', -, hdecode⟩ := hterms term pl hterm
      obtain rfl := Option.some.inj (hencode.symm.trans hencode')
      have hat : (⟨map, data⟩ : InvertedIndexReader fst).readAt offset = some pl := by
        rw [readAt]
        exact (congrArg (Option.bind · PostingList.decode) hrecord).trans hdecode
      rw [hterm]
      exact congrArg (Option.map some) hat

section

variable {R : Type} (schema : IndexSchema R) (analysis : TextAnalysis)

/-- The postings of fewer than `2 ^ 32` documents can be stored. -/
theorem storable_termPostings {docs : List Document} (hdocs : docs.length < 2 ^ 32)
    (term : String) : PostingList.Storable (termPostings schema analysis docs term) where
  sorted := by
    have hsorted := pairwise_termDocs schema analysis docs term
    rw [← map_docId_termPostings, List.pairwise_map] at hsorted
    exact hsorted.imp le_of_lt
  docId p hp := by
    obtain ⟨_, hdoc, -⟩ := mem_termPostings.mp hp
    exact (List.getElem?_eq_some_iff.mp hdoc).1.trans hdocs
  termFreq p hp := by
    obtain ⟨_, -, -, hfreq, -⟩ := mem_termPostings.mp hp
    omega
  docLen p hp := by
    obtain ⟨_, -, -, -, hlen⟩ := mem_termPostings.mp hp
    rw [hlen, docLength]
    omega

variable [Field R] [LinearOrder R]

/-- The encodings of the lists are short enough for their length prefixes. -/
def EncodingsFit (round : R → F32) (docs : List Document) : Prop :=
  ∀ (term : String) (pl : PostingList R) (encoded : Bytes),
    (invertedIndex schema analysis docs)[term]? = some pl →
    (pl.toF32 round).encode = some encoded → encoded.length < 2 ^ 32

variable {schema analysis}

/-- The postings of a list of the index, and how many there are of them and of its blocks. -/
theorem shape_of_getElem? (round : R → F32) {docs : List Document} {term : String}
    {pl : PostingList R} (h : (invertedIndex schema analysis docs)[term]? = some pl) :
    (pl.toF32 round).postings = termPostings schema analysis docs term ∧
      (pl.toF32 round).postings.length ≤ docs.length ∧
      (pl.toF32 round).blocks.length ≤ docs.length / 64 + 1 := by
  rw [getElem?_invertedIndex] at h
  split at h
  · cases h
  · obtain rfl := Option.some.inj h
    have hlen : (termPostings schema analysis docs term).length ≤ docs.length := by
      rw [termPostings]
      exact (List.length_filterMap_le _ _).trans (List.length_zipIdx).le
    refine ⟨rfl, hlen, ?_⟩
    simp only [PostingList.toF32, PostingList.rebuildBlocks, PostingList.len, blockSize,
      List.length_map, List.length_range]
    omega

/-- Such lists are read back. -/
theorem readsBack_of_getElem? {round : R → F32} {docs : List Document}
    (hdocs : docs.length < 2 ^ 32) (hfits : EncodingsFit schema analysis round docs)
    {term : String} {pl : PostingList R}
    (h : (invertedIndex schema analysis docs)[term]? = some pl) : ReadsBack (pl.toF32 round) := by
  obtain ⟨hpostings, hlen, hblocks⟩ := shape_of_getElem? round h
  obtain ⟨encoded, hencode, hdecode⟩ := PostingList.encode_spec (pl.toF32 round)
    (hpostings ▸ storable_termPostings schema analysis hdocs term)
    (hlen.trans_lt (hdocs.trans (by decide))) (by omega)
  have hnil := hdecode []
  rw [List.append_nil] at hnil
  exact ⟨encoded, hencode, hfits term _ encoded h hencode, hnil⟩

/-- **A segment of up to `2 ^ 28` documents fits.** -/
theorem encodingsFit_of_length {round : R → F32} {docs : List Document}
    (hdocs : docs.length ≤ 2 ^ 28) : EncodingsFit schema analysis round docs := by
  intro term pl encoded h hencode
  obtain ⟨hpostings, hlen, hblocks⟩ := shape_of_getElem? round h
  have hle := PostingList.encode_length_le (pl.toF32 round)
    (hpostings ▸ storable_termPostings schema analysis (by omega) term) (by omega) (by omega)
    hencode
  omega

/-- **The two files hold the index**: the bytes of a segment answer as its index does. -/
theorem searchTerm_eq_map (fst : FstCrate) (round : R → F32) {docs : List Document}
    (hdocs : docs.length < 2 ^ 32)
    (hfits : EncodingsFit schema analysis round docs) (del : Bitmap) :
    ∃ files reader, SegmentWriter.writeInverted fst round schema analysis docs = some files ∧
      openFiles fst files = some reader ∧
      ∀ term, reader.searchTerm (SegmentReader.ofDocs docs del).docs term
        = some ((SegmentReader.searchTerm schema analysis (SegmentReader.ofDocs docs del) term).map
          (PostingList.toF32 round)) := by
  have hback : ∀ (term : String) (pl : PostingList F32), ((invertedIndex schema analysis
      docs).map (fun _ pl => pl.toF32 round))[term]? = some pl → ReadsBack pl := by
    intro term pl hpl
    rw [Std.TreeMap.getElem?_map, Option.map_eq_some_iff] at hpl
    obtain ⟨pl, hpl, rfl⟩ := hpl
    exact readsBack_of_getElem? hdocs hfits hpl
  obtain ⟨files, reader, hwrite, hopen, hget⟩ := getPostings_write fst _ hback
  refine ⟨files, reader, hwrite, hopen, fun term => ?_⟩
  rw [InvertedIndexReader.searchTerm, hget, Std.TreeMap.getElem?_map, SegmentReader.searchTerm,
    Option.map_some, Option.map_map, Option.map_map]
  rfl

/-- **A written segment reads back as the reference inverted index**: a term that no document has
leads nowhere, and any other to the documents that have it, in order, each with the number of
occurrences and its length. -/
theorem searchTerm_written (fst : FstCrate) (round : R → F32) (schema : IndexSchema R)
    (analysis : TextAnalysis) (docs : List Document) (hdocs : docs.length < 2 ^ 32)
    (hfits : EncodingsFit schema analysis round docs) :
    ∃ files reader segment,
      SegmentWriter.writeInverted fst round schema analysis docs = some files ∧
      openFiles fst files = some reader ∧
      SegmentReader.openDir ((SegmentWriter.write docs).foldl SegmentDir.write {}) = some segment ∧
      ∀ t : String,
        ((∀ doc ∈ docs, t ∉ schema.docTokens analysis doc) →
          reader.searchTerm segment.docs t = some none) ∧
        ((∃ doc ∈ docs, t ∈ schema.docTokens analysis doc) →
          ∃ pl, reader.searchTerm segment.docs t = some (some pl) ∧
            (pl.postings.map Posting.docId).Pairwise (· < ·) ∧
            ∀ p, p ∈ pl.postings ↔ ∃ doc, docs[p.docId]? = some doc ∧
              t ∈ schema.docTokens analysis doc ∧
              p.termFreq = min 255 ((schema.docTokens analysis doc).count t) ∧
              p.docLen = min 65535 (schema.docTokens analysis doc).length) := by
  obtain ⟨files, reader, hwrite, hopen, hsearch⟩ := searchTerm_eq_map fst round hdocs hfits ∅
  refine ⟨files, reader, SegmentReader.ofDocs docs ∅, hwrite, hopen, ?_, fun t => ?_⟩
  · rw [foldl_write, openDir_written]
    rfl
  have hall : ∀ ps : List Posting, ps.filter (fun p => p.docId ∉ (∅ : Bitmap)) = ps := fun ps =>
    List.filter_eq_self.mpr fun p _ => decide_eq_true (Finset.notMem_empty _)
  have hindex : reader.searchTerm (SegmentReader.ofDocs docs ∅).docs t
      = some ((invertedIndex schema analysis docs)[t]?.map (PostingList.toF32 round)) := by
    rw [hsearch, SegmentReader.searchTerm, Option.map_map]
    refine congrArg some (Option.map_congr fun pl _ => ?_)
    exact congrArg (fun ps => (⟨ps, _⟩ : PostingList F32)) (hall pl.postings)
  rw [hindex, getElem?_invertedIndex]
  constructor
  · intro hnone
    rw [if_pos (termPostings_eq_nil_iff.mpr hnone)]
    rfl
  · rintro ⟨doc, hdoc, ht⟩
    rw [if_neg fun hnil => termPostings_eq_nil_iff.mp hnil doc hdoc ht]
    refine ⟨_, rfl, ?_, fun p => mem_termPostings⟩
    show ((termPostings schema analysis docs t).map Posting.docId).Pairwise (· < ·)
    rw [map_docId_termPostings]
    exact pairwise_termDocs schema analysis docs t

end

/-- The tokens of a product are those of its title and of its description. -/
theorem docTokens_defaultProductSchema {R : Type} [Field R] (analysis : TextAnalysis)
    (doc : Document) :
    (IndexSchema.defaultProductSchema : IndexSchema R).docTokens analysis doc
      = analysis.analyze (.standard .spanish) doc.title
        ++ analysis.analyze (.standard .spanish) doc.description := by
  simp [IndexSchema.docTokens, IndexSchema.defaultProductSchema, FieldConfig.isText,
    FieldConfig.tokens, Document.fieldText]

/-- A crate that keeps the keys and values as they are. -/
def FstCrate.entries : FstCrate where
  File := List (String × Nat)
  Map := List (String × Nat)
  build entries := if entries.Pairwise (fun a b => a.1 < b.1) then some entries else none
  load entries := some entries
  get entries key := (entries.find? (fun e => e.1 = key)).map Prod.snd
  get_load entries hsorted := by
    refine ⟨entries, entries, if_pos hsorted, rfl, fun key value => ?_⟩
    rw [Option.map_eq_some_iff]
    constructor
    · rintro ⟨e, he, rfl⟩
      have hkey : e.1 = key := by simpa using List.find?_some he
      exact hkey ▸ List.mem_of_find?_eq_some he
    · intro hmem
      have hsome : (entries.find? (fun e => e.1 = key)).isSome :=
        List.find?_isSome.mpr ⟨_, hmem, by simp⟩
      obtain ⟨e, he⟩ := Option.isSome_iff_exists.mp hsome
      have hkey : e.1 = key := by simpa using List.find?_some he
      refine ⟨e, he, ?_⟩
      -- two entries of one key are the same
      by_contra hvalue
      have hne : e ≠ (key, value) := fun h => hvalue (by rw [h])
      have hstrict : entries.Pairwise (fun a b => a.1 ≠ b.1) := hsorted.imp ne_of_lt
      have hsymm : Std.Symm (fun a b : String × Nat => a.1 ≠ b.1) := ⟨fun _ _ h => h.symm⟩
      exact hstrict.forall (List.mem_of_find?_eq_some he) hmem hne hkey

/-- Texts of one word. -/
def oneWord : TextAnalysis where
  analyze _ text := if text.isEmpty then [] else [text]
  levenshtein _ _ := none

/-- A red thing and a shoe: `red` leads to the first document, and `blue` nowhere. -/
theorem searchTerm_written_red :
    ∃ files reader segment,
      SegmentWriter.writeInverted .entries (fun _ : ℚ => F32.one) .defaultProductSchema oneWord
        [⟨1, "red", "", ⟨0⟩, "", .empty⟩, ⟨2, "shoe", "", ⟨0⟩, "", .empty⟩] = some files ∧
      openFiles .entries files = some reader ∧
      SegmentReader.openDir ((SegmentWriter.write [⟨1, "red", "", ⟨0⟩, "", .empty⟩,
        ⟨2, "shoe", "", ⟨0⟩, "", .empty⟩]).foldl SegmentDir.write {}) = some segment ∧
      reader.searchTerm segment.docs "blue" = some none ∧
      ∃ pl, reader.searchTerm segment.docs "red" = some (some pl) ∧ ⟨0, 1, 1⟩ ∈ pl.postings := by
  obtain ⟨files, reader, segment, hwrite, hopen, hsegment, hsearch⟩ :=
    searchTerm_written .entries (fun _ : ℚ => F32.one) .defaultProductSchema oneWord
      [⟨1, "red", "", ⟨0⟩, "", .empty⟩, ⟨2, "shoe", "", ⟨0⟩, "", .empty⟩] (by decide)
      (encodingsFit_of_length (by decide))
  simp only [docTokens_defaultProductSchema] at hsearch
  refine ⟨files, reader, segment, hwrite, hopen, hsegment, (hsearch "blue").1 (by decide), ?_⟩
  obtain ⟨pl, hpl, -, hmem⟩ := (hsearch "red").2 (by decide)
  exact ⟨pl, hpl, (hmem ⟨0, 1, 1⟩).mpr ⟨_, rfl, by decide, by decide, by decide⟩⟩

end ZearchEngine
