/-
# The inverted index of a segment

`InvertedIndexWriter`, the part of `SegmentWriter::write` that fills it, and the three ways in
which `SegmentReader` looks terms up (`crates/index/src/inverted.rs`, `segment.rs`).  The term
dictionary is a sorted map; that it is stored as an FST is left out.

A term leads to the live documents that have it among their tokens, in order and each once
(`searchTerm_spec`), and the lookups by prefix and by distance yield the terms they should
(`mem_prefixSearchTerm`, `mem_fuzzySearchTerm`).
-/
import ZearchEngine.Posting
import ZearchEngine.Schema
import Std.Data.TreeMap.Lemmas

namespace ZearchEngine

/-! ## 1. Writing -/

/-- The posting lists of a segment, by term. -/
abbrev TermPostings (R : Type) := Std.TreeMap String (PostingList R)

section

variable {R : Type}

/-- `add`. -/
def PostingList.add (pl : PostingList R) (docId : LocalDocId) (termFreq docLen : Nat) :
    PostingList R :=
  ⟨pl.postings ++ [⟨docId, termFreq, docLen⟩], pl.blocks⟩

/-- A further occurrence of the term of a posting list. -/
def PostingList.addOccurrence (docId : LocalDocId) (docLen : Nat) (pl : PostingList R) :
    PostingList R :=
  { pl with
    postings :=
      match pl.postings.getLast? with
      | some last =>
        if last.docId = docId then
          pl.postings.dropLast ++ [{ last with termFreq := min 255 (last.termFreq + 1) }]
        else pl.postings ++ [⟨docId, 1, docLen⟩]
      | none => [⟨docId, 1, docLen⟩] }

/-- `add_term`. -/
def InvertedIndexWriter.addTerm (docId : LocalDocId) (docLen : Nat) (terms : TermPostings R)
    (term : String) : TermPostings R :=
  terms.alter term (fun pl => some ((pl.getD ⟨[], []⟩).addOccurrence docId docLen))

variable (schema : IndexSchema R) (analysis : TextAnalysis)

/-- The length of a document, as `SegmentWriter::write` counts it. -/
def docLength (doc : Document) : Nat := min 65535 (schema.docTokens analysis doc).length

/-- The terms of a document are added one by one. -/
def addDocument (terms : TermPostings R) (entry : Document × LocalDocId) : TermPostings R :=
  (schema.docTokens analysis entry.1).foldl
    (InvertedIndexWriter.addTerm entry.2 (docLength schema analysis entry.1)) terms

variable [Field R] [LinearOrder R]

/-- The average length of the documents. -/
def avgDocLength (docs : List Document) : R :=
  if docs.isEmpty then 1
  else ((docs.map (docLength schema analysis)).sum : R) / docs.length

/-- The inverted index that `SegmentWriter::write` leaves for these documents. -/
def invertedIndex (docs : List Document) : TermPostings R :=
  (docs.zipIdx.foldl (addDocument schema analysis) ∅).map
    (fun _ pl => pl.rebuildBlocks (avgDocLength schema analysis docs))

end

/-! ## 2. Reading -/

namespace SegmentReader

variable {R : Type} [Field R] [LinearOrder R]

/-- `retain`: the postings of documents that are not deleted. -/
def retainLive (reader : SegmentReader) (pl : PostingList R) : PostingList R :=
  { pl with postings := pl.postings.filter (fun p => p.docId ∉ reader.docs.deletionBitmap) }

variable (schema : IndexSchema R) (analysis : TextAnalysis) (reader : SegmentReader)

/-- `search_term`. -/
def searchTerm (term : String) : Option (PostingList R) :=
  (invertedIndex schema analysis reader.inverted)[term]?.map reader.retainLive

/-- The terms that an automaton accepts, with their posting lists. -/
def searchTerms (accepts : String → Bool) : List (String × PostingList R) :=
  ((invertedIndex schema analysis reader.inverted).toList.filter (fun e => accepts e.1)).map
    (fun e => (e.1, reader.retainLive e.2))

/-- `prefix_search_term`. -/
def prefixSearchTerm (pre : String) : List (String × PostingList R) :=
  searchTerms schema analysis reader (fun term => startsWith term pre)

/-- `fuzzy_search_term`: nothing if the automaton cannot be built. -/
def fuzzySearchTerm (term : String) (maxDistance : Nat) : List (String × PostingList R) :=
  match analysis.levenshtein term maxDistance with
  | some accepts =>
    (searchTerms schema analysis reader accepts).filter (fun e => !e.2.isEmpty)
  | none => []

end SegmentReader

/-! ## 3. What the index holds -/

section

variable {R : Type}

/-- The first occurrence in a document. -/
theorem PostingList.addOccurrence_new {docId : LocalDocId} (docLen : Nat) {pl : PostingList R}
    (h : ∀ p ∈ pl.postings, p.docId ≠ docId) :
    pl.addOccurrence docId docLen = pl.add docId 1 docLen := by
  rw [PostingList.addOccurrence]
  cases hlast : pl.postings.getLast? with
  | none =>
    rw [PostingList.add, List.getLast?_eq_none_iff.mp hlast]
    rfl
  | some last => simp [PostingList.add, h last (List.mem_of_getLast? hlast)]

/-- A further occurrence in the last document. -/
theorem PostingList.addOccurrence_add (docId : LocalDocId) (docLen termFreq docLen' : Nat)
    (pl : PostingList R) :
    (pl.add docId termFreq docLen').addOccurrence docId docLen
      = pl.add docId (min 255 (termFreq + 1)) docLen' := by
  simp [PostingList.addOccurrence, PostingList.add]

theorem getElem?_addTerm (docId : LocalDocId) (docLen : Nat) (terms : TermPostings R)
    (term term' : String) :
    (InvertedIndexWriter.addTerm docId docLen terms term)[term']?
      = if term = term' then some ((terms[term']?.getD ⟨[], []⟩).addOccurrence docId docLen)
        else terms[term']? := by
  rw [InvertedIndexWriter.addTerm, Std.TreeMap.getElem?_alter]
  by_cases heq : term = term'
  · subst heq
    rw [if_pos (by simp), if_pos rfl]
  · rw [if_neg (by simpa using heq), if_neg heq]

/-- **The tokens of a document** add one posting under each of them, with the number of its
occurrences. -/
theorem getElem?_foldl_addTerm (docId : LocalDocId) (docLen : Nat) (terms : TermPostings R)
    (term : String)
    (hnew : ∀ p ∈ (terms[term]?.getD ⟨[], []⟩).postings, p.docId ≠ docId) (tokens : List String) :
    (tokens.foldl (InvertedIndexWriter.addTerm docId docLen) terms)[term]?
      = if term ∈ tokens then
          some ((terms[term]?.getD ⟨[], []⟩).add docId (min 255 (tokens.count term)) docLen)
        else terms[term]? := by
  induction tokens using List.reverseRecOn with
  | nil => simp
  | append_singleton tokens token ih =>
    rw [List.foldl_append, List.foldl_cons, List.foldl_nil, getElem?_addTerm, ih]
    by_cases htoken : token = term
    · subst htoken
      have hmem : token ∈ tokens ++ [token] := by simp
      simp only [hmem, if_true, List.count_append, List.count_singleton_self]
      by_cases hseen : token ∈ tokens
      · have hcount : min 255 (min 255 (tokens.count token) + 1)
            = min 255 (tokens.count token + 1) := by omega
        rw [if_pos hseen, Option.getD_some, PostingList.addOccurrence_add, hcount]
      · rw [if_neg hseen, PostingList.addOccurrence_new docLen hnew,
          List.count_eq_zero_of_not_mem hseen]
        rfl
    · have hmem : term ∈ tokens ++ [token] ↔ term ∈ tokens := by simp [Ne.symm htoken]
      have hcount : (tokens ++ [token]).count term = tokens.count term := by
        rw [List.count_append, List.count_singleton, if_neg (by simpa using htoken), Nat.add_zero]
      simp only [if_neg htoken, hmem, hcount]

variable (schema : IndexSchema R) (analysis : TextAnalysis)

/-- The posting of a document under a term. -/
def posting (term : String) (entry : Document × LocalDocId) : Option Posting :=
  if term ∈ schema.docTokens analysis entry.1 then
    some ⟨entry.2, min 255 ((schema.docTokens analysis entry.1).count term),
      docLength schema analysis entry.1⟩
  else none

/-- The postings of a term: one for each document that has it. -/
def termPostings (docs : List Document) (term : String) : List Posting :=
  docs.zipIdx.filterMap (posting schema analysis term)

/-- The documents that have a term among their tokens. -/
def termDocs (docs : List (Document × LocalDocId)) (term : String) : List LocalDocId :=
  (docs.filter (fun e => term ∈ schema.docTokens analysis e.1)).map Prod.snd

variable {schema analysis}

theorem posting_eq_some_iff {term : String} {entry : Document × LocalDocId} {p : Posting} :
    posting schema analysis term entry = some p ↔
      term ∈ schema.docTokens analysis entry.1 ∧ p.docId = entry.2 ∧
        p.termFreq = min 255 ((schema.docTokens analysis entry.1).count term) ∧
        p.docLen = docLength schema analysis entry.1 := by
  rw [posting]
  split
  · next hmem =>
    rw [Option.some.injEq, eq_comm, Posting.mk.injEq]
    exact (and_iff_right hmem).symm
  · next hmem => exact iff_of_false (by simp) (fun h => hmem h.1)

/-- **A posting of a term** is one of a document that has it. -/
theorem mem_termPostings {docs : List Document} {term : String} {p : Posting} :
    p ∈ termPostings schema analysis docs term ↔
      ∃ doc, docs[p.docId]? = some doc ∧ term ∈ schema.docTokens analysis doc ∧
        p.termFreq = min 255 ((schema.docTokens analysis doc).count term) ∧
        p.docLen = docLength schema analysis doc := by
  rw [termPostings, List.mem_filterMap]
  constructor
  · rintro ⟨⟨doc, i⟩, hmem, hposting⟩
    obtain ⟨hterm, hid, hfreq, hlen⟩ := posting_eq_some_iff.mp hposting
    exact ⟨doc, hid ▸ List.mem_zipIdx_iff_getElem?.mp hmem, hterm, hfreq, hlen⟩
  · rintro ⟨doc, hdoc, hterm, hfreq, hlen⟩
    exact ⟨(doc, p.docId), List.mem_zipIdx_iff_getElem?.mpr hdoc,
      posting_eq_some_iff.mpr ⟨hterm, rfl, hfreq, hlen⟩⟩

theorem map_docId_termPostings (docs : List Document) (term : String) :
    (termPostings schema analysis docs term).map Posting.docId
      = termDocs schema analysis docs.zipIdx term := by
  rw [termPostings, termDocs, List.map_filterMap, ← List.filterMap_eq_map,
    List.filterMap_filter]
  refine List.filterMap_congr fun e _ => ?_
  rw [posting]
  by_cases hmem : term ∈ schema.docTokens analysis e.1 <;> simp [hmem]

theorem termPostings_eq_nil_iff {docs : List Document} {term : String} :
    termPostings schema analysis docs term = [] ↔
      ∀ doc ∈ docs, term ∉ schema.docTokens analysis doc := by
  rw [List.eq_nil_iff_forall_not_mem]
  constructor
  · intro hnone doc hdoc hterm
    obtain ⟨i, hi⟩ := List.getElem?_of_mem hdoc
    exact hnone ⟨i, _, _⟩ (mem_termPostings.mpr ⟨doc, hi, hterm, rfl, rfl⟩)
  · intro hnone p hp
    obtain ⟨doc, hdoc, hterm, -⟩ := mem_termPostings.mp hp
    exact hnone doc (List.mem_of_getElem? hdoc) hterm

variable (schema analysis)

/-- The lists before their blocks are built. -/
theorem getElem?_foldl_addDocument (docs : List Document) (term : String) :
    (docs.zipIdx.foldl (addDocument schema analysis) (∅ : TermPostings R))[term]?
      = if termPostings schema analysis docs term = [] then none
        else some ⟨termPostings schema analysis docs term, []⟩ := by
  induction docs using List.reverseRecOn with
  | nil => simp [termPostings]
  | append_singleton docs doc ih =>
    let terms : TermPostings R := docs.zipIdx.foldl (addDocument schema analysis) ∅
    have hold : terms[term]?.getD ⟨[], []⟩ = ⟨termPostings schema analysis docs term, []⟩ := by
      rw [ih]
      split
      · next hnil => rw [hnil]; rfl
      · rfl
    have hnew : ∀ p ∈ (terms[term]?.getD ⟨[], []⟩).postings, p.docId ≠ docs.length := by
      intro p hp
      rw [hold] at hp
      obtain ⟨_, hdoc, -⟩ := mem_termPostings.mp hp
      exact (List.getElem?_eq_some_iff.mp hdoc).1.ne
    have happend : termPostings schema analysis (docs ++ [doc]) term
        = termPostings schema analysis docs term
          ++ (posting schema analysis term (doc, docs.length)).toList := by
      rw [termPostings, List.zipIdx_append, List.filterMap_append, Nat.zero_add]
      cases hposting : posting schema analysis term (doc, docs.length) <;>
        simp [termPostings, hposting]
    rw [List.zipIdx_append, List.foldl_append, Nat.zero_add]
    show (addDocument schema analysis terms (doc, docs.length))[term]? = _
    rw [addDocument, getElem?_foldl_addTerm _ _ terms term hnew, hold, happend, posting]
    by_cases hmem : term ∈ schema.docTokens analysis doc
    · simp [hmem, PostingList.add]
    · simp only [if_neg hmem, Option.toList_none, List.append_nil]
      exact ih

/-- The documents of a term are in the order of the segment. -/
theorem pairwise_termDocs (docs : List Document) (term : String) :
    (termDocs schema analysis docs.zipIdx term).Pairwise (· < ·) := by
  have hrange : (docs.zipIdx.map Prod.snd).Pairwise (· < ·) := by
    rw [List.zipIdx_map_snd]
    exact List.pairwise_lt_range'
  exact hrange.sublist (List.filter_sublist.map _)

variable [Field R] [LinearOrder R]

/-- **The index holds, under each term, its postings**, and no empty list. -/
theorem getElem?_invertedIndex (docs : List Document) (term : String) :
    (invertedIndex schema analysis docs)[term]?
      = if termPostings schema analysis docs term = [] then none
        else some (PostingList.rebuildBlocks ⟨termPostings schema analysis docs term, []⟩
          (avgDocLength schema analysis docs)) := by
  rw [invertedIndex, Std.TreeMap.getElem?_map, getElem?_foldl_addDocument]
  split <;> rfl

/-- The documents of a term, in order. -/
theorem map_docId_of_getElem? (docs : List Document) {term : String} {pl : PostingList R}
    (h : (invertedIndex schema analysis docs)[term]? = some pl) :
    pl.postings.map Posting.docId = termDocs schema analysis docs.zipIdx term := by
  rw [getElem?_invertedIndex] at h
  split at h
  · cases h
  · obtain rfl := Option.some.inj h
    exact map_docId_termPostings docs term

end

/-! ## 4. What the lookups find -/

namespace SegmentReader

variable {R : Type} [Field R] [LinearOrder R] {schema : IndexSchema R} {analysis : TextAnalysis}
  {docs : List Document} {del : Bitmap}

/-- The live document at a position has the term. -/
def HasTerm (schema : IndexSchema R) (analysis : TextAnalysis) (docs : List Document)
    (del : Bitmap) (term : String) (i : LocalDocId) : Prop :=
  i ∉ del ∧ ∃ doc, docs[i]? = some doc ∧ term ∈ schema.docTokens analysis doc

/-- **A term leads to the live documents that have it**, in order and each once. -/
theorem searchTerm_spec {term : String} {pl : PostingList R}
    (h : searchTerm schema analysis (ofDocs docs del) term = some pl) :
    (∀ i, i ∈ pl.postings.map Posting.docId ↔ HasTerm schema analysis docs del term i) ∧
      (pl.postings.map Posting.docId).Pairwise (· < ·) := by
  obtain ⟨pl', hget, rfl⟩ := Option.map_eq_some_iff.mp h
  have hids := map_docId_of_getElem? schema analysis docs hget
  have hlive : ((ofDocs docs del).retainLive pl').postings.map Posting.docId
      = (termDocs schema analysis docs.zipIdx term).filter (fun i => i ∉ del) := by
    rw [← hids, List.filter_map]
    rfl
  rw [hlive]
  refine ⟨fun i => ?_, ?_⟩
  · rw [List.mem_filter, termDocs, List.mem_map, decide_eq_true_iff]
    constructor
    · rintro ⟨⟨e, he, rfl⟩, hdel⟩
      obtain ⟨hmem, hterm⟩ := List.mem_filter.mp he
      exact ⟨hdel, e.1, List.mem_zipIdx_iff_getElem?.mp hmem, of_decide_eq_true hterm⟩
    · rintro ⟨hdel, doc, hdoc, hterm⟩
      refine ⟨⟨(doc, i), List.mem_filter.mpr ⟨?_, decide_eq_true hterm⟩, rfl⟩, hdel⟩
      exact List.mem_zipIdx_iff_getElem?.mpr hdoc
  · exact (pairwise_termDocs schema analysis docs term).filter _

/-- A term that is found is one of a document, deleted or not. -/
theorem exists_doc_of_searchTerm {term : String} {pl : PostingList R}
    (h : searchTerm schema analysis (ofDocs docs del) term = some pl) :
    ∃ doc ∈ docs, term ∈ schema.docTokens analysis doc := by
  obtain ⟨pl', hget, -⟩ := Option.map_eq_some_iff.mp h
  have hsome : (invertedIndex schema analysis docs)[term]? = some pl' := hget
  by_contra hnone
  push Not at hnone
  rw [getElem?_invertedIndex, if_pos (termPostings_eq_nil_iff.mpr hnone)] at hsome
  cases hsome

theorem mem_searchTerms {reader : SegmentReader} {accepts : String → Bool} {term : String}
    {pl : PostingList R} :
    (term, pl) ∈ searchTerms schema analysis reader accepts ↔
      accepts term = true ∧ searchTerm schema analysis reader term = some pl := by
  rw [searchTerms, searchTerm, List.mem_map, Option.map_eq_some_iff]
  constructor
  · rintro ⟨e, he, heq⟩
    obtain ⟨hmem, hacc⟩ := List.mem_filter.mp he
    obtain ⟨rfl, rfl⟩ := Prod.mk.inj heq
    exact ⟨hacc, e.2, Std.TreeMap.mem_toList_iff_getElem?_eq_some.mp hmem, rfl⟩
  · rintro ⟨hacc, pl', hget, rfl⟩
    refine ⟨(term, pl'), List.mem_filter.mpr ⟨?_, hacc⟩, rfl⟩
    exact Std.TreeMap.mem_toList_iff_getElem?_eq_some.mpr hget

/-- Each term is found once. -/
theorem nodup_searchTerms {reader : SegmentReader} {accepts : String → Bool} :
    ((searchTerms schema analysis reader accepts).map Prod.fst).Nodup := by
  rw [searchTerms, List.map_map]
  have hdistinct := (invertedIndex schema analysis reader.inverted).distinct_keys_toList
  refine List.pairwise_map.mpr ((hdistinct.filter _).imp fun hne heq => hne ?_)
  exact Std.LawfulEqCmp.compare_eq_iff_eq.mpr heq

/-- Where a single term is found, there is a single list. -/
theorem length_searchTerms_le {reader : SegmentReader} {accepts : String → Bool} {term : String}
    (h : ∀ t pl, searchTerm schema analysis reader t = some pl → t = term) :
    (searchTerms schema analysis reader accepts).length ≤ 1 := by
  have hnodup : ((searchTerms schema analysis reader accepts).map Prod.fst).Nodup :=
    nodup_searchTerms
  have hsub : (searchTerms schema analysis reader accepts).map Prod.fst ⊆ [term] := by
    intro t ht
    obtain ⟨⟨t, pl⟩, hmem, rfl⟩ := List.mem_map.mp ht
    exact List.mem_singleton.mpr (h t pl (mem_searchTerms.mp hmem).2)
  simpa using hnodup.length_le_of_subset hsub

/-- **Prefix lookup** yields the terms that start with the prefix. -/
theorem mem_prefixSearchTerm {reader : SegmentReader} {pre term : String} {pl : PostingList R} :
    (term, pl) ∈ prefixSearchTerm schema analysis reader pre ↔
      startsWith term pre = true ∧ searchTerm schema analysis reader term = some pl :=
  mem_searchTerms

/-- **Fuzzy lookup** yields the terms that the automaton accepts and that a live document has. -/
theorem mem_fuzzySearchTerm {reader : SegmentReader} {maxDistance : Nat} {query term : String}
    {pl : PostingList R} :
    (term, pl) ∈ fuzzySearchTerm schema analysis reader query maxDistance ↔
      ∃ accepts, analysis.levenshtein query maxDistance = some accepts ∧ accepts term = true ∧
        searchTerm schema analysis reader term = some pl ∧ pl.isEmpty = false := by
  rw [fuzzySearchTerm]
  cases analysis.levenshtein query maxDistance with
  | none => simp
  | some accepts => simp [List.mem_filter, mem_searchTerms, and_assoc]

end SegmentReader

end ZearchEngine
