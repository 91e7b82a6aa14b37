/-
# The counts of the suggest builder

`SuggestIndexBuilder` (`crates/suggest/src/builder.rs`) accumulates term -> doc_frequency.
`add_document` drops the repetitions of a term within one field, by sort and dedup, but it does
so in a loop over the configured fields.  So a document counts once for each position in the list
of fields that has the term (`termCount_eq_sum`), and a document with the term in two fields
counts twice.

The count exceeds the number of documents by what they have beyond the first such position
(`termCount_eq_add_surplus`).
-/
import ZearchEngine.Suggest
import Mathlib.Algebra.Order.BigOperators.Group.List

namespace ZearchEngine

/-! ## 1. The counts as they are held -/

/-- `HashMap<Arc<str>, u32>`. -/
abbrev TermCountsU32 := Std.TreeMap String UInt32

/-- `*c += 1`, or 1 for a new term. -/
def countTermU32 (counts : TermCountsU32) (t : String) : TermCountsU32 :=
  counts.alter t (fun c => some (c.getD 0 + 1))

/-- `SuggestIndexBuilder::add_document`, with counts that wrap. -/
def SuggestIndexBuilder.addDocumentU32 (x : SuggestText) (fields : List String)
    (counts : TermCountsU32) (doc : Document) : TermCountsU32 :=
  (suggestTerms x fields doc).foldl countTermU32 counts

/-- The count held for a term: 0 if there is none. -/
def SuggestIndexBuilder.count (counts : TermCountsU32) (t : String) : Nat :=
  (counts[t]?.getD 0).toNat

section

variable (x : SuggestText) (fields : List String)

/-- The document has the term among the lowercased tokens of the field.  An empty text has
none. -/
def HasToken (doc : Document) (t field : String) : Prop :=
  (extractField doc field).isEmpty = false ∧ t ∈ x.analyzeToTerms (extractField doc field)

instance (doc : Document) (t : String) : DecidablePred (HasToken x doc t) := fun _ =>
  inferInstanceAs (Decidable (_ ∧ _))

/-- The positions in the list of fields that have the term. -/
def positionsWith (t : String) (doc : Document) : Nat :=
  (fields.filter (HasToken x doc t)).length

/-- The documents with the term in at least one of the fields. -/
def documentsWith (docs : List Document) (t : String) : List Document :=
  docs.filter (fun doc => ∃ field ∈ fields, HasToken x doc t field)

/-- What the documents have beyond the first position with the term. -/
def surplus (docs : List Document) (t : String) : Nat :=
  (docs.map (fun doc => positionsWith x fields t doc - 1)).sum

end

/-! ## 2. What is counted -/

section

variable {x : SuggestText} {fields : List String} {docs : List Document} {t : String}

/-- The counts wrap. -/
theorem getElem?_foldl_countTermU32 (t : String) : ∀ (ts : List String) (counts : TermCounts)
    (countsU32 : TermCountsU32), countsU32[t]? = counts[t]?.map UInt32.ofNat →
    (ts.foldl countTermU32 countsU32)[t]? = (ts.foldl countTerm counts)[t]?.map UInt32.ofNat := by
  intro ts
  induction ts with
  | nil => exact fun _ _ h => h
  | cons t' ts ih =>
    intro counts countsU32 h
    refine ih _ _ ?_
    rw [getElem?_countTerm, countTermU32, Std.TreeMap.getElem?_alter]
    simp only [Std.LawfulEqCmp.compare_eq_iff_eq]
    split
    · next heq =>
      subst heq
      rw [h]
      cases counts[t']? with
      | none => rfl
      | some c => simp [UInt32.ofNat_add]
    · exact h

/-- **The count held for a term**, a `u32`. -/
theorem count_foldl_addDocumentU32 (x : SuggestText) (fields : List String)
    (docs : List Document) (t : String) :
    SuggestIndexBuilder.count
        (docs.foldl (SuggestIndexBuilder.addDocumentU32 x fields) ∅) t
      = termCount x fields docs t % 2 ^ 32 := by
  have hfold : docs.foldl (SuggestIndexBuilder.addDocumentU32 x fields) ∅
      = (allTerms x fields docs).foldl countTermU32 ∅ := by
    rw [allTerms, List.foldl_flatMap]
    rfl
  rw [SuggestIndexBuilder.count, hfold, getElem?_foldl_countTermU32 t _ ∅ ∅ (by simp),
    getElem?_foldl_countTerm]
  by_cases ht : t ∈ allTerms x fields docs
  · simp [ht, termCount]
  · simp [ht, termCount, List.count_eq_zero_of_not_mem ht]

/-- A field counts a term once. -/
theorem count_fieldTerms (ht : t ≠ "") (doc : Document) (field : String) :
    (fieldTerms x doc field).count t = if HasToken x doc t field then 1 else 0 := by
  simp only [fieldTerms, HasToken]
  by_cases hempty : (extractField doc field).isEmpty = true
  · simp [hempty]
  · have hkept : (!t.isEmpty) = true := by simpa using ht
    rw [if_neg hempty, ((List.nodup_dedup _).filter _).count]
    simp [hempty, hkept]

/-- A document counts once for each position in the list of fields that has the term. -/
theorem count_suggestTerms (ht : t ≠ "") (doc : Document) :
    (suggestTerms x fields doc).count t = positionsWith x fields t doc := by
  rw [suggestTerms, List.count_flatMap, positionsWith]
  induction fields with
  | nil => rfl
  | cons field fields ih =>
    rw [List.map_cons, List.sum_cons, ih, Function.comp_apply, count_fieldTerms ht,
      List.filter_cons]
    by_cases hfield : HasToken x doc t field
    · simp [hfield, Nat.add_comm]
    · simp [hfield]

/-- **What is counted for a term**: all positions of all documents. -/
theorem termCount_eq_sum (ht : t ≠ "") (docs : List Document) :
    termCount x fields docs t = (docs.map (positionsWith x fields t)).sum := by
  rw [termCount, allTerms, List.count_flatMap]
  exact congrArg List.sum (List.map_congr_left (fun doc _ => count_suggestTerms ht doc))

theorem positionsWith_pos_iff {doc : Document} :
    0 < positionsWith x fields t doc ↔ ∃ field ∈ fields, HasToken x doc t field := by
  rw [positionsWith, List.length_pos_iff_exists_mem]
  simp

/-- **The count exceeds the number of documents by the surplus.** -/
theorem termCount_eq_add_surplus (ht : t ≠ "") (docs : List Document) :
    termCount x fields docs t
      = (documentsWith x fields docs t).length + surplus x fields docs t := by
  rw [termCount_eq_sum ht]
  induction docs with
  | nil => rfl
  | cons doc docs ih =>
    rw [documentsWith, surplus] at ih ⊢
    rw [List.map_cons, List.sum_cons, List.map_cons, List.sum_cons, ih, List.filter_cons]
    by_cases hdoc : ∃ field ∈ fields, HasToken x doc t field
    · have hpos := positionsWith_pos_iff.mpr hdoc
      rw [if_pos (decide_eq_true hdoc), List.length_cons]
      omega
    · have hzero := mt positionsWith_pos_iff.mp hdoc
      rw [if_neg (by simpa using hdoc)]
      omega

/-- Nothing is counted twice if no document has the term at two positions. -/
theorem surplus_eq_zero_iff :
    surplus x fields docs t = 0 ↔ ∀ doc ∈ docs, positionsWith x fields t doc ≤ 1 := by
  rw [surplus, List.sum_eq_zero_iff_forall_eq_nat, List.forall_mem_map]
  exact forall₂_congr (fun doc _ => by omega)

/-- There are no more positions than documents and fields. -/
theorem sum_positionsWith_le (x : SuggestText) (fields : List String) (docs : List Document)
    (t : String) : (docs.map (positionsWith x fields t)).sum ≤ docs.length * fields.length := by
  have hmem : ∀ n ∈ docs.map (positionsWith x fields t), n ≤ fields.length := by
    intro n hn
    obtain ⟨doc, -, rfl⟩ := List.mem_map.mp hn
    exact List.length_filter_le _ _
  have hle := List.sum_le_card_nsmul _ _ hmem
  rwa [List.length_map, nsmul_eq_mul, Nat.cast_id] at hle

end

/-- **The count held for a term is the number of documents with it exactly if** that is a `u32`
and the surplus wraps away.  As long as no count can wrap, this is so exactly if no document has
the term at two positions in the list of fields. -/
theorem SuggestIndexBuilder.count_eq_iff (x : SuggestText) (fields : List String)
    (docs : List Document) (t : String) (ht : t ≠ "") :
    (SuggestIndexBuilder.count (docs.foldl (SuggestIndexBuilder.addDocumentU32 x fields) ∅) t
        = (documentsWith x fields docs t).length ↔
      (documentsWith x fields docs t).length < 2 ^ 32 ∧ 2 ^ 32 ∣ surplus x fields docs t) ∧
    (docs.length * fields.length < 2 ^ 32 →
      (SuggestIndexBuilder.count (docs.foldl (SuggestIndexBuilder.addDocumentU32 x fields) ∅) t
          = (documentsWith x fields docs t).length ↔
        ∀ doc ∈ docs, positionsWith x fields t doc ≤ 1)) := by
  have hcount : termCount x fields docs t
      = (documentsWith x fields docs t).length + surplus x fields docs t :=
    termCount_eq_add_surplus ht docs
  rw [count_foldl_addDocumentU32, hcount, ← surplus_eq_zero_iff]
  refine ⟨⟨fun heq => ?_, ?_⟩, fun hfew => ?_⟩
  · have hlt := Nat.mod_lt ((documentsWith x fields docs t).length + surplus x fields docs t)
      (Nat.two_pow_pos 32)
    rw [heq] at hlt
    refine ⟨hlt, ?_⟩
    omega
  · rintro ⟨hlt, k, hk⟩
    rw [hk, Nat.add_mul_mod_self_left, Nat.mod_eq_of_lt hlt]
  · have hsum := sum_positionsWith_le x fields docs t
    rw [← termCount_eq_sum ht, hcount] at hsum
    rw [Nat.mod_eq_of_lt (hsum.trans_lt hfew)]
    omega

/-- **A document with the same word as title and description** counts twice. -/
theorem SuggestIndexBuilder.not_count_eq_wireless :
    let docs : List Document := [⟨1, "wireless", "wireless", ⟨0⟩, "", .empty⟩]
    (docs.map Document.id).Nodup ∧
      ¬ SuggestIndexBuilder.count (docs.foldl
          (SuggestIndexBuilder.addDocumentU32 wordText ["title", "description"]) ∅) "wireless"
        = (documentsWith wordText ["title", "description"] docs "wireless").length := by
  decide +kernel

/-- With the title only, two documents count as two. -/
theorem SuggestIndexBuilder.count_eq_iff_titles :
    let docs : List Document := [wordDoc 1 "wireless", wordDoc 2 "wired", wordDoc 3 "wireless"]
    let held := docs.foldl (SuggestIndexBuilder.addDocumentU32 wordText ["title"]) ∅
    (SuggestIndexBuilder.count held "wireless"
        = (documentsWith wordText ["title"] docs "wireless").length ↔
      (documentsWith wordText ["title"] docs "wireless").length < 2 ^ 32 ∧
        2 ^ 32 ∣ surplus wordText ["title"] docs "wireless") ∧
    (docs.length * 1 < 2 ^ 32 →
      (SuggestIndexBuilder.count held "wireless"
          = (documentsWith wordText ["title"] docs "wireless").length ↔
        ∀ doc ∈ docs, positionsWith wordText ["title"] "wireless" doc ≤ 1)) :=
  SuggestIndexBuilder.count_eq_iff wordText ["title"] _ "wireless" (by decide)

end ZearchEngine
