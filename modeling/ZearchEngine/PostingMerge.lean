/-
# `merge` as a sum of posting lists

A term's expansions give one posting list each, and `PostingList::merge` makes one list of them:
it puts all postings into one vector, sorts it by document id and adds up neighbours of one id.
The sort is unstable, so any arrangement of the equal ids may come out of it; `MayMerge` allows
them all.

What comes out does not depend on that, nor on the order of the lists, nor on how they were
grouped into merges of merges (`merge_multiset`).  Two facts carry it: the merged list is
determined by what it says of each document (`mem_mergeSorted`), and a capped sum does not see
whether its parts were capped before (`Represents.append`).
-/
import ZearchEngine.Posting
import Mathlib

namespace ZearchEngine

/-! ## 1. What postings say of a document -/

/-- The occurrences that the postings give the document `i`, added up. -/
def freqSum (ps : List Posting) (i : LocalDocId) : Nat :=
  ((ps.filter (fun p => p.docId = i)).map Posting.termFreq).sum

@[simp] theorem freqSum_nil (i : LocalDocId) : freqSum [] i = 0 := rfl

theorem freqSum_cons (p : Posting) (ps : List Posting) (i : LocalDocId) :
    freqSum (p :: ps) i = (if p.docId = i then p.termFreq else 0) + freqSum ps i := by
  by_cases h : p.docId = i
  · simp [freqSum, h]
  · simp [freqSum, h]

@[simp] theorem freqSum_append (ps qs : List Posting) (i : LocalDocId) :
    freqSum (ps ++ qs) i = freqSum ps i + freqSum qs i := by
  simp [freqSum]

theorem freqSum_perm {ps qs : List Posting} (h : ps.Perm qs) (i : LocalDocId) :
    freqSum ps i = freqSum qs i :=
  ((h.filter _).map _).sum_eq

theorem freqSum_eq_zero {ps : List Posting} {i : LocalDocId} (h : ∀ p ∈ ps, p.docId ≠ i) :
    freqSum ps i = 0 := by
  have hnil : ps.filter (fun p => p.docId = i) = [] := by
    simpa [List.filter_eq_nil_iff] using h
  rw [freqSum, hnil]
  rfl

/-- Equal ids carry equal lengths. -/
def LensAgree (ps : List Posting) : Prop :=
  ∀ p ∈ ps, ∀ q ∈ ps, p.docId = q.docId → p.docLen = q.docLen

/-- Every frequency is one of a `u8`. -/
def FreqsFit (ps : List Posting) : Prop := ∀ p ∈ ps, p.termFreq ≤ 255

/-- `p` is the one entry that the postings make for its document. -/
structure SumsUp (ps : List Posting) (p : Posting) : Prop where
  found : ∃ q ∈ ps, q.docId = p.docId
  freq : p.termFreq = min 255 (freqSum ps p.docId)
  docLen : ∀ q ∈ ps, q.docId = p.docId → q.docLen = p.docLen

theorem SumsUp.of_perm {ps qs : List Posting} (h : ps.Perm qs) {p : Posting}
    (hp : SumsUp ps p) : SumsUp qs p := by
  obtain ⟨q, hq, hid⟩ := hp.found
  exact ⟨⟨q, h.mem_iff.mp hq, hid⟩, by rw [hp.freq, freqSum_perm h],
    fun r hr => hp.docLen r (h.mem_iff.mpr hr)⟩

/-- There is one such entry only. -/
theorem SumsUp.eq {ps : List Posting} {p q : Posting} (hp : SumsUp ps p) (hq : SumsUp ps q)
    (h : p.docId = q.docId) : p = q := by
  obtain ⟨r, hr, hid⟩ := hp.found
  have hfreq : p.termFreq = q.termFreq := by rw [hp.freq, hq.freq, h]
  have hlen : p.docLen = q.docLen := by
    rw [← hp.docLen r hr hid, ← hq.docLen r hr (hid.trans h)]
  cases p
  cases q
  dsimp only at h hfreq hlen
  rw [h, hfreq, hlen]

/-! ## 2. One merge, under any sort -/

namespace PostingList

/-- The loop of `merge`, from the first of the sorted postings on. -/
def mergeSorted : List Posting → List Posting
  | [] => []
  | p :: ps => mergeLoop p ps

/-- What `merge` may return: `sort_unstable_by_key` leaves the order of equal ids open. -/
def MayMerge {R : Type} (lists : List (PostingList R)) (out : PostingList R) : Prop :=
  ∃ sorted : List Posting, sorted.Perm (lists.flatMap postings) ∧
    sorted.Pairwise (fun p q => p.docId ≤ q.docId) ∧ out = ⟨mergeSorted sorted, []⟩

/-- `merge` with a stable sort is one of the merges. -/
theorem mayMerge_merge {R : Type} (lists : List (PostingList R)) :
    MayMerge lists (merge lists) := by
  refine ⟨(lists.flatMap postings).insertionSort (fun p q => p.docId ≤ q.docId),
    List.perm_insertionSort _ _, List.pairwise_insertionSort _ _, ?_⟩
  rw [merge]
  cases (lists.flatMap postings).insertionSort (fun p q => p.docId ≤ q.docId) with
  | nil => rfl
  | cons p ps => rfl

/-- The loop keeps the documents of the sorted postings, each once. -/
theorem mergeSorted_spec {ps : List Posting}
    (hsorted : ps.Pairwise (fun p q => p.docId ≤ q.docId)) :
    (∀ i, i ∈ (mergeSorted ps).map Posting.docId ↔ i ∈ ps.map Posting.docId) ∧
    ((mergeSorted ps).map Posting.docId).Pairwise (· < ·) := by
  cases ps with
  | nil => exact ⟨fun _ => Iff.rfl, List.Pairwise.nil⟩
  | cons p ps =>
    obtain ⟨hp, htail⟩ := List.pairwise_cons.mp hsorted
    exact mergeLoop_spec ps p hp htail

/-- An entry of the loop's result carries the capped sum for its document.  The entry that may
still grow holds a sum that is capped already; capping it again later changes nothing. -/
theorem freq_mergeLoop : ∀ (ps : List Posting) (last : Posting),
    (∀ p ∈ ps, last.docId ≤ p.docId) → ps.Pairwise (fun p q => p.docId ≤ q.docId) →
    FreqsFit (last :: ps) →
    ∀ p ∈ mergeLoop last ps, p.termFreq = min 255 (freqSum (last :: ps) p.docId)
  | [], last, _, _, hfit => by
    intro p hp
    obtain rfl := List.mem_singleton.mp hp
    have := hfit p List.mem_cons_self
    rw [freqSum_cons, if_pos rfl, freqSum_nil]
    omega
  | q :: ps, last, hlast, hsorted, hfit => by
    obtain ⟨hq, htail⟩ := List.pairwise_cons.mp hsorted
    have hqfit : FreqsFit (q :: ps) := fun r hr => hfit r (List.mem_cons_of_mem _ hr)
    intro p hp
    by_cases heq : last.docId = q.docId
    · rw [mergeLoop, if_pos heq] at hp
      have hgrow : FreqsFit
          ({ last with termFreq := min 255 (last.termFreq + q.termFreq) } :: ps) := by
        intro r hr
        rcases List.mem_cons.mp hr with rfl | hr
        · exact min_le_left _ _
        · exact hqfit r (List.mem_cons_of_mem _ hr)
      have ih := freq_mergeLoop ps
        { last with termFreq := min 255 (last.termFreq + q.termFreq) }
        (fun r hr => hlast r (List.mem_cons_of_mem _ hr)) htail hgrow p hp
      rw [freqSum_cons] at ih
      rw [ih, freqSum_cons, freqSum_cons, heq]
      by_cases hid : q.docId = p.docId
      · simp only [hid, if_true]
        omega
      · simp only [hid, if_false]
        omega
    · rw [mergeLoop, if_neg heq] at hp
      have hlt : ∀ r ∈ q :: ps, last.docId < r.docId := by
        have hlq := lt_of_le_of_ne (hlast q List.mem_cons_self) heq
        intro r hr
        rcases List.mem_cons.mp hr with rfl | hr
        · exact hlq
        · exact hlq.trans_le (hq r hr)
      rcases List.mem_cons.mp hp with rfl | hp
      · have hfp := hfit p List.mem_cons_self
        rw [freqSum_cons, if_pos rfl, freqSum_eq_zero (fun r hr => (hlt r hr).ne')]
        omega
      · have hmem := (mergeLoop_spec ps q hq htail).1 p.docId
        obtain ⟨r, hr, hid⟩ := List.mem_map.mp (hmem.mp (List.mem_map_of_mem hp))
        rw [freqSum_cons, if_neg (hid ▸ (hlt r hr).ne), zero_add]
        exact freq_mergeLoop ps q hq htail hqfit p hp

/-- An entry of the loop's result has the length of one of the postings of its document. -/
theorem docLen_mergeLoop : ∀ (ps : List Posting) (last : Posting),
    ∀ p ∈ mergeLoop last ps, ∃ q ∈ last :: ps, q.docId = p.docId ∧ q.docLen = p.docLen
  | [], last => by
    intro p hp
    exact ⟨p, hp, rfl, rfl⟩
  | q :: ps, last => by
    intro p hp
    by_cases heq : last.docId = q.docId
    · rw [mergeLoop, if_pos heq] at hp
      obtain ⟨r, hr, hid, hlen⟩ := docLen_mergeLoop ps _ p hp
      rcases List.mem_cons.mp hr with rfl | hr
      · exact ⟨last, List.mem_cons_self, hid, hlen⟩
      · exact ⟨r, List.mem_cons_of_mem _ (List.mem_cons_of_mem _ hr), hid, hlen⟩
    · rw [mergeLoop, if_neg heq] at hp
      rcases List.mem_cons.mp hp with rfl | hp
      · exact ⟨p, List.mem_cons_self, rfl, rfl⟩
      · obtain ⟨r, hr, hid, hlen⟩ := docLen_mergeLoop ps q p hp
        exact ⟨r, List.mem_cons_of_mem _ hr, hid, hlen⟩

/-- **The merged list is determined by what the postings say of each document.** -/
theorem mem_mergeSorted {ps : List Posting} (hagree : LensAgree ps) (hfit : FreqsFit ps)
    (hsorted : ps.Pairwise (fun p q => p.docId ≤ q.docId)) (p : Posting) :
    p ∈ mergeSorted ps ↔ SumsUp ps p := by
  have hspec := mergeSorted_spec hsorted
  have hsums : ∀ q ∈ mergeSorted ps, SumsUp ps q := by
    intro q hq
    obtain ⟨r, hr, hid⟩ := List.mem_map.mp ((hspec.1 _).mp (List.mem_map_of_mem hq))
    cases ps with
    | nil => exact absurd hr List.not_mem_nil
    | cons first ps =>
      obtain ⟨hfirst, htail⟩ := List.pairwise_cons.mp hsorted
      obtain ⟨s, hs, hsid, hslen⟩ := docLen_mergeLoop ps first q hq
      exact ⟨⟨r, hr, hid⟩, freq_mergeLoop ps first hfirst htail hfit q hq,
        fun t ht htid => (hagree t ht s hs (htid.trans hsid.symm)).trans hslen⟩
  refine ⟨hsums p, fun hp => ?_⟩
  obtain ⟨r, hr, hid⟩ := hp.found
  obtain ⟨q, hq, hqid⟩ := List.mem_map.mp
    ((hspec.1 p.docId).mpr (List.mem_map.mpr ⟨r, hr, hid⟩))
  exact (hsums q hq).eq hp hqid ▸ hq

/-! ## 3. Merges of merges -/

/-- `out` says of every document what `ps` says of it, up to the cap. -/
structure Represents (out ps : List Posting) : Prop where
  ids : ∀ i, (∃ q ∈ out, q.docId = i) ↔ ∃ q ∈ ps, q.docId = i
  freq : ∀ i, min 255 (freqSum out i) = min 255 (freqSum ps i)
  docLen : ∀ p ∈ out, ∃ q ∈ ps, q.docId = p.docId ∧ q.docLen = p.docLen
  fit : FreqsFit out

theorem Represents.refl {ps : List Posting} (hfit : FreqsFit ps) : Represents ps ps :=
  ⟨fun _ => Iff.rfl, fun _ => rfl, fun p hp => ⟨p, hp, rfl, rfl⟩, hfit⟩

theorem Represents.append {out out' ps ps' : List Posting} (h : Represents out ps)
    (h' : Represents out' ps') : Represents (out ++ out') (ps ++ ps') where
  ids := by
    intro i
    simp only [List.mem_append, or_and_right, exists_or, h.ids i, h'.ids i]
  freq := by
    intro i
    have hf := h.freq i
    have hf' := h'.freq i
    simp only [freqSum_append]
    omega
  docLen := by
    intro p hp
    rcases List.mem_append.mp hp with hp | hp
    · obtain ⟨q, hq, hid⟩ := h.docLen p hp
      exact ⟨q, List.mem_append_left _ hq, hid⟩
    · obtain ⟨q, hq, hid⟩ := h'.docLen p hp
      exact ⟨q, List.mem_append_right _ hq, hid⟩
  fit := by
    intro p hp
    rcases List.mem_append.mp hp with hp | hp
    · exact h.fit p hp
    · exact h'.fit p hp

/-- What represents the same postings sums up to the same entries. -/
theorem Represents.sumsUp_iff {out ps : List Posting} (h : Represents out ps)
    (hagree : LensAgree ps) (p : Posting) : SumsUp out p ↔ SumsUp ps p := by
  constructor
  · intro hp
    obtain ⟨q, hq, hid⟩ := hp.found
    obtain ⟨r, hr, hrid, hrlen⟩ := h.docLen q hq
    refine ⟨(h.ids _).mp hp.found, by rw [hp.freq, h.freq], fun s hs hsid => ?_⟩
    rw [← hp.docLen q hq hid, ← hrlen]
    exact hagree s hs r hr (hsid.trans (hrid.trans hid).symm)
  · intro hp
    refine ⟨(h.ids _).mpr hp.found, by rw [hp.freq, h.freq], fun s hs hsid => ?_⟩
    obtain ⟨r, hr, hrid, hrlen⟩ := h.docLen s hs
    rw [← hrlen]
    exact hp.docLen r hr (hrid.trans hsid)

theorem Represents.lensAgree {out ps : List Posting} (h : Represents out ps)
    (hagree : LensAgree ps) : LensAgree out := by
  intro p hp q hq hid
  obtain ⟨r, hr, hrid, hrlen⟩ := h.docLen p hp
  obtain ⟨s, hs, hsid, hslen⟩ := h.docLen q hq
  rw [← hrlen, ← hslen]
  exact hagree r hr s hs (by rw [hrid, hsid, hid])

theorem Represents.trans {out mid ps : List Posting} (h : Represents out mid)
    (h' : Represents mid ps) : Represents out ps where
  ids := fun i => (h.ids i).trans (h'.ids i)
  freq := fun i => (h.freq i).trans (h'.freq i)
  docLen := by
    intro p hp
    obtain ⟨q, hq, hid, hlen⟩ := h.docLen p hp
    obtain ⟨r, hr, hrid, hrlen⟩ := h'.docLen q hq
    exact ⟨r, hr, hrid.trans hid, hrlen.trans hlen⟩
  fit := h.fit

theorem Represents.of_perm {ps qs : List Posting} (h : ps.Perm qs) (hfit : FreqsFit qs) :
    Represents ps qs where
  ids := fun i => by simp only [h.mem_iff]
  freq := fun i => by rw [freqSum_perm h]
  docLen := fun p hp => ⟨p, h.mem_iff.mp hp, rfl, rfl⟩
  fit := fun p hp => hfit p (h.mem_iff.mp hp)

/-- Where each document has one entry, the sum is that entry's own frequency. -/
theorem freqSum_of_mem {ps : List Posting} (hlt : (ps.map Posting.docId).Pairwise (· < ·))
    {p : Posting} (hp : p ∈ ps) : freqSum ps p.docId = p.termFreq := by
  induction ps with
  | nil => exact absurd hp List.not_mem_nil
  | cons q ps ih =>
    obtain ⟨hq, htail⟩ := List.pairwise_cons.mp hlt
    rw [freqSum_cons]
    rcases List.mem_cons.mp hp with rfl | hp
    · have hrest : ∀ r ∈ ps, r.docId ≠ p.docId := fun r hr =>
        (hq r.docId (List.mem_map_of_mem hr)).ne'
      rw [if_pos rfl, freqSum_eq_zero hrest, add_zero]
    · rw [if_neg (hq p.docId (List.mem_map_of_mem hp)).ne, zero_add, ih htail hp]

/-- The loop represents the sorted postings it runs over. -/
theorem represents_mergeSorted {ps : List Posting} (hfit : FreqsFit ps)
    (hsorted : ps.Pairwise (fun p q => p.docId ≤ q.docId)) :
    Represents (mergeSorted ps) ps := by
  obtain ⟨hids, hlt⟩ := mergeSorted_spec hsorted
  have hfreq : ∀ p ∈ mergeSorted ps, p.termFreq = min 255 (freqSum ps p.docId) := by
    cases ps with
    | nil => exact fun p hp => absurd hp List.not_mem_nil
    | cons first ps =>
      obtain ⟨hfirst, htail⟩ := List.pairwise_cons.mp hsorted
      exact freq_mergeLoop ps first hfirst htail hfit
  constructor
  case ids =>
    intro i
    simpa only [List.mem_map] using hids i
  case freq =>
    intro i
    by_cases hi : ∃ p ∈ mergeSorted ps, p.docId = i
    · obtain ⟨p, hp, rfl⟩ := hi
      rw [freqSum_of_mem hlt hp, hfreq p hp]
      omega
    · have hout : ∀ p ∈ mergeSorted ps, p.docId ≠ i := fun p hp h => hi ⟨p, hp, h⟩
      have hin : ∀ p ∈ ps, p.docId ≠ i := by
        intro p hp h
        obtain ⟨q, hq, hqi⟩ := List.mem_map.mp ((hids i).mpr (List.mem_map.mpr ⟨p, hp, h⟩))
        exact hout q hq hqi
      rw [freqSum_eq_zero hout, freqSum_eq_zero hin]
  case docLen =>
    cases ps with
    | nil => exact fun p hp => absurd hp List.not_mem_nil
    | cons first ps => exact docLen_mergeLoop ps first
  case fit =>
    intro p hp
    rw [hfreq p hp]
    exact min_le_left _ _

theorem MayMerge.represents {R : Type} {lists : List (PostingList R)} {out : PostingList R}
    (h : MayMerge lists out) (hfit : FreqsFit (lists.flatMap postings)) :
    Represents out.postings (lists.flatMap postings) := by
  obtain ⟨sorted, hperm, hsorted, rfl⟩ := h
  have hperm' := Represents.of_perm hperm hfit
  exact (represents_mergeSorted hperm'.fit hsorted).trans hperm'

/-- `out` is made of the lists by merges, in some grouping and to any depth. -/
inductive Grouped {R : Type} : List (PostingList R) → PostingList R → Prop
  | list (pl : PostingList R) : Grouped [pl] pl
  | merge (parts : List (List (PostingList R) × PostingList R)) (out : PostingList R)
      (hparts : ∀ part ∈ parts, Grouped part.1 part.2)
      (hout : MayMerge (parts.map Prod.snd) out) :
      Grouped (parts.flatMap Prod.fst) out

theorem fit_of_part {R : Type} {parts : List (List (PostingList R) × PostingList R)}
    (hfit : FreqsFit ((parts.flatMap Prod.fst).flatMap postings))
    {part : List (PostingList R) × PostingList R} (hpart : part ∈ parts) :
    FreqsFit (part.1.flatMap postings) := by
  intro p hp
  obtain ⟨pl, hpl, hmem⟩ := List.mem_flatMap.mp hp
  exact hfit p (List.mem_flatMap.mpr ⟨pl, List.mem_flatMap.mpr ⟨part, hpart, hpl⟩, hmem⟩)

/-- Parts that represent their lists do so together. -/
theorem represents_parts {R : Type} (parts : List (List (PostingList R) × PostingList R))
    (h : ∀ part ∈ parts, Represents part.2.postings (part.1.flatMap postings)) :
    Represents ((parts.map Prod.snd).flatMap postings)
      ((parts.flatMap Prod.fst).flatMap postings) := by
  induction parts with
  | nil => exact Represents.refl (fun p hp => absurd hp List.not_mem_nil)
  | cons part parts ih =>
    have hrest := ih (fun p hp => h p (List.mem_cons_of_mem _ hp))
    simpa only [List.map_cons, List.flatMap_cons, List.flatMap_append]
      using (h part List.mem_cons_self).append hrest

/-- **However the merges are grouped, the result represents the lists that went in.** -/
theorem Grouped.represents {R : Type} {lists : List (PostingList R)} {out : PostingList R}
    (h : Grouped lists out) (hfit : FreqsFit (lists.flatMap postings)) :
    Represents out.postings (lists.flatMap postings) := by
  induction h with
  | list pl =>
    rw [List.flatMap_singleton] at hfit ⊢
    exact Represents.refl hfit
  | merge parts out hparts hout ih =>
    have hall := represents_parts parts
      (fun part hpart => ih part hpart (fit_of_part hfit hpart))
    exact (hout.represents hall.fit).trans hall

/-- Two merges that represent the same postings are equal. -/
theorem eq_of_represents {R : Type} {lists lists' : List (PostingList R)}
    {out out' : PostingList R} {ps : List Posting} (h : MayMerge lists out)
    (h' : MayMerge lists' out') (hr : Represents (lists.flatMap postings) ps)
    (hr' : Represents (lists'.flatMap postings) ps) (hagree : LensAgree ps) : out' = out := by
  have hmem : ∀ {ls : List (PostingList R)} {o : PostingList R}, MayMerge ls o →
      Represents (ls.flatMap postings) ps →
      (o.postings.map Posting.docId).Pairwise (· < ·) ∧ o.blocks = [] ∧
        ∀ p, p ∈ o.postings ↔ SumsUp ps p := by
    rintro ls o ⟨sorted, hperm, hsorted, rfl⟩ hrep
    have hsort := (Represents.of_perm hperm hrep.fit).trans hrep
    refine ⟨(mergeSorted_spec hsorted).2, rfl, fun p => ?_⟩
    rw [mem_mergeSorted (hsort.lensAgree hagree) hsort.fit hsorted, hsort.sumsUp_iff hagree]
  obtain ⟨hlt, hblocks, hout⟩ := hmem h hr
  obtain ⟨hlt', hblocks', hout'⟩ := hmem h' hr'
  have hpost : out'.postings = out.postings := by
    rw [List.pairwise_map] at hlt hlt'
    have hperm : out'.postings.Perm out.postings :=
      (List.perm_ext_iff_of_nodup (hlt'.imp (fun h hpq => h.ne (congrArg _ hpq)))
        (hlt.imp (fun h hpq => h.ne (congrArg _ hpq)))).mpr
        (fun p => (hout' p).trans (hout p).symm)
    exact hperm.eq_of_pairwise (fun p q _ _ h h' => absurd h' h.asymm) hlt' hlt
  cases out
  cases out'
  dsimp only at hpost hblocks hblocks'
  rw [hpost, hblocks, hblocks']

/-- **A merge is the sum of its lists**: one entry for each document of any of them, in the order
of the ids, with the frequencies added up to the cap.  The outcome is the one of `merge` whatever
the sort does with equal ids, in whichever order the lists come and however they are grouped. -/
theorem merge_multiset {R : Type} (lists : List (PostingList R)) (out : PostingList R)
    (hfit : FreqsFit (lists.flatMap postings)) (hagree : LensAgree (lists.flatMap postings))
    (hout : MayMerge lists out) :
    out = merge lists ∧
    (out.postings.map Posting.docId).Pairwise (· < ·) ∧
    (∀ i, i ∈ out.postings.map Posting.docId ↔
      ∃ pl ∈ lists, i ∈ pl.postings.map Posting.docId) ∧
    (∀ p ∈ out.postings,
      p.termFreq = min 255 (freqSum (lists.flatMap postings) p.docId) ∧
      ∀ pl ∈ lists, ∀ q ∈ pl.postings, q.docId = p.docId → q.docLen = p.docLen) ∧
    (∀ lists' out', lists'.Perm lists → MayMerge lists' out' → out' = out) ∧
    (∀ (parts : List (List (PostingList R) × PostingList R)) (out' : PostingList R),
      (∀ part ∈ parts, Grouped part.1 part.2) → (parts.flatMap Prod.fst).Perm lists →
      MayMerge (parts.map Prod.snd) out' → out' = out) := by
  have hself := Represents.refl hfit
  have horder : ∀ lists' out', lists'.Perm lists → MayMerge lists' out' → out' = out :=
    fun lists' out' hperm hout' =>
      eq_of_represents hout hout' hself (Represents.of_perm (hperm.flatMap_right _) hfit) hagree
  have hmerge := (horder lists (merge lists) (List.Perm.refl _) (mayMerge_merge lists)).symm
  obtain ⟨hids, hlt⟩ := merge_spec lists
  refine ⟨hmerge, hmerge ▸ hlt, hmerge ▸ hids, ?_, horder, ?_⟩
  · obtain ⟨sorted, hperm, hsorted, rfl⟩ := hout
    have hrep := Represents.of_perm hperm hfit
    intro p hp
    rw [mem_mergeSorted (hrep.lensAgree hagree) hrep.fit hsorted, hrep.sumsUp_iff hagree] at hp
    exact ⟨hp.freq, fun pl hpl q hq => hp.docLen q (List.mem_flatMap.mpr ⟨pl, hpl, hq⟩)⟩
  · intro parts out' hparts hperm hout'
    have hall := Represents.of_perm (hperm.flatMap_right postings) hfit
    have hgroups := represents_parts parts
      (fun part hpart => (hparts part hpart).represents (fit_of_part hall.fit hpart))
    exact eq_of_represents hout hout' hself (hgroups.trans hall) hagree

/-- Two lists that share a document, whose frequencies reach the cap together. -/
theorem merge_multiset_twoLists :
    let lists : List (PostingList Unit) :=
      [⟨[⟨1, 200, 7⟩, ⟨3, 1, 9⟩], []⟩, ⟨[⟨1, 100, 7⟩, ⟨2, 4, 5⟩], []⟩]
    ((merge lists).postings.map Posting.docId).Pairwise (· < ·) ∧
    ∀ p ∈ (merge lists).postings,
      p.termFreq = min 255 (freqSum (lists.flatMap postings) p.docId) := by
  intro lists
  have hfit : FreqsFit (lists.flatMap postings) := by
    intro p hp
    revert p
    decide
  have hagree : LensAgree (lists.flatMap postings) := by
    intro p hp q hq
    revert p q
    decide
  obtain ⟨-, hlt, -, hfreq, -⟩ :=
    merge_multiset lists (merge lists) hfit hagree (mayMerge_merge lists)
  exact ⟨hlt, fun p hp => (hfreq p hp).1⟩

end PostingList

end ZearchEngine
