/-
# Tokens and their spans

`UnicodeTokenizer` (`crates/analysis/src/tokenizer.rs`) takes the words of a text with their byte
offsets, trims each one to its first and last alphanumeric character and keeps what is left as a
token, with the span of bytes it comes from.  The filters of an analyzer (`filter.rs`,
`analyzer.rs`) change the texts of the tokens and not their spans (`analyze_spec`), so a term of
the index is the normalized text of a span (`textAnalysis_spec`).

Where a word starts and ends is up to `unicode_word_indices`; all that is asked of it is that the
words are slices of the text, one behind the other (`YieldsWords`).  Then no slice cuts a
character, and the tokens are exactly the alphanumeric parts of the words
(`tokenize_exact`).

Bytes are counted as UTF-8 has them; a slice that would cut a character, where the source panics,
is none.
-/
import ZearchEngine.Schema
import ZearchEngine.Lib.Spans
import Mathlib

namespace ZearchEngine

/-! ## 1. Strings by bytes -/

/-- `char_indices`. -/
def charIndices (s : String) : List (Nat × Char) := Spans.indices Char.utf8Size 0 s.toList

/-- `&s[a..b]`: none if it panics. -/
def sliceStr (s : String) (a b : Nat) : Option String :=
  (Spans.slice Char.utf8Size a b s.toList).map String.ofList

theorem utf8ByteSize_ofList (cs : List Char) :
    (String.ofList cs).utf8ByteSize = Spans.size Char.utf8Size cs := by
  rw [← String.size_toByteArray, String.toByteArray_ofList, List.utf8Encode, Spans.size]
  simp [List.length_flatMap]

theorem size_toList (s : String) : Spans.size Char.utf8Size s.toList = s.utf8ByteSize := by
  rw [← utf8ByteSize_ofList, String.ofList_toList]

theorem sliceStr_eq_some_iff_toList {s t : String} {a b : Nat} :
    sliceStr s a b = some t ↔ Spans.slice Char.utf8Size a b s.toList = some t.toList := by
  rw [sliceStr, Option.map_eq_some_iff]
  constructor
  · rintro ⟨mid, hmid, rfl⟩
    rw [hmid, String.toList_ofList]
  · intro h
    exact ⟨t.toList, h, String.ofList_toList⟩

/-- **A slice of a string** is what stands between two byte offsets. -/
theorem sliceStr_eq_some_iff {s t : String} {a b : Nat} :
    sliceStr s a b = some t ↔
      ∃ pre post : String, s = pre ++ t ++ post ∧ pre.utf8ByteSize = a ∧
        (pre ++ t).utf8ByteSize = b := by
  rw [sliceStr_eq_some_iff_toList, Spans.slice_eq_some_iff Char.utf8Size_pos]
  constructor
  · rintro ⟨pre, post, heq, rfl, rfl⟩
    refine ⟨String.ofList pre, String.ofList post, ?_, utf8ByteSize_ofList pre, ?_⟩
    · rw [← String.toList_inj, heq]
      simp
    · rw [← size_toList]
      simp
  · rintro ⟨pre, post, rfl, rfl, rfl⟩
    refine ⟨pre.toList, post.toList, by simp, size_toList pre, ?_⟩
    rw [← String.toList_append, size_toList]

/-! ## 2. The tokenizer -/

/-- A single token produced by the analysis pipeline; `stop` is the field `end`. -/
structure Token where
  text : String
  start : Nat
  stop : Nat
  position : Nat
deriving DecidableEq

/-- What the standard library and other crates know of Unicode: `is_alphanumeric`,
`to_lowercase`, `unicode_word_indices` and the stemmers. -/
structure UnicodeText where
  isAlphanumeric : Char → Bool
  toLowercase : String → String
  unicodeWordIndices : String → List (Nat × String)
  stem : Language → String → String

/-- The words are slices of the text at their offsets, one behind the other. -/
structure UnicodeText.YieldsWords (x : UnicodeText) (text : String) : Prop where
  slices : ∀ w ∈ x.unicodeWordIndices text,
    sliceStr text w.1 (w.1 + w.2.utf8ByteSize) = some w.2
  increasing : (x.unicodeWordIndices text).Pairwise (fun v w => v.1 + v.2.utf8ByteSize ≤ w.1)

namespace UnicodeTokenizer

variable (x : UnicodeText)

/-- One word: the tokens so far and the position of the next one. -/
def pushWord (acc : List Token × Nat) (w : Nat × String) : Option (List Token × Nat) :=
  let (byteOffset, word) := w
  let (tokens, position) := acc
  if !word.toList.any x.isAlphanumeric then some acc
  else
    let trimmedStart := (((charIndices word).find? (fun e => x.isAlphanumeric e.2)).map
      Prod.fst).getD 0
    let trimmedEnd := (((charIndices word).reverse.find? (fun e => x.isAlphanumeric e.2)).map
      (fun e => e.1 + e.2.utf8Size)).getD word.utf8ByteSize
    (sliceStr word trimmedStart trimmedEnd).map (fun trimmed =>
      if trimmed.isEmpty then acc
      else
        (tokens ++ [{ text := trimmed
                      start := byteOffset + trimmedStart
                      stop := byteOffset + trimmedEnd
                      position }], position + 1))

/-- `tokenize`: none if a slice panics. -/
def tokenize (text : String) : Option (List Token) :=
  ((x.unicodeWordIndices text).foldlM (pushWord x) ([], 0)).map Prod.fst

variable {x}

/-- **A word gives no token, or what is left of it when it is trimmed.** -/
theorem pushWord_spec (tokens : List Token) (position : Nat) (w : Nat × String) :
    (pushWord x (tokens, position) w = some (tokens, position) ∧
      ∀ c ∈ w.2.toList, x.isAlphanumeric c = false) ∨
    ∃ pre mid post, Spans.Trims x.isAlphanumeric w.2.toList pre mid post ∧
      pushWord x (tokens, position) w = some
        (tokens ++ [{ text := String.ofList mid
                      start := w.1 + Spans.size Char.utf8Size pre
                      stop := w.1 + Spans.size Char.utf8Size (pre ++ mid)
                      position }], position + 1) := by
  obtain ⟨byteOffset, word⟩ := w
  by_cases hany : word.toList.any x.isAlphanumeric = true
  · right
    obtain ⟨pre, mid, post, h⟩ := Spans.exists_trims (List.any_eq_true.mp hany)
    refine ⟨pre, mid, post, h, ?_⟩
    have hstart : ((charIndices word).find? (fun e => x.isAlphanumeric e.2)).map Prod.fst
        = some (Spans.size Char.utf8Size pre) := h.firstIndex_eq
    have hend : ((charIndices word).reverse.find? (fun e => x.isAlphanumeric e.2)).map
        (fun e => e.1 + e.2.utf8Size) = some (Spans.size Char.utf8Size (pre ++ mid)) :=
      h.lastEnd_eq
    have hslice : sliceStr word (Spans.size Char.utf8Size pre)
        (Spans.size Char.utf8Size (pre ++ mid)) = some (String.ofList mid) := by
      rw [sliceStr_eq_some_iff_toList, String.toList_ofList,
        Spans.slice_eq_some_iff Char.utf8Size_pos]
      exact ⟨pre, post, h.eq, rfl, rfl⟩
    have hne : (String.ofList mid).isEmpty = false := by
      obtain ⟨c, hc, -⟩ := h.head
      rw [Bool.eq_false_iff, Ne, String.isEmpty_iff]
      intro hempty
      rw [← String.toList_inj, String.toList_ofList] at hempty
      rw [hempty] at hc
      cases hc
    rw [pushWord]
    simp only [hany, Bool.not_true, Bool.false_eq_true, if_false, hstart, hend, Option.getD_some,
      hslice, Option.map_some, hne]
  · left
    refine ⟨?_, by simpa using hany⟩
    rw [pushWord]
    simp [hany]

/-! ## 3. Exact spans -/

/-- The tokens are the alphanumeric parts of the words seen so far. -/
structure Exact (x : UnicodeText) (text : String) (seen : List (Nat × String))
    (tokens : List Token) : Prop where
  slices : ∀ t ∈ tokens, sliceStr text t.start t.stop = some t.text
  ends : ∀ t ∈ tokens,
    (∃ c, t.text.toList.head? = some c ∧ x.isAlphanumeric c = true) ∧
    ∃ c, t.text.toList.getLast? = some c ∧ x.isAlphanumeric c = true
  disjoint : tokens.Pairwise (fun t u => t.stop ≤ u.start)
  covers : ∀ w ∈ seen, ∀ i c, (i, c) ∈ charIndices w.2 → x.isAlphanumeric c = true →
    ∃ t ∈ tokens, t.start ≤ w.1 + i ∧ w.1 + i + c.utf8Size ≤ t.stop
  positions : tokens.map Token.position = List.range tokens.length
  within : ∀ t ∈ tokens, ∃ w ∈ seen, t.stop ≤ w.1 + w.2.utf8ByteSize

variable {text : String} {seen : List (Nat × String)} {tokens : List Token}

/-- A word without alphanumeric characters. -/
theorem Exact.skip (h : Exact x text seen tokens) {w : Nat × String}
    (hnone : ∀ c ∈ w.2.toList, x.isAlphanumeric c = false) :
    Exact x text (seen ++ [w]) tokens where
  slices := h.slices
  ends := h.ends
  disjoint := h.disjoint
  positions := h.positions
  covers := by
    intro v hv i c hin hc
    rcases List.mem_append.mp hv with hseen | hnew
    · exact h.covers v hseen i c hin hc
    · rw [List.mem_singleton.mp hnew] at hin
      obtain ⟨pre, post, heq, -⟩ := Spans.mem_indices_iff.mp hin
      have hmem : c ∈ w.2.toList := heq ▸ List.mem_append_right _ List.mem_cons_self
      exact absurd hc (by simp [hnone c hmem])
  within := by
    intro t ht
    obtain ⟨v, hv, hle⟩ := h.within t ht
    exact ⟨v, List.mem_append_left _ hv, hle⟩

/-- A word behind the others gives one more token. -/
theorem Exact.push (h : Exact x text seen tokens) {w : Nat × String}
    (hword : sliceStr text w.1 (w.1 + w.2.utf8ByteSize) = some w.2)
    (hbehind : ∀ v ∈ seen, v.1 + v.2.utf8ByteSize ≤ w.1) {pre mid post : List Char}
    (htrims : Spans.Trims x.isAlphanumeric w.2.toList pre mid post) :
    Exact x text (seen ++ [w])
      (tokens ++ [{ text := String.ofList mid
                    start := w.1 + Spans.size Char.utf8Size pre
                    stop := w.1 + Spans.size Char.utf8Size (pre ++ mid)
                    position := tokens.length }]) where
  slices := by
    intro t ht
    rcases List.mem_append.mp ht with hold | hnew
    · exact h.slices t hold
    · rw [List.mem_singleton.mp hnew, sliceStr_eq_some_iff_toList, String.toList_ofList]
      rw [sliceStr_eq_some_iff_toList, ← size_toList] at hword
      exact Spans.slice_slice Char.utf8Size_pos hword htrims.eq
  ends := by
    intro t ht
    rcases List.mem_append.mp ht with hold | hnew
    · exact h.ends t hold
    · rw [List.mem_singleton.mp hnew]
      dsimp only
      rw [String.toList_ofList]
      exact ⟨htrims.head, htrims.last⟩
  disjoint := by
    refine List.pairwise_append.mpr ⟨h.disjoint, List.pairwise_singleton _ _, ?_⟩
    intro t ht u hu
    obtain ⟨v, hv, hle⟩ := h.within t ht
    rw [List.mem_singleton.mp hu]
    exact (hle.trans (hbehind v hv)).trans (Nat.le_add_right _ _)
  covers := by
    intro v hv i c hin hc
    rcases List.mem_append.mp hv with hseen | hnew
    · obtain ⟨t, ht, hspan⟩ := h.covers v hseen i c hin hc
      exact ⟨t, List.mem_append_left _ ht, hspan⟩
    · rw [List.mem_singleton.mp hnew] at hin ⊢
      obtain ⟨hle, hend⟩ := htrims.covers hin hc
      refine ⟨_, List.mem_append_right _ List.mem_cons_self, ?_, ?_⟩
      · exact Nat.add_le_add_left hle _
      · rw [Nat.add_assoc]
        exact Nat.add_le_add_left hend _
  positions := by
    rw [List.map_append, h.positions, List.length_append, List.length_singleton,
      List.range_succ]
    rfl
  within := by
    intro t ht
    rcases List.mem_append.mp ht with hold | hnew
    · obtain ⟨v, hv, hle⟩ := h.within t hold
      exact ⟨v, List.mem_append_left _ hv, hle⟩
    · refine ⟨w, List.mem_append_right _ List.mem_cons_self, ?_⟩
      rw [List.mem_singleton.mp hnew]
      refine Nat.add_le_add_left ?_ _
      rw [← size_toList, htrims.eq, Spans.size_append (pre ++ mid) post]
      exact Nat.le_add_right _ _

/-- A token has at least one byte. -/
theorem Exact.start_lt_stop (h : Exact x text seen tokens) {t : Token} (ht : t ∈ tokens) :
    t.start < t.stop := by
  obtain ⟨pre, post, -, hstart, hstop⟩ := sliceStr_eq_some_iff.mp (h.slices t ht)
  obtain ⟨⟨c, hc, -⟩, -⟩ := h.ends t ht
  have hne : t.text ≠ "" := by
    intro hempty
    rw [hempty] at hc
    cases hc
  have hpos : t.text.utf8ByteSize ≠ 0 := mt String.utf8ByteSize_eq_zero_iff.mp hne
  rw [String.utf8ByteSize_append] at hstop
  omega

/-- **Word by word.**  Words that are slices of the text, one behind the other, are turned into
tokens without a panic. -/
theorem Exact.run {words : List (Nat × String)} (h : Exact x text seen tokens)
    (hslices : ∀ w ∈ words, sliceStr text w.1 (w.1 + w.2.utf8ByteSize) = some w.2)
    (hincreasing : (seen ++ words).Pairwise (fun v w => v.1 + v.2.utf8ByteSize ≤ w.1)) :
    ∃ tokens', words.foldlM (pushWord x) (tokens, tokens.length) = some (tokens', tokens'.length) ∧
      Exact x text (seen ++ words) tokens' := by
  induction words generalizing seen tokens with
  | nil => exact ⟨tokens, rfl, by simpa using h⟩
  | cons w words ih =>
    have hbehind : ∀ v ∈ seen, v.1 + v.2.utf8ByteSize ≤ w.1 := fun v hv =>
      (List.pairwise_append.mp hincreasing).2.2 v hv w List.mem_cons_self
    have hsplit : seen ++ w :: words = (seen ++ [w]) ++ words := by simp
    have hrest : ∀ v ∈ words, sliceStr text v.1 (v.1 + v.2.utf8ByteSize) = some v.2 :=
      fun v hv => hslices v (List.mem_cons_of_mem w hv)
    rw [hsplit] at hincreasing ⊢
    rw [List.foldlM_cons]
    rcases pushWord_spec tokens tokens.length w with
      ⟨hpush, hnone⟩ | ⟨pre, mid, post, htrims, hpush⟩
    · rw [hpush]
      exact ih (h.skip hnone) hrest hincreasing
    · rw [hpush]
      have hnext := h.push (hslices w List.mem_cons_self) hbehind htrims
      have hlen := ih hnext hrest hincreasing
      rw [List.length_append] at hlen
      exact hlen

/-- The tokens of a text. -/
theorem exists_exact (hwords : x.YieldsWords text) :
    ∃ tokens, tokenize x text = some tokens ∧
      Exact x text (x.unicodeWordIndices text) tokens := by
  have hstart : Exact x text [] [] := by
    constructor
    case disjoint => exact List.Pairwise.nil
    case positions => rfl
    all_goals exact fun _ h => absurd h List.not_mem_nil
  obtain ⟨tokens, hrun, hexact⟩ := hstart.run hwords.slices hwords.increasing
  refine ⟨tokens, ?_, hexact⟩
  rw [tokenize]
  exact congrArg (Option.map Prod.fst) hrun

/-- **Tokens are exact.**  If the words are slices of the text, one behind the other, the
tokenizer slices no character, and its tokens are slices of the text at their spans, one behind
the other, which begin and end with alphanumeric characters, hold every alphanumeric character
of every word, and are numbered in order. -/
theorem tokenize_exact (x : UnicodeText) (text : String) (hwords : x.YieldsWords text) :
    ∃ tokens, tokenize x text = some tokens ∧
      (∀ t ∈ tokens, t.start < t.stop) ∧
      tokens.Pairwise (fun t u => t.stop ≤ u.start) ∧
      (∀ t ∈ tokens, sliceStr text t.start t.stop = some t.text) ∧
      (∀ t ∈ tokens,
        (∃ c, t.text.toList.head? = some c ∧ x.isAlphanumeric c = true) ∧
        ∃ c, t.text.toList.getLast? = some c ∧ x.isAlphanumeric c = true) ∧
      (∀ w ∈ x.unicodeWordIndices text, ∀ i c,
        (i, c) ∈ charIndices w.2 → x.isAlphanumeric c = true →
        ∃ t ∈ tokens, t.start ≤ w.1 + i ∧ w.1 + i + c.utf8Size ≤ t.stop) ∧
      tokens.map Token.position = List.range tokens.length := by
  obtain ⟨tokens, htokenize, hexact⟩ := exists_exact hwords
  exact ⟨tokens, htokenize, fun t ht => hexact.start_lt_stop ht, hexact.disjoint, hexact.slices,
    hexact.ends, hexact.covers, hexact.positions⟩

/-- Two words, one with underscores at both ends and one behind a sign of two bytes. -/
def twoWords : UnicodeText where
  isAlphanumeric c := c.isAlphanum || c = 'é'
  toLowercase := id
  unicodeWordIndices text := if text = "_té_ ¡ya!" then [(0, "_té_"), (8, "ya")] else []
  stem _ := id

example : tokenize twoWords "_té_ ¡ya!" = some [⟨"té", 1, 4, 0⟩, ⟨"ya", 8, 10, 1⟩] := by
  decide

theorem tokenize_exact_twoWords :
    ∃ tokens, tokenize twoWords "_té_ ¡ya!" = some tokens ∧
      (∀ t ∈ tokens, t.start < t.stop) ∧
      tokens.Pairwise (fun t u => t.stop ≤ u.start) ∧
      (∀ t ∈ tokens, sliceStr "_té_ ¡ya!" t.start t.stop = some t.text) ∧
      (∀ t ∈ tokens,
        (∃ c, t.text.toList.head? = some c ∧ twoWords.isAlphanumeric c = true) ∧
        ∃ c, t.text.toList.getLast? = some c ∧ twoWords.isAlphanumeric c = true) ∧
      (∀ w ∈ twoWords.unicodeWordIndices "_té_ ¡ya!", ∀ i c,
        (i, c) ∈ charIndices w.2 → twoWords.isAlphanumeric c = true →
        ∃ t ∈ tokens, t.start ≤ w.1 + i ∧ w.1 + i + c.utf8Size ≤ t.stop) ∧
      tokens.map Token.position = List.range tokens.length :=
  tokenize_exact twoWords "_té_ ¡ya!" ⟨by decide, by decide⟩

end UnicodeTokenizer

/-! ## 4. Analyzers -/

/-- `KeywordTokenizer::tokenize`: the entire input as a single token. -/
def KeywordTokenizer.tokenize (text : String) : Option (List Token) :=
  if text.isEmpty then some [] else some [⟨text, 0, text.utf8ByteSize, 0⟩]

/-- A filter that changes the text of every token. -/
def mapText (f : String → String) (tokens : List Token) : List Token :=
  tokens.map (fun t => { t with text := f t.text })

def LowercaseFilter.apply (x : UnicodeText) : List Token → List Token := mapText x.toLowercase

def StemmerFilter.apply (x : UnicodeText) (language : Language) : List Token → List Token :=
  mapText (x.stem language)

/-- An analyzer chains a tokenizer with a sequence of token filters. -/
structure Analyzer where
  tokenizer : String → Option (List Token)
  filters : List (List Token → List Token)

/-- Tokenize, then apply all filters in order. -/
def Analyzer.analyze (a : Analyzer) (text : String) : Option (List Token) :=
  (a.tokenizer text).map (fun tokens =>
    a.filters.foldl (fun tokens filter => filter tokens) tokens)

def Analyzer.analyzeToTerms (a : Analyzer) (text : String) : Option (List String) :=
  (a.analyze text).map (List.map Token.text)

/-- `AnalyzerFactory::build`. -/
def AnalyzerFactory.build (x : UnicodeText) : AnalyzerType → Analyzer
  | .standard language =>
    ⟨UnicodeTokenizer.tokenize x, [LowercaseFilter.apply x, StemmerFilter.apply x language]⟩
  | .keyword => ⟨KeywordTokenizer.tokenize, []⟩

/-- What an analyzer makes of the text of a token. -/
def AnalyzerFactory.normalize (x : UnicodeText) : AnalyzerType → String → String
  | .standard language => fun text => x.stem language (x.toLowercase text)
  | .keyword => id

theorem mapText_comp (f g : String → String) (tokens : List Token) :
    mapText f (mapText g tokens) = mapText (fun text => f (g text)) tokens := by
  simp [mapText]

/-- A keyword is a slice of the text, and there is no other token. -/
theorem KeywordTokenizer.tokenize_spec (text : String) :
    ∃ tokens, tokenize text = some tokens ∧
      tokens.Pairwise (fun t u => t.stop ≤ u.start) ∧
      tokens.map Token.position = List.range tokens.length ∧
      ∀ t ∈ tokens, sliceStr text t.start t.stop = some t.text := by
  rw [tokenize]
  split
  · exact ⟨[], rfl, List.Pairwise.nil, rfl, by simp⟩
  · refine ⟨_, rfl, List.pairwise_singleton _ _, rfl, fun t ht => ?_⟩
    rw [List.mem_singleton.mp ht]
    exact sliceStr_eq_some_iff.mpr ⟨"", "", by simp, rfl, by simp⟩

/-- **Analysis keeps the spans.**  Every token has the normalized text of its span. -/
theorem AnalyzerFactory.analyze_spec (x : UnicodeText) (analyzerType : AnalyzerType)
    {text : String} (hwords : x.YieldsWords text) :
    ∃ tokens, (build x analyzerType).analyze text = some tokens ∧
      tokens.Pairwise (fun t u => t.stop ≤ u.start) ∧
      tokens.map Token.position = List.range tokens.length ∧
      ∀ t ∈ tokens, ∃ source, sliceStr text t.start t.stop = some source ∧
        t.text = normalize x analyzerType source := by
  cases analyzerType with
  | standard language =>
    obtain ⟨tokens, htokenize, h⟩ := UnicodeTokenizer.exists_exact hwords
    refine ⟨mapText (normalize x (.standard language)) tokens, ?_, ?_, ?_, ?_⟩
    · have hfilters : (build x (.standard language)).analyze text
          = (UnicodeTokenizer.tokenize x text).map (fun tokens =>
              mapText (x.stem language) (mapText x.toLowercase tokens)) := rfl
      rw [hfilters, htokenize, Option.map_some, mapText_comp]
      rfl
    · exact List.pairwise_map.mpr h.disjoint
    · rw [mapText, List.map_map, List.length_map]
      exact h.positions
    · intro t ht
      obtain ⟨u, hu, rfl⟩ := List.mem_map.mp ht
      exact ⟨u.text, h.slices u hu, rfl⟩
  | keyword =>
    obtain ⟨tokens, htokenize, hdisjoint, hpositions, hslices⟩ :=
      KeywordTokenizer.tokenize_spec text
    have hfilters : (build x .keyword).analyze text
        = (KeywordTokenizer.tokenize text).map (fun tokens => tokens) := rfl
    refine ⟨tokens, ?_, hdisjoint, hpositions, fun t ht => ⟨t.text, hslices t ht, rfl⟩⟩
    rw [hfilters, htokenize, Option.map_some]

/-- The analyzers of the factory, with an automaton from elsewhere, as a schema uses them. -/
def UnicodeText.textAnalysis (x : UnicodeText)
    (levenshtein : String → Nat → Option (String → Bool)) : TextAnalysis where
  analyze analyzerType text := ((AnalyzerFactory.build x analyzerType).analyzeToTerms text).getD []
  levenshtein := levenshtein

/-- **The terms of a text** are the normalized texts of spans that lie one behind the other. -/
theorem UnicodeText.textAnalysis_spec (x : UnicodeText)
    (levenshtein : String → Nat → Option (String → Bool)) (analyzerType : AnalyzerType)
    {text : String} (hwords : x.YieldsWords text) :
    ∃ tokens, (AnalyzerFactory.build x analyzerType).analyze text = some tokens ∧
      (x.textAnalysis levenshtein).analyze analyzerType text = tokens.map Token.text ∧
      tokens.Pairwise (fun t u => t.stop ≤ u.start) ∧
      ∀ t ∈ tokens, ∃ source, sliceStr text t.start t.stop = some source ∧
        t.text = AnalyzerFactory.normalize x analyzerType source := by
  obtain ⟨tokens, hanalyze, hdisjoint, -, hslices⟩ :=
    AnalyzerFactory.analyze_spec x analyzerType hwords
  refine ⟨tokens, hanalyze, ?_, hdisjoint, hslices⟩
  rw [textAnalysis]
  dsimp only
  rw [Analyzer.analyzeToTerms, hanalyze, Option.map_some, Option.getD_some]

end ZearchEngine
