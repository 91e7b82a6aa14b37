/-
# Suggest shards at work

A suggest shard (`crates/suggest/src/engine.rs`) takes documents while it is being flushed: a
flush reads the counts under one lock and puts the new index in place under another, so flushes
of several threads overlap, and the index of one that began first may replace that of one that
began later.  The index is always that of the documents received up to some moment
(`index_run`); and once documents have been received while no flush was under way, every flush
that ends afterwards counts them, and so does every index from then on (`flushed_stays`).

The router sends each shard its share of the documents of a write and does not wait
(`fan_out_suggest_write`, `crates/router/src/router.rs`): a share arrives late, out of order or
not at all.  Whatever arrives when, and whichever flushes are through, a suggestion has the prefix
that was asked for, and is a term that enough of the documents written have
(`suggested_was_written`).
-/
import ZearchEngine.Lib.Components
import ZearchEngine.Availability
import ZearchEngine.SuggestTop

namespace ZearchEngine

open Components

/-! ## 1. A shard -/

/-- A step of a suggest shard.  A call with documents holds the lock of the builder until it is
through; a flush takes its snapshot, and later puts it in place. -/
inductive SuggestAction where
  | bulk (docs : List Document)
  | snapshot (thread : Nat)
  | install (thread : Nat)

/-- The documents that a step brings. -/
def SuggestAction.docs : SuggestAction → List Document
  | .bulk docs => docs
  | _ => []

/-- A suggest shard, with what the flushes under way are to put in place. -/
structure SuggestRunning where
  engine : SuggestShardEngine
  flushing : Nat → Option SuggestIndex

namespace SuggestRunning

variable (x : SuggestText)

def new (config : SuggestShardConfig) : SuggestRunning := ⟨.new config, fun _ => none⟩

/-- The shard after a step.  A thread that is in a flush begins no other, and one that is in none
has nothing to put in place. -/
def step (s : SuggestRunning) : SuggestAction → SuggestRunning
  | .bulk docs => { s with engine := s.engine.bulk x docs }
  | .snapshot thread =>
    if (s.flushing thread).isSome then s
    else { s with flushing := Function.update s.flushing thread (some (s.engine.flush x).index) }
  | .install thread =>
    match s.flushing thread with
    | some index =>
      { engine := { s.engine with index }, flushing := Function.update s.flushing thread none }
    | none => s

/-- A new shard after some steps. -/
def run (config : SuggestShardConfig) (actions : List SuggestAction) : SuggestRunning :=
  LabelledRun.run (step x) (new config) actions

/-- The documents received. -/
def received (actions : List SuggestAction) : List Document := actions.flatMap SuggestAction.docs

/-- The index of the documents received in the first `k` steps. -/
def indexAt (config : SuggestShardConfig) (actions : List SuggestAction) (k : Nat) : SuggestIndex :=
  (((SuggestShardEngine.new config).bulk x (received (actions.take k))).flush x).index

/-- The index counts the documents received in the first `n` steps, and none that were not
received. -/
def CountsFrom (config : SuggestShardConfig) (actions : List SuggestAction) (n : Nat)
    (index : SuggestIndex) : Prop :=
  ∃ k, n ≤ k ∧ k ≤ actions.length ∧ index = indexAt x config actions k

variable {x} {config : SuggestShardConfig} {actions : List SuggestAction} {n : Nat}

theorem run_concat (actions : List SuggestAction) (a : SuggestAction) :
    run x config (actions ++ [a]) = (run x config actions).step x a :=
  LabelledRun.run_append _ _ _ _

theorem CountsFrom.concat {index : SuggestIndex} (h : CountsFrom x config actions n index)
    (a : SuggestAction) : CountsFrom x config (actions ++ [a]) n index := by
  obtain ⟨k, hle, hk, rfl⟩ := h
  refine ⟨k, hle, by rw [List.length_append]; omega, ?_⟩
  rw [indexAt, indexAt, List.take_append_of_le_length hk]

theorem CountsFrom.mono {index : SuggestIndex} {m : Nat} (h : CountsFrom x config actions n index)
    (hle : m ≤ n) : CountsFrom x config actions m index := by
  obtain ⟨k, hk, hlen, heq⟩ := h
  exact ⟨k, hle.trans hk, hlen, heq⟩

/-- The builder has counted all documents received. -/
theorem builder_run (x : SuggestText) (config : SuggestShardConfig)
    (actions : List SuggestAction) :
    (run x config actions).engine.config = config ∧ (run x config actions).engine.builder
      = ((SuggestShardEngine.new config).bulk x (received actions)).builder := by
  induction actions using List.reverseRecOn with
  | nil => exact ⟨rfl, rfl⟩
  | append_singleton actions a ih =>
    obtain ⟨hconfig, hbuilder⟩ := ih
    rw [run_concat, received, List.flatMap_append, List.flatMap_singleton]
    cases a with
    | bulk docs =>
      refine ⟨hconfig, ?_⟩
      show docs.foldl (SuggestIndexBuilder.addDocument x
        (run x config actions).engine.config.fields) (run x config actions).engine.builder = _
      rw [hconfig, hbuilder]
      exact (List.foldl_append).symm
    | snapshot thread =>
      have hdocs : (SuggestAction.snapshot thread).docs = [] := rfl
      rw [step, hdocs, List.append_nil]
      split <;> exact ⟨hconfig, hbuilder⟩
    | install thread =>
      have hdocs : (SuggestAction.install thread).docs = [] := rfl
      rw [step, hdocs, List.append_nil]
      split <;> exact ⟨hconfig, hbuilder⟩

/-- What a flush that begins now is to put in place. -/
theorem index_flush_run (x : SuggestText) (config : SuggestShardConfig)
    (actions : List SuggestAction) :
    ((run x config actions).engine.flush x).index = indexAt x config actions actions.length := by
  obtain ⟨hconfig, hbuilder⟩ := builder_run x config actions
  rw [indexAt, List.take_length, SuggestShardEngine.flush, hconfig, hbuilder]
  rfl

/-- **The flushes under way** all count what was received when none was. -/
theorem flushing_run (before : List SuggestAction)
    (hquiet : ∀ thread, (run x config before).flushing thread = none) :
    ∀ (later : List SuggestAction) (thread : Nat) (index : SuggestIndex),
      (run x config (before ++ later)).flushing thread = some index →
        CountsFrom x config (before ++ later) before.length index := by
  intro later
  induction later using List.reverseRecOn with
  | nil =>
    intro thread index hindex
    rw [List.append_nil, hquiet] at hindex
    cases hindex
  | append_singleton later a ih =>
    intro thread index hindex
    rw [← List.append_assoc, run_concat] at hindex
    rw [← List.append_assoc]
    cases a with
    | bulk docs => exact (ih thread index hindex).concat _
    | snapshot u =>
      rw [step] at hindex
      split at hindex
      · exact (ih thread index hindex).concat _
      · by_cases hthread : thread = u
        · subst hthread
          simp only [Function.update_self, Option.some.injEq] at hindex
          rw [index_flush_run] at hindex
          refine CountsFrom.concat ⟨_, ?_, le_refl _, hindex.symm⟩ _
          rw [List.length_append]
          omega
        · simp only [Function.update_of_ne hthread] at hindex
          exact (ih thread index hindex).concat _
    | install u =>
      rw [step] at hindex
      split at hindex
      · by_cases hthread : thread = u
        · subst hthread
          simp [Function.update_self] at hindex
        · simp only [Function.update_of_ne hthread] at hindex
          exact (ih thread index hindex).concat _
      · exact (ih thread index hindex).concat _

/-- **An index that counts what was received when no flush was under way** is replaced by such
indexes only. -/
theorem CountsFrom.stays {before middle : List SuggestAction} {m : Nat}
    (hquiet : ∀ thread, (run x config before).flushing thread = none) (hm : m ≤ before.length)
    (h : CountsFrom x config (before ++ middle) m (run x config (before ++ middle)).engine.index) :
    ∀ later : List SuggestAction, CountsFrom x config (before ++ middle ++ later) m
      (run x config (before ++ middle ++ later)).engine.index := by
  intro later
  induction later using List.reverseRecOn with
  | nil => rwa [List.append_nil]
  | append_singleton later a ih =>
    rw [← List.append_assoc, run_concat]
    cases a with
    | bulk docs => exact ih.concat _
    | snapshot thread =>
      rw [step]
      split <;> exact ih.concat _
    | install thread =>
      rw [step]
      split
      · next index hindex =>
        have hpending := flushing_run before hquiet (middle ++ later) thread index
          (by rwa [← List.append_assoc])
        rw [← List.append_assoc] at hpending
        exact (hpending.mono hm).concat _
      · exact ih.concat _

/-- **The index is that of the documents received up to some moment.** -/
theorem index_run (x : SuggestText) (config : SuggestShardConfig) (actions : List SuggestAction) :
    CountsFrom x config actions 0 (run x config actions).engine.index := by
  have hnew : CountsFrom x config [] 0 (run x config []).engine.index := by
    have hempty : (∅ : TermCounts).toList = [] := rfl
    refine ⟨0, le_refl _, le_refl _, ?_⟩
    simp [run, new, SuggestShardEngine.new, indexAt, received, SuggestShardEngine.bulk,
      SuggestShardEngine.flush, SuggestIndexBuilder.snapshot, SuggestIndex.new, hempty]
  exact @CountsFrom.stays x config [] [] 0 (fun _ => rfl) (le_refl _) hnew actions

/-- **What a flush has counted stays counted.**  Take documents received while no flush is under
way.  When a flush that begins later has ended, every suggestion is that of a shard that has been
flushed with these documents and perhaps some later ones, whatever other flushes end in
whatever order. -/
theorem flushed_stays (x : SuggestText) (config : SuggestShardConfig)
    (before during after : List SuggestAction) (thread : Nat)
    (hquiet : ∀ u, (run x config before).flushing u = none)
    (hflushing : (run x config (before ++ during)).flushing thread ≠ none) :
    let actions := before ++ (during ++ [.install thread]) ++ after
    ∃ k, before.length ≤ k ∧ k ≤ actions.length ∧ ∀ pre field limit,
      (run x config actions).engine.suggest x pre field limit
        = (((SuggestShardEngine.new config).bulk x (received (actions.take k))).flush x).suggest x
            pre field limit := by
  intro actions
  obtain ⟨index, hindex⟩ := Option.ne_none_iff_exists'.mp hflushing
  have hcounts := flushing_run before hquiet during thread index hindex
  have hinstalled : CountsFrom x config (before ++ (during ++ [.install thread])) before.length
      (run x config (before ++ (during ++ [.install thread]))).engine.index := by
    rw [← List.append_assoc, run_concat, step]
    simp only [hindex]
    exact hcounts.concat _
  obtain ⟨k, hle, hk, heq⟩ := hinstalled.stays hquiet (le_refl _) after
  exact ⟨k, hle, hk, fun pre field limit => congrArg (fun index => index.query x pre limit) heq⟩

/-- A flush begins before a second document comes, and another one after it, which ends. -/
def overtaking : List SuggestAction :=
  [.snapshot 0, .bulk [wordDoc 2 "wireless"], .snapshot 1, .install 1]

/-- The flush that began first ends last. -/
theorem flushed_stays_overtaking :
    let actions := [.bulk [wordDoc 1 "wired"]] ++ (overtaking ++ [.install 0]) ++ []
    ∃ k, 1 ≤ k ∧ k ≤ 6 ∧ ∀ pre field limit,
      (run wordText ⟨1, 0, ["title"]⟩ actions).engine.suggest wordText pre field limit
        = (((SuggestShardEngine.new ⟨1, 0, ["title"]⟩).bulk wordText
            (received (actions.take k))).flush wordText).suggest wordText pre field limit :=
  flushed_stays wordText ⟨1, 0, ["title"]⟩ [.bulk [wordDoc 1 "wired"]] overtaking [] 0
    (fun _ => rfl)
    (by simp [overtaking, run, LabelledRun.run, step, new])

end SuggestRunning

/-! ## 2. What a shard suggests -/

theorem subperm_flatMap {α β : Type*} (f : α → List β) {as bs : List α} (h : as.Subperm bs) :
    (as.flatMap f).Subperm (bs.flatMap f) := by
  obtain ⟨cs, hperm, hsub⟩ := h
  exact (hperm.symm.flatMap_right f).subperm.trans (hsub.flatMap f).subperm

/-- Of more documents, more have a term. -/
theorem termCount_le (x : SuggestText) (fields : List String) {docs docs' : List Document}
    (h : docs.Subperm docs') (t : String) :
    termCount x fields docs t ≤ termCount x fields docs' t :=
  (subperm_flatMap (suggestTerms x fields) h).count_le t

section

variable {x : SuggestText}

/-- A query returns terms of the index that have the prefix. -/
theorem SuggestIndex.mem_query (hselect : x.SelectsNth) {idx : SuggestIndex} {pre : String}
    {limit : Nat} {e : SuggestTerm} (he : e ∈ idx.query x pre limit) :
    (e.term, e.score) ∈ idx.terms ∧ startsWith e.term (x.toLowercase pre) = true := by
  rw [query] at he
  split at he
  · cases he
  · next hasked =>
    have hlimit : 1 ≤ limit := by
      simp only [Bool.or_eq_true, decide_eq_true_iff, not_or] at hasked
      omega
    obtain ⟨p, hp, rfl⟩ := List.mem_map.mp he
    let found := (idx.terms.dropWhile (fun e => e.1 < x.toLowercase pre)).takeWhile
      (fun e => startsWith e.1 (x.toLowercase pre))
    have hfound : p ∈ found := by
      rw [List.mem_insertionSort] at hp
      split at hp
      · next hlt => exact (hselect limit found hlimit hlt.le).1.mem_iff.mp (List.mem_of_mem_take hp)
      · exact hp
    have hstarts := List.mem_takeWhile_imp hfound
    exact ⟨(List.dropWhile_suffix _).mem ((List.takeWhile_prefix _).mem hfound), hstarts⟩

/-- A snapshot has terms that are counted often enough. -/
theorem SuggestIndexBuilder.mem_snapshot {counts : TermCounts} {minDocFrequency maxTerms : Nat}
    {t : String} {s : ℚ}
    (h : (t, s) ∈ (SuggestIndexBuilder.snapshot x counts minDocFrequency maxTerms).terms) :
    ∃ c maxFreq, (t, c) ∈ counts.toList ∧ minDocFrequency ≤ c ∧ 0 < maxFreq ∧
      s = x.ratio c maxFreq := by
  rw [snapshot, SuggestIndex.new, List.mem_insertionSort] at h
  obtain ⟨⟨t', c⟩, hmem, heq⟩ := List.mem_map.mp h
  obtain ⟨rfl, rfl⟩ := Prod.mk.inj heq
  have hfiltered : (t', c) ∈ (x.countsOrder.run counts.toList).filter
      (fun e => minDocFrequency ≤ e.2) := by
    split at hmem
    · exact List.mem_insertionSort _ |>.mp (List.mem_of_mem_take hmem)
    · exact hmem
  obtain ⟨hcount, hmin⟩ := List.mem_filter.mp hfiltered
  exact ⟨c, _, x.countsOrder.mem_run.mp hcount, of_decide_eq_true hmin, by omega, rfl⟩

/-- **What a shard suggests**, at any moment: terms counted often enough. -/
theorem SuggestRunning.mem_suggest (hselect : x.SelectsNth) {config : SuggestShardConfig}
    {actions : List SuggestAction} {pre field : String} {limit : Nat} {e : SuggestTerm}
    (he : e ∈ (run x config actions).engine.suggest x pre field limit) :
    startsWith e.term (x.toLowercase pre) = true ∧ 0 < e.score ∧
      max config.minDocFrequency 1 ≤ termCount x config.fields (received actions) e.term := by
  obtain ⟨hterm, hstarts⟩ := SuggestIndex.mem_query hselect he
  obtain ⟨k, -, -, heq⟩ := index_run x config actions
  rw [heq] at hterm
  obtain ⟨c, maxFreq, hcount, hmin, hmax, hscore⟩ := SuggestIndexBuilder.mem_snapshot hterm
  obtain ⟨hmem, rfl⟩ := (mem_toList_builder x config.fields _ _ _).mp hcount
  have hpos := termCount_pos hmem
  have henough : config.minDocFrequency
      ≤ termCount x config.fields (received (actions.take k)) e.term := hmin
  have hprefix := termCount_le x config.fields
    (subperm_flatMap SuggestAction.docs (List.take_sublist k actions).subperm) e.term
  rw [received] at henough hpos
  rw [received]
  refine ⟨hstarts, ?_, ?_⟩
  · rw [hscore]
    exact x.ratio_pos hpos hmax
  · omega

end

/-! ## 3. Behind the router -/

namespace SuggestRunning

variable {n : Nat} (shardFor : DocId → Fin n) (locations : Fin n → Location)

/-- `fan_out_suggest_write`: a call for each shard that has a share, with the documents as they
arrive there. -/
def fanOutSuggestWrite (docs : List Document) : List (Fin n × SuggestAction) :=
  ((List.finRange n).filter (fun i => !(suggestPartition shardFor docs i).isEmpty)).map
    (fun i => (i, .bulk ((suggestPartition shardFor docs i).map (locations i).arrives)))

/-- Shards after some steps. -/
def cluster (x : SuggestText) (config : SuggestShardConfig)
    (events : List (Fin n × SuggestAction)) (i : Fin n) : SuggestRunning :=
  LabelledRun.run (componentStep (step x)) (fun _ => new config) events i

/-- The steps that bring documents. -/
def writesOf (events : List (Fin n × SuggestAction)) : List (Fin n × SuggestAction) :=
  events.filter (fun e => !e.2.docs.isEmpty)

variable {shardFor locations} {x : SuggestText} {config : SuggestShardConfig}

theorem cluster_eq (events : List (Fin n × SuggestAction)) (i : Fin n) :
    cluster x config events i = run x config (labelsOf i events) :=
  run_apply (step x) i events _

/-- A shard receives what is written to it. -/
theorem received_writesOf (events : List (Fin n × SuggestAction)) (i : Fin n) :
    received (labelsOf i (writesOf events)) = received (labelsOf i events) := by
  induction events with
  | nil => rfl
  | cons e events ih =>
    have hcons : ∀ events : List (Fin n × SuggestAction), received (labelsOf i (e :: events))
        = (if e.1 = i then e.2.docs else []) ++ received (labelsOf i events) := by
      intro events
      by_cases hi : e.1 = i
      · subst hi
        rw [if_pos rfl]
        exact congrArg received (labelsOf_cons_self e.1 e.2 events)
      · rw [if_neg hi, labelsOf_cons_of_ne hi]
        rfl
    rw [hcons, ← ih, writesOf]
    cases hdocs : e.2.docs with
    | nil =>
      rw [List.filter_cons_of_neg (by simp [hdocs]), ite_self]
      rfl
    | cons doc docs =>
      rw [List.filter_cons_of_pos (by simp [hdocs]), hcons, hdocs]
      rfl

/-- The share of a shard in some writes. -/
theorem received_fanOut (writes : List (List Document)) (i : Fin n) :
    received (labelsOf i (writes.flatMap (fanOutSuggestWrite shardFor locations)))
      = (suggestPartition shardFor writes.flatten i).map (locations i).arrives := by
  induction writes with
  | nil => rfl
  | cons docs writes ih =>
    have hshare : received (labelsOf i (fanOutSuggestWrite shardFor locations docs))
        = (suggestPartition shardFor docs i).map (locations i).arrives := by
      rw [fanOutSuggestWrite, labelsOf_map ((List.nodup_finRange n).filter _)]
      cases hempty : suggestPartition shardFor docs i with
      | nil =>
        rw [if_neg (by simp [hempty])]
        rfl
      | cons doc share =>
        rw [if_pos (by simp [hempty])]
        exact List.append_nil _
    rw [List.flatMap_cons, labelsOf_append, received, List.flatMap_append]
    rw [received] at hshare ih
    rw [hshare, ih, suggestPartition, suggestPartition, suggestPartition, List.flatten_cons,
      List.filter_append, List.map_append]

/-- The text of a field does not change on the way, or is lost. -/
theorem extractField_arrives (location : Location) (doc : Document) (field : String) :
    extractField (location.arrives doc) field = extractField doc field ∨
      extractField (location.arrives doc) field = "" := by
  cases location with
  | inProcess => exact Or.inl rfl
  | remote =>
    by_cases hkeep : field = "title" ∨ field = "description" ∨ field = "category"
    · left
      rcases hkeep with rfl | rfl | rfl <;> rfl
    · simp only [not_or] at hkeep
      obtain ⟨htitle, hdescription, hcategory⟩ := hkeep
      simp only [extractField, if_neg htitle, if_neg hdescription, if_neg hcategory,
        Location.arrives]
      cases hget : doc.received.attributes.get field with
      | none => exact Or.inr rfl
      | some v =>
        obtain ⟨s, rfl⟩ : ∃ s, v = .string s :=
          (mem_received.mp (Attributes.get_eq_some_iff.mp hget)).2
        have hsame : doc.attributes.get field = some (.string s) :=
          get_onWire_eq_string_iff.mp hget
        rw [hsame]
        exact Or.inl rfl

/-- Documents count for no more terms than before they were sent. -/
theorem termCount_arrives (x : SuggestText) (fields : List String) (location : Location)
    (docs : List Document) (t : String) :
    termCount x fields (docs.map location.arrives) t ≤ termCount x fields docs t := by
  have hfield : ∀ (doc : Document) (field : String),
      (fieldTerms x (location.arrives doc) field).Sublist (fieldTerms x doc field) := by
    intro doc field
    rcases extractField_arrives location doc field with heq | hempty
    · rw [fieldTerms, fieldTerms, heq]
    · have hnil : fieldTerms x (location.arrives doc) field = [] := by
        rw [fieldTerms, hempty]
        rfl
      rw [hnil]
      exact List.nil_sublist _
  refine List.Sublist.count_le t ?_
  rw [allTerms, allTerms, List.flatMap_map]
  exact List.Sublist.flatMap_right docs fun doc _ =>
    List.Sublist.flatMap_right fields fun field _ => hfield doc field

/-- **A suggestion is a term of what was written.**  Each share of each write reaches its shard at
most once, whenever and in whatever order, or not at all; flushes of any threads begin and end in
between.  Whichever of the shards answer, the router suggests at most as many terms as were asked
for, none twice and best first; each has the prefix and a positive score, and is counted, in all
the documents written, at least as often as the configuration demands. -/
theorem suggested_was_written (x : SuggestText) (hselect : x.SelectsNth)
    (config : SuggestShardConfig) (shardFor : DocId → Fin n) (locations : Fin n → Location)
    (writes : List (List Document)) (events : List (Fin n × SuggestAction))
    (hevents : (writesOf events).Subperm (writes.flatMap (fanOutSuggestWrite shardFor locations)))
    (answering : List (Fin n)) (pre field : String) (limit : Nat) :
    let out := Router.suggest x (answering.map (fun i => (cluster x config events i).engine)) pre
      field limit
    out.length ≤ limit ∧ (out.map SuggestTerm.term).Nodup ∧ out.Pairwise RanksBefore ∧
    ∀ e ∈ out, startsWith e.term (x.toLowercase pre) = true ∧ 0 < e.score ∧
      max config.minDocFrequency 1 ≤ termCount x config.fields writes.flatten e.term := by
  intro out
  by_cases hnone : (answering.map (fun i => (cluster x config events i).engine)).isEmpty
      || pre.isEmpty || limit = 0
  · have hout : out = [] := if_pos hnone
    simp [hout]
  · let entries := (answering.map (fun i => (cluster x config events i).engine)).flatMap
      (fun s => s.suggest x pre field limit)
    have hout : out = ((mergedTerms entries).insertionSort RanksBefore).take limit := if_neg hnone
    have hentries : ∀ e ∈ entries, startsWith e.term (x.toLowercase pre) = true ∧ 0 < e.score ∧
        max config.minDocFrequency 1 ≤ termCount x config.fields writes.flatten e.term := by
      intro e he
      obtain ⟨s, hs, hsuggest⟩ := List.mem_flatMap.mp he
      obtain ⟨i, -, rfl⟩ := List.mem_map.mp hs
      rw [cluster_eq] at hsuggest
      obtain ⟨hstarts, hpos, henough⟩ := mem_suggest hselect hsuggest
      refine ⟨hstarts, hpos, henough.trans ?_⟩
      have hreceived : (received (labelsOf i events)).Subperm
          ((suggestPartition shardFor writes.flatten i).map (locations i).arrives) := by
        rw [← received_writesOf, ← received_fanOut]
        obtain ⟨cs, hperm, hsub⟩ := hevents
        exact subperm_flatMap _ ((labelsOf_perm hperm.symm i).subperm.trans
          ((hsub.filter _).map _).subperm)
      calc termCount x config.fields (received (labelsOf i events)) e.term
          ≤ termCount x config.fields
              ((suggestPartition shardFor writes.flatten i).map (locations i).arrives) e.term :=
            termCount_le x config.fields hreceived e.term
        _ ≤ termCount x config.fields (suggestPartition shardFor writes.flatten i) e.term :=
            termCount_arrives x config.fields (locations i) _ e.term
        _ ≤ termCount x config.fields writes.flatten e.term :=
            termCount_le x config.fields List.filter_sublist.subperm e.term
    have hperm := (mergedTerms entries).perm_insertionSort RanksBefore
    rw [hout]
    refine ⟨List.length_take_le _ _, ?_, ?_, fun e he => ?_⟩
    · exact nodup_bestMerged entries limit
    · exact (List.pairwise_insertionSort RanksBefore _).sublist (List.take_sublist _ _)
    · have hmem := hperm.mem_iff.mp (List.mem_of_mem_take he)
      obtain ⟨⟨e', he', hterm, hscore⟩, -⟩ :=
        (mem_mergedTerms (fun e he => (hentries e he).2.1) e).mp hmem
      rw [← hterm, ← hscore]
      exact hentries e' he'

/-- Of two shares one arrives, at a remote shard. -/
theorem suggested_was_written_wired :
    let out := Router.suggest SuggestIndex.sortedText (([1, 0] : List (Fin 2)).map (fun i =>
      (cluster SuggestIndex.sortedText ⟨1, 0, ["title"]⟩ [(1, .bulk [(wordDoc 1 "wired").received]),
        (1, .snapshot 0), (1, .install 0)] i).engine)) "wire" "title" 5
    out.length ≤ 5 ∧ (out.map SuggestTerm.term).Nodup ∧ out.Pairwise RanksBefore ∧
    ∀ e ∈ out, startsWith e.term (SuggestIndex.sortedText.toLowercase "wire") = true ∧ 0 < e.score ∧
      max 1 1 ≤ termCount SuggestIndex.sortedText ["title"]
        [[wordDoc 1 "wired", wordDoc 2 "wireless"]].flatten e.term :=
  suggested_was_written SuggestIndex.sortedText SuggestIndex.selectsNth_sortedText ⟨1, 0, ["title"]⟩
    (fun id => ⟨id.toNat % 2, Nat.mod_lt _ (by decide)⟩)
    (fun i => if i = 0 then .inProcess else .remote)
    [[wordDoc 1 "wired", wordDoc 2 "wireless"]]
    [(1, .bulk [(wordDoc 1 "wired").received]), (1, .snapshot 0), (1, .install 0)]
    (List.Sublist.cons _ (List.Sublist.cons_cons _ List.Sublist.slnil)).subperm [1, 0] "wire"
    "title" 5

end SuggestRunning

end ZearchEngine
