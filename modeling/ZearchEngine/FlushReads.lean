/-
# Reads beside a flush

`flush` takes the documents out of the buffer in its first critical section and registers their
segment after it has written it.  In between they are in neither place.  `get_all_live_docs`
reads the segments and then the buffer, and a flush that drains the buffer between the two moves
the documents past it.

A read is where it happens in a run: `search` reads all it needs at one moment, when it has both
locks (it holds the read lock of the segments while it waits for the buffer), and
`get_all_live_docs` at two.  With one flush at a time, a read shows every document acknowledged
before it began exactly once, unless a flush carries one of them (`reads_complete_iff`).
-/
import ZearchEngine.CatchUp
import ZearchEngine.MergeThreads

namespace ZearchEngine

open KeyedStore

namespace Concurrent

/-! ## 1. Runs with reads -/

/-- The scheduler's choice: an action of a thread, or a search. -/
inductive SharedAction where
  | thread (action : Action)
  | search (request : SearchRequest)

/-- The documents of the call an action begins. -/
def SharedAction.docs : SharedAction → List Document
  | .thread action => action.docs
  | .search _ => []

/-- The threads of a run. -/
def sharedActors : List SharedAction → Finset Nat
  | [] => ∅
  | .thread action :: actions => insert action.thread (sharedActors actions)
  | .search _ :: actions => sharedActors actions

/-- The shard after an action.  A search may refresh the buffer's cache. -/
def sharedStep (names : SegmentId → List SegmentFileName) (c : Running) : SharedAction → Running
  | .thread action => cstep names c action
  | .search request => { c with engine := (ShardEngine.search request c.engine).2 }

/-- `get_all_live_docs`, when it has the lock of the segments in one state and that of the buffer
in another. -/
def getAllLiveDocsAcross (atSegments atBuffer : ShardEngine) : List Document :=
  atSegments.segments.segments.flatMap (fun e => e.reader.allLiveDocs.filterMap e.reader.getDoc)
    ++ atBuffer.writeBuffer.allDocs

/-- When nothing comes between, it is the method. -/
theorem getAllLiveDocsAcross_self (s : ShardEngine) :
    getAllLiveDocsAcross s s = s.getAllLiveDocs := rfl

/-- The action is none of a thread outside `T`. -/
def SharedAction.Within (T : Finset Nat) : SharedAction → Prop
  | .thread action => action.thread ∈ T
  | .search _ => True

theorem within_sharedActors : ∀ (actions : List SharedAction) {T : Finset Nat},
    sharedActors actions ⊆ T → ∀ a ∈ actions, a.Within T := by
  intro actions
  induction actions with
  | nil => exact fun _ _ ha => absurd ha List.not_mem_nil
  | cons first actions ih =>
    intro T hT a ha
    cases first with
    | thread action =>
      rcases List.mem_cons.mp ha with rfl | ha
      · exact hT (Finset.mem_insert_self _ _)
      · exact ih (fun t ht => hT (Finset.mem_insert_of_mem ht)) a ha
    | search request =>
      rcases List.mem_cons.mp ha with rfl | ha
      · trivial
      · exact ih hT a ha

/-! ## 2. One flush at a time -/

/-- The thread is in `flush`, or in a merge after it. -/
def Pc.inFlush : Pc → Bool
  | .idle | .appended _ => false
  | _ => true

/-- At most one thread is in `flush`. -/
def OneFlush (c : Running) : Prop :=
  ∀ t u, (c.threads t).inFlush = true → (c.threads u).inFlush = true → t = u

/-- At most one thread of `T` is. -/
def OneFlushIn (T : Finset Nat) (c : Running) : Prop :=
  ∀ t ∈ T, ∀ u ∈ T, (c.threads t).inFlush = true → (c.threads u).inFlush = true → t = u

instance (T : Finset Nat) (c : Running) : Decidable (OneFlushIn T c) :=
  inferInstanceAs (Decidable (∀ t ∈ T, ∀ u ∈ T, _ → _ → t = u))

/-- A thread that is not chosen stays idle. -/
theorem sharedStep_idle {T : Finset Nat} {c : Running} (hidle : ∀ t, t ∉ T → c.threads t = .idle)
    (names : SegmentId → List SegmentFileName) {a : SharedAction} (ha : a.Within T) :
    ∀ t, t ∉ T → (sharedStep names c a).threads t = .idle := by
  intro t ht
  cases a with
  | search request => exact hidle t ht
  | thread action =>
    rcases cstep_cases names c action with ⟨-, hsame⟩ | ⟨s', pc', acked, -, -, hstep⟩
    · rw [sharedStep, hsame]
      exact hidle t ht
    · rw [sharedStep, hstep]
      have hne : t ≠ action.thread := fun heq => ht (heq ▸ ha)
      exact (Function.update_of_ne hne pc' c.threads).trans (hidle t ht)

theorem sharedRun_idle {T : Finset Nat} (names : SegmentId → List SegmentFileName) :
    ∀ (actions : List SharedAction) {c : Running}, (∀ t, t ∉ T → c.threads t = .idle) →
    (∀ a ∈ actions, a.Within T) →
    ∀ t, t ∉ T → (LabelledRun.run (sharedStep names) c actions).threads t = .idle := by
  intro actions c hidle hT
  exact LabelledRun.Along.inv (P := fun _ a => a.Within T)
    (I := fun c : Running => ∀ t, t ∉ T → c.threads t = .idle)
    (fun _ _ hidle ha => sharedStep_idle hidle names ha) actions c
    (LabelledRun.along_of_forall actions c hT) hidle

/-- Only the threads of a run need looking at. -/
theorem along_oneFlush {T : Finset Nat} (names : SegmentId → List SegmentFileName) :
    ∀ (actions : List SharedAction) {c : Running}, (∀ t, t ∉ T → c.threads t = .idle) →
    (∀ a ∈ actions, a.Within T) →
    LabelledRun.Along (sharedStep names) (fun c _ => OneFlushIn T c) c actions →
    LabelledRun.Along (sharedStep names) (fun c _ => OneFlush c) c actions := by
  intro actions
  induction actions with
  | nil => exact fun _ _ _ => trivial
  | cons a actions ih =>
    intro c hidle hT hone
    have hmem : ∀ t, (c.threads t).inFlush = true → t ∈ T := by
      intro t hflush
      by_contra ht
      rw [hidle t ht] at hflush
      cases hflush
    exact ⟨fun t u ht hu => hone.1 t (hmem t ht) u (hmem u hu) ht hu,
      ih (sharedStep_idle hidle names (hT a List.mem_cons_self))
        (fun b hb => hT b (List.mem_cons_of_mem _ hb)) hone.2⟩

/-- What a merge has read is what the open segments of its group hold. -/
def Pc.Current (s : ShardEngine) : Pc → Prop
  | .writing _ (.merge segmentIds _) _ docs _ =>
    MergeScheduler.mergedDocs (s.sources segmentIds) = docs
  | .opened _ (.merge segmentIds _) _ reader =>
    MergeScheduler.mergedDocs (s.sources segmentIds) = reader.liveDocuments
  | _ => True

theorem Pc.Current.of_segments_eq {s s' : ShardEngine} {pc : Pc} (h : pc.Current s)
    (hsegs : s'.segments.segments = s.segments.segments) : pc.Current s' := by
  cases pc with
  | writing call job segId docs left =>
    cases job with
    | flush => trivial
    | merge segmentIds groups =>
      rw [Pc.Current, ShardEngine.sources, hsegs]
      exact h
  | opened call job segId reader =>
    cases job with
    | flush => trivial
    | merge segmentIds groups =>
      rw [Pc.Current, ShardEngine.sources, hsegs]
      exact h
  | _ => trivial

/-- A merge whose group has not changed is not disturbed. -/
theorem Pc.Current.undisturbed {s : ShardEngine} {pc : Pc} (h : pc.Current s) :
    pc.Undisturbed s := by
  cases pc with
  | opened call job segId reader =>
    cases job with
    | flush => trivial
    | merge segmentIds groups => exact h
  | _ => trivial

/-- A thread that is not in `flush` leaves the list alone. -/
theorem Takes.segments_eq {names : SegmentId → List SegmentFileName} {s s' : ShardEngine}
    {pc pc' : Pc} {brought acked : List Document} (h : Takes names s pc brought s' pc' acked)
    (hpc : pc.inFlush = false) : s'.segments = s.segments := by
  cases h with
  | log => rfl
  | begin => rfl
  | advance pc =>
    cases pc with
    | idle => rfl
    | appended docs =>
      simp only [Concurrent.advance]
      split <;> rfl
    | _ => cases hpc

/-- The buffer takes only documents of the call. -/
theorem Takes.mem_buffer {names : SegmentId → List SegmentFileName} {s s' : ShardEngine}
    {pc pc' : Pc} {brought acked : List Document} (h : Takes names s pc brought s' pc' acked) :
    ∀ doc ∈ s'.writeBuffer.docs, doc ∈ s.writeBuffer.docs ∨ doc ∈ pc.call := by
  intro doc hdoc
  cases h with
  | log => exact Or.inl hdoc
  | begin => exact Or.inl hdoc
  | advance pc =>
    cases pc with
    | appended docs =>
      have hadded : doc ∈ (s.writeBuffer.addAll docs).2.docs := by
        simp only [Concurrent.advance] at hdoc
        split at hdoc <;> exact hdoc
      rw [WriteBuffer.addAll_docs] at hadded
      exact List.mem_append.mp hadded
    | flushing call =>
      by_cases hempty : s.writeBuffer.docs.isEmpty = true
      · simp only [Concurrent.advance, WriteBuffer.drain, hempty, if_true] at hdoc
        exact absurd hdoc List.not_mem_nil
      · simp only [Concurrent.advance, WriteBuffer.drain, hempty] at hdoc
        exact absurd hdoc List.not_mem_nil
    | writing call job segId docs left =>
      cases left with
      | cons e left => exact Or.inl hdoc
      | nil =>
        simp only [Concurrent.advance] at hdoc
        split at hdoc <;> exact Or.inl hdoc
    | opened call job segId reader => cases job <;> exact Or.inl hdoc
    | merging call groups => cases groups <;> exact Or.inl hdoc
    | removing call left groups => cases left <;> exact Or.inl hdoc
    | _ => exact Or.inl hdoc

/-- A thread keeps what it has read current. -/
theorem Takes.current {names : SegmentId → List SegmentFileName} {s s' : ShardEngine}
    {pc pc' : Pc} {brought acked : List Document} (h : Takes names s pc brought s' pc' acked)
    (hsound : pc.Sound s) (hcurrent : pc.Current s) : pc'.Current s' := by
  cases h with
  | log => trivial
  | begin => trivial
  | advance pc =>
    cases pc with
    | appended docs =>
      simp only [Concurrent.advance]
      split <;> trivial
    | flushing call =>
      simp only [Concurrent.advance]
      split <;> trivial
    | writing call job segId docs left =>
      cases left with
      | cons e left =>
        cases job with
        | flush => trivial
        | merge segmentIds groups => exact hcurrent
      | nil =>
        obtain ⟨-, hopen⟩ := hsound.openDir
        simp only [Concurrent.advance, hopen]
        cases job with
        | flush => trivial
        | merge segmentIds groups =>
          show _ = (SegmentReader.ofDocs docs ∅).liveDocuments
          rw [SegmentReader.liveDocuments_ofDocs_empty]
          exact hcurrent
    | numbered call segId segmentIds groups => exact rfl
    | opened call job segId reader => cases job <;> trivial
    | merging call groups => cases groups <;> trivial
    | removing call left groups => cases left <;> trivial
    | _ => trivial

/-! ## 3. The invariant -/

/-- A search leaves everything in order. -/
theorem Orderly.search {c : Running} (h : Orderly c) (request : SearchRequest) :
    Orderly { c with engine := (ShardEngine.search request c.engine).2 } := by
  rw [ShardEngine.search_eq_of_coherent h.coherent]
  obtain ⟨wal, hinv⟩ := h.laid
  refine ⟨⟨wal, ?_⟩, fun t => ?_, ?_, ?_⟩
  · exact { hinv with
      sound := fun t => (hinv.sound t).frame (fun _ _ => rfl) (fun _ he => Or.inl he) }
  · exact (h.collected t).frame (fun _ _ => List.Sublist.refl _) (fun _ hdoc => hdoc)
  · exact WriteBuffer.coherent_refreshed h.coherent
  · exact (WriteBuffer.refreshed_deletedIds _).trans h.undeleted

/-- **Every run with reads leaves everything in order.** -/
theorem Orderly.sharedRun (names : SegmentId → List SegmentFileName) :
    ∀ (actions : List SharedAction) {c : Running}, Orderly c →
    Orderly (LabelledRun.run (sharedStep names) c actions) := by
  intro actions c h
  refine LabelledRun.run_inv (fun c a h => ?_) actions c h
  cases a with
  | thread action => exact h.step names action
  | search request => exact h.search request

/-- With one flush at a time, everything is somewhere exactly once: in the segments, in the
buffer, or carried by a thread.  `brought` are the documents of all calls so far, and the calls
are those of the threads in `T`. -/
structure Held (T : Finset Nat) (c : Running) (brought : List Document) : Prop where
  orderly : Orderly c
  balance : Balance T c 0
  current : ∀ t, (c.threads t).Current c.engine
  idle : ∀ t, t ∉ T → c.threads t = .idle
  brought : ↑c.acked + c.called T ≤ (↑brought : Multiset Document)

section

variable {T : Finset Nat} {c : Running} {brought : List Document}

/-- **An action keeps it**, when at most one thread is in `flush`. -/
theorem Held.cstep (h : Held T c brought) (names : SegmentId → List SegmentFileName) {a : Action}
    (ha : a.thread ∈ T) (hone : OneFlush c) :
    Held T (cstep names c a) (brought ++ a.docs) := by
  have horderly := h.orderly.step names a
  obtain ⟨E, hbalance, hzero⟩ := h.balance.step h.orderly names ha
  have hundisturbed : MergeUndisturbed c a := by
    cases a with
    | step t => exact (h.current t).undisturbed
    | _ => trivial
  rw [hzero.mpr hundisturbed, add_zero] at hbalance
  refine ⟨horderly, hbalance, fun u => ?_, sharedStep_idle (a := .thread a) h.idle names ha, ?_⟩
  all_goals
    rcases cstep_cases names c a with ⟨-, hsame⟩ | ⟨s', pc', acked, -, htakes, hstep⟩
  · rw [hsame]
    exact h.current u
  · rw [hstep]
    show (Function.update c.threads a.thread pc' u).Current s'
    by_cases hut : u = a.thread
    · rw [hut, Function.update_self]
      exact htakes.current (h.orderly.laid.sound a.thread) (h.current a.thread)
    · rw [Function.update_of_ne hut]
      by_cases hflush : (c.threads u).inFlush = true
      · have hnot : (c.threads a.thread).inFlush = false := by
          by_contra hin
          exact hut (hone u a.thread hflush (by simpa using hin))
        exact (h.current u).of_segments_eq (by rw [htakes.segments_eq hnot])
      · cases hpc : c.threads u with
        | idle | appended docs => trivial
        | _ =>
          rw [hpc] at hflush
          exact absurd rfl hflush
  · rw [hsame, ← Multiset.coe_add]
    exact h.brought.trans (Multiset.le_add_right _ _)
  · have hcalled := called_update ha c.acked
      (htakes.conserves (h.orderly.laid.sound a.thread) (h.orderly.collected a.thread)).calls
    rw [hstep, ← Multiset.coe_add]
    have hgrown : (↑(c.acked ++ acked) : Multiset Document)
        + T.sum (fun u => ↑(Function.update c.threads a.thread pc' u).call)
        ≤ ↑brought + ↑a.docs := by
      rw [hcalled]
      exact add_le_add_left h.brought _
    exact hgrown

/-- **A search keeps it.** -/
theorem Held.search (h : Held T c brought) (request : SearchRequest) :
    Held T { c with engine := (ShardEngine.search request c.engine).2 } brought := by
  have horderly := h.orderly.search request
  rw [ShardEngine.search_eq_of_coherent h.orderly.coherent] at horderly ⊢
  have hholds : c.engine.refreshed.holds = c.engine.holds := by
    show (_ + ↑c.engine.writeBuffer.refreshed.docs : Multiset Document) = _
    rw [WriteBuffer.refreshed_docs]
    rfl
  refine ⟨horderly, ⟨?_, h.balance.known⟩, fun t => ?_, h.idle, h.brought⟩
  · show c.engine.refreshed.holds + c.carried T = _
    rw [hholds]
    exact h.balance.held
  · exact (h.current t).of_segments_eq rfl

theorem Held.step (h : Held T c brought) (names : SegmentId → List SegmentFileName)
    {a : SharedAction} (ha : a.Within T) (hone : OneFlush c) :
    Held T (sharedStep names c a) (brought ++ a.docs) := by
  cases a with
  | thread action => exact h.cstep names ha hone
  | search request =>
    rw [show SharedAction.docs (.search request) = [] from rfl, List.append_nil]
    exact h.search request

/-- **Every run with one flush at a time keeps it.** -/
theorem Held.run (names : SegmentId → List SegmentFileName) :
    ∀ (actions : List SharedAction) {c : Running} {brought : List Document}, Held T c brought →
    (∀ a ∈ actions, a.Within T) →
    LabelledRun.Along (sharedStep names) (fun c _ => OneFlush c) c actions →
    Held T (LabelledRun.run (sharedStep names) c actions)
      (brought ++ actions.flatMap SharedAction.docs) := by
  intro actions
  induction actions with
  | nil =>
    intro c brought h _ _
    simpa using h
  | cons a actions ih =>
    intro c brought h hT hone
    rw [List.flatMap_cons, ← List.append_assoc]
    exact ih (h.step names (hT a List.mem_cons_self) hone.1)
      (fun b hb => hT b (List.mem_cons_of_mem _ hb)) hone.2

/-- Acknowledged documents stay acknowledged. -/
theorem acked_step (names : SegmentId → List SegmentFileName) (c : Running) (a : SharedAction) :
    ∀ doc ∈ c.acked, doc ∈ (sharedStep names c a).acked := by
  intro doc hdoc
  cases a with
  | search request => exact hdoc
  | thread action =>
    rcases cstep_cases names c action with ⟨-, hsame⟩ | ⟨s', pc', acked, -, -, hstep⟩
    · rwa [sharedStep, hsame]
    · rw [sharedStep, hstep]
      exact List.mem_append_left _ hdoc

theorem acked_run (names : SegmentId → List SegmentFileName) {doc : Document} :
    ∀ (actions : List SharedAction) (c : Running), doc ∈ c.acked →
    doc ∈ (LabelledRun.run (sharedStep names) c actions).acked :=
  LabelledRun.run_inv (I := fun c : Running => doc ∈ c.acked)
    (fun c a hdoc => acked_step names c a doc hdoc)

/-! ## 4. Where an acknowledged document is -/

/-- What the calls have brought has distinct ids when all documents do. -/
theorem Held.nodup (h : Held T c brought) (hids : (brought.map Document.id).Nodup) :
    ((↑c.acked + c.called T).map Document.id).Nodup :=
  Multiset.nodup_of_le (Multiset.map_le_map h.brought) (Multiset.coe_nodup.mpr hids)

/-- The documents of a thread's call have not been acknowledged. -/
theorem Held.notMem_call (h : Held T c brought) (hids : (brought.map Document.id).Nodup)
    {doc : Document} (hdoc : doc ∈ c.acked) (t : Nat) : doc ∉ (c.threads t).call := by
  intro hcall
  have ht : t ∈ T := by
    by_contra hnot
    rw [h.idle t hnot] at hcall
    exact absurd hcall List.not_mem_nil
  have hcalled : doc ∈ c.called T := Multiset.mem_sum.mpr ⟨t, ht, hcall⟩
  have honce := Multiset.nodup_iff_count_le_one.mp (Multiset.Nodup.of_map _ (h.nodup hids)) doc
  have hacked : 0 < c.acked.count doc := List.count_pos_iff.mpr hdoc
  have hcount : 0 < (c.called T).count doc := Multiset.count_pos.mpr hcalled
  rw [Multiset.count_add, Multiset.coe_count] at honce
  omega

/-- **An acknowledged document is in exactly one place**, and no other document there has its
id. -/
theorem Held.count_eq_one (h : Held T c brought) (hids : (brought.map Document.id).Nodup)
    {doc : Document} (hdoc : doc ∈ c.acked) :
    (c.engine.holds + c.carried T).count doc = 1 ∧
      ∀ d ∈ c.engine.holds + c.carried T, d.id = doc.id → d = doc := by
  have hheld := h.balance.held
  rw [add_zero] at hheld
  have hmem : doc ∈ (↑c.acked + c.called T : Multiset Document) :=
    Multiset.mem_add.mpr (Or.inl hdoc)
  rw [hheld]
  exact ⟨Multiset.count_eq_one_of_mem (Multiset.Nodup.of_map _ (h.nodup hids)) hmem,
    fun d hd hid => Multiset.inj_on_of_nodup_map (h.nodup hids) d hd doc hmem hid⟩

/-- **A document that is not in the buffer does not come back to it.** -/
theorem Held.notMem_buffer (names : SegmentId → List SegmentFileName) {doc : Document} :
    ∀ (actions : List SharedAction) {c : Running} {brought : List Document}, Held T c brought →
    (∀ a ∈ actions, a.Within T) →
    LabelledRun.Along (sharedStep names) (fun c _ => OneFlush c) c actions →
    ((brought ++ actions.flatMap SharedAction.docs).map Document.id).Nodup →
    doc ∈ c.acked → doc ∉ c.engine.writeBuffer.docs →
    doc ∉ (LabelledRun.run (sharedStep names) c actions).engine.writeBuffer.docs := by
  intro actions
  induction actions with
  | nil => exact fun _ _ _ _ _ hnot => hnot
  | cons a actions ih =>
    intro c brought h hT hone hids hdoc hnot
    rw [List.flatMap_cons, ← List.append_assoc] at hids
    refine ih (h.step names (hT a List.mem_cons_self) hone.1)
      (fun b hb => hT b (List.mem_cons_of_mem _ hb)) hone.2 hids (acked_step names c a doc hdoc)
      (fun hbuffer => hnot ?_)
    have hbrought : (brought.map Document.id).Nodup := by
      rw [List.append_assoc, List.map_append] at hids
      exact hids.of_append_left
    cases a with
    | search request =>
      rw [sharedStep, ShardEngine.search_eq_of_coherent h.orderly.coherent] at hbuffer
      have hrefreshed : doc ∈ c.engine.writeBuffer.refreshed.docs := hbuffer
      rwa [WriteBuffer.refreshed_docs] at hrefreshed
    | thread action =>
      rcases cstep_cases names c action with ⟨-, hsame⟩ | ⟨s', pc', acked, -, htakes, hstep⟩
      · rwa [sharedStep, hsame] at hbuffer
      · rw [sharedStep, hstep] at hbuffer
        rcases htakes.mem_buffer doc hbuffer with hold | hcall
        · exact hold
        · exact absurd hcall (h.notMem_call hbrought hdoc action.thread)

/-- No thread carries a document that is not among what they carry. -/
theorem Held.count_carried (h : Held T c brought) (doc : Document) :
    (c.carried T).count doc = 0 ↔ ∀ t, doc ∉ (c.threads t).carrying := by
  rw [Multiset.count_eq_zero]
  constructor
  · intro hnot t hcarrying
    by_cases ht : t ∈ T
    · exact hnot (Multiset.mem_sum.mpr ⟨t, ht, hcarrying⟩)
    · rw [h.idle t ht] at hcarrying
      exact absurd hcarrying List.not_mem_nil
  · intro hnone hmem
    obtain ⟨t, -, hcarrying⟩ := Multiset.mem_sum.mp hmem
    exact hnone t hcarrying

end

/-- Among documents of which no other has its id, the one is there once. -/
theorem filter_id_eq_singleton_iff {docs : Multiset Document} {doc : Document}
    (hown : ∀ d ∈ docs, d.id = doc.id → d = doc) :
    docs.filter (fun d => d.id = doc.id) = {doc} ↔ docs.count doc = 1 := by
  have hsame : docs.filter (fun d => d.id = doc.id) = docs.filter (fun d => d = doc) :=
    Multiset.filter_congr (fun d hd => ⟨hown d hd, fun heq => by rw [heq]⟩)
  rw [hsame, Multiset.filter_eq']
  constructor
  · intro heq
    have hcard := congrArg Multiset.card heq
    rwa [Multiset.card_replicate, Multiset.card_singleton] at hcard
  · intro hone
    rw [hone, Multiset.replicate_one]

/-! ## 5. What reads show -/

section

variable {T : Finset Nat} {c : Running} {brought : List Document}

/-- **A search shows an acknowledged document exactly once if and only if no thread carries
it.** -/
theorem Held.showsOnce_iff (h : Held T c brought) (hids : (brought.map Document.id).Nodup)
    {doc : Document} (hdoc : doc ∈ c.acked) :
    c.engine.ShowsOnce doc ↔ ∀ t, doc ∉ (c.threads t).carrying := by
  obtain ⟨hcount, hown⟩ := h.count_eq_one hids hdoc
  have hholds : ∀ d ∈ c.engine.holds, d.id = doc.id → d = doc := fun d hd =>
    hown d (Multiset.mem_add.mpr (Or.inl hd))
  rw [h.orderly.readable.showsOnce_iff, h.orderly.visible, filter_id_eq_singleton_iff hholds,
    ← h.count_carried]
  rw [Multiset.count_add] at hcount
  omega

/-- **`get_all_live_docs` returns an acknowledged document exactly once** if and only if no thread
carries it at the first moment, and it is not drained before the second. -/
theorem Held.across_iff (h : Held T c brought) (hids : (brought.map Document.id).Nodup)
    {later : Running} {broughtLater : List Document} (hlater : Held T later broughtLater)
    (hidsLater : (broughtLater.map Document.id).Nodup) {doc : Document} (hdoc : doc ∈ c.acked)
    (hdocLater : doc ∈ later.acked)
    (hback : doc ∉ c.engine.writeBuffer.docs → doc ∉ later.engine.writeBuffer.docs) :
    (getAllLiveDocsAcross c.engine later.engine).filter (fun d => d.id = doc.id) = [doc] ↔
      (∀ t, doc ∉ (c.threads t).carrying) ∧
        (doc ∈ c.engine.writeBuffer.docs → doc ∈ later.engine.writeBuffer.docs) := by
  obtain ⟨hcount, hown⟩ := h.count_eq_one hids hdoc
  obtain ⟨hcountLater, hownLater⟩ := hlater.count_eq_one hidsLater hdocLater
  have hdocs : (↑(getAllLiveDocsAcross c.engine later.engine) : Multiset Document)
      = ↑c.engine.segments.liveDocuments + ↑later.engine.writeBuffer.docs := by
    have hundeleted : later.engine.writeBuffer.allDocs = later.engine.writeBuffer.docs := by
      simp [WriteBuffer.allDocs, hlater.orderly.undeleted]
    rw [getAllLiveDocsAcross, hundeleted, ← Multiset.coe_add]
    simp only [SegmentReader.filterMap_allLiveDocs, SegmentList.liveDocuments]
  have hone : ∀ d ∈ (↑c.engine.segments.liveDocuments + ↑later.engine.writeBuffer.docs :
      Multiset Document), d.id = doc.id → d = doc := by
    intro d hd
    rcases Multiset.mem_add.mp hd with hseg | hbuffer
    · exact hown d (Multiset.mem_add.mpr (Or.inl (Multiset.mem_add.mpr (Or.inl hseg))))
    · exact hownLater d (Multiset.mem_add.mpr (Or.inl (Multiset.mem_add.mpr (Or.inr hbuffer))))
  rw [← Multiset.coe_eq_singleton, ← Multiset.filter_coe, hdocs, filter_id_eq_singleton_iff hone,
    ← h.count_carried, ← List.count_pos_iff, ← List.count_pos_iff, Multiset.count_add,
    Multiset.coe_count, Multiset.coe_count]
  rw [← List.count_pos_iff, ← List.count_pos_iff] at hback
  rw [Multiset.count_add, ShardEngine.holds, Multiset.count_add, Multiset.coe_count,
    Multiset.coe_count] at hcount hcountLater
  omega

end

/-- The shard a run of operations leaves is held by no thread. -/
theorem held_after (T : Finset Nat) (writeBufferSize : Nat) (searcher : MultiSegmentSearcher)
    {ops : List ShardEngine.Op} (hops : ∀ op ∈ ops, op.AppendOnly) :
    Held T (Running.after writeBufferSize searcher ops) (ops.flatMap ShardEngine.Op.docs) where
  orderly := orderly_after writeBufferSize searcher hops
  balance := balance_after T hops
  current := fun _ => trivial
  idle := fun _ _ => rfl
  brought := by
    rw [called_of_idle (fun _ => rfl), add_zero]
    exact le_refl _

/-- **Reads beside a flush are complete just when the flush does not carry what they are to
show.**  Take a shard after any run that deletes nothing, then threads that index and flush it,
at most one of them in `flush` at any moment, beside searches, and let all documents have distinct
ids.  A read begins after `before`; a search has its locks after `during`; `get_all_live_docs` reads
the segments after `during` and the buffer after `between`.

A match-all search shows every document acknowledged when it began exactly once, if and only if
no flush carries one of them when it has its locks.  And `get_all_live_docs` returns each of them
exactly once, if and only if no flush carries one of them when it reads the segments, and none of
them is drained before it reads the buffer. -/
theorem reads_complete_iff (names : SegmentId → List SegmentFileName) (writeBufferSize : Nat)
    (searcher : MultiSegmentSearcher) (ops : List ShardEngine.Op)
    (hops : ∀ op ∈ ops, op.AppendOnly) (before during between : List SharedAction)
    (hids : ((ops.flatMap ShardEngine.Op.docs
      ++ (before ++ during ++ between).flatMap SharedAction.docs).map Document.id).Nodup)
    (hone : LabelledRun.Along (sharedStep names) (fun c _ => OneFlush c)
      (Running.after writeBufferSize searcher ops) (before ++ during ++ between)) :
    let begun := LabelledRun.run (sharedStep names) (Running.after writeBufferSize searcher ops)
      before
    let first := LabelledRun.run (sharedStep names) begun during
    let second := LabelledRun.run (sharedStep names) first between
    ((∀ doc ∈ begun.acked, first.engine.ShowsOnce doc) ↔
      ∀ doc ∈ begun.acked, ∀ t, doc ∉ (first.threads t).carrying) ∧
    ((∀ doc ∈ begun.acked, (getAllLiveDocsAcross first.engine second.engine).filter
        (fun d => d.id = doc.id) = [doc]) ↔
      ∀ doc ∈ begun.acked, (∀ t, doc ∉ (first.threads t).carrying) ∧
        (doc ∈ first.engine.writeBuffer.docs → doc ∈ second.engine.writeBuffer.docs)) := by
  intro begun first second
  have hwithin := within_sharedActors (before ++ during ++ between) (Finset.Subset.refl _)
  generalize sharedActors (before ++ during ++ between) = T at hwithin
  have hstart := held_after T writeBufferSize searcher hops
  have hrun : LabelledRun.run (sharedStep names) (Running.after writeBufferSize searcher ops)
      (before ++ during) = first := LabelledRun.run_append _ _ _ _
  rw [LabelledRun.along_append, hrun] at hone
  rw [List.flatMap_append, ← List.append_assoc] at hids
  have hfirst := hstart.run names (before ++ during)
    (fun a ha => hwithin a (List.mem_append_left _ ha)) hone.1
  rw [hrun] at hfirst
  have hsecond := hfirst.run names between
    (fun a ha => hwithin a (List.mem_append_right _ ha)) hone.2
  have hidsFirst : ((ops.flatMap ShardEngine.Op.docs
      ++ (before ++ during).flatMap SharedAction.docs).map Document.id).Nodup := by
    rw [List.map_append] at hids
    exact hids.of_append_left
  refine ⟨forall₂_congr (fun doc hdoc => ?_), forall₂_congr (fun doc hdoc => ?_)⟩
  · exact hfirst.showsOnce_iff hidsFirst (acked_run names during begun hdoc)
  · have hacked : doc ∈ first.acked := acked_run names during begun hdoc
    refine hfirst.across_iff hidsFirst hsecond hids hacked (acked_run names between first hacked)
      (fun hnot => ?_)
    exact hfirst.notMem_buffer names between (fun a ha => hwithin a (List.mem_append_right _ ha))
      hone.2 hids hacked hnot

/-- A document in the buffer, and one in a segment. -/
def oneSegment : List ShardEngine.Op := [.index (ShardEngine.titled 1 "a"), .flush]

/-- A call of `index`. -/
def writeOne : List SharedAction :=
  [.thread (.index 0 [ShardEngine.titled 2 "b"]), .thread (.step 0)]

/-- A flush, as far as the drain, and one as far as the registration. -/
def flushDrains : List SharedAction := [.thread (.flush 1), .thread (.step 1)]

def flushRegisters : List SharedAction :=
  .thread (.flush 1) :: List.replicate 10 (.thread (.step 1)) ++ [.search {}]

theorem carrying_flushRegisters (t : Nat) :
    ((LabelledRun.run (sharedStep SegmentDirs.plainFiles) (LabelledRun.run
      (sharedStep SegmentDirs.plainFiles) (Running.after 1000 .unscored oneSegment) writeOne)
      flushRegisters).threads t).carrying = [] := by
  have hwithin : ∀ a ∈ writeOne ++ flushRegisters, a.Within {0, 1} :=
    within_sharedActors _ (by decide)
  by_cases ht : t ∈ ({0, 1} : Finset Nat)
  · revert t
    decide +kernel
  · rw [← LabelledRun.run_append, sharedRun_idle SegmentDirs.plainFiles
      (writeOne ++ flushRegisters) (fun _ _ => rfl) hwithin t ht]
    rfl

/-- Once the segment is registered, reads have the document. -/
theorem reads_complete_registered :
    let begun := LabelledRun.run (sharedStep SegmentDirs.plainFiles)
      (Running.after 1000 .unscored oneSegment) writeOne
    let first := LabelledRun.run (sharedStep SegmentDirs.plainFiles) begun flushRegisters
    (∀ doc ∈ begun.acked, first.engine.ShowsOnce doc) ∧
    ∀ doc ∈ begun.acked, (getAllLiveDocsAcross first.engine first.engine).filter
      (fun d => d.id = doc.id) = [doc] := by
  have hids : ((oneSegment.flatMap ShardEngine.Op.docs
      ++ (writeOne ++ flushRegisters ++ []).flatMap SharedAction.docs).map
        Document.id).Nodup := by
    decide +kernel
  have hone := along_oneFlush SegmentDirs.plainFiles (writeOne ++ flushRegisters ++ [])
    (c := Running.after 1000 .unscored oneSegment) (fun _ _ => rfl)
    (within_sharedActors _ (Finset.Subset.refl _)) (by decide +kernel)
  obtain ⟨hsearch, hdocs⟩ := reads_complete_iff SegmentDirs.plainFiles 1000 .unscored oneSegment
    (by decide) writeOne flushRegisters [] hids hone
  simp only [LabelledRun.run_nil] at hdocs
  refine ⟨hsearch.mpr (fun _ _ t => ?_), hdocs.mpr (fun _ _ => ⟨fun t => ?_, id⟩)⟩
  · rw [carrying_flushRegisters]
    exact List.not_mem_nil
  · rw [carrying_flushRegisters]
    exact List.not_mem_nil

/-- **While it is written, neither read has it.** -/
theorem reads_miss_drained :
    let begun := LabelledRun.run (sharedStep SegmentDirs.plainFiles)
      (Running.after 1000 .unscored oneSegment) writeOne
    let first := LabelledRun.run (sharedStep SegmentDirs.plainFiles) begun flushDrains
    LabelledRun.Along (sharedStep SegmentDirs.plainFiles) (fun c _ => OneFlush c)
      (Running.after 1000 .unscored oneSegment) (writeOne ++ flushDrains) ∧
    ¬ (∀ doc ∈ begun.acked, first.engine.ShowsOnce doc) ∧
    ¬ ∀ doc ∈ begun.acked, (getAllLiveDocsAcross first.engine first.engine).filter
      (fun d => d.id = doc.id) = [doc] := by
  have hone := along_oneFlush SegmentDirs.plainFiles (writeOne ++ flushDrains)
    (c := Running.after 1000 .unscored oneSegment) (fun _ _ => rfl)
    (within_sharedActors _ (Finset.Subset.refl _)) (by decide +kernel)
  have hops : ∀ op ∈ oneSegment, op.AppendOnly := by decide
  have horderly := Orderly.sharedRun SegmentDirs.plainFiles flushDrains
    (Orderly.sharedRun SegmentDirs.plainFiles writeOne (orderly_after 1000 .unscored hops))
  refine ⟨hone, fun honce => ?_, ?_⟩
  · have hfilter := (horderly.readable.showsOnce_iff _).mp (honce (ShardEngine.titled 2 "b")
      (by decide +kernel))
    exact absurd hfilter (by decide +kernel)
  · decide +kernel

end Concurrent

end ZearchEngine
