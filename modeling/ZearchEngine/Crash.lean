/-
# What a crash leaves of the directories

Two things the shard does to its directories take many operations, and a crash may fall between
any two of them.

* Writing a segment: until `meta.json` is whole the directory does not open, and the others are
  as they were (`Disk.Unfinished`).
* Removing one: the directory stops opening as soon as a required file is gone.  If the first
  file to go is the deletion bitmap it still opens, and shows its deleted documents again.
-/
import ZearchEngine.Content

namespace ZearchEngine

open KeyedStore

namespace Disk

/-! ## 1. A segment half written -/

/-- The last write of a new segment. -/
def writeMeta (id : SegmentId) (docs : List Document) : FileEffect :=
  .segments (.write id (.metaJson { docCount := docs.length }))

/-- The writes before it. -/
def writeFiles (id : SegmentId) (docs : List Document) : List FileEffect :=
  [ .segments (.createDir id)
  , .segments (.write id (.invertedFst docs))
  , .segments (.write id (.invertedPost docs))
  , .segments (.write id (.columns docs))
  , .segments (.write id (.docs docs)) ]

theorem map_writeSegment (id : SegmentId) (docs : List Document) :
    (SegmentDirs.writeSegment id docs).map .segments = writeFiles id docs ++ [writeMeta id docs] :=
  rfl

/-- The new directory does not open, and everything else is as it was. -/
structure Unfinished (id : SegmentId) (before after : Disk) : Prop where
  wal : after.wal = before.wal
  others : ∀ other, other ≠ id → after.segments.lookup other = before.segments.lookup other
  new : ∀ dir, after.segments.lookup id = some dir → dir.metaJson >>= Stored.read = none

/-- An operation on the new directory changes nothing else. -/
theorem Unfinished.of_target {id : SegmentId} {before after : Disk}
    (h : Unfinished id before after) {e : DirEffect} (he : e.target = id)
    (hnew : ∀ dir, e.on (after.segments.lookup id) = some dir →
      dir.metaJson >>= Stored.read = none) :
    Unfinished id before (after.apply (.segments e)) where
  wal := h.wal
  others := by
    intro other hne
    show (after.segments.apply e).lookup other = _
    rw [SegmentDirs.lookup_apply_of_ne _ (by rw [he]; exact Ne.symm hne), h.others other hne]
  new := by
    intro dir hdir
    have hlook : (after.segments.apply e).lookup id = some dir := hdir
    rw [← he, SegmentDirs.lookup_apply_target, he] at hlook
    exact hnew dir hlook

/-- Writing a file other than `meta.json` leaves the directory unfinished. -/
theorem Unfinished.apply {id : SegmentId} {docs : List Document} {before s : Disk}
    (hs : Unfinished id before s) {e : FileEffect} (he : e ∈ writeFiles id docs) :
    Unfinished id before (s.apply e) := by
  have hwrite : ∀ file : SegmentFile,
      (∀ dir : SegmentDir, (dir.write file).metaJson = dir.metaJson) →
      Unfinished id before (s.apply (.segments (.write id file))) := by
    intro file hfile
    refine hs.of_target rfl (fun dir hdir => ?_)
    obtain ⟨dir', hdir', rfl⟩ := Option.map_eq_some_iff.mp hdir
    rw [hfile]
    exact hs.new dir' hdir'
  simp only [writeFiles, List.mem_cons, List.not_mem_nil, or_false] at he
  rcases he with rfl | rfl | rfl | rfl | rfl
  · refine hs.of_target rfl (fun dir hdir => ?_)
    rw [DirEffect.on, Option.some.injEq] at hdir
    cases hlook : s.segments.lookup id with
    | none => rw [← hdir, hlook]; rfl
    | some dir' => rw [← hdir, hlook]; exact hs.new dir' hlook
  all_goals exact hwrite _ (fun _ => rfl)

/-- A crash in the middle of any of the writes leaves the directory unfinished: a `meta.json`
cut short does not decode. -/
theorem Unfinished.tear {id : SegmentId} {docs : List Document} {before s : Disk}
    (hs : Unfinished id before s) {e : DirEffect}
    (he : e ∈ SegmentDirs.writeSegment id docs) : Unfinished id before (s.tear (.segments e)) := by
  have htarget : e.target = id := SegmentDirs.target_of_mem_writeSegment he
  refine ⟨hs.wal, fun other hne => ?_, fun dir hdir => ?_⟩
  · exact (SegmentDirs.lookup_tear_of_ne _ (by rw [htarget]; exact Ne.symm hne)).trans
      (hs.others other hne)
  · cases e with
    | write id' file =>
      obtain rfl : id' = id := htarget
      have hlook : (alter id' (fun dir => dir.tear file.name) s.segments).lookup id'
          = some dir := hdir
      rw [lookup_alter_self] at hlook
      obtain ⟨dir', hdir', rfl⟩ := Option.map_eq_some_iff.mp hlook
      have hmeta := hs.new dir' hdir'
      cases file with
      | metaJson segmentMeta => rfl
      | _ => exact hmeta
    | _ => exact hs.new dir hdir

/-- **As long as `meta.json` is not whole, the new directory does not open.** -/
theorem unfinished_crash {d : Disk} {id : SegmentId} (hid : id ∉ d.segments)
    {docs : List Document} (p : CrashPoint ((SegmentDirs.writeSegment id docs).map .segments))
    (hp : p.done ≠ (SegmentDirs.writeSegment id docs).map .segments) :
    Unfinished id d (d.crash p) := by
  refine p.inv (I := Unfinished id d) ?_ ?_ ⟨rfl, fun _ _ => rfl, fun dir hdir => ?_⟩
  · exact fun s e he hs => hs.apply (p.mem_of_mem_done hp e he)
  · intro s e he hs
    obtain ⟨e, hmem, rfl⟩ := List.mem_map.mp he
    exact hs.tear hmem
  · rw [AList.lookup_eq_none.mpr hid] at hdir
    cases hdir

end Disk

/-- While the new directory does not open, the directories show what they showed. -/
theorem Disk.Unfinished.live {id : SegmentId} {before after : Disk}
    (h : Unfinished id before after) (hid : id ∉ before.segments) :
    SegmentDirs.live after.segments = SegmentDirs.live before.segments := by
  refine total_congr _ (fun other => ?_)
  by_cases hother : other = id
  · rw [hother, AList.lookup_eq_none.mpr hid]
    cases hlook : after.segments.lookup id with
    | none => rfl
    | some dir => exact SegmentDir.live_of_not_open (openDir_eq_none_of_meta (h.new dir hlook))
  · rw [h.others other hother]

theorem Disk.Unfinished.intact {id : SegmentId} {before after : Disk}
    (h : Unfinished id before after) (hintact : Intact before.segments) :
    Intact after.segments := by
  intro other dir hlook hopen
  by_cases hother : other = id
  · rw [hother] at hlook
    exact absurd (openDir_eq_none_of_meta (h.new dir hlook)) hopen
  · exact hintact other dir (by rw [← h.others other hother, hlook]) hopen

/-- A new segment beside the others. -/
theorem SegmentDirs.live_insert {dirs : SegmentDirs} {id : SegmentId} (h : id ∉ dirs)
    (docs : List Document) :
    SegmentDirs.live (dirs.insert id (SegmentDir.written docs none))
      = ↑docs + SegmentDirs.live dirs := by
  rw [SegmentDirs.live, total_insert_of_notMem _ h, SegmentDir.live_written_none, SegmentDirs.live]

theorem Intact.insert {dirs : SegmentDirs} (h : Intact dirs) (id : SegmentId)
    (docs : List Document) (deletions : Option Bitmap) :
    Intact (dirs.insert id (SegmentDir.written docs deletions)) := by
  intro other dir hlook hopen
  by_cases hother : other = id
  · rw [hother, AList.lookup_insert, Option.some.injEq] at hlook
    exact ⟨docs, deletions, hlook.symm⟩
  · rw [AList.lookup_insert_ne hother] at hlook
    exact h other dir hlook hopen

/-- **A crash while a segment is written and then other, atomic operations are carried out**:
the new directory is unfinished, or it is whole and some of those operations are done. -/
theorem Disk.crash_writeSegment (d : Disk) {id : SegmentId} (hid : id ∉ d.segments)
    (docs : List Document) {effects rest : List FileEffect}
    (heffects : effects = (SegmentDirs.writeSegment id docs).map .segments ++ rest)
    (hrest : ∀ d : Disk, ∀ e ∈ rest, d.tear e = d) (p : CrashPoint effects) :
    (writeMeta id docs ∉ p.done ∧ Unfinished id d (d.crash p)) ∨
    (writeMeta id docs ∈ p.done ∧ ∃ q : CrashPoint rest,
      p.done = (SegmentDirs.writeSegment id docs).map .segments ++ q.done ∧
      d.crash p = q.done.foldl Disk.apply
        ⟨d.wal, d.segments.insert id (SegmentDir.written docs none)⟩) := by
  subst heffects
  rcases p.append_cases Disk.apply Disk.tear with ⟨q, hdone, hq, hstate⟩ | ⟨q, hdone, hstate⟩
  · refine Or.inl ⟨fun hmem => ?_, ?_⟩
    · have hfile : writeMeta id docs ∈ writeFiles id docs :=
        q.mem_of_mem_done hq _ (hdone ▸ hmem)
      simp [writeFiles, writeMeta] at hfile
    · have hcrash : d.crash p = d.crash q := hstate d
      rw [hcrash]
      exact unfinished_crash hid q hq
  · refine Or.inr ⟨?_, q, hdone, ?_⟩
    · rw [hdone, map_writeSegment]
      simp
    · rw [← SegmentDirs.foldl_writeSegment hid, ← foldl_segments, ← q.state_of_atomic hrest]
      exact hstate d

/-! ## 2. A directory half removed -/

/-- A file that a segment does not open without is missing. -/
def SegmentDir.Lacking (dir : SegmentDir) : Prop :=
  dir.metaJson = none ∨ dir.invertedFst = none ∨ dir.invertedPost = none ∨ dir.columns = none ∨
    dir.docs = none

theorem SegmentDir.Lacking.unlink {dir : SegmentDir} (h : dir.Lacking) (name : SegmentFileName) :
    (dir.unlink name).Lacking := by
  rcases h with h | h | h | h | h <;> cases name <;> simp [Lacking, SegmentDir.unlink, h]

theorem SegmentDir.Lacking.foldl_unlink : ∀ (names : List SegmentFileName) {dir : SegmentDir},
    dir.Lacking → (names.foldl SegmentDir.unlink dir).Lacking
  | [], _, h => h
  | name :: names, _, h => Lacking.foldl_unlink names (h.unlink name)

theorem SegmentDir.lacking_unlink {dir : SegmentDir} {name : SegmentFileName}
    (h : name ≠ .deletions) : (dir.unlink name).Lacking := by
  cases name <;> simp_all [Lacking, SegmentDir.unlink]

theorem SegmentDir.Lacking.openDir {dir : SegmentDir} (h : dir.Lacking) :
    SegmentReader.openDir dir = none := by
  unfold SegmentReader.openDir
  rcases h with h | h | h | h | h <;> simp [h]

/-- **What is left of a whole directory** once some of its files have been removed: one that
lacks a file, or the whole directory without its bitmap. -/
theorem foldl_unlink_written (docs : List Document) : ∀ (names : List SegmentFileName)
    (deletions : Option Bitmap),
    ((∃ name ∈ names, name ≠ .deletions) ∧
      (names.foldl SegmentDir.unlink (SegmentDir.written docs deletions)).Lacking) ∨
    ((∀ name ∈ names, name = .deletions) ∧
      names.foldl SegmentDir.unlink (SegmentDir.written docs deletions)
        = SegmentDir.written docs (if .deletions ∈ names then none else deletions))
  | [], _ => Or.inr ⟨by simp, rfl⟩
  | name :: names, deletions => by
    by_cases hname : name = .deletions
    · subst hname
      have hunlink : (SegmentDir.written docs deletions).unlink .deletions
          = SegmentDir.written docs none := rfl
      rw [List.foldl_cons, hunlink]
      rcases foldl_unlink_written docs names none with ⟨⟨n, hn, hne⟩, hlack⟩ | ⟨hall, heq⟩
      · exact Or.inl ⟨⟨n, List.mem_cons_of_mem _ hn, hne⟩, hlack⟩
      · refine Or.inr ⟨?_, ?_⟩
        · intro n hn
          rcases List.mem_cons.mp hn with rfl | hn
          · rfl
          · exact hall n hn
        · rw [heq, if_pos List.mem_cons_self, ite_self]
    · exact Or.inl ⟨⟨name, List.mem_cons_self, hname⟩,
        (SegmentDir.lacking_unlink hname).foldl_unlink names⟩

/-- An operation of `remove_dir_all`. -/
def DirEffect.IsRemoval : DirEffect → Prop
  | .unlink _ _ | .removeDir _ => True
  | _ => False

/-- `remove_dir_all` removes, in its directory. -/
theorem of_mem_removeDirAll {id : SegmentId} {names : List SegmentFileName} {e : DirEffect}
    (h : e ∈ SegmentDirs.removeDirAll id names) : e.IsRemoval ∧ e.target = id := by
  rcases List.mem_append.mp h with hunlink | hremove
  · obtain ⟨name, -, rfl⟩ := List.mem_map.mp hunlink
    exact ⟨trivial, rfl⟩
  · obtain rfl := List.mem_singleton.mp hremove
    exact ⟨trivial, rfl⟩

/-- The file an operation removes. -/
def DirEffect.unlinked : DirEffect → Option SegmentFileName
  | .unlink _ name => some name
  | _ => none

theorem foldl_on_none : ∀ es : List DirEffect, (∀ e ∈ es, e.IsRemoval) →
    es.foldl DirEffect.on none = none
  | [], _ => rfl
  | e :: es, h => by
    have hstep : DirEffect.on none e = none := by
      cases e with
      | unlink id name => rfl
      | removeDir id => rfl
      | createDir id => exact (h _ List.mem_cons_self).elim
      | write id file => exact (h _ List.mem_cons_self).elim
    rw [List.foldl_cons, hstep]
    exact foldl_on_none es (fun e he => h e (List.mem_cons_of_mem _ he))

/-- A directory after some of the operations that remove it. -/
theorem foldl_on_removal (id : SegmentId) : ∀ (es : List DirEffect) (dir : SegmentDir),
    (∀ e ∈ es, e.IsRemoval ∧ e.target = id) →
    es.foldl DirEffect.on (some dir) = if .removeDir id ∈ es then none
      else some ((es.filterMap DirEffect.unlinked).foldl SegmentDir.unlink dir)
  | [], dir, _ => rfl
  | e :: es, dir, h => by
    have hes : ∀ e ∈ es, e.IsRemoval ∧ e.target = id := fun e he => h e (List.mem_cons_of_mem _ he)
    cases e with
    | unlink id' name =>
      have hstep : DirEffect.on (some dir) (.unlink id' name) = some (dir.unlink name) := rfl
      rw [List.foldl_cons, hstep, foldl_on_removal id es (dir.unlink name) hes]
      simp [DirEffect.unlinked]
    | removeDir id' =>
      have hid : id' = id := (h _ List.mem_cons_self).2
      have hstep : DirEffect.on (some dir) (.removeDir id') = none := rfl
      rw [List.foldl_cons, hstep, foldl_on_none es (fun e he => (hes e he).1), hid,
        if_pos List.mem_cons_self]
    | createDir id' => exact (h _ List.mem_cons_self).1.elim
    | write id' file => exact (h _ List.mem_cons_self).1.elim

/-- What is left of a directory shows nothing: the directory is gone, or a file it does not
open without, or it has nothing to show, with its bitmap or without. -/
def Spent (dirs : SegmentDirs) (es : List DirEffect) (id : SegmentId) : Prop :=
  .removeDir id ∈ es ∨ (∃ name, name ≠ .deletions ∧ .unlink id name ∈ es) ∨
    share (if .unlink id .deletions ∈ es then SegmentDir.stored else SegmentDir.live)
      (dirs.lookup id) = 0

/-- Whether a directory is spent depends on what it was and on what has been removed. -/
theorem spent_congr {dirs dirs' : SegmentDirs} {es es' : List DirEffect} {id : SegmentId}
    (hlook : dirs.lookup id = dirs'.lookup id)
    (hes : ∀ e : DirEffect, e.IsRemoval → (e ∈ es ↔ e ∈ es')) :
    Spent dirs es id ↔ Spent dirs' es' id := by
  have hunlink : ∀ name, .unlink id name ∈ es ↔ .unlink id name ∈ es' := fun name =>
    hes _ trivial
  rw [Spent, Spent, hes (.removeDir id) trivial, hlook]
  simp only [hunlink]

/-- **What some of the operations leave of a whole directory**: nothing, or one that lacks a
file, or the whole directory, perhaps without its bitmap. -/
theorem lookup_removed {dirs : SegmentDirs} {es : List DirEffect} (hes : ∀ e ∈ es, e.IsRemoval)
    {id : SegmentId} {docs : List Document} {deletions : Option Bitmap}
    (hlook : dirs.lookup id = some (SegmentDir.written docs deletions)) :
    (.removeDir id ∈ es ∧ (es.foldl SegmentDirs.apply dirs).lookup id = none) ∨
    (∃ name, name ≠ .deletions ∧ .unlink id name ∈ es ∧
      ∃ dir, (es.foldl SegmentDirs.apply dirs).lookup id = some dir ∧ dir.Lacking) ∨
    (.removeDir id ∉ es ∧ (∀ name, .unlink id name ∈ es → name = .deletions) ∧
      (es.foldl SegmentDirs.apply dirs).lookup id = some (SegmentDir.written docs
        (if .unlink id .deletions ∈ es then none else deletions))) := by
  have hmem : ∀ e : DirEffect, e.target = id → (e ∈ es.filter (fun e => e.target = id) ↔ e ∈ es) :=
    fun e he => by simp [he]
  have hnames : ∀ name, name ∈ (es.filter (fun e => e.target = id)).filterMap DirEffect.unlinked ↔
      .unlink id name ∈ es := by
    intro name
    rw [List.mem_filterMap, ← hmem (.unlink id name) rfl]
    constructor
    · rintro ⟨e, he, hname⟩
      cases e with
      | unlink id' name' =>
        obtain rfl : name' = name := Option.some.inj hname
        obtain rfl : id' = id := of_decide_eq_true (List.mem_filter.mp he).2
        exact he
      | _ => cases hname
    · exact fun he => ⟨_, he, rfl⟩
  have hremoval : ∀ e ∈ es.filter (fun e => e.target = id), e.IsRemoval ∧ e.target = id :=
    fun e he => ⟨hes e (List.mem_of_mem_filter he), of_decide_eq_true (List.mem_filter.mp he).2⟩
  have hfold := SegmentDirs.lookup_foldl_apply es dirs id
  rw [hlook, foldl_on_removal id _ _ hremoval] at hfold
  by_cases hgone : .removeDir id ∈ es
  · rw [if_pos ((hmem (.removeDir id) rfl).mpr hgone)] at hfold
    exact Or.inl ⟨hgone, hfold⟩
  · rw [if_neg (fun he => hgone ((hmem (.removeDir id) rfl).mp he))] at hfold
    rcases foldl_unlink_written docs ((es.filter (fun e => e.target = id)).filterMap
      DirEffect.unlinked) deletions with ⟨⟨name, hname, hne⟩, hlack⟩ | ⟨hall, heq⟩
    · exact Or.inr (Or.inl ⟨name, hne, (hnames name).mp hname, _, hfold, hlack⟩)
    · refine Or.inr (Or.inr ⟨hgone, fun name hname => hall name ((hnames name).mpr hname), ?_⟩)
      rw [hfold, heq]
      simp only [hnames]

/-- **A directory half removed shows nothing exactly when it is spent.** -/
theorem live_removed_eq_zero_iff {dirs : SegmentDirs} {es : List DirEffect}
    (hes : ∀ e ∈ es, e.IsRemoval) {id : SegmentId} {docs : List Document}
    {deletions : Option Bitmap}
    (hlook : dirs.lookup id = some (SegmentDir.written docs deletions)) :
    share SegmentDir.live ((es.foldl SegmentDirs.apply dirs).lookup id) = 0 ↔ Spent dirs es id := by
  rcases lookup_removed hes hlook with ⟨hgone, hfold⟩ | ⟨name, hne, hname, dir, hfold, hlack⟩ |
    ⟨hnot, hall, hfold⟩
  · rw [hfold]
    exact iff_of_true rfl (Or.inl hgone)
  · rw [hfold, share_some, SegmentDir.live_of_not_open hlack.openDir]
    exact iff_of_true rfl (Or.inr (Or.inl ⟨name, hne, hname⟩))
  · have hspent : Spent dirs es id ↔ share (if .unlink id .deletions ∈ es then SegmentDir.stored
        else SegmentDir.live) (dirs.lookup id) = 0 := by
      refine ⟨fun h => ?_, fun h => Or.inr (Or.inr h)⟩
      rcases h with h | ⟨name, hne, hname⟩ | h
      · exact absurd h hnot
      · exact absurd (hall name hname) hne
      · exact h
    rw [hspent, hfold, hlook, share_some, share_some]
    by_cases hdel : .unlink id .deletions ∈ es
    · rw [if_pos hdel, if_pos hdel, SegmentDir.live_written_none, SegmentDir.stored_written]
    · rw [if_neg hdel, if_neg hdel]

/-- Removing whole directories leaves only whole ones that open. -/
theorem Intact.removed {dirs : SegmentDirs} (h : Intact dirs) {es : List DirEffect}
    (hes : ∀ e ∈ es, e.IsRemoval)
    (hwhole : ∀ e ∈ es, ∃ docs deletions,
      dirs.lookup e.target = some (SegmentDir.written docs deletions)) :
    Intact (es.foldl SegmentDirs.apply dirs) := by
  intro id dir hlook hopen
  by_cases htarget : ∃ e ∈ es, e.target = id
  · obtain ⟨e, he, rfl⟩ := htarget
    obtain ⟨docs, deletions, hwritten⟩ := hwhole e he
    rcases lookup_removed hes hwritten with ⟨-, hfold⟩ | ⟨-, -, -, dir', hfold, hlack⟩ |
      ⟨-, -, hfold⟩
    · rw [hfold] at hlook
      cases hlook
    · rw [hfold, Option.some.injEq] at hlook
      rw [← hlook, hlack.openDir] at hopen
      exact absurd rfl hopen
    · rw [hfold, Option.some.injEq] at hlook
      exact ⟨docs, _, hlook.symm⟩
  · have hfilter : es.filter (fun e => e.target = id) = [] := by
      rw [List.filter_eq_nil_iff]
      intro e he
      simpa using fun heq => htarget ⟨e, he, heq⟩
    rw [SegmentDirs.lookup_foldl_apply, hfilter] at hlook
    exact h id dir hlook hopen

end ZearchEngine
