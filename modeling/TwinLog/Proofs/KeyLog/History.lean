/-
  TwinLog.Proofs.KeyLog.History — an index over all the sessions of its file.

  An index has its directory in memory, and the file is what survives. `Used path k v` says
  that `k` is open on the volume `v` and that nothing but an index has ever written the file
  at `path`, since there was none: sessions followed each other, in each any calls were made
  and any of them may have failed, and a session ended with a close or was just let go of.
  What a session has recorded and not committed is still in the file then, behind the cursor
  of the header; the next session writes over it.

  All the same the file and the directory agree at any moment (`Intact`): the records of the
  directory are the bytes from behind the header up to the cursor, and the header stands at
  the end of one of them. So opening the file as it is cannot find it damaged, and answers
  the records below the cursor of the header (`used_intact`).
-/

import TwinLog.KeyLog.Gate
import TwinLog.Proofs.KeyLog.Upkeep

namespace TwinLog

/-- The file keeps its name and its bytes; anything else may change. -/
structure Volume.Spares (v : Volume) (path : String) (w : Volume) : Prop where
  sound : w.Sound
  kept : ∀ f, v.Names path f → w.Names path f ∧ w.disk.image f = v.disk.image f

theorem Volume.Spares.refl {v : Volume} (hv : v.Sound) (path : String) : v.Spares path v :=
  ⟨hv, fun _ hf => ⟨hf, rfl⟩⟩

namespace Directory

def Named (dir : Directory) : Prop := ∀ e ∈ dir, e.key ≠ ""

/-- No record reaches over this offset: it is that of the first one or the end of another. -/
def Bounds (dir : Directory) (offset : Nat) : Prop := offset = headSize ∨ ∃ e ∈ dir, e.finish = offset

end Directory

namespace KeyLog

inductive Request where
  | add (space : Volume.Space) (key : String) (location : Location)
  | get (key : String)
  | contains (key : String)
  | commit
  | rollback

/-- The index and the disk after a request, whether it has succeeded or not. -/
def serve (k : KeyLog) (d : Disk) : Request → KeyLog × Disk
  | .add space key l => (k.add space d key l).2
  | .get _ | .contains _ => (k, d)
  | .commit => (Gate.storing commit k d).2
  | .rollback => (Gate.storing rollback k d).2

/-- The volume that a session leaves, closed or just let go of. -/
def left (k : KeyLog) (v : Volume) (closes : Bool) : Volume :=
  { v with disk := if closes then k.close v.disk else v.disk }

/-- `k` is open on `v`, and only indexes have written its file. -/
inductive Used (path : String) : KeyLog → Volume → Prop
  | first {v v' : Volume} {folder capacity : Nat} {name : String} {k : KeyLog} (sound : v.Sound)
      (absent : v.Vacant path folder name) (opened : openAt v path capacity = (.ok k, v')) : Used path k v'
  | asked {k : KeyLog} {v : Volume} (before : Used path k v) (r : Request) :
      Used path (k.serve v.disk r).1 { v with disk := (k.serve v.disk r).2 }
  | meanwhile {k : KeyLog} {v w : Volume} (before : Used path k v) (change : v.Spares path w) : Used path k w
  | again {k k' : KeyLog} {v w w' : Volume} {capacity : Nat} (before : Used path k v) (closes : Bool)
      (change : (k.left v closes).Spares path w) (opened : openAt w path capacity = (.ok k', w')) :
      Used path k' w'

/-- The directory and the file agree, and the header stands at `persisted`. -/
structure Intact (k : KeyLog) (d : Disk) (persisted : Nat) : Prop where
  laid : Laid (d.image k.log.file) headSize k.directory k.cursor
  sorted : k.directory.Pairwise fun e e' => e.keyOffset < e'.keyOffset
  bytes : (d.image k.log.file).read headSize (k.cursor - headSize) = k.directory.flatMap Entry.bytes
  distinct : k.directory.Distinct
  named : k.directory.Named
  headed : (d.image k.log.file).Headed persisted
  persisted_bounds : k.directory.Bounds persisted
  persisted_within : headSize ≤ persisted ∧ persisted ≤ k.cursor
  checkpoint_bounds : k.directory.Bounds k.checkpoint
  checkpoint_within : headSize ≤ k.checkpoint ∧ k.checkpoint ≤ k.cursor
  cursor_le : k.cursor ≤ k.capacity
  length : (d.image k.log.file).length = k.capacity

variable {path : String} {k k' : KeyLog} {v v' w w' : Volume} {d : Disk} {opening saved : Directory} {capacity : Nat}

/-! ## One request -/

/-- A request keeps the records of the file, and what is new in the directory has a key. -/
theorem Steady.serve (h : Steady opening k.checkpoint saved k d) (hn : k.directory.Named) (r : Request) :
    (∃ saved', Steady opening (k.serve d r).1.checkpoint saved' (k.serve d r).1 (k.serve d r).2) ∧
      (k.serve d r).1.directory.Named ∧ (k.serve d r).1.log.file = k.log.file ∧
      d.files.size ≤ (k.serve d r).2.files.size := by
  cases r with
  | add space key l =>
    rcases hadd : k.add space d key l with ⟨r, k', d'⟩
    obtain ⟨hs, hg, hdir⟩ := h.add hadd
    simp only [KeyLog.serve, hadd]
    refine ⟨⟨saved, hg.checkpoint ▸ hs⟩, ?_, hg.file, Nat.le_of_eq hg.only.size.symm⟩
    rcases hdir with ⟨-, hne, -, hdir⟩ | ⟨-, hdir⟩
    · rw [hdir]
      intro e he
      rcases List.mem_append.mp he with he | he
      · exact hn e he
      · rw [List.mem_singleton.mp he]
        exact hne
    · rw [hdir]
      exact hn
  | get key => exact ⟨⟨saved, h⟩, hn, rfl, Nat.le_refl _⟩
  | contains key => exact ⟨⟨saved, h⟩, hn, rfl, Nat.le_refl _⟩
  | commit =>
    simp only [KeyLog.serve, Gate.storing]
    cases hc : k.commit d with
    | error e => exact ⟨⟨saved, h⟩, hn, rfl, Nat.le_refl _⟩
    | ok d' =>
      obtain ⟨hs, ho⟩ := h.commit hc
      exact ⟨⟨_, hs⟩, hn, rfl, Nat.le_of_eq ho.size.symm⟩
  | rollback =>
    simp only [KeyLog.serve, Gate.storing]
    cases hc : k.rollback d with
    | error e => exact ⟨⟨saved, h⟩, hn, rfl, Nat.le_refl _⟩
    | ok d' =>
      obtain ⟨hs, ho⟩ := h.rollback hc
      exact ⟨⟨_, hs⟩, hn, rfl, Nat.le_of_eq ho.size.symm⟩

/-! ## Opening what a session leaves -/

theorem checkSpace_not_corrupt {space : Volume.Space} {required : Nat} {damage : Damage} :
    Log.checkSpace space path required ≠ .error (.corruption damage) := by
  unfold Log.checkSpace
  split
  · simp
  · split <;> simp

/-- Opening a log reads none of its bytes, so it cannot find them damaged. -/
theorem log_not_corrupt {damage : Damage} : Log.openAt w path capacity ≠ .error (.corruption damage) := by
  unfold Log.openAt
  split
  · simp
  dsimp only
  split
  · rename_i e he
    rintro heq
    cases heq
    exact checkSpace_not_corrupt he
  · split <;> simp

/-- A file that holds a directory is not damaged, and the directory is what is found. -/
theorem openAt_of_stored (hw : w.Sound) {dir : Directory} {stop cursor : Nat} {f : FileId} (hf : w.Names path f)
    (hs : Stored (w.disk.image f) dir stop cursor) (capacity : Nat) :
    (∀ damage, (openAt w path capacity).1 ≠ .error (.corruption damage)) ∧
      (∀ k' w', openAt w path capacity = (.ok k', w') → k'.directory = dir ∧ k'.cursor = cursor) ∧
      (Log.Room w path capacity → ∃ k' w', openAt w path capacity = (.ok k', w')) := by
  have hopen {log : Log} {w' : Volume} (h : Log.openAt w path capacity = .ok (log, w')) :
      openAt w path capacity = (.ok ⟨log, cursor, cursor, dir⟩, w') := by
    have hr := (Log.openAt_spec hw h).reaches.unique (.inl hf)
    exact (openAt_stored hw h (hr ▸ hs)).1
  refine ⟨?_, ?_, ?_⟩
  · intro damage
    cases hlog : Log.openAt w path capacity with
    | error e =>
      unfold openAt
      rw [hlog]
      rintro heq
      cases heq
      exact log_not_corrupt hlog
    | ok opened =>
      rw [hopen hlog]
      exact fun heq => nomatch heq
  · intro k' w' h
    have hsame := h.symm.trans (hopen (log_of_openAt h))
    obtain ⟨hk, -⟩ := Prod.mk.inj hsame
    rw [Except.ok.inj hk]
    exact ⟨rfl, rfl⟩
  · intro hroom
    obtain ⟨log, w', hlog, -⟩ := Log.openAt_ok hw (.inl hf) hroom
    exact ⟨_, w', hopen hlog⟩

/-! ## All requests -/

structure Upheld (path : String) (k : KeyLog) (v : Volume) : Prop where
  sound : v.Sound
  names : v.Names path k.log.file
  steady : ∃ opening saved, Steady opening k.checkpoint saved k v.disk
  named : k.directory.Named

namespace Upheld

/-- The header covers a first part of the directory, and the session began behind one. -/
theorem rows (h : Upheld path k v) : ∃ saved rest opening added middle,
    k.directory = saved ++ rest ∧ Laid (v.disk.image k.log.file) headSize saved middle ∧
      Laid (v.disk.image k.log.file) middle rest k.cursor ∧ (v.disk.image k.log.file).Headed middle ∧
      k.directory = opening ++ added ∧ Laid (v.disk.image k.log.file) headSize opening k.checkpoint ∧
      Laid (v.disk.image k.log.file) k.checkpoint added k.cursor := by
  obtain ⟨opening, saved, hs⟩ := h.steady
  obtain ⟨added, hadd, hadded⟩ := hs.added
  obtain ⟨kept, rest, middle, hdir, -, hkept, hrest, hh⟩ := hs.rows
  exact ⟨opening ++ kept, rest, opening, added, middle, hdir, hs.opened.append hkept, hrest, hh, hadd, hs.opened,
    hadded⟩

theorem intact (h : Upheld path k v) : ∃ persisted, Intact k v.disk persisted := by
  obtain ⟨saved, rest, opening, added, middle, hdir, hsaved, hrest, hh, hadd, hopening, hadded⟩ := h.rows
  obtain ⟨_, _, hs⟩ := h.steady
  have hlaid : Laid (v.disk.image k.log.file) headSize k.directory k.cursor := by
    rw [hdir]
    exact hsaved.append hrest
  have bounds {a b : Directory} {p : Nat} (hab : k.directory = a ++ b)
      (ha : Laid (v.disk.image k.log.file) headSize a p) : k.directory.Bounds p := by
    refine ha.finish_mem.imp_right ?_
    rintro ⟨e, he, hfin⟩
    exact ⟨e, hab ▸ List.mem_append_left b he, hfin⟩
  exact ⟨middle, {
    laid := hlaid
    sorted := hlaid.sorted.imp fun {e e'} hlt => by
      unfold Entry.finish at hlt
      omega
    bytes := hlaid.read_eq
    distinct := hs.distinct
    named := h.named
    headed := hh
    persisted_bounds := bounds hdir hsaved
    persisted_within := ⟨hsaved.le, hrest.le⟩
    checkpoint_bounds := bounds hadd hopening
    checkpoint_within := ⟨hopening.le, hadded.le⟩
    cursor_le := hs.cursor_le
    length := hs.mounted.length_eq }⟩

end Upheld

theorem Intact.stored {persisted : Nat} (h : Intact k d persisted) :
    Stored (d.image k.log.file) (k.directory.filter (·.finish ≤ persisted)) persisted persisted := by
  obtain ⟨first, rest, hdir, hfirst, hrest⟩ := h.laid.part h.persisted_bounds
  have hlen := h.length
  have hcap := h.cursor_le
  have hle := h.persisted_within.2
  have hd := h.distinct
  rw [hdir] at hd ⊢
  rw [hfirst.filter_finish hrest]
  exact ⟨.inr ⟨h.headed, by omega⟩, hfirst, .inl rfl, hd.left⟩

namespace Upheld

theorem spares (h : Upheld path k v) (hw : v.Spares path w) : Upheld path k w := by
  obtain ⟨opening, saved, hs⟩ := h.steady
  obtain ⟨hname, himage⟩ := hw.kept _ h.names
  have hm : k.log.Mounted w.disk :=
    ⟨hname.file_lt hw.sound, himage ▸ hs.mounted.length_eq, hs.mounted.head_le⟩
  have hk : Image.Keeps 0 k.cursor (v.disk.image k.log.file) (w.disk.image k.log.file) := by
    rw [himage]
    exact .refl
  exact ⟨hw.sound, hname, ⟨opening, saved, hs.keep k.log hm (Nat.le_refl _) hk⟩, h.named⟩

theorem onDisk (h : Upheld path k v) (hsize : v.disk.files.size ≤ d.files.size) (hfile : k'.log.file = k.log.file)
    (hs : ∃ opening saved, Steady opening k'.checkpoint saved k' d) (hn : k'.directory.Named) :
    Upheld path k' { v with disk := d } :=
  ⟨h.sound.of_nodes rfl hsize, hfile ▸ h.names.grown h.sound (.of_nodes rfl), hs, hn⟩

theorem serve (h : Upheld path k v) (r : Request) :
    Upheld path (k.serve v.disk r).1 { v with disk := (k.serve v.disk r).2 } := by
  obtain ⟨opening, saved, hs⟩ := h.steady
  obtain ⟨⟨saved', hs'⟩, hn, hfile, hsize⟩ := hs.serve h.named r
  exact h.onDisk hsize hfile ⟨opening, saved', hs'⟩ hn

/-- Closing an index changes nothing up to the end of its file. -/
theorem left_keeps (h : Upheld path k v) (closes : Bool) :
    Image.Keeps 0 k.capacity (v.disk.image k.log.file) ((k.left v closes).disk.image k.log.file) := by
  obtain ⟨opening, saved, hs⟩ := h.steady
  cases closes with
  | false => exact .refl
  | true => exact (Log.flush_spec hs.mounted).2.2

theorem left (h : Upheld path k v) (closes : Bool) : Upheld path k (k.left v closes) := by
  obtain ⟨opening, saved, hs⟩ := h.steady
  have hk := h.left_keeps closes
  cases closes with
  | false => exact h
  | true =>
    obtain ⟨hm, ho, -⟩ := Log.flush_spec hs.mounted
    have hs' := hs.keep k.log hm (Nat.le_refl _) (hk.mono (Nat.le_refl _) hs.cursor_le)
    exact h.onDisk (Nat.le_of_eq ho.size.symm) rfl ⟨opening, saved, hs'⟩ h.named

theorem of_stored {dir : Directory} {cursor : Nat} (hv : v.Sound) {log : Log}
    (h : Log.openAt v path capacity = .ok (log, v')) (hs : Stored (v.disk.image log.file) dir cursor cursor)
    (hn : dir.Named) : Upheld path ⟨log, cursor, cursor, dir⟩ v' := by
  obtain ⟨hopen, hs'⟩ := openAt_stored hv h hs
  have ho := openAt_spec hv hopen
  exact ⟨ho.log.sound, ho.log.names, ⟨dir, dir, ho.steady hs'⟩, hn⟩

end Upheld

theorem upheld_first (hv : v.Sound) {folder : Nat} {name : String} (hvac : v.Vacant path folder name)
    (h : openAt v path capacity = (.ok k, v')) : Upheld path k v' := by
  have hlog := log_of_openAt h
  have hnew := (Log.openAt_spec hv hlog).reaches.unique (.inr ⟨rfl, folder, name, hvac⟩)
  have hs : Stored (v.disk.image k.log.file) [] headSize headSize := by
    rw [hnew, v.disk.image_of_size_le (Nat.le_refl _)]
    exact stored_empty rfl
  have hu := Upheld.of_stored hv hlog hs fun e he => nomatch he
  have hsame := h.symm.trans (openAt_stored hv hlog hs).1
  rwa [← Except.ok.inj (Prod.mk.inj hsame).1] at hu

theorem Upheld.again (h : Upheld path k v) {closes : Bool} (hw : (k.left v closes).Spares path w)
    (hopen : openAt w path capacity = (.ok k', w')) : Upheld path k' w' := by
  have hu := (h.left closes).spares hw
  obtain ⟨persisted, hi⟩ := hu.intact
  have hlog := log_of_openAt hopen
  have hfile := (Log.openAt_spec hw.sound hlog).reaches.unique (.inl hu.names)
  have hs := hi.stored
  rw [← hfile] at hs
  have hn : Directory.Named (k.directory.filter (·.finish ≤ persisted)) :=
    fun e he => h.named e (List.mem_filter.mp he).1
  have hu' := Upheld.of_stored hw.sound hlog hs hn
  have hsame := hopen.symm.trans (openAt_stored hw.sound hlog hs).1
  rwa [← Except.ok.inj (Prod.mk.inj hsame).1] at hu'

theorem Used.upheld (h : Used path k v) : Upheld path k v := by
  induction h with
  | first sound absent opened => exact upheld_first sound absent opened
  | asked before r ih => exact ih.serve r
  | meanwhile before change ih => exact ih.spares change
  | again before closes change opened ih => exact ih.again change opened

/-- What is left of an index opens with the records up to the cursor in its header. -/
theorem Upheld.opens_again {persisted : Nat} (h : Upheld path k v) (hi : Intact k v.disk persisted) {closes : Bool}
    (hw : (k.left v closes).Spares path w) (capacity : Nat) :
    (∀ damage, (openAt w path capacity).1 ≠ .error (.corruption damage)) ∧
      (∀ k' w', openAt w path capacity = (.ok k', w') →
        k'.directory = k.directory.filter (·.finish ≤ persisted) ∧ k'.cursor = persisted) ∧
      (Log.Room w path capacity → ∃ k' w', openAt w path capacity = (.ok k', w')) := by
  have hleft := (h.left closes).spares hw
  obtain ⟨persisted', hi'⟩ := hleft.intact
  have hcur : headSize ≤ k.cursor := Nat.le_trans hi.persisted_within.1 hi.persisted_within.2
  -- the header has not changed on the way
  have hh : (w.disk.image k.log.file).Headed persisted := by
    rw [(hw.kept _ (h.left closes).names).2]
    exact hi.headed.congr ((h.left_keeps closes).mono (Nat.le_refl _) (Nat.le_trans hcur hi.cursor_le))
  rw [hh.unique hi'.headed]
  exact openAt_of_stored hw.sound hleft.names hi'.stored capacity

/-- Whatever was asked of an index and of those before it on the same file: directory and
    file agree. Opening the file as it is, with the index still open, closed or let go of, is
    not refused as corruption, and answers the records that end at the cursor of the header
    or before; with enough free space it succeeds. -/
theorem used_intact (h : Used path k v) : ∃ persisted, Intact k v.disk persisted ∧
    ∀ closes w, (k.left v closes).Spares path w → ∀ capacity,
      (∀ damage, (openAt w path capacity).1 ≠ .error (.corruption damage)) ∧
      (∀ k' w', openAt w path capacity = (.ok k', w') →
        k'.directory = k.directory.filter (·.finish ≤ persisted) ∧ k'.cursor = persisted) ∧
      (Log.Room w path capacity → ∃ k' w', openAt w path capacity = (.ok k', w')) := by
  have hu := h.upheld
  obtain ⟨persisted, hi⟩ := hu.intact
  refine ⟨persisted, hi, ?_⟩
  intro closes w hw capacity
  exact hu.opens_again hi hw capacity

def newVolume : Volume := ⟨#[.folder 0 [("work", 1)], .folder 0 [("index.bin", 2)], .file 0], ⟨#[⟨{}, 48⟩]⟩, 4096⟩

def newIndex : KeyLog := ⟨⟨"index.bin", 0, 48⟩, headSize, headSize, []⟩

theorem new_opens : openAt (.empty 4096) "index.bin" 40 = (.ok newIndex, newVolume) := by
  have hlog : Log.openAt (.empty 4096) "index.bin" 40 = .ok (newIndex.log, newVolume) := by
    set_option maxRecDepth 20000 in rfl
  exact (openAt_stored (Volume.sound_empty 4096) hlog (stored_empty rfl)).1

/-- A session records two keys with a commit between them, and is let go of. The next one
    finds the first key alone. -/
theorem forgets_uncommitted_key :
    ∃ k v k' v' persisted, Used "index.bin" k v ∧ k.directory.keys = ["a", "bb"] ∧
      Used "index.bin" k' v' ∧ k'.directory.keys = ["a"] ∧ k'.Intact v'.disk persisted := by
  have hvac : (Volume.empty 4096).Vacant "index.bin" 1 "index.bin" := by rfl
  have hused := (((Used.first (Volume.sound_empty 4096) hvac new_opens).asked
    (.add (fun _ => .ok 4096) "a" ⟨3, 8, Checksum.of []⟩)).asked .commit).asked
    (.add (fun _ => .ok 4096) "bb" ⟨5, 11, Checksum.of []⟩)
  obtain ⟨persisted, hi, hreopen⟩ := used_intact hused
  have hsound := hused.upheld.sound
  obtain ⟨-, hfound, hopens⟩ := hreopen false _ (.refl hsound _) 40
  obtain ⟨k', v', hopen'⟩ := hopens ⟨by decide, 4096, by rfl, by decide, fun n hn => by cases hn; decide⟩
  have hused' := hused.again false (.refl hsound _) hopen'
  obtain ⟨persisted', hi', -⟩ := used_intact hused'
  refine ⟨_, _, k', v', persisted', hused, by decide +kernel, hused', ?_, hi'⟩
  have hpersisted : persisted = 53 := hi.headed.unique (.inr ⟨by decide +kernel, by decide⟩)
  rw [(hfound k' v' hopen').1, hpersisted]
  decide +kernel

end KeyLog

end TwinLog
