/-
  TwinLog.Proofs.Vault.Opening — opening both files of a vault.

  `openAt_iff` takes an opening apart: the working folder, the content log, the index. If
  both paths name files that hold something and there is room for them (`Granted`), the
  opening succeeds and finds what they hold (`reopen`).
-/

import TwinLog.Proofs.ContentLog.Returns
import TwinLog.Proofs.KeyLog.Upkeep
import TwinLog.Vault.Basic

namespace TwinLog

/-- Both files keep their names and their bytes; anything else may change. -/
structure Volume.Undisturbed (v : Volume) (storage index : String) (v' : Volume) : Prop where
  sound : v'.Sound
  storage : ∀ f, v.Names storage f → v'.Names storage f ∧ v'.disk.image f = v.disk.image f
  index : ∀ f, v.Names index f → v'.Names index f ∧ v'.disk.image f = v.disk.image f

namespace Vault

/-- The steps of an opening: `u` has the working folder, `w` the content log too. -/
structure Parts (v : Volume) (s : Settings) (u : Volume) (c : ContentLog) (w : Volume) (k : KeyLog)
    (v' : Volume) : Prop where
  check : s.check = .ok ()
  folders : v.makeFolders s.workingFolder = (.ok (), u)
  content : ContentLog.openAt u s.storagePath s.storageCapacity s.readBufferSize = (.ok c, w)
  index : KeyLog.openAt w s.indexPath s.indexCapacity = (.ok k, v')

def ofLogs (s : Settings) (c : ContentLog) (k : KeyLog) : Vault := ⟨s, some ⟨c, Gate.ofIndex k s.indexTimeout⟩⟩

variable {v v' u w : Volume} {s : Settings} {vault : Vault} {c : ContentLog} {k : KeyLog}

theorem openAt_iff :
    openAt v s = (.ok vault, v') ↔ ∃ u c w k, Parts v s u c w k v' ∧ vault = ofLogs s c k := by
  constructor
  · intro h
    unfold openAt at h
    split at h
    · cases h
    rename_i hcheck
    split at h
    · cases h
    rename_i u hfolders
    split at h
    · cases h
    rename_i c w hcontent
    split at h
    · cases h
    rename_i k x hindex
    cases h
    exact ⟨u, c, w, k, ⟨hcheck, hfolders, hcontent, hindex⟩, rfl⟩
  · rintro ⟨u, c, w, k, h, rfl⟩
    unfold openAt
    simp only [h.check, h.folders, h.content, h.index]
    rfl

theorem Parts.sound (hv : v.Sound) (h : Parts v s u c w k v') : v'.Sound := by
  have hu := Volume.makeFolders_furnished hv h.folders
  have hc := ContentLog.openAt_spec hu.sound h.content
  exact (KeyLog.openAt_spec hc.log.sound h.index).log.sound

theorem openAt_sound (hv : v.Sound) (h : openAt v s = (.ok vault, v')) : v'.Sound := by
  obtain ⟨u, c, w, k, hparts, -⟩ := openAt_iff.mp h
  exact hparts.sound hv

structure Parts.Leaves (s : Settings) (c : ContentLog) (k : KeyLog) (w v' : Volume) : Prop where
  storage : v'.Names s.storagePath c.log.file
  index_names : v'.Names s.indexPath k.log.file
  resting : c.Resting v'.disk
  checkpoint : c.checkpoint = c.cursor
  headed : (v'.disk.image c.log.file).Headed c.cursor
  image : v'.disk.image c.log.file = w.disk.image c.log.file
  index : ∃ stop, k.Steady k.directory stop k.directory v'.disk

theorem Parts.leaves (hv : v.Sound) (h : Parts v s u c w k v') (hne : c.log.file ≠ k.log.file) :
    Leaves s c k w v' := by
  have hu := Volume.makeFolders_furnished hv h.folders
  have hc := ContentLog.openAt_spec hu.sound h.content
  have hk := KeyLog.openAt_spec hc.log.sound h.index
  have himage : v'.disk.image c.log.file = w.disk.image c.log.file := hk.log.others _ hne
  obtain ⟨stop, hstored⟩ := hk.stored
  exact {
    storage := hc.log.names.grown hc.log.sound hk.log.grows
    index_names := hk.log.names
    resting := { hc.resting with mounted := hc.resting.mounted.of_image hk.log.size_le himage }
    checkpoint := hc.checkpoint
    headed := himage ▸ hc.headed
    image := himage
    index := ⟨stop, hk.steady hstored⟩ }

/-- An opening of two different files with nothing in them finds nothing. -/
theorem opens_fresh {l : Logs} (hv : v.Sound) (h : openAt v s = (.ok vault, v')) (hl : vault.logs = some l)
    (hne : l.content.log.file ≠ l.index.index.log.file) (hc : (v.disk.image l.content.log.file).length = 0)
    (hi : (v.disk.image l.index.index.log.file).length = 0) :
    l.content.cursor = headSize ∧ l.index.index.directory = [] ∧ l.index.index.checkpoint = headSize := by
  obtain ⟨u, c, w, k, hparts, rfl⟩ := openAt_iff.mp h
  cases hl
  have hu := Volume.makeFolders_furnished hv hparts.folders
  have ho := ContentLog.openAt_spec hu.sound hparts.content
  have hcursor := ho.cursor_eq (.inl ⟨by rw [hu.disk]; exact hc, rfl⟩)
  have hempty : (w.disk.image k.log.file).length = 0 := by
    rw [ho.log.others k.log.file (Ne.symm hne), hu.disk]
    exact hi
  have hopen := KeyLog.log_of_openAt hparts.index
  obtain ⟨hk, -⟩ := KeyLog.openAt_stored ho.log.sound hopen (KeyLog.stored_empty hempty)
  have hk := Except.ok.inj (congrArg Prod.fst (hparts.index.symm.trans hk))
  exact ⟨hcursor, congrArg KeyLog.directory hk, congrArg KeyLog.checkpoint hk⟩

/-- The system lets the vault be opened: its settings are good, its folder can be made, and
    there is room for both files. -/
structure Granted (v : Volume) (s : Settings) (u : Volume) : Prop where
  check : s.check = .ok ()
  folders : v.makeFolders s.workingFolder = (.ok (), u)
  content : Log.Room u s.storagePath s.storageCapacity
  index : Log.Room u s.indexPath s.indexCapacity

theorem readBufferSize_pos (h : s.check = .ok ()) : 0 < s.readBufferSize := by
  unfold Settings.check at h
  split at h
  · cases h
  split at h
  · cases h
  split at h
  · cases h
  split at h
  · cases h
  · rename_i hne
    exact Nat.pos_of_ne_zero hne

theorem content_opens (hu : u.Sound) (hg : Granted v s u) {f : FileId} (hf : u.Reaches s.storagePath f)
    {p : Nat} (hp : (u.disk.image f).Resumes p) :
    ∃ c w, ContentLog.openAt u s.storagePath s.storageCapacity s.readBufferSize = (.ok c, w) ∧
      c.log.file = f ∧ c.cursor = p := by
  obtain ⟨log, w, hlog, rfl⟩ := Log.openAt_ok hu hf hg.content
  exact ⟨_, w, ContentLog.openAt_resumes hu hlog hp (readBufferSize_pos hg.check), rfl, rfl⟩

theorem index_opens (hw : w.Sound) {f : FileId} (hf : w.Reaches s.indexPath f)
    (hroom : Log.Room w s.indexPath s.indexCapacity) {dir : Directory} {stop cursor : Nat}
    (hs : KeyLog.Stored (w.disk.image f) dir stop cursor) :
    ∃ k v', KeyLog.openAt w s.indexPath s.indexCapacity = (.ok k, v') ∧ k.log.file = f ∧ k.directory = dir := by
  obtain ⟨log, v', hlog, rfl⟩ := Log.openAt_ok hw hf hroom
  exact ⟨_, v', (KeyLog.openAt_stored hw hlog hs).1, rfl, rfl⟩

/-- A granted opening of two files that are there finds what they hold. -/
theorem reopen (hv : v.Sound) (hg : Granted v s u) {fc fi : FileId} (hc : v.Names s.storagePath fc)
    (hi : v.Names s.indexPath fi) (hne : fc ≠ fi) {p stop cursor : Nat} {dir : Directory}
    (hp : (v.disk.image fc).Resumes p) (hs : KeyLog.Stored (v.disk.image fi) dir stop cursor) :
    ∃ c w k v', Parts v s u c w k v' ∧ c.log.file = fc ∧ c.cursor = p ∧ k.log.file = fi ∧ k.directory = dir := by
  have hu := Volume.makeFolders_furnished hv hg.folders
  have hci := hi.grown hv hu.grows
  rw [← hu.disk] at hp hs
  obtain ⟨c, w, hopen, hfile, hcursor⟩ := content_opens hu.sound hg (.inl (hc.grown hv hu.grows)) hp
  have ho := (ContentLog.openAt_spec hu.sound hopen).log
  have hiw := hci.grown hu.sound ho.grows
  have himage : w.disk.image fi = u.disk.image fi := ho.others fi (by rw [hfile]; exact Ne.symm hne)
  have hroom : Log.Room w s.indexPath s.indexCapacity := by
    refine ho.room hu.sound ?_ hg.index
    intro n hn
    rw [hci.length, ← himage, ← hiw.length]
    exact hn
  rw [← himage] at hs
  obtain ⟨k, v', hindex, hkfile, hdir⟩ := index_opens ho.sound (.inl hiw) hroom hs
  exact ⟨c, w, k, v', ⟨hg.check, hg.folders, hopen, hindex⟩, hfile, hcursor, hkfile, hdir⟩

end Vault

end TwinLog
