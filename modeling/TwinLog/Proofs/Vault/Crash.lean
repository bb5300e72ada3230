/-
  TwinLog.Proofs.Vault.Crash — what is found after a stop at any point, if nothing was
  rolled back.

  A commit writes the content log's header first, and no add is under way then. So
  whatever the adds and commits of any number of threads have done, the records that the
  index's header covers name content that the content log's header covers, between the
  two writes of a commit as well (`saved_covered`). Content that was once returned stays,
  and the bytes of the opening stay below it. `Vault.Backed` says that every key of an
  open vault has a blob to it; if the files opened so, then every opening after a stop
  finds them so again, with the blobs that adds have recorded in between
  (`reopens_backed`).
-/

import Mathlib.Control.Monad.Basic
import TwinLog.Proofs.Vault.Service

namespace TwinLog

/-- The content of an entry is that of one of the blobs, and can be read. -/
structure Entry.Backed (blobs : Blob → Prop) (c : ContentLog) (d : Disk) (e : Entry) : Prop where
  place : e.location.size = 0 ∨ headSize ≤ e.location.offset ∧ e.location.finish ≤ c.cursor
  content : ∃ b, blobs b ∧ b.key = e.key ∧ b.location = e.location ∧
    e.location.checksum = Checksum.of b.bytes ∧ c.get d e.location = .ok b.bytes

def Vault.Backed (blobs : Blob → Prop) (vault : Vault) (d : Disk) : Prop :=
  ∃ l, vault.logs = some l ∧ ∀ e ∈ l.index.index.directory, e.Backed blobs l.content d

/-! ## Contents in a file -/

structure Blob.Filed (b : Blob) (im : Image) (bound : Nat) : Prop where
  checksum : b.location.checksum = Checksum.of b.bytes
  empty : b.location.size = 0 → b.bytes = []
  lies : 0 < b.location.size → b.Lies im bound

namespace Blob.Filed

variable {b : Blob} {im im' : Image} {bound bound' : Nat}

theorem keep (h : b.Filed im bound) (hk : Image.Keeps headSize bound im im') : b.Filed im' bound :=
  { h with lies := fun hpos => (h.lies hpos).keep hk (Nat.le_refl _) }

theorem below (h : b.Filed im bound) (hb : b.location.size = 0 ∨ b.location.finish ≤ bound') :
    b.Filed im bound' :=
  { h with lies := fun hpos => { h.lies hpos with finish_le := hb.resolve_left (Nat.ne_of_gt hpos) } }

theorem backed {blobs : Blob → Prop} {c : ContentLog} {d : Disk} {e : Entry}
    (h : b.Filed (d.image c.log.file) c.cursor) (hc : c.Resting d) (hb : blobs b) (hkey : b.key = e.key)
    (hlocation : b.location = e.location) : e.Backed blobs c d := by
  refine ⟨?_, b, hb, hkey, hlocation, hlocation ▸ h.checksum, ?_⟩
  · rw [← hlocation]
    by_cases h0 : b.location.size = 0
    · exact .inl h0
    · have hlies := h.lies (Nat.pos_of_ne_zero h0)
      exact .inr ⟨hlies.offset_le, hlies.finish_le⟩
  · rw [← hlocation]
    by_cases h0 : b.location.size = 0
    · rw [ContentLog.get, if_pos h0, h.empty h0]
    · exact hc.get (h.lies (Nat.pos_of_ne_zero h0))

end Blob.Filed

theorem ContentLog.read_of_get {c : ContentLog} {d : Disk} {l : Location} {bs : List UInt8}
    (h : c.get d l = .ok bs) : (d.image c.log.file).read l.offset l.size = bs := by
  unfold get at h
  split at h
  · rename_i h0
    cases h
    rw [h0]
    rfl
  · split at h
    · cases h
    · unfold Log.read at h
      split at h
      · cases h
      · cases h
        rfl

theorem Entry.Backed.filed {blobs : Blob → Prop} {c : ContentLog} {d : Disk} {e : Entry}
    (h : e.Backed blobs c d) :
    ∃ b, blobs b ∧ b.key = e.key ∧ b.location = e.location ∧ b.Filed (d.image c.log.file) c.cursor := by
  obtain ⟨hplace, b, hb, hkey, hlocation, hchecksum, hget⟩ := h
  have hread := ContentLog.read_of_get hget
  refine ⟨b, hb, hkey, hlocation, hlocation ▸ hchecksum, ?_, ?_⟩
  · intro h0
    rw [hlocation] at h0
    rw [h0] at hread
    exact hread.symm
  · intro hpos
    rw [hlocation] at hpos
    obtain ⟨hlo, hhi⟩ := hplace.resolve_left (Nat.ne_of_gt hpos)
    rw [← hlocation] at hlo hhi hread
    exact ⟨hlo, hhi, hread⟩

/-! ## While the vault is open -/

/-- What the index's header covers lies below the content log's header, unless a rollback
    was the last to write that one. -/
theorem Twin.Sound.saved_covered {g : Ground} {p : Nat} {saved : Directory} {t : Twin} (h : t.Sound g p saved)
    (hlast : t.contentDeeds.head? ≠ some .rollback) : saved.Covered p := by
  cases hd : t.contentDeeds with
  | nil =>
    rw [h.after hd]
    exact h.old.mono h.base_le
  | cons deed rest =>
    cases deed with
    | commit => exact h.committed (by rw [hd]; rfl)
    | rollback => exact absurd (by rw [hd]; rfl) hlast

namespace Service

variable {g : Ground} {p : Nat} {saved : Directory} {s : Service} {blobs : Blob → Prop}

/-- What an add has recorded is in the file. -/
theorem Stands.filed_recorded (h : s.Stands g p saved) {b : Blob} (hb : s.Recorded b) :
    b.Filed (s.twin.traffic.disk.image s.twin.traffic.log.log.file) s.twin.traffic.log.cursor := by
  have hcontent := h.twin.content
  obtain ⟨i, slot, -, hret⟩ := hb
  obtain ⟨hlocation, -, hread, hheld⟩ := Traffic.returned_spec hcontent hret
  refine ⟨by rw [hlocation], ?_, ?_⟩
  · intro h0
    rw [h0] at hread
    exact hread.symm
  · intro hpos
    obtain ⟨hlo, -, hhi⟩ := hcontent.held_bounds (hheld hpos)
    exact ⟨Nat.le_trans hcontent.head_le hlo, hhi, hread⟩

/-- Every key of the directory has a blob to it in the file. -/
theorem Stands.filed (h : s.Stands g p saved)
    (hopening : ∀ e ∈ g.opening, ∃ b, blobs b ∧ b.key = e.key ∧ b.location = e.location ∧
      b.Filed g.first g.base)
    {e : Entry} (he : e ∈ s.twin.index.index.directory) :
    ∃ b, (blobs b ∨ s.Recorded b) ∧ b.key = e.key ∧ b.location = e.location ∧
      b.Filed (s.twin.traffic.disk.image s.twin.traffic.log.log.file) s.twin.traffic.log.cursor := by
  have hcontent := h.twin.content
  rcases h.listed e he with ho | ⟨bs, hrecorded⟩
  · obtain ⟨b, hb, hkey, hlocation, hfiled⟩ := hopening e ho
    refine ⟨b, .inl hb, hkey, hlocation, (hfiled.keep hcontent.below).below ?_⟩
    by_cases h0 : b.location.size = 0
    · exact .inl h0
    · exact .inr (Nat.le_trans (hfiled.lies (Nat.pos_of_ne_zero h0)).finish_le hcontent.base_le_cursor)
  · exact ⟨_, .inr hrecorded, rfl, rfl, h.filed_recorded hrecorded⟩

/-- What the run leaves in the two files if no rollback was the last to write a header. -/
theorem Stands.remains (h : s.Stands g p saved) (hlast : s.twin.contentDeeds.head? ≠ some .rollback)
    (hopening : ∀ e ∈ g.opening, ∃ b, blobs b ∧ b.key = e.key ∧ b.location = e.location ∧
      b.Filed g.first g.base) :
    (s.twin.traffic.disk.image g.storage).Resumes p ∧
      ∃ dir stop cursor, KeyLog.Stored (s.twin.traffic.disk.image g.index) dir stop cursor ∧
        ∀ e ∈ dir, ∃ b, (blobs b ∨ s.Recorded b) ∧ b.key = e.key ∧ b.location = e.location ∧
          b.Filed (s.twin.traffic.disk.image g.storage) p := by
  have htwin := h.twin
  have hlength := htwin.content.mounted.length_eq
  obtain ⟨dir, stop, cursor, hstored, hdir⟩ := htwin.index.stored_or
  rw [← htwin.storage_file, ← htwin.index_file]
  refine ⟨.inr ⟨htwin.head, hlength ▸ htwin.le⟩, dir, stop, cursor, hstored, ?_⟩
  intro e he
  have hsaved : e ∈ saved := by
    rcases hdir with rfl | rfl
    · exact he
    · exact htwin.index.opening_sub he
  obtain ⟨b, hb, hkey, hlocation, hfiled⟩ := h.filed hopening (htwin.index.saved_sub hsaved)
  exact ⟨b, hb, hkey, hlocation, hfiled.below (hlocation ▸ htwin.saved_covered hlast e hsaved)⟩

end Service

/-! ## After a stop -/

namespace Vault

variable {v v' u w : Volume} {s : Settings} {vault : Vault} {l : Logs} {blobs : Blob → Prop}

/-- An opening of two files that hold a blob to each of their keys. -/
theorem opens_backed (hv : v.Sound) (hg : Granted v s u) {fc fi : FileId} (hc : v.Names s.storagePath fc)
    (hi : v.Names s.indexPath fi) (hne : fc ≠ fi) {p stop cursor : Nat} {dir : Directory}
    (hp : (v.disk.image fc).Resumes p) (hs : KeyLog.Stored (v.disk.image fi) dir stop cursor)
    (hfiled : ∀ e ∈ dir, ∃ b, blobs b ∧ b.key = e.key ∧ b.location = e.location ∧ b.Filed (v.disk.image fc) p) :
    ∃ vault v', openAt v s = (.ok vault, v') ∧ vault.Backed blobs v'.disk := by
  obtain ⟨c, w, k, v', hparts, rfl, rfl, rfl, rfl⟩ := reopen hv hg hc hi hne hp hs
  have hleaves := hparts.leaves hv hne
  have hu := Volume.makeFolders_furnished hv hparts.folders
  have hkeep := (ContentLog.openAt_spec hu.sound hparts.content).log.keeps_below (hu.disk ▸ hp)
  rw [hu.disk, ← hleaves.image] at hkeep
  refine ⟨_, v', openAt_iff.mpr ⟨u, c, w, k, hparts, rfl⟩, _, rfl, ?_⟩
  intro e he
  obtain ⟨b, hb, hkey, hlocation, hb'⟩ := hfiled e he
  exact (hb'.keep hkeep).backed hleaves.resting hb hkey hlocation

/-- Two different files with nothing in them have a blob to each key. -/
theorem backed_of_fresh (hv : v.Sound) (h : openAt v s = (.ok vault, v')) (hl : vault.logs = some l)
    (hne : l.content.log.file ≠ l.index.index.log.file) (hc : (v.disk.image l.content.log.file).length = 0)
    (hi : (v.disk.image l.index.index.log.file).length = 0) : vault.Backed blobs v'.disk := by
  obtain ⟨-, hdir, -⟩ := opens_fresh hv h hl hne hc hi
  refine ⟨l, hl, ?_⟩
  intro e he
  rw [hdir] at he
  cases he

/-- Opened on two different files, with a blob to each of its keys: after adds and commits in
    any order, and a stop at any point, every opening that the system grants succeeds
    and has a blob to each of its keys, an old one or one that an add has recorded. -/
theorem reopens_backed (hv : v.Sound) (h : openAt v s = (.ok vault, v')) (hl : vault.logs = some l)
    (hne : l.content.log.file ≠ l.index.index.log.file) (hb : vault.Backed blobs v'.disk) (turns : List Turn) :
    let t := (Service.ofLogs l v'.disk).run turns
    .rollback ∉ t.twin.contentDeeds → ∀ w,
      Volume.Undisturbed { v' with disk := t.twin.traffic.disk } s.storagePath s.indexPath w → ∀ s' u,
      s'.storagePath = s.storagePath → s'.indexPath = s.indexPath → Granted w s' u →
      ∃ vault' w', openAt w s' = (.ok vault', w') ∧ vault'.Backed (fun b => blobs b ∨ t.Recorded b) w'.disk := by
  intro t hforward w hw s' u hstorage hindex hg
  obtain ⟨_, c, x, k, hparts, rfl⟩ := openAt_iff.mp h
  cases hl
  obtain ⟨_, hl, hbacked⟩ := hb
  cases hl
  have hsound := hparts.sound hv
  have hleaves := hparts.leaves hv hne
  have hold : k.directory.Covered c.cursor := fun e he => (hbacked e he).place.imp_right And.right
  obtain ⟨stop, hbegin⟩ := Service.stands_opened hv hparts hne hold s.indexTimeout
  obtain ⟨p, saved, hstands⟩ := Service.stands_run hbegin turns
  obtain ⟨hp, dir, _, _, hstored, hfiled⟩ := hstands.remains (fun hlast => hforward (List.mem_of_head? hlast))
    fun e he => (hbacked e he).filed
  -- both files are as the run has left them
  have hgrows : v'.Grows { v' with disk := t.twin.traffic.disk } := .of_nodes rfl
  obtain ⟨hc, himc⟩ := hw.storage _ (hleaves.storage.grown hsound hgrows)
  obtain ⟨hk, himk⟩ := hw.index _ (hleaves.index_names.grown hsound hgrows)
  dsimp only at hp hstored hfiled himc himk
  rw [← himc] at hp hfiled
  rw [← himk] at hstored
  exact opens_backed hw.sound hg (hstorage ▸ hc) (hindex ▸ hk) hne hp hstored hfiled

def small : Settings := { storageCapacity := 8, indexCapacity := 40, readBufferSize := 2 }

def smallLogs : Logs :=
  ⟨⟨⟨"./binstore_data/storage.bin", 0, 16⟩, 8, 8, [], 2, by decide⟩,
    Gate.ofIndex ⟨⟨"./binstore_data/index.bin", 1, 48⟩, 8, 8, []⟩ (.ofSeconds 90)⟩

def smallVolume : Volume := (openAt (.empty 4096) small).2

theorem small_opens : openAt (.empty 4096) small = (.ok ⟨small, some smallLogs⟩, smallVolume) :=
  Prod.ext (by decide +kernel) rfl

/-- Two adds at once and a commit, a third add, and half of a second commit. -/
def overlapping : List Turn :=
  let space : Volume.Space := fun _ => .ok 4096
  [.begin "a", .begin "b", .add 0 (.reserve 3), .add 1 (.reserve 2), .add 1 (.room space), .add 0 (.room space),
    .add 0 (.feed (.ok [7, 8])), .add 1 (.feed (.ok [5, 6])), .add 1 .release, .add 0 (.feed (.ok [9])),
    .add 1 (.finish space true), .add 0 .release, .add 0 (.finish space true), .headContent .commit, .headIndex true,
    .begin "c", .add 2 (.reserve 1), .add 2 (.room space), .add 2 (.feed (.ok [4])), .add 2 .release,
    .add 2 (.finish space true), .headContent .commit]

def stopped : Service := (Service.ofLogs smallLogs smallVolume.disk).run overlapping

def leftover : Volume := { smallVolume with disk := stopped.twin.traffic.disk }

theorem leftover_grants : .rollback ∉ stopped.twin.contentDeeds ∧
    smallVolume.disk.files.size ≤ leftover.disk.files.size ∧
    (leftover.makeFolders small.workingFolder).1 = .ok () ∧
    ((leftover.makeFolders small.workingFolder).2.space small.storagePath = .ok 4096 ∧
      (leftover.makeFolders small.workingFolder).2.length small.storagePath = .ok 16) ∧
    (leftover.makeFolders small.workingFolder).2.space small.indexPath = .ok 4096 ∧
    (leftover.makeFolders small.workingFolder).2.length small.indexPath = .ok 192 := by decide +kernel

theorem leftover_keys :
    (openAt leftover small).1.map (fun vault => vault.logs.map (·.index.index.directory.keys)) =
      .ok (some ["b", "a"]) := by decide +kernel

set_option maxRecDepth 20000 in
/-- The stop comes between the two writes of the second commit: the next opening finds the
    two keys of the first one, with their contents. -/
theorem reopens_between_headers : stopped.exclusive = some .commit ∧
    ∃ vault w l, openAt leftover small = (.ok vault, w) ∧
      vault.Backed (fun b => False ∨ stopped.Recorded b) w.disk ∧ vault.logs = some l ∧
    l.index.index.directory.keys = ["b", "a"] := by
  have hv := Volume.sound_empty 4096
  obtain ⟨hforward, hsize, hfolders, ⟨hspace, hlength⟩, hspace', hlength'⟩ := leftover_grants
  have hsound : leftover.Sound := (openAt_sound hv small_opens).of_nodes rfl hsize
  have hne : smallLogs.content.log.file ≠ smallLogs.index.index.log.file := by decide
  have hbacked : Backed (fun _ => False) ⟨small, some smallLogs⟩ smallVolume.disk :=
    backed_of_fresh hv small_opens rfl hne (by rfl) (by rfl)
  have hundisturbed : leftover.Undisturbed small.storagePath small.indexPath leftover :=
    ⟨hsound, fun f hf => ⟨hf, rfl⟩, fun f hf => ⟨hf, rfl⟩⟩
  have hgranted : Granted leftover small (leftover.makeFolders small.workingFolder).2 := by
    refine ⟨by rfl, Prod.ext hfolders rfl, ⟨by decide, 4096, hspace, by decide, ?_⟩,
      ⟨by decide, 4096, hspace', by decide, ?_⟩⟩
    · intro n hn
      cases hlength.symm.trans hn
      decide
    · intro n hn
      cases hlength'.symm.trans hn
      decide
  obtain ⟨vault, w, hopen, hb⟩ := reopens_backed hv small_opens rfl hne hbacked overlapping hforward leftover
    hundisturbed small _ rfl rfl hgranted
  have hkeys := leftover_keys
  rw [hopen] at hkeys
  obtain ⟨l, hl, hk⟩ := Option.map_eq_some_iff.mp (Except.ok.inj hkeys)
  exact ⟨by decide +kernel, vault, w, l, hopen, hb, hl, hk⟩

end Vault

end TwinLog
