/-
  TwinLog.Proofs.Vault.Sessions — what is found again after any number of sessions.

  A session opens a vault, makes calls and closes the vault or simply stops. Its calls are
  noted, last one first, and `Book.saved` reads from the notes what the session leaves: the
  opening book and all that was stored before the last commit that succeeded, if no undoing
  comes after it; the opening book alone if one does, or if nothing was committed. `Played`
  are the volumes that sessions lead to, with the book each one leaves, starting where
  neither file is there. The result is `reopens_with_book`: opening such a volume again
  succeeds, its directory is the book, and every key of the book has its location and its
  bytes.
-/

import Mathlib.Control.Monad.Basic
import TwinLog.Proofs.Vault.Opening
import TwinLog.Proofs.Vault.Standing

namespace TwinLog

inductive Call where
  | add (space : Volume.Space) (key : String) (src : Source)
  | get (key : String)
  | locate (key : String)
  | contains (key : String)
  | commit
  | rollback

inductive Note where
  | stored (b : Blob)
  | committed
  | undone

namespace Book

/-- What has been stored, in its order; the last note stands first. -/
def stored : List Note → Book
  | [] => []
  | .stored b :: earlier => stored earlier ++ [b]
  | .committed :: earlier | .undone :: earlier => stored earlier

def saved (opening : Book) : List Note → Book
  | [] => opening
  | .stored _ :: earlier => saved opening earlier
  | .committed :: earlier => opening ++ stored earlier
  | .undone :: _ => opening

end Book

structure Visit where
  vault : Vault
  disk : Disk
  notes : List Note

namespace Visit

def taken (s : Visit) (space : Volume.Space) (src : Source) : List UInt8 :=
  match s.vault.logs with
  | some l => l.content.taken space s.disk src
  | none => []

/-- A failed add counts as a rollback once it is past the checks of its key and of the vault. -/
def noteAdd (s : Visit) (space : Volume.Space) (key : String) (src : Source) : Except Fault Location → List Note
  | .ok location => [.stored ⟨key, location, s.taken space src⟩]
  | .error _ => if key = "" ∨ s.vault.isClosed then [] else [.undone]

/-- A commit that fails has saved nothing. -/
def noteCommit : Except Fault Unit → List Note
  | .ok () => [.committed]
  | .error _ => []

def step (s : Visit) : Call → Visit
  | .add space key src =>
    let (r, vault, disk) := s.vault.add space s.disk key src
    ⟨vault, disk, s.noteAdd space key src r ++ s.notes⟩
  | .get key =>
    let (_, vault, disk) := s.vault.get s.disk key
    { s with vault, disk }
  | .locate key =>
    let (_, vault, disk) := s.vault.locate s.disk key
    { s with vault, disk }
  | .contains key =>
    let (_, vault, disk) := s.vault.contains s.disk key
    { s with vault, disk }
  | .commit =>
    let (r, vault, disk) := s.vault.commit s.disk
    ⟨vault, disk, noteCommit r ++ s.notes⟩
  | .rollback =>
    let (_, vault, disk) := s.vault.rollback s.disk
    ⟨vault, disk, .undone :: s.notes⟩

def run (s : Visit) (calls : List Call) : Visit := calls.foldl step s

end Visit

structure Session where
  settings : Settings
  calls : List Call
  /-- The vault is closed at the end, and not just let go of. -/
  closes : Bool

namespace Session

/-- The notes of a session and the volume it leaves, if the vault opens. -/
def play (s : Session) (v : Volume) : Option (List Note × Volume) :=
  match Vault.openAt v s.settings with
  | (.error _, _) => none
  | (.ok vault, w) =>
    let visit := (Visit.mk vault w.disk []).run s.calls
    some (visit.notes, { w with disk := if s.closes then (visit.vault.close visit.disk).2 else visit.disk })

structure At (s : Session) (storage index : String) : Prop where
  storage : s.settings.storagePath = storage
  index : s.settings.indexPath = index

end Session

/-- Neither file is there, and their places are not the same. -/
def Vault.Absent (v : Volume) (s : Settings) : Prop :=
  ∃ u folder name folder' name', v.makeFolders s.workingFolder = (.ok (), u) ∧
    u.Vacant s.storagePath folder name ∧ u.Vacant s.indexPath folder' name' ∧ (folder' = folder → name' ≠ name)

/-- The volumes that sessions lead to, and the book that they leave. -/
inductive Played (storage index : String) : Volume → Book → Prop
  | first {v w : Volume} {s : Session} {notes : List Note} (sound : v.Sound) (paths : s.At storage index)
      (absent : Vault.Absent v s.settings) (played : s.play v = some (notes, w)) :
      Played storage index w (Book.saved [] notes)
  | again {v w : Volume} {book : Book} {s : Session} {notes : List Note} (before : Played storage index v book)
      (paths : s.At storage index) (played : s.play v = some (notes, w)) :
      Played storage index w (Book.saved book notes)
  | meanwhile {v v' : Volume} {book : Book} (before : Played storage index v book)
      (change : v.Undisturbed storage index v') : Played storage index v' book

/-! ## One call -/

namespace Visit

variable {place : Place} {opening : Book} {s : Visit}

def Sound (place : Place) (opening : Book) (s : Visit) : Prop :=
  ∃ l, s.vault.logs = some l ∧
    l.Standing place opening (Book.saved opening s.notes) (opening ++ Book.stored s.notes) s.disk

theorem sound_look (h : s.Sound place opening) {α : Type} (key : String)
    (f : Logs → Disk → Except Fault α × Logs × Disk)
    (hf : ∀ l d, l.index.held = none → (f l d).2.1.content = l.content ∧
      (f l d).2.1.index.index = l.index.index ∧ (f l d).2.1.index.held = none ∧ (f l d).2.2 = d) :
    Sound place opening
      { s with vault := (s.vault.withKey s.disk key f).2.1, disk := (s.vault.withKey s.disk key f).2.2 } := by
  obtain ⟨l, hl, hstand⟩ := h
  unfold Vault.withKey
  split
  · exact ⟨l, hl, hstand⟩
  · unfold Vault.withLogs
    rw [hl]
    obtain ⟨hc, hi, hh, hd⟩ := hf l s.disk hstand.free
    refine ⟨(f l s.disk).2.1, rfl, ?_⟩
    show Logs.Standing place opening _ _ _ (f l s.disk).2.2
    rw [hd]
    exact hstand.congr hc hi hh

theorem sound_add (h : s.Sound place opening) (space : Volume.Space) (key : String) (src : Source) :
    (s.step (.add space key src)).Sound place opening := by
  obtain ⟨l, hl, hstand⟩ := h
  have hopen : s.vault.isClosed = false := by rw [Vault.isClosed, hl]; rfl
  have htaken : s.taken space src = l.content.taken space s.disk src := by rw [taken, hl]
  by_cases hkey : key = ""
  · have hstep : s.step (.add space key src) = s := by
      simp only [step, Vault.add, Vault.withKey, noteAdd, hkey, true_or, if_true, List.nil_append]
    rw [hstep]
    exact ⟨l, hl, hstand⟩
  · obtain ⟨r, l', d', hadd, hgood, hbad⟩ := hstand.add space key src
    have hstep : s.step (.add space key src) =
        ⟨{ s.vault with logs := some l' }, d', s.noteAdd space key src r ++ s.notes⟩ := by
      simp only [step, Vault.add, Vault.withKey, if_neg hkey, Vault.withLogs, hl, hadd]
    rw [hstep]
    refine ⟨l', rfl, ?_⟩
    cases r with
    | ok loc =>
      have := hgood loc rfl
      rw [← htaken, List.append_assoc] at this
      exact this
    | error e =>
      have hnote : s.noteAdd space key src (.error e) = [.undone] := by simp [noteAdd, hkey, hopen]
      rw [hnote]
      exact hbad e rfl

theorem sound_step (h : s.Sound place opening) (call : Call) : (s.step call).Sound place opening := by
  cases call with
  | add space key src => exact sound_add h space key src
  | get key =>
    refine sound_look h key _ ?_
    intro l d hfree
    dsimp only
    rw [Gate.get, Gate.call_look hfree]
    exact ⟨rfl, rfl, hfree, rfl⟩
  | locate key =>
    refine sound_look h key _ ?_
    intro l d hfree
    dsimp only
    rw [Gate.get, Gate.call_look hfree]
    exact ⟨rfl, rfl, hfree, rfl⟩
  | contains key =>
    refine sound_look h key _ ?_
    intro l d hfree
    dsimp only
    rw [Gate.contains, Gate.call_look hfree]
    exact ⟨rfl, rfl, hfree, rfl⟩
  | commit =>
    obtain ⟨l, hl, hstand⟩ := h
    obtain ⟨r, l', d', hcommit, hgood, hbad⟩ := hstand.commit
    have hstep : s.step .commit = ⟨{ s.vault with logs := some l' }, d', noteCommit r ++ s.notes⟩ := by
      simp only [step, Vault.commit, Vault.withLogs, hl, hcommit]
    rw [hstep]
    cases r with
    | ok u => exact ⟨l', rfl, hgood rfl⟩
    | error e => exact ⟨l', rfl, (hbad e rfl).2⟩
  | rollback =>
    obtain ⟨l, hl, hstand⟩ := h
    obtain ⟨l', d', hrollback, hstand'⟩ := hstand.rollback
    have hstep : s.step .rollback = ⟨{ s.vault with logs := some l' }, d', .undone :: s.notes⟩ := by
      simp only [step, Vault.rollback, Vault.withLogs, hl, hrollback]
    rw [hstep]
    exact ⟨l', rfl, hstand'⟩

theorem sound_run (h : s.Sound place opening) (calls : List Call) : (s.run calls).Sound place opening := by
  induction calls generalizing s with
  | nil => exact h
  | cons call calls ih => exact ih (sound_step h call)

end Visit

/-! ## From one session to the next -/

namespace Vault

structure Kept (storage index : String) (v : Volume) (book : Book) : Prop where
  sound : v.Sound
  files : ∃ fc fi p m dir, v.Names storage fc ∧ v.Names index fi ∧ fc ≠ fi ∧ (v.disk.image fc).Resumes p ∧
    KeyLog.Stored (v.disk.image fi) dir m m ∧ book.Lists dir ∧
    ∀ b ∈ book, b.key ≠ "" ∧ b.Lies (v.disk.image fc) p

structure Begun (index : String) (book : Book) (c : ContentLog) (w : Volume) : Prop where
  sound : w.Sound
  resting : c.Resting w.disk
  headed : (w.disk.image c.log.file).Headed c.cursor
  checkpoint : c.checkpoint = c.cursor
  lies : ∀ b ∈ book, b.key ≠ "" ∧ b.Lies (w.disk.image c.log.file) c.cursor
  index : ∃ fi m dir, w.Reaches index fi ∧ fi ≠ c.log.file ∧ KeyLog.Stored (w.disk.image fi) dir m m ∧
    book.Lists dir

variable {v v' u w : Volume} {s : Settings} {storage index : String} {book saved current : Book} {c : ContentLog}
  {k : KeyLog}

namespace Kept

theorem furnished (h : Kept storage index v book) (hu : v.Furnished u) : Kept storage index u book := by
  obtain ⟨fc, fi, p, m, dir, hc, hi, hne, hp, hs, hlist, hlies⟩ := h.files
  rw [← hu.disk] at hp hs hlies
  exact ⟨hu.sound, fc, fi, p, m, dir, hc.grown h.sound hu.grows, hi.grown h.sound hu.grows, hne, hp, hs, hlist,
    hlies⟩

theorem undisturbed (h : Kept storage index v book) (hu : v.Undisturbed storage index v') :
    Kept storage index v' book := by
  obtain ⟨fc, fi, p, m, dir, hc, hi, hne, hp, hs, hlist, hlies⟩ := h.files
  obtain ⟨hc', himc⟩ := hu.storage fc hc
  obtain ⟨hi', himi⟩ := hu.index fi hi
  rw [← himc] at hp hlies
  rw [← himi] at hs
  exact ⟨hu.sound, fc, fi, p, m, dir, hc', hi', hne, hp, hs, hlist, hlies⟩

theorem begun (h : Kept s.storagePath s.indexPath v book) (hparts : Parts v s u c w k v') :
    Begun s.indexPath book c w := by
  have hu := Volume.makeFolders_furnished h.sound hparts.folders
  have ho := ContentLog.openAt_spec hu.sound hparts.content
  have hkept := h.furnished hu
  obtain ⟨fc, fi, p, m, dir, hc, hi, hne, hp, hs, hlist, hlies⟩ := hkept.files
  have hfile : c.log.file = fc := ho.log.reaches.unique (.inl hc)
  subst hfile
  have hcursor := ho.cursor_eq hp
  have hkeep := ho.log.keeps_below hp
  refine ⟨ho.log.sound, ho.resting, ho.headed, ho.checkpoint, ?_, fi, m, dir, ?_, Ne.symm hne, ?_, hlist⟩
  · intro b hb
    obtain ⟨hkey, hb'⟩ := hlies b hb
    exact ⟨hkey, hcursor ▸ hb'.keep hkeep (Nat.le_refl _)⟩
  · exact .inl (hi.grown hkept.sound ho.log.grows)
  · rw [ho.log.others fi (Ne.symm hne)]
    exact hs

end Kept

/-- The content log takes only its own place, so the index's is still free. -/
theorem vacant_index {folder folder' : Nat} {name name' : String} (hu : u.Sound)
    (hs : u.Vacant s.storagePath folder name) (hi : u.Vacant s.indexPath folder' name')
    (hne : folder' = folder → name' ≠ name)
    (h : ContentLog.openAt u s.storagePath s.storageCapacity s.readBufferSize = (.ok c, w)) :
    w.Vacant s.indexPath folder' name' := by
  refine (ContentLog.openAt_spec hu h).log.vacant _ _ _ hi ?_
  intro f n hfn
  cases hs.symm.trans hfn
  exact hne

/-- Opening the content log where neither file is there. -/
theorem begun_of_absent (hv : v.Sound) (h : Absent v s) (hparts : Parts v s u c w k v') :
    Begun s.indexPath [] c w := by
  obtain ⟨u', folder, name, folder', name', hu', hs, hi, hne⟩ := h
  cases hparts.folders.symm.trans hu'
  have hu := Volume.makeFolders_furnished hv hparts.folders
  have ho := ContentLog.openAt_spec hu.sound hparts.content
  have hi' := vacant_index hu.sound hs hi hne hparts.content
  refine ⟨ho.log.sound, ho.resting, ho.headed, ho.checkpoint, fun b hb => (nomatch hb), w.disk.files.size, headSize,
    [], .inr ⟨rfl, folder', name', hi'⟩, Nat.ne_of_gt ho.log.mounted.file_lt, ?_, rfl⟩
  rw [w.disk.image_of_size_le (Nat.le_refl _)]
  exact KeyLog.stored_empty rfl

theorem Begun.standing (h : Begun s.indexPath book c w) (hparts : Parts v s u c w k v') :
    Logs.Standing ⟨c.log.file, k.log.file, v'.disk.files.size⟩ book book book ⟨c, Gate.ofIndex k s.indexTimeout⟩
      v'.disk := by
  obtain ⟨fi, m, dir, hreach, hne, hs, hlist⟩ := h.index
  have hopen := KeyLog.log_of_openAt hparts.index
  have ho := KeyLog.openAt_spec h.sound hparts.index
  have hfile : k.log.file = fi := ho.log.reaches.unique hreach
  subst hfile
  obtain ⟨hk, hs'⟩ := KeyLog.openAt_stored h.sound hopen hs
  have hk : k = ⟨k.log, m, m, dir⟩ := Except.ok.inj (congrArg Prod.fst (hparts.index.symm.trans hk))
  have hm : KeyLog.Stored (v'.disk.image k.log.file) k.directory m k.cursor := by rw [hk]; exact hs'
  have hsteady := ho.steady hm
  have himage : v'.disk.image c.log.file = w.disk.image c.log.file := ho.log.others _ (Ne.symm hne)
  have hcheck : m = k.checkpoint := by rw [hk]
  have hdir : dir = k.directory := by rw [hk]
  rw [hcheck] at hsteady
  rw [hdir] at hlist
  have hfin : ∀ b ∈ book, b.location.finish ≤ c.cursor := fun b hb => (h.lies b hb).2.finish_le
  exact {
    apart := Ne.symm hne
    content_file := rfl
    index_file := rfl
    size_le := Nat.le_refl _
    free := rfl
    content := { h.resting with mounted := h.resting.mounted.of_image ho.log.size_le himage }
    checkpoint_le := Nat.le_of_eq h.checkpoint
    head_le := h.checkpoint ▸ h.resting.head_le
    index := ⟨k.directory, k.directory, hsteady, hlist, hlist⟩
    directory := hlist
    header := ⟨c.cursor, himage ▸ h.headed, Nat.le_refl _, hfin⟩
    opening_le := h.checkpoint ▸ hfin
    opening_mem := fun _ hb => hb
    saved_mem := fun _ hb => hb
    lies := himage ▸ h.lies }

/-- What a session leaves. -/
theorem kept_of_standing {place : Place} {opening : Book} {l : Logs} {d : Disk} (hw : w.Sound)
    (hfiles : w.disk.files.size = place.files) (hc : w.Names storage place.content)
    (hi : w.Names index place.index) (h : l.Standing place opening saved current d) :
    Kept storage index { w with disk := d } saved := by
  obtain ⟨dir, kept, hsteady, -, hlist⟩ := h.index
  obtain ⟨p, hp, hple, hfin⟩ := h.header
  obtain ⟨m, hstored⟩ := hsteady.stored rfl
  have hlen : (d.image l.content.log.file).length = l.content.capacity := h.content.mounted.length_eq
  have hcap := h.content.cursor_le
  rw [← h.content_file] at hc
  rw [← h.index_file] at hi
  refine ⟨hw.of_nodes rfl (hfiles ▸ h.size_le), _, _, p, m, kept, hc.grown hw (.of_nodes rfl),
    hi.grown hw (.of_nodes rfl), h.apart, .inr ⟨hp, ?_⟩, hstored, hlist, ?_⟩
  · show p ≤ (d.image l.content.log.file).length
    omega
  · intro b hb
    obtain ⟨hne, hb'⟩ := h.lies b (h.saved_mem b hb)
    exact ⟨hne, hb'.offset_le, hfin b hb, hb'.read_eq⟩

end Vault

/-! ## Any number of sessions -/

namespace Session

variable {v w u : Volume} {s : Session} {storage index : String} {book : Book} {notes : List Note}

theorem play_parts (h : s.play v = some (notes, w)) : ∃ u c x k v', Vault.Parts v s.settings u c x k v' ∧
    let visit := (Visit.mk (Vault.ofLogs s.settings c k) v'.disk []).run s.calls
    notes = visit.notes ∧
      w = { v' with disk := if s.closes then (visit.vault.close visit.disk).2 else visit.disk } := by
  unfold play at h
  split at h
  · cases h
  · rename_i vault v' hopen
    cases h
    obtain ⟨u, c, x, k, hparts, rfl⟩ := Vault.openAt_iff.mp hopen
    exact ⟨u, c, x, k, v', hparts, rfl, rfl⟩

/-- A session that opens with `book` leaves what its notes say. -/
theorem kept_of_play (h : s.play v = some (notes, w))
    (hbegun : ∀ {u c x k v'}, Vault.Parts v s.settings u c x k v' → Vault.Begun s.settings.indexPath book c x)
    (hv : v.Sound) : Vault.Kept s.settings.storagePath s.settings.indexPath w (Book.saved book notes) := by
  obtain ⟨u, c, x, k, v', hparts, rfl, rfl⟩ := play_parts h
  have hb := hbegun hparts
  have hstand := hb.standing hparts
  have hleaves := hparts.leaves hv hstand.apart
  have hv' := hparts.sound hv
  have hsound : Visit.Sound ⟨c.log.file, k.log.file, v'.disk.files.size⟩ book
      (Visit.mk (Vault.ofLogs s.settings c k) v'.disk []) := by
    refine ⟨_, rfl, ?_⟩
    simpa [Book.saved, Book.stored] using hstand
  obtain ⟨l, hl, hend⟩ := Visit.sound_run hsound s.calls
  cases s.closes with
  | false => exact Vault.kept_of_standing hv' rfl hleaves.storage hleaves.index_names hend
  | true =>
    rw [Vault.close, hl]
    exact Vault.kept_of_standing hv' rfl hleaves.storage hleaves.index_names hend.close

theorem kept_of_played (h : Played storage index v book) : Vault.Kept storage index v book := by
  induction h with
  | first sound paths absent played =>
    obtain ⟨rfl, rfl⟩ := paths
    exact kept_of_play played (Vault.begun_of_absent sound absent) sound
  | again before paths played ih =>
    obtain ⟨rfl, rfl⟩ := paths
    exact kept_of_play played ih.begun ih.sound
  | meanwhile before change ih => exact ih.undisturbed change

end Session

namespace Vault

/-- The directory of the vault is the book, and each of its keys has its location and bytes. -/
structure Shows (vault : Vault) (d : Disk) (book : Book) : Prop where
  directory : ∃ l, vault.logs = some l ∧ book.Lists l.index.index.directory
  locate : ∀ b ∈ book, (vault.locate d b.key).1 = .ok b.location
  get : ∀ b ∈ book, (vault.get d b.key).1 = .ok b.bytes

variable {v v' : Volume} {s : Settings} {storage index : String} {book saved : Book} {vault : Vault}

theorem shows_of_standing {place : Place} {opening : Book} {l : Logs} {d : Disk} (hl : vault.logs = some l)
    (h : l.Standing place opening saved book d) : vault.Shows d book where
  directory := ⟨l, hl, h.directory⟩
  locate := by
    intro b hb
    simp only [Vault.locate, withKey, if_neg (h.lies b hb).1, withLogs, hl, Gate.get, Gate.call_look h.free]
    exact h.locate hb
  get := by
    intro b hb
    simp only [Vault.get, withKey, if_neg (h.lies b hb).1, withLogs, hl, Gate.get, Gate.call_look h.free]
    rw [h.locate hb]
    exact h.get hb

/-- After any number of sessions, an opening that the system grants finds the book they leave. -/
theorem reopens_with_book (h : Played storage index v book) (hs : s.storagePath = storage)
    (hi : s.indexPath = index) {u : Volume} (hg : Granted v s u) :
    ∃ vault v', Vault.openAt v s = (.ok vault, v') ∧ vault.Shows v'.disk book := by
  subst hs hi
  have hk := Session.kept_of_played h
  obtain ⟨fc, fi, p, m, dir, hc, hfi, hne, hp, hstored, -⟩ := hk.files
  obtain ⟨c, w, k, v', hparts, -⟩ := reopen hk.sound hg hc hfi hne hp hstored
  have hstand := (hk.begun hparts).standing hparts
  exact ⟨_, v', openAt_iff.mpr ⟨_, c, w, k, hparts, rfl⟩, shows_of_standing rfl hstand⟩

/-- A session in an empty folder that stores two keys and commits between them. -/
def twoKeys : Session where
  settings := { storageCapacity := 64, indexCapacity := 64 }
  calls := [.add (fun _ => .ok 4096) "a" (.ofBytes [7, 8, 9] 0), .commit,
    .add (fun _ => .ok 4096) "b" (.ofBytes [1] 0)]
  closes := true

deriving instance DecidableEq for Blob

theorem twoKeys_opens : (twoKeys.play (.empty 4096)).isSome = true := by decide +kernel

/-- What the session leaves, and what an opening after it asks of the system. -/
theorem twoKeys_leaves : ∃ notes v, twoKeys.play (.empty 4096) = some (notes, v) ∧
    Book.saved [] notes = [⟨"a", ⟨3, 8, Checksum.of [7, 8, 9]⟩, [7, 8, 9]⟩] ∧
    (v.makeFolders twoKeys.settings.workingFolder).1 = .ok () ∧
    ((v.makeFolders twoKeys.settings.workingFolder).2.space twoKeys.settings.storagePath = .ok 4096 ∧
      (v.makeFolders twoKeys.settings.workingFolder).2.length twoKeys.settings.storagePath = .ok 72) ∧
    (v.makeFolders twoKeys.settings.workingFolder).2.space twoKeys.settings.indexPath = .ok 4096 ∧
    (v.makeFolders twoKeys.settings.workingFolder).2.length twoKeys.settings.indexPath = .ok 144 :=
  ⟨(Option.get _ twoKeys_opens).1, (Option.get _ twoKeys_opens).2, (Option.some_get twoKeys_opens).symm,
    by decide +kernel⟩

set_option maxRecDepth 20000 in
/-- The next opening finds the first key and not the second. -/
theorem reopens_after_two_keys : ∃ notes v, twoKeys.play (.empty 4096) = some (notes, v) ∧
    ∃ vault v', Vault.openAt v twoKeys.settings = (.ok vault, v') ∧
      vault.Shows v'.disk [⟨"a", ⟨3, 8, Checksum.of [7, 8, 9]⟩, [7, 8, 9]⟩] := by
  obtain ⟨notes, v, hplay, hbook, hfolders, ⟨hspace, hlength⟩, hspace', hlength'⟩ := twoKeys_leaves
  have hpaths : twoKeys.At "./binstore_data/storage.bin" "./binstore_data/index.bin" := ⟨rfl, rfl⟩
  have habsent : Absent (.empty 4096) twoKeys.settings := ⟨_, _, _, _, _, by rfl, by rfl, by rfl, by decide⟩
  have hplayed := Played.first (Volume.sound_empty 4096) hpaths habsent hplay
  rw [hbook] at hplayed
  have hgranted : Granted v twoKeys.settings (v.makeFolders twoKeys.settings.workingFolder).2 := by
    refine ⟨by rfl, Prod.ext hfolders rfl, ⟨by decide, 4096, hspace, by decide, ?_⟩,
      ⟨by decide, 4096, hspace', by decide, ?_⟩⟩
    · intro n hn
      cases hlength.symm.trans hn
      decide
    · intro n hn
      cases hlength'.symm.trans hn
      decide
  exact ⟨notes, v, hplay, reopens_with_book hplayed rfl rfl hgranted⟩

end Vault

end TwinLog
