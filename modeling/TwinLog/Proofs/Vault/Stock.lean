/-
  TwinLog.Proofs.Vault.Stock — what sessions leave in the two files, whatever their threads do.

  `Stocked` says that whatever is made on a volume, the two paths then name different files
  that hold a book. New and empty files hold the empty book; an opening that fails leaves the
  files stocked, and one that succeeds has the book in its directory (`Stocked.opens`). While
  the vault is open the headers on disk cover what an opening would find, unless the content
  log's header alone was put back after a commit (`Twin.Torn`). That state does not last: where
  no call is kept waiting for too long, whoever has written the one header goes on to write the
  other (`Stands.torn_step`). So what sessions leave, closed or cut short, is stocked
  (`stocked_of_inherited`).
-/

import TwinLog.Proofs.Vault.Failure
import TwinLog.Proofs.Vault.Rivals
import TwinLog.Proofs.Vault.Crash

namespace TwinLog

/-! ## Books in files -/

namespace Book

def InContent (book : Book) (im : Image) : Prop := ∃ p, im.Resumes p ∧ ∀ b ∈ book, b.key ≠ "" ∧ b.Filed im p

variable {book more : Book} {dir dir' : Directory}

theorem Lists.append (h : book.Lists dir) (h' : more.Lists dir') : Lists (book ++ more) (dir ++ dir') := by
  unfold Lists at h h' ⊢
  rw [List.map_append, List.map_append, h, h']

theorem Lists.keys (h : book.Lists dir) : dir.keys = book.map (·.key) := by
  have hfirst := congrArg (List.map Prod.fst) h
  rw [List.map_map, List.map_map] at hfirst
  exact hfirst

theorem Lists.blob (h : book.Lists dir) {e : Entry} (he : e ∈ dir) :
    ∃ b ∈ book, b.key = e.key ∧ b.location = e.location := by
  have hmem : (e.key, e.location) ∈ book.map fun b => (b.key, b.location) := by
    rw [← h]
    exact List.mem_map_of_mem he
  obtain ⟨b, hb, heq⟩ := List.mem_map.mp hmem
  exact ⟨b, hb, (Prod.mk.inj heq).1, (Prod.mk.inj heq).2⟩

/-- A directory that has a blob to each of its entries is listed by such blobs. -/
theorem exists_lists {P : Blob → Prop} (h : ∀ e ∈ dir, ∃ b, P b ∧ b.key = e.key ∧ b.location = e.location) :
    ∃ book : Book, book.Lists dir ∧ ∀ b ∈ book, P b := by
  induction dir with
  | nil => exact ⟨[], rfl, nofun⟩
  | cons e dir ih =>
    obtain ⟨b, hb, hkey, hlocation⟩ := h e List.mem_cons_self
    obtain ⟨book, hlists, hall⟩ := ih fun e' he' => h e' (List.mem_cons_of_mem e he')
    refine ⟨b :: book, ?_, List.forall_mem_cons.mpr ⟨hb, hall⟩⟩
    unfold Lists at hlists ⊢
    rw [List.map_cons, List.map_cons, hlists, hkey, hlocation]

theorem InContent.carried : Log.Carries book.InContent book.InContent := by
  rintro v v' path requested l ho ⟨p, hp, hall⟩
  refine ⟨p, ho.resumes_again hp, ?_⟩
  intro b hb
  exact ⟨(hall b hb).1, (hall b hb).2.keep (ho.keeps_below hp)⟩

end Book

abbrev Stocked (storage index : String) (book : Book) (v : Volume) : Prop :=
  v.Holds storage index book.InContent book.InIndex

theorem Volume.Fresh.stocked {v : Volume} {storage index : String} (h : v.Fresh storage index) :
    Stocked storage index [] v := by
  refine ⟨h.sound, h.apart, ?_, ?_⟩
  · intro w hw f hf
    exact ⟨headSize, .inl ⟨h.length_eq_zero hw (.inl hf), rfl⟩, nofun⟩
  · intro w hw f hf
    exact ⟨[], headSize, KeyLog.stored_empty (h.length_eq_zero hw (.inr hf)), rfl⟩

structure Vault.Starts (book : Book) (c : ContentLog) (k : KeyLog) (v : Volume) : Prop where
  apart : c.log.file ≠ k.log.file
  lists : book.Lists k.directory
  filed : ∀ b ∈ book, b.key ≠ "" ∧ b.Filed (v.disk.image c.log.file) c.cursor
  steady : k.Steady k.directory k.checkpoint k.directory v.disk

def Vault.ground (c : ContentLog) (k : KeyLog) (v : Volume) : Ground :=
  ⟨c.log.file, k.log.file, k.directory, k.checkpoint, k.checkpoint, c.cursor, v.disk.image c.log.file⟩

namespace Stocked

variable {storage index : String} {book : Book} {v v' u w : Volume} {s : Settings} {c : ContentLog} {k : KeyLog}
  {fc fi : FileId}

theorem undisturbed (h : Stocked storage index book v) (hc : v.Names storage fc) (hi : v.Names index fi)
    (hu : v.Undisturbed storage index v') : Stocked storage index book v' := by
  obtain ⟨hc', himc⟩ := hu.storage fc hc
  obtain ⟨hi', himi⟩ := hu.index fi hi
  refine .of_names hu.sound hc' hi' (fun he => h.apart v (.refl v) fc hc (he ▸ hi)) ?_ ?_
  · rw [himc]
    exact h.content v (.refl v) fc hc
  · rw [himi]
    exact h.index v (.refl v) fi hi

/-! ### Opening -/

/-- An opening that fails leaves the files as stocked as they were. -/
theorem refused (h : Stocked s.storagePath s.indexPath book v) {e : Fault}
    (ho : Vault.openAt v s = (.error e, v')) : Stocked s.storagePath s.indexPath book v' := by
  unfold Vault.openAt at ho
  split at ho
  · cases ho
    exact h
  rename_i hcheck
  split at ho
  · rename_i hfolders
    cases ho
    exact h.folders hfolders
  rename_i u hfolders
  have hu := h.folders hfolders
  cases hlog : Log.openAt u s.storagePath s.storageCapacity with
  | error e' =>
    rw [ContentLog.openAt_refused hlog (Vault.readBufferSize_pos hcheck)] at ho
    cases ho
    exact hu
  | ok opened =>
    have hw := hu.opened Book.InContent.carried hlog
    obtain ⟨c, hcontent⟩ := hu.content_opens (fun _ ⟨p, hp, _⟩ => ⟨p, hp⟩) hcheck hlog
    rw [hcontent] at ho
    dsimp only at ho
    cases hlog' : Log.openAt opened.2 s.indexPath s.indexCapacity with
    | error e' =>
      rw [KeyLog.openAt_refused hlog'] at ho
      cases ho
      exact hw
    | ok opened' =>
      obtain ⟨k, hindex⟩ := hw.index_opens (fun _ ⟨dir, m, hstored, _⟩ => ⟨dir, m, hstored⟩) hlog'
      rw [hindex] at ho
      cases ho

theorem opens (h : Stocked s.storagePath s.indexPath book v) (hp : Vault.Parts v s u c w k v') :
    Vault.Starts book c k v' := by
  have hlogc := ContentLog.log_of_openAt hp.content
  have hlogk := KeyLog.log_of_openAt hp.index
  have hu := h.folders hp.folders
  obtain ⟨hw, -, -, hne⟩ := hu.parts Book.InContent.carried Book.InIndex.carried hp
  have hoc := ContentLog.openAt_spec hu.sound hp.content
  have hok := KeyLog.openAt_spec hw.sound hp.index
  obtain ⟨p, hresumes, hall⟩ := hu.found hlogc
  have hcursor := hoc.cursor_eq hresumes
  obtain ⟨dir, m, hstored, hlists⟩ := hw.symm.found hlogk
  obtain ⟨hk, hstored'⟩ := KeyLog.openAt_stored hw.sound hlogk hstored
  have hk : k = ⟨k.log, m, m, dir⟩ := Except.ok.inj (congrArg Prod.fst (hp.index.symm.trans hk))
  have hdir : dir = k.directory := by rw [hk]
  have hmark : m = k.checkpoint := by rw [hk]
  have hm : KeyLog.Stored (v'.disk.image k.log.file) k.directory m k.cursor := by
    rw [hk]
    exact hstored'
  refine ⟨hne, hdir ▸ hlists, ?_, hmark ▸ hok.steady hm⟩
  intro b hb
  obtain ⟨hkey, hfiled⟩ := hall b hb
  rw [hok.log.others _ hne, hcursor]
  exact ⟨hkey, hfiled.keep (hoc.log.keeps_below hresumes)⟩

end Stocked

namespace Vault.Starts

variable {book : Book} {v v' u w : Volume} {s : Settings} {c : ContentLog} {k : KeyLog}

theorem covered (h : Starts book c k v) : k.directory.Covered c.cursor := by
  intro e he
  obtain ⟨b, hb, -, hlocation⟩ := h.lists.blob he
  rw [← hlocation]
  by_cases h0 : b.location.size = 0
  · exact .inl h0
  · exact .inr ((h.filed b hb).2.lies (Nat.pos_of_ne_zero h0)).finish_le

theorem stands (h : Starts book c k v') (hv : v.Sound) (hp : Parts v s u c w k v') :
    Service.Stands (ground c k v') c.cursor k.directory (.ofLogs ⟨c, Gate.ofIndex k s.indexTimeout⟩ v'.disk) := by
  obtain ⟨stop, hstands⟩ := Service.stands_opened hv hp h.apart h.covered s.indexTimeout
  have htwin := hstands.twin
  exact ⟨{ htwin with index := h.steady }, hstands.listed, hstands.quiet, hstands.ready⟩

/-- Every key of the book is there, with its location and its bytes. -/
theorem shows (h : Starts book c k v') (hv : v.Sound) (hp : Parts v s u c w k v') :
    (ofLogs s c k).Shows v'.disk book := by
  have hleaves := hp.leaves hv h.apart
  have hlocate {b : Blob} (hb : b ∈ book) : k.get b.key = .ok b.location := by
    obtain ⟨e, he, hlocation⟩ := h.lists.find? h.steady.distinct hb
    unfold KeyLog.get
    rw [if_neg (h.filed b hb).1, he, ← hlocation]
  refine ⟨⟨_, rfl, h.lists⟩, ?_, ?_⟩
  · intro b hb
    simp only [locate, ofLogs, withKey, if_neg (h.filed b hb).1, withLogs, Gate.get, Gate.ofIndex]
    exact hlocate hb
  · intro b hb
    obtain ⟨e, -, hkey, hlocation⟩ := h.lists.entry hb
    have hbacked : e.Backed (· = b) c v'.disk :=
      (h.filed b hb).2.backed hleaves.resting rfl hkey.symm hlocation.symm
    obtain ⟨-, b', rfl, -, hlocation', -, hget⟩ := hbacked
    simp only [get, ofLogs, withKey, if_neg (h.filed b' hb).1, withLogs, Gate.get, Gate.ofIndex]
    show (k.get b'.key).bind (c.get v'.disk) = _
    rw [hlocate hb, hlocation']
    exact hget

end Vault.Starts

/-! ## What a session writes -/

structure Disk.Beside (f g : FileId) (d d' : Disk) : Prop where
  size : d'.files.size = d.files.size
  others : ∀ x, x ≠ f → x ≠ g → d'.image x = d.image x

namespace Disk.Beside

variable {f g : FileId} {d d' d'' : Disk}

theorem refl : Beside f g d d := ⟨rfl, fun _ _ _ => rfl⟩

theorem trans (h : Beside f g d d') (h' : Beside f g d' d'') : Beside f g d d'' :=
  ⟨h'.size.trans h.size, fun x hf hg => (h'.others x hf hg).trans (h.others x hf hg)⟩

theorem left (h : d.OnlyAt f d') : Beside f g d d' := ⟨h.size, fun x hf _ => h.others x hf⟩

theorem right (h : d.OnlyAt g d') : Beside f g d d' := ⟨h.size, fun x _ hg => h.others x hg⟩

end Disk.Beside

def Part.Timely : Part → Prop
  | .finish _ granted | .unwindIndex granted => granted = true
  | _ => True

def Turn.Timely : Turn → Prop
  | .add _ part => part.Timely
  | .headIndex granted => granted = true
  | _ => True

/-- The content log's header was put back last, and the index's was stored last. -/
def Twin.Torn (t : Twin) : Prop := t.contentDeeds.head? = some .rollback ∧ t.indexDeeds.head? = some .commit

/-- Somebody has put the content log's header back and not yet the index's. -/
def Service.Wavers (s : Service) : Prop :=
  s.exclusive = some .rollback ∨ ∃ (i : Nat) (key : String) (e : Fault), s.adds[i]? = some ⟨key, .unwinding e⟩

theorem Twin.headIndex_contentDeeds (t : Twin) (deed : Deed) (granted : Bool) :
    (t.headIndex deed granted).contentDeeds = t.contentDeeds := by
  unfold headIndex
  split <;> rfl

namespace Twin.Sound

variable {g : Ground} {p : Nat} {saved : Directory} {t t' : Twin} {deed : Deed}

/-! ### Which files -/

theorem work_beside (h : t.Sound g p saved) (m : Move) :
    t.traffic.disk.Beside g.storage g.index (t.work m).traffic.disk := by
  have honly := (Traffic.frame_step h.content m).only
  rw [h.storage_file] at honly
  exact .left honly

theorem headContent_beside (h : t.Sound g p saved) (ht : t.headContent deed = some t') :
    t.traffic.disk.Beside g.storage g.index t'.traffic.disk := by
  unfold Twin.headContent at ht
  split at ht
  · cases ht
  · rename_i d hd
    cases ht
    obtain ⟨-, honly, -⟩ := Deed.content_ok h.content.mounted hd
    rw [h.storage_file] at honly
    exact .left honly

theorem headIndex_beside (h : t.Sound g p saved) (deed : Deed) (granted : Bool) :
    t.traffic.disk.Beside g.storage g.index (t.headIndex deed granted).traffic.disk := by
  obtain ⟨index, d, -, -, hleft | ⟨hwritten, honly, -⟩⟩ := headIndex_cases h.free h.index deed granted
  · rw [hleft]
    exact .refl
  · rw [hwritten]
    rw [h.index_file] at honly
    exact .right honly

theorem record_beside (h : t.Sound g p saved) (key : String) (slot : Nat) (l : Location) (space : Volume.Space)
    (granted : Bool) : t.traffic.disk.Beside g.storage g.index (t.record key slot l space granted).2.traffic.disk := by
  obtain ⟨index, d, hr, -, hgrown, -⟩ := record_cases h.free h.index key slot l space granted
  have honly := hgrown.only
  rw [h.index_file] at honly
  rw [hr]
  exact .right honly

theorem move_beside (h : t.Sound g p saved) (key : String) (phase : Phase) (part : Part) :
    t.traffic.disk.Beside g.storage g.index (t.move key phase part).2.traffic.disk := by
  have hmove := t.move_moved key phase part
  generalize (t.move key phase part).1 = phase', (t.move key phase part).2 = t' at hmove ⊢
  cases hmove with
  | reserved => exact h.work_beside _
  | filled => exact h.work_beside _
  | returned => exact h.record_beside ..
  | headed head => exact h.headContent_beside head
  | unwound => exact h.headIndex_beside ..
  | _ => exact .refl

/-! ### Which header -/

/-- A rollback of the index that gets its turn succeeds. -/
theorem headIndex_rollback (h : t.Sound g p saved) :
    (t.headIndex .rollback true).indexDeeds = .rollback :: t.indexDeeds := by
  obtain ⟨d, hd⟩ := h.index.rollback_ok
  have hcall := Gate.storing_ok h.free (show Deed.rollback.index t.index.index t.traffic.disk = .ok d from hd)
  simp only [Twin.headIndex, Gate.ask, if_true, hcall]

/-- Nothing that a part of an add does tears the headers for good. -/
theorem move_torn (h : t.Sound g p saved) (key : String) (phase : Phase) {part : Part} (hpart : part.Timely)
    (htorn : (t.move key phase part).2.Torn) :
    (∃ e, (t.move key phase part).1 = .unwinding e) ∨ t.Torn ∧ ∀ e, phase ≠ .unwinding e := by
  have hmove := t.move_moved key phase part
  generalize (t.move key phase part).1 = phase', (t.move key phase part).2 = t' at hmove htorn ⊢
  cases hmove with
  | still =>
    cases phase with
    | unwinding e => exact .inl ⟨e, rfl⟩
    | _ => exact .inr ⟨htorn, nofun⟩
  | @returned slot l space granted outcome =>
    obtain ⟨index, d, hr, -⟩ := record_cases h.free h.index key slot l space granted
    rw [hr] at htorn
    exact .inr ⟨htorn, nofun⟩
  | headed => exact .inl ⟨_, rfl⟩
  | unwound e granted =>
    have hgranted : granted = true := hpart
    subst hgranted
    have hlast := htorn.2
    rw [h.headIndex_rollback] at hlast
    cases hlast
  | _ => exact .inr ⟨htorn, nofun⟩

/-- What an opening would find is covered, unless the headers are torn. -/
theorem covered (h : t.Sound g p saved) (hw : ¬t.Torn) : saved.Covered p := by
  by_cases hc : t.contentDeeds.head? = some .rollback
  · rw [h.kept fun hi => hw ⟨hc, hi⟩]
    exact h.old.mono h.base_le
  · exact h.saved_covered hc

/-! ### Letting go -/

/-- Closing both logs leaves them as they are. -/
theorem close (h : t.Sound g p saved) : Twin.Sound g p saved (t.put t.index (t.logs.1.close t.logs.2)) := by
  obtain ⟨hmc, hoc, hkc⟩ := Log.flush_spec h.content.mounted
  have hcontent : Twin.Sound g p saved (t.put t.index (t.traffic.log.close t.traffic.disk)) :=
    { h with
      content := h.content.onDisk (Nat.le_refl _) hmc (hkc.mono (Nat.zero_le _) (Nat.le_refl _))
      head := h.head.congr (hkc.mono (Nat.le_refl _) h.content.mounted.head_le)
      index := h.index.elsewhere hoc (Ne.symm h.apart) }
  obtain ⟨hmi, hoi, hki⟩ := Log.flush_spec hcontent.index.mounted
  have hindex := hcontent.index.keep _ hmi (Nat.le_refl _) (hki.mono (Nat.le_refl _) hcontent.index.cursor_le)
  exact hcontent.put hoi rfl rfl h.free hindex h.committed h.kept h.after

theorem close_beside (h : t.Sound g p saved) :
    t.traffic.disk.Beside g.storage g.index (t.logs.1.close t.logs.2) := by
  obtain ⟨-, hoc, -⟩ := Log.flush_spec h.content.mounted
  have hmi := h.index.mounted.elsewhere hoc (Ne.symm h.apart)
  obtain ⟨-, hoi, -⟩ := Log.flush_spec hmi
  rw [h.storage_file] at hoc
  rw [h.index_file] at hoi
  exact Disk.Beside.trans (.left hoc) (.right hoi)

end Twin.Sound

namespace Service

variable {g : Ground} {p : Nat} {saved : Directory} {s : Service}

theorem Stands.step_beside (h : s.Stands g p saved) (turn : Turn) :
    s.twin.traffic.disk.Beside g.storage g.index (s.step turn).twin.traffic.disk := by
  have hturn := s.step_turned turn
  generalize s.step turn = s' at hturn ⊢
  cases hturn with
  | still => exact .refl
  | begun => exact .refl
  | moved => exact h.twin.move_beside ..
  | entered shared quiet head => exact h.twin.headContent_beside head
  | left => exact h.twin.headIndex_beside ..

/-- Torn headers are those of somebody on his way from the one to the other. -/
theorem Stands.torn_step (h : s.Stands g p saved) (hw : s.twin.Torn → s.Wavers) {turn : Turn} (ht : turn.Timely)
    (htorn : (s.step turn).twin.Torn) : (s.step turn).Wavers := by
  have hturn := s.step_turned turn
  generalize s.step turn = s' at hturn htorn ⊢
  cases hturn with
  | still => exact hw htorn
  | begun named shared =>
    refine (hw htorn).imp_right ?_
    rintro ⟨i, key, e, hi⟩
    exact ⟨i, key, e, getElem?_snoc_of_some hi⟩
  | @moved i a add part =>
    rcases h.twin.move_torn a.key a.phase ht htorn with ⟨e, he⟩ | ⟨hold, hphase⟩
    · refine .inr ⟨i, a.key, e, ?_⟩
      rw [← he]
      exact List.getElem?_set_self (List.getElem?_eq_some_iff.mp add).1
    · refine (hw hold).imp_right ?_
      rintro ⟨j, key, e, hj⟩
      refine ⟨j, key, e, ?_⟩
      have hij : i ≠ j := by
        rintro rfl
        cases add.symm.trans hj
        exact hphase e rfl
      exact (List.getElem?_set_ne hij).trans hj
  | entered shared quiet head =>
    obtain ⟨-, -, -, hdeeds⟩ := h.twin.headContent head h.covered
    have hlast := htorn.1
    dsimp only at hlast
    rw [hdeeds] at hlast
    cases hlast
    exact .inl rfl
  | @left deed hdeed granted =>
    have hgranted : granted = true := ht
    subst hgranted
    cases deed with
    | commit =>
      -- the content log's header is that of this commit
      have hlast := htorn.1
      dsimp only at hlast
      rw [s.twin.headIndex_contentDeeds, (h.ready hdeed).1] at hlast
      cases hlast
    | rollback =>
      have hlast := htorn.2
      dsimp only at hlast
      rw [h.twin.headIndex_rollback] at hlast
      cases hlast

theorem Stands.timely_run (h : s.Stands g p saved) (hw : s.twin.Torn → s.Wavers) {turns : List Turn}
    (ht : ∀ turn ∈ turns, turn.Timely) :
    ((s.run turns).twin.Torn → (s.run turns).Wavers) ∧
      s.twin.traffic.disk.Beside g.storage g.index (s.run turns).twin.traffic.disk := by
  induction turns generalizing s p saved with
  | nil => exact ⟨hw, .refl⟩
  | cons turn turns ih =>
    obtain ⟨p', saved', h'⟩ := stands_step h turn
    obtain ⟨hwavers, hbeside⟩ := ih h' (h.torn_step hw (ht turn List.mem_cons_self)) fun turn' hturn' =>
      ht turn' (List.mem_cons_of_mem turn hturn')
    exact ⟨hwavers, (h.step_beside turn).trans hbeside⟩

/-! ### Names -/

def Named (s : Service) : Prop := ∀ (i : Nat) (a : Adding), s.adds[i]? = some a → a.key ≠ ""

theorem named_step (h : s.Named) (turn : Turn) : (s.step turn).Named := by
  have hturn := s.step_turned turn
  generalize s.step turn = s' at hturn ⊢
  cases hturn with
  | still => exact h
  | begun named shared =>
    intro j b hj
    rcases getElem?_snoc_cases hj with hj | ⟨-, rfl⟩
    · exact h j b hj
    · exact named
  | @moved i a add part =>
    intro j b hj
    rcases getElem?_set_cases hj with ⟨rfl, rfl⟩ | ⟨-, hj⟩
    · exact h _ a add
    · exact h j b hj
  | entered => exact h
  | left => exact h

theorem named_run (h : s.Named) (turns : List Turn) : (s.run turns).Named := by
  induction turns generalizing s with
  | nil => exact h
  | cons turn turns ih => exact ih (named_step h turn)

/-! ### Books -/

/-- What is saved is the opening book and blobs that adds have recorded. -/
theorem Stands.saves (h : s.Stands g p saved) {book : Book} (hbook : book.Lists g.opening) :
    ∃ new : Book, (book ++ new).Lists saved ∧ ∀ b ∈ new, s.Recorded b := by
  obtain ⟨kept, rest, middle, hdir, rfl, -⟩ := h.twin.index.rows
  have hdistinct := h.twin.index.distinct
  rw [hdir] at hdistinct
  have hrecorded : ∀ e ∈ kept, ∃ b, s.Recorded b ∧ b.key = e.key ∧ b.location = e.location := by
    intro e he
    have hmem : e ∈ s.twin.index.index.directory := by
      rw [hdir]
      exact List.mem_append_left _ (List.mem_append_right _ he)
    rcases h.listed e hmem with ho | ⟨bs, hrecorded⟩
    · -- a key of the opening cannot come again
      have hkeys := hdistinct.left
      unfold Directory.Distinct Directory.keys at hkeys
      rw [List.map_append] at hkeys
      exact absurd rfl ((List.nodup_append.mp hkeys).2.2 e.key (List.mem_map_of_mem ho) e.key (List.mem_map_of_mem he))
    · exact ⟨_, hrecorded, rfl, rfl⟩
  obtain ⟨new, hnew, hall⟩ := Book.exists_lists hrecorded
  exact ⟨new, hbook.append hnew, hall⟩

/-- Both files hold what is saved. -/
theorem Stands.holds (h : s.Stands g p saved) (hg : g.stop = g.mark) (hcovered : saved.Covered p) (hnamed : s.Named)
    {book new : Book} (hbook : ∀ b ∈ book, b.key ≠ "" ∧ b.Filed g.first g.base) (hnew : ∀ b ∈ new, s.Recorded b)
    (hlists : (book ++ new).Lists saved) :
    (book ++ new).InContent (s.twin.traffic.disk.image g.storage) ∧
      (book ++ new).InIndex (s.twin.traffic.disk.image g.index) := by
  have htwin := h.twin
  have hcontent := htwin.content
  have hlength := hcontent.mounted.length_eq
  obtain ⟨m, hstored⟩ := htwin.index.stored (hg.trans htwin.mark.symm)
  rw [← htwin.storage_file, ← htwin.index_file]
  refine ⟨⟨p, .inr ⟨htwin.head, hlength ▸ htwin.le⟩, ?_⟩, saved, m, hstored, hlists⟩
  intro b hb
  obtain ⟨e, he, -, hlocation⟩ := hlists.entry hb
  have hbelow := hcovered e he
  rw [hlocation] at hbelow
  rcases List.mem_append.mp hb with hb | hb
  · obtain ⟨hkey, hfiled⟩ := hbook b hb
    exact ⟨hkey, (hfiled.keep hcontent.below).below hbelow⟩
  · have hrecorded := hnew b hb
    have ⟨i, slot, hi, _⟩ := hrecorded
    exact ⟨hnamed i _ hi, (h.filed_recorded hrecorded).below hbelow⟩

end Service

/-! ## From one session to the next -/

/-- The volume when the vault is let go of, closed or not. -/
def Twin.leave (t : Twin) (v : Volume) (closes : Bool) : Volume :=
  { v with disk := if closes then t.logs.1.close t.logs.2 else t.traffic.disk }

namespace Vault

/-- The volumes that sessions lead to: any number of threads in each, closed or stopped
    anywhere but between the two headers of a rollback, and no call that has waited for too long. -/
inductive Inherited (storage index : String) : Volume → Prop
  | fresh {v : Volume} (fresh : v.Fresh storage index) : Inherited storage index v
  | refused {v v' : Volume} {s : Settings} {e : Fault} (before : Inherited storage index v)
      (storagePath : s.storagePath = storage) (indexPath : s.indexPath = index)
      (opened : openAt v s = (.error e, v')) :
      Inherited storage index v'
  | session {v w : Volume} {s : Settings} {vault : Vault} {l : Logs} {turns : List Turn}
      (before : Inherited storage index v) (storagePath : s.storagePath = storage) (indexPath : s.indexPath = index)
      (opened : openAt v s = (.ok vault, w)) (logs : vault.logs = some l) (timely : ∀ turn ∈ turns, turn.Timely)
      (settled : ¬((Service.ofLogs l w.disk).run turns).Wavers) (closes : Bool) :
      Inherited storage index (((Service.ofLogs l w.disk).run turns).twin.leave w closes)
  | meanwhile {v v' : Volume} {fc fi : FileId} (before : Inherited storage index v) (content : v.Names storage fc)
      (keys : v.Names index fi) (change : v.Undisturbed storage index v') : Inherited storage index v'

variable {storage index : String} {book new : Book} {v v' u w x : Volume} {s : Settings} {c : ContentLog} {k : KeyLog}
  {p : Nat} {saved : Directory} {t : Service} {fc fi : FileId}

/-- What is left when the vault is let go of. -/
theorem Starts.leaves (h : Starts book c k v') (hv : v.Sound) (hp : Parts v s u c w k v')
    (ht : t.Stands (ground c k v') p saved) (hbeside : v'.disk.Beside c.log.file k.log.file t.twin.traffic.disk)
    (hcovered : saved.Covered p) (hnamed : t.Named) (hnew : ∀ b ∈ new, t.Recorded b)
    (hlists : (book ++ new).Lists saved) (closes : Bool) :
    Stocked s.storagePath s.indexPath (book ++ new) (t.twin.leave v' closes) ∧
      (t.twin.leave v' closes).Names s.storagePath c.log.file ∧
      (t.twin.leave v' closes).Names s.indexPath k.log.file := by
  have hv' := hp.sound hv
  have hleaves := hp.leaves hv h.apart
  have hgrows : v'.Grows (t.twin.leave v' closes) := .of_nodes rfl
  have hc := hleaves.storage.grown hv' hgrows
  have hi := hleaves.index_names.grown hv' hgrows
  refine ⟨?_, hc, hi⟩
  cases closes with
  | false =>
    obtain ⟨hcontent, hindex⟩ := ht.holds rfl hcovered hnamed h.filed hnew hlists
    exact .of_names (hv'.of_nodes rfl (Nat.le_of_eq hbeside.size.symm)) hc hi h.apart hcontent hindex
  | true =>
    have hclosed : Service.Stands (ground c k v') p saved
        { t with twin := t.twin.put t.twin.index (t.twin.logs.1.close t.twin.logs.2) } :=
      ⟨ht.twin.close, ht.listed, ht.quiet, ht.ready⟩
    obtain ⟨hcontent, hindex⟩ := hclosed.holds rfl hcovered hnamed h.filed hnew hlists
    have hsize := hbeside.trans ht.twin.close_beside
    exact .of_names (hv'.of_nodes rfl (Nat.le_of_eq hsize.size.symm)) hc hi h.apart hcontent hindex

/-- After any number of sessions both files hold a book. -/
theorem stocked_of_inherited (h : Inherited storage index v) : ∃ book, Stocked storage index book v := by
  induction h with
  | fresh fresh => exact ⟨[], fresh.stocked⟩
  | refused before storagePath indexPath opened ih =>
    subst storagePath indexPath
    obtain ⟨book, hbook⟩ := ih
    exact ⟨book, hbook.refused opened⟩
  | @session v w s vault l turns before storagePath indexPath opened logs timely settled closes ih =>
    subst storagePath indexPath
    obtain ⟨book, hbook⟩ := ih
    obtain ⟨u, c, x, k, hparts, rfl⟩ := openAt_iff.mp opened
    cases logs
    have hstarts := hbook.opens hparts
    have hbegin := hstarts.stands hbook.sound hparts
    obtain ⟨p, saved, hstands⟩ := Service.stands_run hbegin turns
    have ⟨hwavers, hbeside⟩ := hbegin.timely_run (fun htorn => nomatch htorn.1) timely
    have hcovered := hstands.twin.covered fun htorn => settled (hwavers htorn)
    have hnamed := Service.named_run (s := .ofLogs ⟨c, Gate.ofIndex k s.indexTimeout⟩ w.disk) (fun _ _ hi => nomatch hi)
      turns
    obtain ⟨new, hlists, hnew⟩ := hstands.saves hstarts.lists
    exact ⟨book ++ new,
      (hstarts.leaves hbook.sound hparts hstands hbeside hcovered hnamed hnew hlists closes).1⟩
  | meanwhile before content keys change ih =>
    obtain ⟨book, hbook⟩ := ih
    exact ⟨book, hbook.undisturbed content keys change⟩

/-- Whoever opens two files that hold a book finds the book. -/
theorem reopens_stocked (h : Stocked storage index book v) (hc : v.Names storage fc) (hi : v.Names index fi) :
    v.Reopens storage index book := by
  rintro s u rfl rfl hg
  have hne : fc ≠ fi := fun he => h.apart v (.refl v) fc hc (he ▸ hi)
  obtain ⟨p, hp, -⟩ := h.content v (.refl v) fc hc
  obtain ⟨dir, m, hstored, -⟩ := h.index v (.refl v) fi hi
  obtain ⟨c, w, k, v', hparts, -⟩ := reopen h.sound hg hc hi hne hp hstored
  exact ⟨_, v', openAt_iff.mpr ⟨u, c, w, k, hparts, rfl⟩, (h.opens hparts).shows h.sound hparts⟩

end Vault

end TwinLog
