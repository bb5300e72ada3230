/-
  TwinLog.Proofs.Vault.Shelf — the two files while no vault is open.

  A `Shelf` has the book that an opening will find and the numbers in the two headers,
  where there are any. `Shelved` says that whatever is made on the volume, the two paths
  then name different files that hold what the shelf says; new and empty files hold the
  empty shelf (`Fresh.shelved`). An opening either fails and leaves the files shelved, or
  leaves an open vault that follows `Shelf.ledger` (`Shelved.opens`), and it does what
  `Shelf.openAt` does on any volume with the same tree, unless there is no room or a capacity is too large.
  Letting go of an open vault leaves its files on `Ledger.shelf` (`Hosts.shelved`).
-/

import TwinLog.Proofs.Vault.Ledger
import TwinLog.Proofs.Vault.Sessions
import TwinLog.Proofs.Volume.Making

namespace TwinLog

/-! ## Headers -/

namespace Image

variable {im : Image} {p : Nat}

def head? (im : Image) : Option Int := if im.length < headSize then none else some im.rawCursor

def resumed : Option Int → Nat
  | none => headSize
  | some raw => if raw = 0 then headSize else raw.toNat

theorem Headed.eq_resumed (h : im.Headed p) : p = resumed (some im.rawCursor) := by
  have hp := h.head_le
  have head : 0 < headSize := by decide
  unfold resumed
  dsimp only
  rcases h with ⟨h0, rfl⟩ | ⟨hraw, -⟩
  · rw [if_pos h0]
  · rw [hraw, if_neg (by omega), Int.toNat_natCast]

theorem rawCursor_of_head {raw : Int} (h : im.head? = some raw) : im.rawCursor = raw := by
  unfold head? at h
  split at h
  · cases h
  · exact Option.some.inj h

theorem resumed_getD (head : Option Int) : resumed (some (head.getD 0)) = resumed head := by
  cases head <;> rfl

end Image

namespace Log

variable {v v' : Volume} {path : String} {requested p : Nat} {l : Log}

/-- A log has a header; opening makes it, or keeps the one that is there. -/
theorem Opened.head (h : Opened v path requested l v') (hp : (v.disk.image l.file).Resumes p) :
    (v'.disk.image l.file).head? = some ((v.disk.image l.file).head?.getD 0) := by
  have hlong : ¬(v'.disk.image l.file).length < headSize := by
    rw [h.mounted.length_eq]
    exact Nat.not_lt.mpr h.mounted.head_le
  rw [Image.head?, if_neg hlong]
  rcases hp with ⟨h0, -⟩ | ⟨hh, hle⟩
  · have hnone : (v.disk.image l.file).head? = none := by
      rw [Image.head?, h0]
      rfl
    rw [hnone, h.raw_fresh h0]
    rfl
  · have hhead := Nat.le_trans hh.head_le hle
    have hsome : (v.disk.image l.file).head? = some (v.disk.image l.file).rawCursor := by
      rw [Image.head?, if_neg (Nat.not_lt.mpr hhead)]
    rw [hsome, Option.getD_some, Image.rawCursor_eq (h.keeps.mono (Nat.le_refl _) hhead)]

end Log

/-! ## Opening one log -/

namespace Volume

variable {v w : Volume} {path : String}

def place (v : Volume) (path : String) : Except Fault (FileId × Volume) :=
  match v.space path with
  | .error e => .error (.io e)
  | .ok _ => match v.openToWrite path with
    | .error e => .error (.io e)
    | .ok made => .ok made

theorem Twin.place (h : Twin v w) (path : String) :
    (∃ e, v.place path = .error e ∧ w.place path = .error e) ∨
      ∃ f v' w', v.place path = .ok (f, v') ∧ w.place path = .ok (f, w') ∧ Twin v' w' := by
  have hspace := h.space path
  unfold Volume.place
  cases hv : v.space path with
  | error e =>
    rw [hv] at hspace
    rw [hspace]
    exact .inl ⟨_, rfl, rfl⟩
  | ok available =>
    rw [hv] at hspace
    rw [hspace]
    dsimp only [Except.map]
    rcases h.openToWrite path with ⟨e, hv, hw⟩ | ⟨f, v', w', hv, hw, h'⟩
    · rw [hv, hw]
      exact .inl ⟨_, rfl, rfl⟩
    · rw [hv, hw]
      exact .inr ⟨f, v', w', rfl, rfl, h'⟩

end Volume

namespace Log

variable {v : Volume} {path : String} {requested : Nat}

/-- The ways of opening a log: only the first two depend on what is requested. -/
inductive Way (v : Volume) (path : String) (requested : Nat) : Except Fault (Log × Volume) → Prop
  | overflow (large : maxUnsigned < requested + headSize) :
      Way v path requested (.error (.invalidArgument (.capacityOverflow requested)))
  | noSpace (required available : Nat) : Way v path requested (.error (.noSpace required available))
  | refused {e : Fault} (place : v.place path = .error e) : Way v path requested (.error e)
  | opened {l : Log} {w u : Volume} {available : Nat} (place : v.place path = .ok (l.file, u)) (twin : u.Twin w)
      (opensTo : v.openToWrite path = .ok (l.file, u)) (space : v.space path = .ok available) (named : l.path = path) :
      Way v path requested (.ok (l, w))

theorem checkSpace_cases (space : Volume.Space) (path : String) (required : Nat) :
    (∃ e, space path = .error e ∧ checkSpace space path required = .error (.io e)) ∨
      (∃ available, space path = .ok available ∧
        checkSpace space path required = .error (.noSpace required available)) ∨
      ∃ available, space path = .ok available ∧ checkSpace space path required = .ok () := by
  unfold checkSpace
  cases space path with
  | error e => exact .inl ⟨e, rfl, rfl⟩
  | ok available =>
    by_cases hshort : available < required
    · exact .inr (.inl ⟨available, rfl, if_pos hshort⟩)
    · exact .inr (.inr ⟨available, rfl, if_neg hshort⟩)

theorem openAt_way (v : Volume) (path : String) (requested : Nat) :
    Way v path requested (openAt v path requested) := by
  by_cases hlarge : maxUnsigned < requested + headSize
  · rw [openAt, if_pos hlarge]
    exact .overflow hlarge
  unfold openAt
  rw [if_neg hlarge]
  extract_lets wanted capacity
  -- whatever length is asked for
  clear_value capacity
  rcases checkSpace_cases v.space path capacity with ⟨e, hspace, hcheck⟩ | ⟨available, hspace, hcheck⟩ |
    ⟨available, hspace, hcheck⟩
  · rw [hcheck]
    exact .refused (by rw [Volume.place, hspace])
  · rw [hcheck]
    exact .noSpace ..
  · rw [hcheck]
    cases hopen : v.openToWrite path with
    | error e => exact .refused (by rw [Volume.place, hspace]; dsimp only; rw [hopen])
    | ok made =>
      obtain ⟨f, u⟩ := made
      have hplace : v.place path = .ok (f, u) := by
        rw [Volume.place, hspace]
        dsimp only
        rw [hopen]
      exact .opened hplace ⟨rfl, Disk.size_update ..⟩ hopen hspace rfl

/-- What an opening that succeeds has found. -/
theorem openAt_found {l : Log} {w : Volume} (h : openAt v path requested = .ok (l, w)) :
    l.path = path ∧ (∃ available, v.space path = .ok available) ∧ ∃ u, v.openToWrite path = .ok (l.file, u) := by
  have hway := openAt_way v path requested
  rw [h] at hway
  cases hway with
  | opened place twin opensTo space named => exact ⟨named, ⟨_, space⟩, _, opensTo⟩

/-- Beside the same opening where there is room, on a volume with the same tree. -/
theorem openAt_beside {v0 : Volume} (h0 : v0.Twin v) (path : String) (requested : Nat) :
    (∃ e, openAt v path requested = .error e ∧ ((∃ required available, e = .noSpace required available) ∨
        maxUnsigned < requested + headSize ∨ v0.place path = .error e)) ∨
      ∃ l w f v0', openAt v path requested = .ok (l, w) ∧ v0.place path = .ok (f, v0') ∧ v0'.Twin w := by
  have hway := openAt_way v path requested
  generalize openAt v path requested = opened at hway ⊢
  cases hway with
  | overflow large => exact .inl ⟨_, rfl, .inr (.inl large)⟩
  | noSpace required available => exact .inl ⟨_, rfl, .inl ⟨required, available, rfl⟩⟩
  | refused place =>
    rcases h0.place path with ⟨e, hplan, hreal⟩ | ⟨_, _, _, -, hreal, -⟩
    · cases place.symm.trans hreal
      exact .inl ⟨_, rfl, .inr (.inr hplan)⟩
    · cases place.symm.trans hreal
  | opened place twin =>
    rcases h0.place path with ⟨e, -, hreal⟩ | ⟨f, v0', _, hplan, hreal, h1⟩
    · cases place.symm.trans hreal
    · cases place.symm.trans hreal
      exact .inr ⟨_, _, _, v0', rfl, hplan, h1.trans twin⟩

end Log

/-! ## Two files -/

/-- Opening a log on a file that has `P` leaves it with `P'`. -/
def Log.Carries (P P' : Image → Prop) : Prop :=
  ∀ {v v' : Volume} {path : String} {requested : Nat} {l : Log}, Opened v path requested l v' →
    P (v.disk.image l.file) → P' (v'.disk.image l.file)

theorem ContentLog.openAt_refused {v : Volume} {path : String} {capacity bufferSize : Nat} {e : Fault}
    (h : Log.openAt v path capacity = .error e) (hb : 0 < bufferSize) :
    openAt v path capacity bufferSize = (.error e, v) := by
  rw [openAt, dif_pos hb, h]

theorem KeyLog.openAt_refused {v : Volume} {path : String} {capacity : Nat} {e : Fault}
    (h : Log.openAt v path capacity = .error e) : openAt v path capacity = (.error e, v) := by
  rw [openAt, h]

/-- Whatever is made, the two paths then name different files, the one with `P` and the other with `Q`. -/
structure Volume.Holds (storage index : String) (P Q : Image → Prop) (v : Volume) : Prop where
  sound : v.Sound
  apart : v.Apart storage index
  content : v.Finds storage P
  index : v.Finds index Q

namespace Volume.Holds

variable {storage index path : String} {P P' Q Q' : Image → Prop} {v u w v' : Volume} {l : Log} {requested : Nat}
  {s : Settings} {c : ContentLog} {k : KeyLog} {fc fi : FileId}

theorem symm (h : Holds storage index P Q v) : Holds index storage Q P v := ⟨h.sound, h.apart.symm, h.index, h.content⟩

theorem imp (h : Holds storage index P Q v) (hp : ∀ im, P im → P' im) (hq : ∀ im, Q im → Q' im) :
    Holds storage index P' Q' v :=
  ⟨h.sound, h.apart, h.content.imp hp, h.index.imp hq⟩

theorem of_names (hv : v.Sound) (hc : v.Names storage fc) (hi : v.Names index fi) (hne : fc ≠ fi)
    (hcontent : P (v.disk.image fc)) (hindex : Q (v.disk.image fi)) : Holds storage index P Q v where
  sound := hv
  apart := by
    intro w hw f hf hf'
    have hg := (hw.grows hv).1
    exact hne (((hc.grown hv hg).unique hf).trans ((hi.grown hv hg).unique hf').symm)
  content := .of_names hv hc hcontent
  index := .of_names hv hi hindex

/-- Folders, and whatever else leaves the bytes of all files. -/
theorem made (h : Holds storage index P Q v) (hw : v.Made w) (hd : ∀ f, w.disk.image f = v.disk.image f) :
    Holds storage index P Q w :=
  ⟨(hw.grows h.sound).2, h.apart.made hw, h.content.made hw hd, h.index.made hw hd⟩

theorem folders (h : Holds storage index P Q v) {r : Except IoFault Unit} (hr : v.makeFolders path = (r, u)) :
    Holds storage index P Q u :=
  h.made (.folders (.refl v) hr) fun f => by rw [(makeFolders_furnished h.sound hr).disk]

/-! ### Opening one of them -/

theorem found (h : Holds storage index P Q v) (ho : Log.openAt v storage requested = .ok (l, w)) :
    P (v.disk.image l.file) := by
  obtain ⟨-, -, u, hopen⟩ := Log.openAt_found ho
  exact h.content.opened hopen h.sound

theorem opened (h : Holds storage index P Q v) (hp : Log.Carries P P')
    (ho : Log.openAt v storage requested = .ok (l, w)) : Holds storage index P' Q w := by
  have hopened := Log.openAt_spec h.sound ho
  have hmade := Made.of_log ho
  exact ⟨hopened.sound, h.apart.made hmade, .of_names hopened.sound hopened.names (hp hopened (h.found ho)),
    h.index.other hmade hopened.sound (h.apart.made hmade) hopened.names hopened.others⟩

/-! ### Opening both -/

theorem content_opens (h : Holds s.storagePath s.indexPath P Q u) (hp : ∀ im, P im → ∃ p, im.Resumes p)
    (hcheck : s.check = .ok ()) (hlog : Log.openAt u s.storagePath s.storageCapacity = .ok (l, w)) :
    ∃ c, ContentLog.openAt u s.storagePath s.storageCapacity s.readBufferSize = (.ok c, w) := by
  obtain ⟨p, hresumes⟩ := hp _ (h.found hlog)
  exact ⟨_, ContentLog.openAt_resumes h.sound hlog hresumes (Vault.readBufferSize_pos hcheck)⟩

theorem index_opens (h : Holds s.storagePath s.indexPath P Q w) (hq : ∀ im, Q im → ∃ dir m, KeyLog.Stored im dir m m)
    (hlog : Log.openAt w s.indexPath s.indexCapacity = .ok (l, v')) :
    ∃ k, KeyLog.openAt w s.indexPath s.indexCapacity = (.ok k, v') := by
  obtain ⟨dir, m, hstored⟩ := hq _ (h.symm.found hlog)
  exact ⟨_, (KeyLog.openAt_stored h.sound hlog hstored).1⟩

/-- Two logs that open are on different files. -/
theorem parts (h : Holds s.storagePath s.indexPath P Q u) (hp : Log.Carries P P') (hq : Log.Carries Q Q')
    (ho : Vault.Parts v s u c w k v') :
    Holds s.storagePath s.indexPath P' Q w ∧ Holds s.storagePath s.indexPath P' Q' v' ∧
      v'.Names s.storagePath c.log.file ∧ c.log.file ≠ k.log.file := by
  have hlogc := ContentLog.log_of_openAt ho.content
  have hlogk := KeyLog.log_of_openAt ho.index
  have hw := h.opened hp hlogc
  have hv' := (hw.symm.opened hq hlogk).symm
  have hok := Log.openAt_spec hw.sound hlogk
  have hname := (Log.openAt_spec h.sound hlogc).names.grown hw.sound hok.grows
  exact ⟨hw, hv', hname, fun he => hv'.apart v' (.refl v') _ hname (he ▸ hok.names)⟩

end Volume.Holds

def Book.InIndex (book : Book) (im : Image) : Prop := ∃ dir m, KeyLog.Stored im dir m m ∧ book.Lists dir

theorem Book.InIndex.carried {book : Book} : Log.Carries book.InIndex book.InIndex := by
  rintro v v' path requested l ho ⟨dir, m, hstored, hlists⟩
  have hp := hstored.resumes
  exact ⟨dir, m, hstored.keep (ho.resumes_again hp) (ho.keeps_below hp), hlists⟩

/-! ## Shelves -/

structure Shelf where
  book : Book
  /-- What the headers hold, where there are any. -/
  contentHead : Option Int
  indexHead : Option Int

namespace Shelf

def cursor (s : Shelf) : Nat := Image.resumed s.contentHead

def withContent (s : Shelf) : Shelf := { s with contentHead := some (s.contentHead.getD 0) }

def withIndex (s : Shelf) : Shelf := { s with indexHead := some (s.indexHead.getD 0) }

def ledger (s : Shelf) : Ledger where
  opening := s.book
  saved := s.book
  current := s.book
  checkpoint := s.cursor
  cursor := s.cursor
  contentHead := s.contentHead.getD 0
  indexHead := s.indexHead.getD 0

/-- An opening, if there is room: what it answers, and what it leaves of the tree. -/
def openAt (s : Shelf) (v : Volume) (settings : Settings) : Except (Fault × Shelf) Ledger × Volume :=
  match settings.check with
  | .error e => (.error (e, s), v)
  | .ok () => match v.makeFolders settings.workingFolder with
    | (.error e, v) => (.error (.io e, s), v)
    | (.ok (), v) => match v.place settings.storagePath with
      | .error e => (.error (e, s), v)
      | .ok (_, v) => match v.place settings.indexPath with
        | .error e => (.error (e, s.withContent), v)
        | .ok (_, v) => (.ok s.ledger, v)

structure InContent (s : Shelf) (im : Image) : Prop where
  head : im.head? = s.contentHead
  resumes : im.Resumes s.cursor
  lies : ∀ b ∈ s.book, b.key ≠ "" ∧ b.Lies im s.cursor

structure InIndex (s : Shelf) (im : Image) : Prop where
  head : im.head? = s.indexHead
  stored : s.book.InIndex im

variable {s : Shelf}

theorem cursor_withContent (s : Shelf) : s.withContent.cursor = s.cursor := Image.resumed_getD _

theorem InContent.carried : Log.Carries s.InContent s.withContent.InContent := by
  intro v v' path requested l ho h
  refine ⟨?_, ?_, ?_⟩
  · rw [ho.head h.resumes, h.head]
    rfl
  · rw [s.cursor_withContent]
    exact ho.resumes_again h.resumes
  · intro b hb
    obtain ⟨hkey, hlies⟩ := h.lies b hb
    rw [s.cursor_withContent]
    exact ⟨hkey, hlies.keep (ho.keeps_below h.resumes) (Nat.le_refl _)⟩

theorem InIndex.carried : Log.Carries s.InIndex s.withIndex.InIndex := by
  intro v v' path requested l ho h
  have ⟨dir, m, hstored, _⟩ := h.stored
  refine ⟨?_, Book.InIndex.carried ho h.stored⟩
  rw [ho.head hstored.resumes, h.head]
  rfl

end Shelf

abbrev Shelved (storage index : String) (s : Shelf) (v : Volume) : Prop :=
  v.Holds storage index s.InContent s.InIndex

/-- New and empty files have nothing in them. -/
theorem Volume.Fresh.shelved {v : Volume} {storage index : String} (h : v.Fresh storage index) :
    Shelved storage index ⟨[], none, none⟩ v := by
  have hhead (im : Image) (h0 : im.length = 0) : im.head? = none := by
    rw [Image.head?, h0]
    rfl
  refine ⟨h.sound, h.apart, ?_, ?_⟩
  · intro w hw f hf
    have h0 := h.length_eq_zero hw (.inl hf)
    exact ⟨hhead _ h0, .inl ⟨h0, rfl⟩, fun b hb => nomatch hb⟩
  · intro w hw f hf
    have h0 := h.length_eq_zero hw (.inr hf)
    exact ⟨hhead _ h0, [], headSize, KeyLog.stored_empty h0, rfl⟩

/-! ## Opening a vault -/

/-- The files of the berth are what its paths name, and its paths never name one file. -/
structure Volume.Hosts (v : Volume) (berth : Berth) : Prop where
  sound : v.Sound
  apart : v.Apart berth.storagePath berth.indexPath
  size : v.disk.files.size = berth.files
  storage : v.Names berth.storagePath berth.content
  index : v.Names berth.indexPath berth.index
  storage_space : ∃ available, v.space berth.storagePath = .ok available
  index_space : ∃ available, v.space berth.indexPath = .ok available

structure Settings.Fits (s : Settings) : Prop where
  storage : s.storageCapacity + headSize ≤ maxUnsigned
  index : s.indexCapacity + headSize ≤ maxUnsigned

/-- How an opening ends, beside the same opening where there is room, on a volume with the same tree. -/
inductive Opens (s : Shelf) (settings : Settings) (v0 : Volume) : Except Fault Vault × Volume → Prop
  | refused {e : Fault} {v' : Volume} {s' : Shelf} (shelved : Shelved settings.storagePath settings.indexPath s' v')
      (reason : (∃ required available, e = .noSpace required available) ∨ ¬settings.Fits ∨
        ∃ v0', s.openAt v0 settings = (.error (e, s'), v0') ∧ v0'.Twin v') : Opens s settings v0 (.error e, v')
  | opened {berth : Berth} {l : Logs} {v' v0' : Volume} (storage : berth.storagePath = settings.storagePath)
      (index : berth.indexPath = settings.indexPath) (hosts : v'.Hosts berth)
      (follows : l.Follows berth s.ledger v'.disk) (plan : s.openAt v0 settings = (.ok s.ledger, v0'))
      (twin : v0'.Twin v') : Opens s settings v0 (.ok ⟨settings, some l⟩, v')

namespace Shelved

variable {s : Shelf} {settings : Settings} {v v0 u w v' : Volume} {c : ContentLog} {k : KeyLog}

theorem follows (h : Shelved settings.storagePath settings.indexPath s u) (hp : Vault.Parts v settings u c w k v') :
    ∃ berth : Berth, berth.storagePath = settings.storagePath ∧ berth.indexPath = settings.indexPath ∧ v'.Hosts berth ∧
      Logs.Follows berth s.ledger ⟨c, Gate.ofIndex k settings.indexTimeout⟩ v'.disk := by
  have hlogc := ContentLog.log_of_openAt hp.content
  have hlogk := KeyLog.log_of_openAt hp.index
  obtain ⟨hw, hv', hnamec, hne⟩ := h.parts Shelf.InContent.carried Shelf.InIndex.carried hp
  have hoc := ContentLog.openAt_spec h.sound hp.content
  have hok := Log.openAt_spec hw.sound hlogk
  obtain ⟨hpathc, ⟨ac, hspacec⟩, -⟩ := Log.openAt_found hlogc
  obtain ⟨hpathk, ⟨ak, hspacek⟩, -⟩ := Log.openAt_found hlogk
  -- the content log, and what the index will find
  have hcursor : c.cursor = s.cursor := hoc.cursor_eq (h.found hlogc).resumes
  have hin := hw.content w (.refl w) _ hoc.log.names
  obtain ⟨dir, m, hstored, hlist⟩ := (hw.symm.found hlogk).stored
  have hbegun : Vault.Begun settings.indexPath s.book c w :=
    { sound := hw.sound
      resting := hoc.resting
      headed := hoc.headed
      checkpoint := hoc.checkpoint
      lies := by
        rw [hcursor, ← s.cursor_withContent]
        exact hin.lies
      index := ⟨k.log.file, m, dir, hok.reaches, hne.symm, hstored, hlist⟩ }
  refine ⟨⟨⟨c.log.file, k.log.file, v'.disk.files.size⟩, settings.storagePath, settings.indexPath⟩, rfl, rfl, ?_, ?_⟩
  · have hgrown := Volume.space_grown h.sound hoc.log.grows hoc.log.available hspacec
    exact {
      sound := hv'.sound
      apart := hv'.apart
      size := rfl
      storage := hnamec
      index := hok.names
      storage_space := ⟨_, Volume.space_grown hw.sound hok.grows hok.available hgrown⟩
      index_space := ⟨_, Volume.space_grown hw.sound hok.grows hok.available hspacek⟩ }
  · exact {
      standing := hbegun.standing hp
      size := rfl
      cursor := hcursor
      checkpoint := hoc.checkpoint.trans hcursor
      content_head := Image.rawCursor_of_head (hv'.content v' (.refl v') _ hnamec).head
      index_head := Image.rawCursor_of_head (hv'.index v' (.refl v') _ hok.names).head
      content_path := hpathc
      index_path := hpathk }

theorem opens_both {u0 : Volume} (hcheck : settings.check = .ok ())
    (hmade : v.makeFolders settings.workingFolder = (.ok (), u))
    (hmade0 : v0.makeFolders settings.workingFolder = (.ok (), u0))
    (h : Shelved settings.storagePath settings.indexPath s u) (h0 : u0.Twin u) :
    Opens s settings v0 (Vault.openAt v settings) := by
  have hbuffer := Vault.readBufferSize_pos hcheck
  rcases Log.openAt_beside h0 settings.storagePath settings.storageCapacity with
    ⟨e, hlog, hwhy⟩ | ⟨log, w, f, w0, hlog, hplan, hw0⟩
  · have hreal : Vault.openAt v settings = (.error e, u) := by
      simp only [Vault.openAt, hcheck, hmade, ContentLog.openAt_refused hlog hbuffer]
    rw [hreal]
    refine .refused h (hwhy.imp_right (Or.imp ?_ ?_))
    · intro hlarge hfits
      exact Nat.not_le.mpr hlarge hfits.storage
    · intro hplan
      exact ⟨u0, by simp only [Shelf.openAt, hcheck, hmade0, hplan], h0⟩
  obtain ⟨c, hcontent⟩ := h.content_opens (fun _ hin => ⟨_, hin.resumes⟩) hcheck hlog
  -- what is done to the content log's header does not show in the index
  have hw : Shelved settings.storagePath settings.indexPath s.withContent w :=
    (h.opened Shelf.InContent.carried hlog).imp (fun _ hin => hin) fun _ hin => ⟨hin.head, hin.stored⟩
  rcases Log.openAt_beside hw0 settings.indexPath settings.indexCapacity with
    ⟨e, hlog', hwhy⟩ | ⟨log', v', f', v0', hlog', hplan', hv0'⟩
  · have hreal : Vault.openAt v settings = (.error e, w) := by
      simp only [Vault.openAt, hcheck, hmade, hcontent, KeyLog.openAt_refused hlog']
    rw [hreal]
    refine .refused hw (hwhy.imp_right (Or.imp ?_ ?_))
    · intro hlarge hfits
      exact Nat.not_le.mpr hlarge hfits.index
    · intro hplan'
      exact ⟨w0, by simp only [Shelf.openAt, hcheck, hmade0, hplan, hplan'], hw0⟩
  obtain ⟨k, hindex⟩ := hw.index_opens (fun _ ⟨_, dir, m, hstored, _⟩ => ⟨dir, m, hstored⟩) hlog'
  obtain ⟨berth, hstorage, hpath, hhosts, hfollows⟩ := h.follows ⟨hcheck, hmade, hcontent, hindex⟩
  have hreal : Vault.openAt v settings = (.ok ⟨settings, some ⟨c, Gate.ofIndex k settings.indexTimeout⟩⟩, v') := by
    simp only [Vault.openAt, hcheck, hmade, hcontent, hindex]
  rw [hreal]
  exact .opened hstorage hpath hhosts hfollows (by simp only [Shelf.openAt, hcheck, hmade0, hplan, hplan']) hv0'

theorem opens (settings : Settings) (h : Shelved settings.storagePath settings.indexPath s v)
    (h0 : v0.Twin v) : Opens s settings v0 (Vault.openAt v settings) := by
  cases hcheck : settings.check with
  | error e =>
    have hreal : Vault.openAt v settings = (.error e, v) := by rw [Vault.openAt, hcheck]
    rw [hreal]
    exact .refused h (.inr (.inr ⟨v0, by rw [Shelf.openAt, hcheck], h0⟩))
  | ok _ =>
    obtain ⟨hsame, hu0⟩ := h0.makeFoldersWithin (settings.workingFolder.length + 1) settings.workingFolder
    cases hmade : v.makeFolders settings.workingFolder with
    | mk r u =>
      cases hmade0 : v0.makeFolders settings.workingFolder with
      | mk r0 u0 =>
        rw [← Volume.makeFolders, ← Volume.makeFolders, hmade, hmade0] at hsame hu0
        cases hsame
        have hu := h.folders hmade
        cases r with
        | error e =>
          have hreal : Vault.openAt v settings = (.error (.io e), u) := by simp only [Vault.openAt, hcheck, hmade]
          rw [hreal]
          exact .refused hu (.inr (.inr ⟨u0, by simp only [Shelf.openAt, hcheck, hmade0], hu0⟩))
        | ok _ => exact opens_both hcheck hmade hmade0 hu hu0

end Shelved

/-! ## Letting go of a vault -/

def Ledger.shelf (g : Ledger) : Shelf := ⟨g.saved, some g.contentHead, some g.indexHead⟩

theorem Log.Mounted.head {l : Log} {d : Disk} (h : l.Mounted d) :
    (d.image l.file).head? = some (d.image l.file).rawCursor := by
  rw [Image.head?, if_neg]
  rw [h.length_eq]
  exact Nat.not_lt.mpr h.head_le

namespace Volume.Hosts

variable {berth : Berth} {v w : Volume} {g : Ledger} {l : Logs}

theorem twin (h : v.Hosts berth) (ht : v.Twin w) : w.Hosts berth where
  sound := ht.sound h.sound
  apart := h.apart.made ht.made
  size := ht.size.trans h.size
  storage := (ht.names_iff ..).mpr h.storage
  index := (ht.names_iff ..).mpr h.index
  storage_space := by
    obtain ⟨available, hspace⟩ := h.storage_space
    exact ⟨w.available, by rw [ht.space, hspace]; rfl⟩
  index_space := by
    obtain ⟨available, hspace⟩ := h.index_space
    exact ⟨w.available, by rw [ht.space, hspace]; rfl⟩

theorem onDisk (h : v.Hosts berth) {d : Disk} (hf : l.Follows berth g d) : Hosts { v with disk := d } berth :=
  h.twin ⟨rfl, hf.size.trans h.size.symm⟩

theorem shelved (h : v.Hosts berth) (hf : l.Follows berth g v.disk) :
    Shelved berth.storagePath berth.indexPath g.shelf v := by
  have hs := hf.standing
  obtain ⟨p, hp, hple, hfin⟩ := hs.header
  obtain ⟨dir, kept, hsteady, -, hsaved⟩ := hs.index
  obtain ⟨m, hstored⟩ := hsteady.stored rfl
  have hcursor : p = g.shelf.cursor := by
    rw [hp.eq_resumed, hf.content_head]
    rfl
  have hlen := hs.content.mounted.length_eq
  have hcap := hs.content.cursor_le
  have hcontent : g.shelf.InContent (v.disk.image l.content.log.file) := by
    refine ⟨?_, .inr ⟨hcursor ▸ hp, ?_⟩, ?_⟩
    · rw [hs.content.mounted.head, hf.content_head]
      rfl
    · rw [← hcursor, hlen]
      exact Nat.le_trans hple hcap
    · intro b hb
      obtain ⟨hkey, hlies⟩ := hs.lies b (hs.saved_mem b hb)
      exact ⟨hkey, hlies.offset_le, hcursor ▸ hfin b hb, hlies.read_eq⟩
  have hindex : g.shelf.InIndex (v.disk.image l.index.index.log.file) := by
    refine ⟨?_, kept, m, hstored, hsaved⟩
    rw [hsteady.mounted.head, hf.index_head]
    rfl
  rw [hs.content_file] at hcontent
  rw [hs.index_file] at hindex
  exact ⟨h.sound, h.apart, .of_names h.sound h.storage hcontent, .of_names h.sound h.index hindex⟩

end Volume.Hosts

end TwinLog
