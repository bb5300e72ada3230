/-
  TwinLog.Proofs.Log.Opening — opening a log file that is there, or making it.

  `Reaches v path f` says that opening `path` opens file `f`, which may have to be made.
  An opening then succeeds if the space is granted (`openAt_ok`), and `Opened` says what it
  leaves: a mounted log under the same name, all bytes kept, a new file all zero. The
  cursor it finds is what the file `Resumes` at.
-/

import TwinLog.Proofs.Volume.Naming

namespace TwinLog

/-- Opening `path` to write opens file `f`, which is made if the name is vacant. -/
def Volume.Reaches (v : Volume) (path : String) (f : FileId) : Prop :=
  v.Names path f ∨ f = v.disk.files.size ∧ ∃ folder name, v.Vacant path folder name

theorem Volume.Reaches.unique {v : Volume} {path : String} {f g : FileId} (h : v.Reaches path f)
    (h' : v.Reaches path g) :
    f = g := by
  rcases h with hf | ⟨rfl, folder, name, hf⟩ <;> rcases h' with hg | ⟨rfl, folder', name', hg⟩
  · exact hf.unique hg
  · obtain ⟨n, hn, -⟩ := hf
    cases hn.symm.trans hg
  · obtain ⟨n, hn, -⟩ := hg
    cases hn.symm.trans hf
  · rfl

/-- The cursor that opening a file with these bytes finds; an empty file is a new log. -/
def Image.Resumes (im : Image) (c : Nat) : Prop := im.length = 0 ∧ c = headSize ∨ im.Headed c ∧ c ≤ im.length

theorem Disk.image_of_size_le (d : Disk) {f : FileId} (h : d.files.size ≤ f) : d.image f = {} := by
  rw [Disk.image, Array.getElem?_eq_none h]
  rfl

namespace Log

structure Opened (v : Volume) (path : String) (requested : Nat) (l : Log) (v' : Volume) : Prop where
  sound : v'.Sound
  grows : v.Grows v'
  reaches : v.Reaches path l.file
  names : v'.Names path l.file
  mounted : l.Mounted v'.disk
  available : v'.available = v.available
  size_le : v.disk.files.size ≤ v'.disk.files.size
  capacity : l.capacity = max (requested + headSize) (v.disk.image l.file).length
  others : ∀ g, g ≠ l.file → v'.disk.image g = v.disk.image g
  keeps : Image.Keeps 0 (v.disk.image l.file).length (v.disk.image l.file) (v'.disk.image l.file)
  fresh : (v.disk.image l.file).length = 0 → ∀ i, (v'.disk.image l.file).get i = 0
  vacant : ∀ path' folder' name', v.Vacant path' folder' name' →
    (∀ folder name, v.Vacant path folder name → folder' = folder → name' ≠ name) → v'.Vacant path' folder' name'

variable {v v' w : Volume} {path : String} {requested available : Nat} {l : Log} {f : FileId}

/-- An opening asks for the length that the file has, or for what is wanted if that is more. -/
theorem openAt_eq (h : v.Reaches path f) (hr : requested + headSize ≤ maxUnsigned) {capacity : Nat}
    (hc : capacity = max (requested + headSize) (v.disk.image f).length) :
    openAt v path requested = match checkSpace v.space path capacity with
      | .error e => .error e
      | .ok () => match v.openToWrite path with
        | .error e => .error (.io e)
        | .ok (file, w) =>
          .ok (⟨path, file, capacity⟩, { w with disk := w.disk.update file (·.extend capacity) }) := by
  subst hc
  unfold openAt
  rw [if_neg (by omega)]
  rcases h with h | ⟨rfl, folder, name, h⟩
  · simp only [h.length]
    rfl
  · have h0 : max (requested + headSize) (v.disk.image v.disk.files.size).length = requested + headSize := by
      rw [v.disk.image_of_size_le (Nat.le_refl _)]
      exact Nat.max_zero _
    simp only [h.length, h0]
    rfl

structure Wrote (v : Volume) (path : String) (f : FileId) (w : Volume) : Prop where
  sound : w.Sound
  grows : v.Grows w
  names : w.Names path f
  available : w.available = v.available
  size_le : v.disk.files.size ≤ w.disk.files.size
  image : ∀ g, w.disk.image g = v.disk.image g
  vacant : ∀ path' folder' name', v.Vacant path' folder' name' →
    (∀ folder name, v.Vacant path folder name → folder' = folder → name' ≠ name) → w.Vacant path' folder' name'

theorem openToWrite_reaches (hv : v.Sound) (h : v.Reaches path f) :
    ∃ w, v.openToWrite path = .ok (f, w) ∧ Wrote v path f w := by
  rcases h with h | ⟨rfl, folder, name, h⟩
  · exact ⟨v, h.openToWrite, hv, .refl v, h, rfl, Nat.le_refl _, fun _ => rfl, fun _ _ _ hvac _ => hvac⟩
  · have hsize : v.disk.files.size ≤ (v.withFile folder name).disk.files.size := by
      rw [Volume.size_files_withFile]
      exact Nat.le_succ _
    exact ⟨v.withFile folder name, h.openToWrite, {
      sound := Volume.sound_withFile hv
      grows := Volume.grows_withFile ..
      names := h.names hv
      available := rfl
      size_le := hsize
      image := Volume.image_withFile v folder name
      vacant := fun _ _ _ hvac hne => hvac.withFile_ne hv (hne folder name h) }⟩

theorem mount_opened (hr : v.Reaches path f) (hw : Wrote v path f w) {capacity : Nat}
    (hc : capacity = max (requested + headSize) (v.disk.image f).length) :
    Opened v path requested ⟨path, f, capacity⟩ { w with disk := w.disk.update f (·.extend capacity) } := by
  have hlt := hw.names.file_lt hw.sound
  have himage : (w.disk.update f (·.extend capacity)).image f = (v.disk.image f).extend capacity := by
    rw [Disk.image_update_self _ hlt, hw.image]
  have hle : (v.disk.image f).length ≤ capacity := by omega
  have hhead : 0 < headSize := by decide
  exact {
    sound := hw.sound.of_nodes rfl (by simp)
    grows := hw.grows.trans (.of_nodes rfl)
    reaches := hr
    names := hw.names.grown hw.sound (.of_nodes rfl)
    mounted := by
      refine ⟨?_, ?_, ?_⟩
      · rw [Disk.size_update]
        exact hlt
      · show ((w.disk.update f _).image f).length = capacity
        rw [himage, Image.length_extend]
        omega
      · show headSize ≤ capacity
        omega
    available := hw.available
    size_le := by
      rw [Disk.size_update]
      exact hw.size_le
    capacity := hc
    others := by
      intro g hg
      rw [Disk.image_update_ne _ (Ne.symm hg), hw.image]
    keeps := by
      intro i _ hi
      rw [himage, Image.get_extend_of_lt hi]
    fresh := by
      intro h0 i
      have h0 : (v.disk.image f).length = 0 := h0
      rw [himage, Image.extend, if_pos (by omega), Image.get_resize, if_neg (by omega)]
    vacant := by
      intro path' folder' name' hvac hne
      exact (hw.vacant path' folder' name' hvac hne).of_nodes rfl }

theorem openAt_spec (hv : v.Sound) (h : openAt v path requested = .ok (l, v')) :
    Opened v path requested l v' := by
  obtain ⟨f, w, hr, hopen⟩ : ∃ f w, requested + headSize ≤ maxUnsigned ∧ v.openToWrite path = .ok (f, w) := by
    unfold openAt at h
    split at h
    · cases h
    rename_i hfits
    dsimp only at h
    split at h
    · cases h
    split at h
    · cases h
    · rename_i f w hopen
      exact ⟨f, w, by omega, hopen⟩
  have hreach : v.Reaches path f := by
    rcases Volume.openToWrite_cases hopen with ⟨hn, -⟩ | ⟨folder, name, hvac, rfl, -⟩
    · exact .inl hn
    · exact .inr ⟨rfl, folder, name, hvac⟩
  obtain ⟨w', hopen', hw⟩ := openToWrite_reaches hv hreach
  cases hopen.symm.trans hopen'
  rw [openAt_eq hreach hr rfl] at h
  split at h
  · cases h
  · rw [hopen] at h
    cases h
    exact mount_opened hreach hw rfl

def Room (v : Volume) (path : String) (requested : Nat) : Prop :=
  requested + headSize ≤ maxUnsigned ∧
    ∃ available, v.space path = .ok available ∧ requested + headSize ≤ available ∧
      ∀ n, v.length path = .ok n → n ≤ available

/-- A granted opening succeeds. -/
theorem openAt_ok (hv : v.Sound) (hr : v.Reaches path f) (h : Room v path requested) :
    ∃ l v', openAt v path requested = .ok (l, v') ∧ l.file = f := by
  obtain ⟨w, hopen, -⟩ := openToWrite_reaches hv hr
  obtain ⟨hfits, available, hspace, hwanted, hlength⟩ := h
  have hle : (v.disk.image f).length ≤ available := by
    rcases hr with hn | ⟨rfl, -⟩
    · exact hlength _ hn.length
    · rw [v.disk.image_of_size_le (Nat.le_refl _)]
      exact Nat.zero_le _
  have hcheck : checkSpace v.space path (max (requested + headSize) (v.disk.image f).length) = .ok () := by
    simp only [checkSpace, hspace]
    rw [if_neg (by omega)]
  rw [openAt_eq hr hfits rfl, hcheck, hopen]
  exact ⟨_, _, rfl, rfl⟩

/-- The opening of one log leaves room for another, whose file it does not lengthen. -/
theorem Opened.room (h : Opened v path requested l v') (hv : v.Sound) {path' : String} {requested' : Nat}
    (hlen : ∀ n, v'.length path' = .ok n → v.length path' = .ok n) (hroom : Room v path' requested') :
    Room v' path' requested' := by
  obtain ⟨hfits, available, hspace, hwanted, hlength⟩ := hroom
  have hspace' := Volume.space_grown hv h.grows h.available hspace
  exact ⟨hfits, available, hspace', hwanted, fun n hn => hlength n (hlen n hn)⟩

theorem Opened.raw_fresh (h : Opened v path requested l v') (hlen : (v.disk.image l.file).length = 0) :
    (v'.disk.image l.file).rawCursor = 0 := by
  have hread : (v'.disk.image l.file).read 0 headSize = List.replicate headSize 0 := by
    apply List.ext_getElem
    · simp
    · intro i hi _
      simp [Image.read, Sparse.read, ← Image.get.eq_1, h.fresh hlen]
  rw [Image.rawCursor, hread]
  decide

theorem Opened.headed_fresh (h : Opened v path requested l v') (hlen : (v.disk.image l.file).length = 0) :
    (v'.disk.image l.file).Headed headSize := .inl ⟨h.raw_fresh hlen, rfl⟩

/-- Opening finds the cursor that the file resumes at. -/
theorem Opened.resumes (h : Opened v path requested l v') {c : Nat} (hc : (v.disk.image l.file).Resumes c) :
    (v'.disk.image l.file).Headed c ∧ c ≤ l.capacity := by
  have hcap := h.capacity
  rcases hc with ⟨hlen, rfl⟩ | ⟨hh, hle⟩
  · exact ⟨h.headed_fresh hlen, h.mounted.head_le⟩
  · have := hh.head_le
    exact ⟨hh.congr (h.keeps.mono (Nat.le_refl _) (by omega)), by omega⟩

/-- So does the next opening. -/
theorem Opened.resumes_again (h : Opened v path requested l v') {c : Nat} (hc : (v.disk.image l.file).Resumes c) :
    (v'.disk.image l.file).Resumes c := by
  obtain ⟨hh, hle⟩ := h.resumes hc
  exact .inr ⟨hh, h.mounted.length_eq ▸ hle⟩

/-- What lies before the cursor is kept. -/
theorem Opened.keeps_below (h : Opened v path requested l v') {c : Nat}
    (hc : (v.disk.image l.file).Resumes c) :
    Image.Keeps headSize c (v.disk.image l.file) (v'.disk.image l.file) := by
  rcases hc with ⟨-, rfl⟩ | ⟨-, hle⟩
  · exact fun i hl hh => absurd hh (Nat.not_lt.mpr hl)
  · exact h.keeps.mono (Nat.zero_le _) hle

theorem Mounted.of_image {d d' : Disk} (h : l.Mounted d) (hs : d.files.size ≤ d'.files.size)
    (hi : d'.image l.file = d.image l.file) : l.Mounted d' :=
  ⟨Nat.lt_of_lt_of_le h.file_lt hs, hi ▸ h.length_eq, h.head_le⟩

end Log

end TwinLog
