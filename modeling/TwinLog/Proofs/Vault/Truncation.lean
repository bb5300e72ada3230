/-
  TwinLog.Proofs.Vault.Truncation — log files that are shorter than their cursor says.

  A file is cut short when its header holds a cursor past its end. Opening it lengthens it
  with zeros to the capacity that is asked for, and only then looks at the cursor; so what
  decides is not where the file ended but whether the capacity reaches the cursor:
  - if it does not, both logs are refused as damaged;
  - if it does, the content log opens, and the bytes that are missing read as zeros;
  - the index opens on whatever records lie in the lengthened file, and zeros behind the
    last whole record are an end mark: the keys behind the cut are gone.
  `truncated_refused_iff` is the exact condition for both. `cut_logs_open` is a file of each
  kind that is nothing but its header and opens all the same.
-/

import Mathlib.Control.Monad.Basic
import TwinLog.Proofs.ContentLog.Returns
import TwinLog.Proofs.KeyLog.History

namespace TwinLog

def Damaged {α : Type} (r : Except Fault α) : Prop := ∃ what, r = .error (.corruption what)

/-! ## Lengthened files -/

namespace Image

theorem keeps_extend (im : Image) {m n : Nat} (h : m ≤ n) : Keeps 0 m (im.extend m) (im.extend n) := by
  intro i _ hi
  rw [get_extend (by rw [length_extend]; omega), get_extend (by rw [length_extend]; omega)]

theorem isEnd_of_zeros {im : Image} {pos : Nat} (h : ∀ i, pos ≤ i → i < pos + Header.width → im.get i = 0) :
    (Header.decode (im.read pos Header.width)).isEnd = true := by
  have hread : im.read pos Header.width = List.replicate Header.width 0 := by
    apply List.ext_getElem
    · simp
    · intro i hi _
      have hi : i < Header.width := by simpa using hi
      simp only [read, Sparse.read, List.getElem_map, List.getElem_range', List.getElem_replicate, ← get.eq_1]
      exact h _ (by omega) (by omega)
  rw [hread]
  decide

end Image

/-! ## What makes an opening find damage -/

namespace Log

variable {v : Volume} {path : String} {requested c : Nat} {f : FileId} {l : Log} {d : Disk}

def openCapacity (im : Image) (requested : Nat) : Nat := max (requested + headSize) im.length

/-- Opening a file that is there lengthens it and does nothing else. -/
theorem openAt_names (hn : v.Names path f) (hroom : Room v path requested) :
    openAt v path requested = .ok (⟨path, f, openCapacity (v.disk.image f) requested⟩,
      { v with disk := v.disk.update f (·.extend (openCapacity (v.disk.image f) requested)) }) := by
  obtain ⟨hfits, available, hspace, hwanted, hlength⟩ := hroom
  have hle := hlength _ hn.length
  have hcheck : checkSpace v.space path (openCapacity (v.disk.image f) requested) = .ok () := by
    simp only [checkSpace, hspace]
    rw [if_neg (by simp only [openCapacity]; omega)]
  rw [openAt_eq (.inl hn) hfits rfl, ← openCapacity.eq_1, hcheck, hn.openToWrite]

theorem loadCursor_damaged (hm : l.Mounted d) {e : Fault} (h : l.loadCursor d = .error e) :
    ∃ what, e = .corruption what := by
  have hcap := hm.head_le
  unfold loadCursor at h
  rw [read_ok (by omega)] at h
  dsimp only at h
  split at h
  · cases h
  split at h
  · cases h; exact ⟨_, rfl⟩
  split at h
  · cases h; exact ⟨_, rfl⟩
  · cases h

/-- The cursor of a header is good if it lies between the header and the capacity. -/
theorem loadCursor_of_raw (hm : l.Mounted d) (hraw : (d.image l.file).rawCursor = c) (hpos : 0 < c) :
    (headSize ≤ c ∧ c ≤ l.capacity → l.loadCursor d = .ok c) ∧
      (¬ (headSize ≤ c ∧ c ≤ l.capacity) → Damaged (l.loadCursor d)) := by
  refine ⟨fun h => (loadCursor_iff hm).mpr ⟨.inr ⟨hraw, h.1⟩, h.2⟩, ?_⟩
  intro hout
  cases hload : l.loadCursor d with
  | error e =>
    obtain ⟨what, rfl⟩ := loadCursor_damaged hm hload
    exact ⟨what, rfl⟩
  | ok c' =>
    obtain ⟨hh, hle⟩ := (loadCursor_iff hm).mp hload
    rcases hh with ⟨h0, -⟩ | ⟨hc, hhead⟩
    · omega
    · exact absurd ⟨by omega, by omega⟩ hout

end Log

namespace KeyLog

variable {l : Log} {d : Disk} {bound : Nat}

theorem decodeEntry_damaged {position : Nat} {h : Header} {read : Nat → Nat → Except Fault (List UInt8)} {e : Fault}
    (hread : ∀ o n, o + n ≤ bound → ∃ bs, read o n = .ok bs) (he : decodeEntry position bound h read = .error e) :
    ∃ what, e = .corruption what := by
  unfold decodeEntry at he
  dsimp only at he
  split at he
  · cases he; exact ⟨_, rfl⟩
  split at he
  · cases he; exact ⟨_, rfl⟩
  split at he
  · cases he; exact ⟨_, rfl⟩
  split at he
  · cases he; exact ⟨_, rfl⟩
  split at he
  · cases he; exact ⟨_, rfl⟩
  rename_i hbound
  obtain ⟨bs, hbs⟩ := hread (position + Header.width) h.keySize.toInt.toNat (by omega)
  rw [hbs] at he
  dsimp only at he
  split at he
  · cases he; exact ⟨_, rfl⟩
  · cases he

/-- A replay inside the capacity fails only for what it reads. -/
theorem replayFrom_damaged (hcap : bound ≤ l.capacity) {seen : Directory} {pos : Nat} {e : Fault}
    (he : replayFrom l d bound seen pos = .error e) : ∃ what, e = .corruption what := by
  have hread : ∀ o n, o + n ≤ bound → ∃ bs, l.read d o n = .ok bs :=
    fun o n h => ⟨_, Log.read_ok (Nat.le_trans h hcap)⟩
  fun_induction replayFrom l d bound seen pos with
  | case1 => cases he; exact ⟨_, rfl⟩
  | case2 seen pos hlt hheader e' hr =>
    obtain ⟨bs, hbs⟩ := hread pos Header.width (by omega)
    cases hbs.symm.trans hr
  | case3 => cases he
  | case4 seen pos hlt hheader bs hr header hend e' hdec =>
    cases he
    exact decodeEntry_damaged hread hdec
  | case5 => cases he; exact ⟨_, rfl⟩
  | case6 seen pos hlt hheader bs hr header hend entry hdec hseen ih => exact ih he
  | case7 => cases he

def Replays (im : Image) (bound : Nat) (dir : Directory) : Prop :=
  ∃ stop, Laid im headSize dir stop ∧ (stop = bound ∨ Ends im stop bound) ∧ dir.Distinct

end KeyLog

/-! ## Files that are cut short -/

section Cut

variable {v : Volume} {path : String} {requested bufferSize c : Nat} {f : FileId}

/-- The file is there, it can be opened, and the cursor in its header lies past its end. -/
structure CutShort (v : Volume) (path : String) (f : FileId) (requested c : Nat) : Prop where
  sound : v.Sound
  names : v.Names path f
  room : Log.Room v path requested
  /-- Where the file has fewer bytes than a header, the others are read as zeros. -/
  header : ((v.disk.image f).extend headSize).rawCursor = c
  cut : (v.disk.image f).length < c

namespace CutShort

open Log (openCapacity)

/-- The file as an opening leaves it, before the cursor is looked at. -/
def whole (v : Volume) (f : FileId) (requested : Nat) : Image :=
  (v.disk.image f).extend (openCapacity (v.disk.image f) requested)

theorem opened (h : CutShort v path f requested c) : ∃ l v', Log.openAt v path requested = .ok (l, v') ∧
    l.Mounted v'.disk ∧ v'.disk.image l.file = whole v f requested ∧ v'.disk.image f = whole v f requested ∧
    (v'.disk.image l.file).rawCursor = c ∧ (c ≤ l.capacity ↔ c ≤ requested + headSize) := by
  have hopen := Log.openAt_names h.names h.room
  have hcut := h.cut
  have himage : (v.disk.update f (·.extend (openCapacity (v.disk.image f) requested))).image f = whole v f requested :=
    v.disk.image_update_self (h.names.file_lt h.sound) _
  refine ⟨_, _, hopen, (Log.openAt_spec h.sound hopen).mounted, himage, himage, ?_, ?_⟩
  · show Image.rawCursor (Disk.image _ f) = c
    rw [himage, ← h.header]
    refine Image.rawCursor_eq (Image.keeps_extend _ ?_)
    simp only [openCapacity]
    omega
  · simp only [openCapacity]
    omega

/-- An opening loads the cursor, or finds it damaged where the capacity does not reach it. -/
theorem loads (h : CutShort v path f requested c) : ∃ l v', Log.openAt v path requested = .ok (l, v') ∧
    v'.disk.image l.file = whole v f requested ∧ v'.disk.image f = whole v f requested ∧
    (¬ (headSize ≤ c ∧ c ≤ requested + headSize) → Damaged (l.loadCursor v'.disk)) ∧
    (headSize ≤ c ∧ c ≤ requested + headSize → l.loadCursor v'.disk = .ok c ∧ c ≤ l.capacity) := by
  obtain ⟨l, v', hopen, hm, himage, hf, hraw, hcap⟩ := h.opened
  obtain ⟨hgood, hbad⟩ := Log.loadCursor_of_raw hm hraw (Nat.zero_lt_of_lt h.cut)
  rw [hcap] at hgood hbad
  exact ⟨l, v', hopen, himage, hf, hbad, fun hin => ⟨hgood hin, hcap.mpr hin.2⟩⟩

/-- The bytes behind the end of the file are zeros. -/
theorem whole_zero {i : Nat} (hlo : (v.disk.image f).length ≤ i) (hhi : i < requested + headSize) :
    (whole v f requested).get i = 0 := by
  rw [whole, Image.get_extend (by simp only [Image.length_extend, openCapacity]; omega), if_neg (by omega)]

/-- A content log that is cut short: damaged where the capacity does not reach its cursor,
    and open at that cursor where it does. -/
theorem content (h : CutShort v path f requested c) (hb : 0 < bufferSize) :
    (¬ (headSize ≤ c ∧ c ≤ requested + headSize) → Damaged (ContentLog.openAt v path requested bufferSize).1) ∧
      (headSize ≤ c ∧ c ≤ requested + headSize → ∃ l v', ContentLog.openAt v path requested bufferSize = (.ok l, v') ∧
        l.cursor = c ∧ v'.disk.image f = whole v f requested) := by
  obtain ⟨l, v', hopen, -, hf, hbad, hgood⟩ := h.loads
  unfold ContentLog.openAt
  rw [dif_pos hb, hopen]
  dsimp only
  constructor
  · intro hout
    obtain ⟨what, hwhat⟩ := hbad hout
    rw [hwhat]
    exact ⟨what, rfl⟩
  · intro hin
    rw [(hgood hin).1]
    exact ⟨_, _, rfl, rfl, hf⟩

/-- An index that is cut short: damaged also where the lengthened file does not replay. -/
theorem index (h : CutShort v path f requested c) :
    (¬ (headSize ≤ c ∧ c ≤ requested + headSize) → Damaged (KeyLog.openAt v path requested).1) ∧
      (headSize ≤ c ∧ c ≤ requested + headSize →
        (∀ dir, KeyLog.Replays (whole v f requested) c dir →
          ∃ k v', KeyLog.openAt v path requested = (.ok k, v') ∧ k.directory = dir ∧ k.cursor = c) ∧
        ((¬ ∃ dir, KeyLog.Replays (whole v f requested) c dir) → Damaged (KeyLog.openAt v path requested).1)) := by
  obtain ⟨l, v', hopen, himage, -, hbad, hgood⟩ := h.loads
  unfold KeyLog.openAt
  rw [hopen]
  dsimp only
  constructor
  · intro hout
    obtain ⟨what, hwhat⟩ := hbad hout
    rw [hwhat]
    exact ⟨what, rfl⟩
  · intro hin
    obtain ⟨hload, hle⟩ := hgood hin
    have hreplay : ∀ dir, KeyLog.replay l v'.disk c = .ok dir ↔ KeyLog.Replays (whole v f requested) c dir := by
      intro dir
      rw [KeyLog.replay_iff hle hin.1, himage]
      rfl
    rw [hload]
    dsimp only
    constructor
    · intro dir hdir
      rw [(hreplay dir).mpr hdir]
      exact ⟨_, _, rfl, rfl, rfl⟩
    · intro hnone
      cases hr : KeyLog.replay l v'.disk c with
      | ok dir => exact absurd ⟨dir, (hreplay dir).mp hr⟩ hnone
      | error e =>
        obtain ⟨what, rfl⟩ := KeyLog.replayFrom_damaged hle hr
        exact ⟨what, rfl⟩

/-- A cut behind whole records leaves an end mark behind them, if the cursor is a header or
    more away. -/
theorem replays_records (hin : c ≤ requested + headSize) {dir : Directory}
    (hlaid : KeyLog.Laid (v.disk.image f) headSize dir (v.disk.image f).length) (hd : dir.Distinct)
    (hfar : (v.disk.image f).length + Header.width ≤ c) :
    KeyLog.Replays (whole v f requested) c dir := by
  have hkeep : Image.Keeps headSize (v.disk.image f).length (v.disk.image f) (whole v f requested) :=
    fun i _ hi => Image.get_extend_of_lt hi _
  refine ⟨_, hlaid.keep hkeep, .inr ⟨hfar, Image.isEnd_of_zeros ?_⟩, hd⟩
  intro i hlo hhi
  exact whole_zero hlo (by omega)

end CutShort

/-- A log that is cut short is refused exactly where the requested capacity does not reach its
    cursor, and an index also where the file lengthened with zeros is no log. Where it is not
    refused, the content that is missing reads as zeros, and an index that is cut behind
    whole records has just these. -/
theorem truncated_refused_iff (h : CutShort v path f requested c) (hb : 0 < bufferSize) :
    (Damaged (ContentLog.openAt v path requested bufferSize).1 ↔ ¬ (headSize ≤ c ∧ c ≤ requested + headSize)) ∧
      (Damaged (KeyLog.openAt v path requested).1 ↔ ¬ (headSize ≤ c ∧ c ≤ requested + headSize ∧
        ∃ dir, KeyLog.Replays (CutShort.whole v f requested) c dir)) ∧
      (headSize ≤ c ∧ c ≤ requested + headSize →
        (∃ l v', ContentLog.openAt v path requested bufferSize = (.ok l, v') ∧ l.cursor = c ∧
          ∀ i, (v.disk.image f).length ≤ i → i < c → (v'.disk.image f).get i = 0) ∧
        ∀ dir : Directory, KeyLog.Laid (v.disk.image f) headSize dir (v.disk.image f).length → dir.Distinct →
          (v.disk.image f).length + Header.width ≤ c →
          ∃ k v', KeyLog.openAt v path requested = (.ok k, v') ∧ k.directory = dir ∧ k.cursor = c) := by
  obtain ⟨hcbad, hcgood⟩ := h.content hb
  obtain ⟨hibad, higood⟩ := h.index
  have opens {α : Type} {r : Except Fault α × Volume} {x : α} {v' : Volume} (hr : r = (.ok x, v')) : ¬ Damaged r.1 := by
    rintro ⟨what, hwhat⟩
    rw [hr] at hwhat
    cases hwhat
  refine ⟨⟨?_, hcbad⟩, ⟨?_, ?_⟩, ?_⟩
  · intro hdam hin
    obtain ⟨l, v', hopen, -⟩ := hcgood hin
    exact opens hopen hdam
  · rintro hdam ⟨hlo, hhi, dir, hdir⟩
    obtain ⟨k, v', hopen, -⟩ := (higood ⟨hlo, hhi⟩).1 dir hdir
    exact opens hopen hdam
  · intro hout
    by_cases hin : headSize ≤ c ∧ c ≤ requested + headSize
    · exact (higood hin).2 fun hdir => hout ⟨hin.1, hin.2, hdir⟩
    · exact hibad hin
  · intro hin
    obtain ⟨l, v', hopen, hcursor, himage⟩ := hcgood hin
    refine ⟨⟨l, v', hopen, hcursor, ?_⟩, ?_⟩
    · intro i hlo hhi
      rw [himage]
      exact CutShort.whole_zero hlo (by omega)
    · intro dir hlaid hd hfar
      exact (higood hin).1 dir (CutShort.replays_records hin.2 hlaid hd hfar)

/-- The record of one key, and a file that ends behind it while its cursor is at the end of a
    second record of that size. -/
def firstRecord : Entry := ⟨"a", 52, ⟨3, 8, Checksum.of []⟩⟩

def cutVolume : Volume :=
  { (Volume.empty 4096).withFile 1 "log.bin" with disk := ⟨#[.ofList (int64Bytes 98 ++ firstRecord.bytes)]⟩ }

theorem cutVolume_cut : CutShort cutVolume "log.bin" 0 90 98 where
  sound := by
    have hmade : ((Volume.empty 4096).withFile 1 "log.bin").Sound := Volume.sound_withFile (Volume.sound_empty 4096)
    exact hmade.of_nodes rfl (by decide +kernel)
  names := ⟨2, by rfl, rfl⟩
  room := by
    refine ⟨by decide, 4096, by rfl, by decide, ?_⟩
    intro n hn
    have hlength : cutVolume.length "log.bin" = .ok 53 := by decide +kernel
    cases hlength.symm.trans hn
    decide
  header := by decide +kernel
  cut := by decide +kernel

/-- Opened with room for both records, the file has the first one. -/
theorem cut_index_has_first_record : CutShort cutVolume "log.bin" 0 90 98 ∧ 0 < 16 ∧
    ∃ k v', KeyLog.openAt cutVolume "log.bin" 90 = (.ok k, v') ∧ k.directory = [firstRecord] ∧ k.cursor = 98 := by
  have hlaid : KeyLog.Laid (cutVolume.disk.image 0) headSize [firstRecord] (cutVolume.disk.image 0).length := by
    refine ⟨⟨⟨by decide, by decide, by decide, by decide⟩, rfl, by decide +kernel⟩, ?_⟩
    show firstRecord.finish = _
    decide +kernel
  have hfound := (truncated_refused_iff cutVolume_cut (by decide : 0 < 16)).2.2 (by decide)
  exact ⟨cutVolume_cut, by decide, hfound.2 [firstRecord] hlaid (by simp [Directory.Distinct, Directory.keys])
    (by decide +kernel)⟩

/-- Neither log is refused, though the cursor lies past the end of the file. -/
theorem cut_logs_open : CutShort cutVolume "log.bin" 0 90 98 ∧
    ¬ Damaged (ContentLog.openAt cutVolume "log.bin" 90 16).1 ∧ ¬ Damaged (KeyLog.openAt cutVolume "log.bin" 90).1 := by
  refine ⟨cutVolume_cut, ?_, ?_⟩
  · obtain ⟨l, v', hopen, -⟩ := (cutVolume_cut.content (by decide : 0 < 16)).2 (by decide)
    rw [hopen]
    rintro ⟨what, hwhat⟩
    cases hwhat
  · have hopen : (KeyLog.openAt cutVolume "log.bin" 90).1 = .ok ⟨⟨"log.bin", 0, 98⟩, 98, 98, [firstRecord]⟩ := by
      decide +kernel
    rw [hopen]
    rintro ⟨what, hwhat⟩
    cases hwhat

end Cut

end TwinLog
