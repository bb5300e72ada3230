/-
  TwinLog.Proofs.KeyLog.Layout — records on disk and the directory that a replay reads.

  `Laid im pos dir finish` says that the records of `dir` lie end to end from `pos` to
  `finish`. A replay answers `dir` exactly when the records of `dir` are laid out from
  behind the header on, no key stands twice, and the bound or an end mark comes after
  them (`replay_iff`). Bytes that are kept keep their records (`Laid.keep`), so what is
  written behind a cursor changes no replay up to it.
-/

import TwinLog.KeyLog.Replay
import TwinLog.Proofs.Log.Memory

namespace TwinLog

@[simp] theorem length_keyBytes (key : String) : (keyBytes key).length = key.utf8ByteSize := by
  rw [keyBytes, Array.length_toList]
  rfl

theorem textOf_keyBytes (key : String) : textOf (keyBytes key) = some key := by
  unfold textOf keyBytes
  rw [Array.toArray_toList]
  show String.fromUTF8? key.toByteArray = some key
  rw [String.fromUTF8?, dif_pos key.isValidUTF8]
  rfl

theorem keyBytes_of_textOf {bs : List UInt8} {key : String} (h : textOf bs = some key) :
    keyBytes key = bs := by
  unfold textOf String.fromUTF8? at h
  split at h
  · cases h
    rfl
  · cases h

theorem ofNat_toNat {x : Int64} (h : 0 ≤ x.toInt) : Int64.ofNat x.toInt.toNat = x := by
  have hle := toInt_le_maxSigned x
  rw [← Int64.toInt_inj, toInt_ofNat (by omega)]
  omega

theorem toInt_ofNat32 {n : Nat} (h : n ≤ maxKeySize) : (Int32.ofNat n).toInt = n :=
  Int32.toInt_ofNat_of_lt (by simp only [maxKeySize] at h; omega)

theorem toInt_le_maxKeySize (x : Int32) : x.toInt ≤ maxKeySize := by
  have := x.toInt_lt
  simp only [maxKeySize]
  omega

theorem ofNat_toNat32 {x : Int32} (h : 0 ≤ x.toInt) : Int32.ofNat x.toInt.toNat = x := by
  have hle := toInt_le_maxKeySize x
  rw [← Int32.toInt_inj, toInt_ofNat32 (by omega)]
  omega

def Directory.Distinct (dir : Directory) : Prop := dir.keys.Nodup

namespace Directory

variable {dir more : Directory} {e : Entry} {key : String}

theorem contains_eq_false : dir.contains key = false ↔ key ∉ dir.keys := by
  simp [contains, keys]

theorem distinct_snoc : Distinct (dir ++ [e]) ↔ Distinct dir ∧ e.key ∉ dir.keys := by
  simp only [Distinct, keys, List.map_append, List.map_cons, List.map_nil, List.nodup_append, List.mem_singleton]
  constructor
  · intro h
    exact ⟨h.1, fun hm => h.2.2 _ hm _ rfl rfl⟩
  · intro h
    exact ⟨h.1, by simp, fun a ha b hb hab => h.2 (hb ▸ hab ▸ ha)⟩

theorem Distinct.left (h : Distinct (dir ++ more)) : Distinct dir := by
  unfold Distinct keys at h ⊢
  rw [List.map_append] at h
  exact (List.nodup_append.mp h).1

theorem Distinct.find? (h : Distinct dir) (he : e ∈ dir) :
    dir.find? e.key = some e := by
  induction dir with
  | nil => cases he
  | cons e' dir ih =>
    have hnd := List.nodup_cons.mp h
    rcases List.mem_cons.mp he with rfl | he
    · exact List.find?_cons_of_pos (by simp)
    · have hmem : e.key ∈ dir.map (·.key) := List.mem_map_of_mem he
      have hne : e'.key ≠ e.key := fun heq => hnd.1 (by show e'.key ∈ _; rw [heq]; exact hmem)
      rw [Directory.find?, List.find?_cons_of_neg (by simpa using hne)]
      exact ih hnd.2 he

end Directory

/-! ## One record -/

namespace Entry

structure Fits (e : Entry) : Prop where
  key : e.keySize ≤ maxKeySize
  keyOffset : e.keyOffset ≤ maxSigned
  size : e.location.size ≤ maxSigned
  offset : e.location.offset ≤ maxSigned

def header (e : Entry) : Header where
  keyOffset := Int64.ofNat e.keyOffset
  keySize := Int32.ofNat e.keySize
  size := Int64.ofNat e.location.size
  offset := Int64.ofNat e.location.offset
  checksum := e.location.checksum

def bytes (e : Entry) : List UInt8 := e.header.encode ++ keyBytes e.key

@[simp] theorem length_bytes (e : Entry) : e.bytes.length = Header.width + e.keySize := by
  rw [bytes, List.length_append, Header.length_encode, length_keyBytes]
  rfl

structure At (im : Image) (pos : Nat) (e : Entry) : Prop where
  fits : e.Fits
  offset : e.keyOffset = pos + Header.width
  bytes : im.read pos (Header.width + e.keySize) = e.bytes

variable {im im' : Image} {pos bound : Nat} {e : Entry}

theorem At.finish_eq (h : e.At im pos) : e.finish = pos + (Header.width + e.keySize) := by
  rw [finish, h.offset, Nat.add_assoc]

theorem At.lt_finish (h : e.At im pos) : pos < e.finish := by
  rw [h.finish_eq, Header.width]
  omega

theorem At.header_eq (h : e.At im pos) : im.read pos Header.width = e.header.encode := by
  have hb := h.bytes
  rw [Image.read_add] at hb
  exact List.append_inj_left hb (by rw [Image.length_read, Header.length_encode]; rfl)

theorem At.key_eq (h : e.At im pos) : im.read (pos + Header.width) e.keySize = keyBytes e.key := by
  have hb := h.bytes
  rw [Image.read_add] at hb
  exact List.append_inj_right hb (by rw [Image.length_read, Header.length_encode]; rfl)

theorem At.keep (h : e.At im pos) (hk : Image.Keeps pos e.finish im im') : e.At im' pos :=
  ⟨h.fits, h.offset, (hk.read_eq (Nat.le_refl _) (Nat.le_of_eq h.finish_eq.symm)).trans h.bytes⟩

/-- A record is no end mark. -/
theorem isEnd_header (h : e.Fits) (hpos : 0 < e.keyOffset) : e.header.isEnd = false := by
  have hne : e.header.keyOffset ≠ 0 := by
    rw [Ne, ← Int64.toInt_inj]
    show (Int64.ofNat e.keyOffset).toInt ≠ 0
    rw [toInt_ofNat h.keyOffset]
    omega
  simpa [Header.isEnd] using hne

end Entry

namespace KeyLog

variable {im im' : Image} {pos bound finish : Nat} {e : Entry} {dir more : Directory} {l : Log} {d : Disk}

/-- A record that lies below the bound decodes as its entry. -/
theorem decodeEntry_at (h : e.At im pos) (hb : e.finish ≤ bound)
    {key : Nat → Nat → Except Fault (List UInt8)}
    (hkey : key (pos + Header.width) e.keySize = .ok (keyBytes e.key)) :
    decodeEntry pos bound e.header key = .ok e := by
  have hoff : e.header.keyOffset.toInt = ((pos + Header.width : Nat) : Int) := by
    rw [← h.offset]; exact toInt_ofNat h.fits.keyOffset
  have hks : e.header.keySize.toInt = (e.keySize : Int) := toInt_ofNat32 h.fits.key
  have hsize : e.header.size.toInt = (e.location.size : Int) := toInt_ofNat h.fits.size
  have hoffset : e.header.offset.toInt = (e.location.offset : Int) := toInt_ofNat h.fits.offset
  have hfin := h.finish_eq
  unfold decodeEntry
  dsimp only
  rw [hoff, hks, hsize, hoffset, if_neg (by omega), if_neg (by omega), if_neg (by omega), if_neg (by omega),
    if_neg (by omega)]
  simp only [Int.toNat_natCast, hkey, textOf_keyBytes]
  rw [← h.offset]
  rfl

/-- What decodes as an entry is its record. -/
theorem at_of_decodeEntry {h : Header} (hh : im.read pos Header.width = h.encode)
    {read : Nat → Nat → Except Fault (List UInt8)} (hread : ∀ {o n bs}, read o n = .ok bs → bs = im.read o n)
    (hdec : decodeEntry pos bound h read = .ok e) : e.At im pos ∧ e.finish ≤ bound := by
  unfold decodeEntry at hdec
  dsimp only at hdec
  split at hdec
  · cases hdec
  rename_i hoff
  split at hdec
  · cases hdec
  rename_i hks
  split at hdec
  · cases hdec
  rename_i hsize
  split at hdec
  · cases hdec
  rename_i hoffset
  split at hdec
  · cases hdec
  rename_i hbound
  split at hdec
  · cases hdec
  rename_i bs hbs
  split at hdec
  · cases hdec
  rename_i key htext
  cases hdec
  have hkey := keyBytes_of_textOf htext
  rw [hread hbs] at hkey
  have hsz : key.utf8ByteSize = h.keySize.toInt.toNat := by
    rw [← length_keyBytes, hkey, Image.length_read]
  have hheader : (Entry.mk key (pos + Header.width)
      ⟨h.size.toInt.toNat, h.offset.toInt.toNat, h.checksum⟩).header = h := by
    have ho : Int64.ofNat (pos + Header.width) = h.keyOffset := by
      rw [← ofNat_toNat (x := h.keyOffset) (by omega)]
      congr 1
      omega
    simp only [Entry.header, Entry.keySize, hsz, ho, ofNat_toNat (Int.not_lt.mp hsize),
      ofNat_toNat (Int.not_lt.mp hoffset), ofNat_toNat32 (Int.not_lt.mp hks)]
  refine ⟨⟨⟨?_, ?_, ?_, ?_⟩, rfl, ?_⟩, ?_⟩
  · have := toInt_le_maxKeySize h.keySize
    show key.utf8ByteSize ≤ maxKeySize
    omega
  · have := toInt_le_maxSigned h.keyOffset
    show pos + Header.width ≤ maxSigned
    omega
  · have := toInt_le_maxSigned h.size
    show h.size.toInt.toNat ≤ maxSigned
    omega
  · have := toInt_le_maxSigned h.offset
    show h.offset.toInt.toNat ≤ maxSigned
    omega
  · show im.read pos (Header.width + key.utf8ByteSize) = _
    rw [Image.read_add, hh, Entry.bytes, hheader, hsz, hkey]
  · show pos + Header.width + key.utf8ByteSize ≤ bound
    omega

/-! ## Records end to end -/

def Laid (im : Image) : Nat → Directory → Nat → Prop
  | pos, [], finish => pos = finish
  | pos, e :: dir, finish => e.At im pos ∧ Laid im e.finish dir finish

def Ends (im : Image) (pos bound : Nat) : Prop :=
  pos + Header.width ≤ bound ∧ (Header.decode (im.read pos Header.width)).isEnd = true

namespace Laid

theorem le (h : Laid im pos dir finish) : pos ≤ finish := by
  induction dir generalizing pos with
  | nil => exact Nat.le_of_eq h
  | cons e dir ih =>
    have := h.1.lt_finish
    have := ih h.2
    omega

theorem append {mid : Nat} (h : Laid im pos dir mid) (h' : Laid im mid more finish) :
    Laid im pos (dir ++ more) finish := by
  induction dir generalizing pos with
  | nil => cases h; exact h'
  | cons e dir ih => exact ⟨h.1, ih h.2⟩

theorem keep (h : Laid im pos dir finish) (hk : Image.Keeps pos finish im im') : Laid im' pos dir finish := by
  induction dir generalizing pos with
  | nil => exact h
  | cons e dir ih =>
    have hlt := h.1.lt_finish
    have hle := h.2.le
    exact ⟨h.1.keep (hk.mono (Nat.le_refl _) hle), ih h.2 (hk.mono (Nat.le_of_lt hlt) (Nat.le_refl _))⟩

theorem mem_bounds (h : Laid im pos dir finish) (he : e ∈ dir) : pos < e.keyOffset ∧ e.finish ≤ finish := by
  induction dir generalizing pos with
  | nil => cases he
  | cons e' dir ih =>
    have hlt := h.1.lt_finish
    rcases List.mem_cons.mp he with rfl | he
    · have ho := h.1.offset
      rw [Header.width] at ho
      exact ⟨by omega, h.2.le⟩
    · obtain ⟨hlo, hhi⟩ := ih h.2 he
      exact ⟨by omega, hhi⟩

theorem sorted (h : Laid im pos dir finish) : dir.Pairwise fun e e' => e.finish < e'.keyOffset := by
  induction dir generalizing pos with
  | nil => exact .nil
  | cons e dir ih => exact .cons (fun _ he' => (h.2.mem_bounds he').1) (ih h.2)

/-- The bytes in between are those of the records, and no others. -/
theorem read_eq (h : Laid im pos dir finish) : im.read pos (finish - pos) = dir.flatMap Entry.bytes := by
  induction dir generalizing pos with
  | nil =>
    cases h
    rw [Nat.sub_self, List.flatMap_nil]
    rfl
  | cons e dir ih =>
    have hfin := h.1.finish_eq
    have hle := h.2.le
    have hsize : finish - pos = (Header.width + e.keySize) + (finish - e.finish) := by omega
    rw [hsize, Image.read_add, h.1.bytes, ← hfin, ih h.2, List.flatMap_cons]

theorem finish_mem (h : Laid im pos dir finish) : finish = pos ∨ ∃ e ∈ dir, e.finish = finish := by
  induction dir generalizing pos with
  | nil => exact .inl (Eq.symm h)
  | cons e dir ih =>
    rcases ih h.2 with rfl | ⟨e', he', hfin⟩
    · exact .inr ⟨e, List.mem_cons_self, rfl⟩
    · exact .inr ⟨e', List.mem_cons_of_mem _ he', hfin⟩

/-- The end of a record, or where the first one begins, parts the records in two. -/
theorem part {mid : Nat} (h : Laid im pos dir finish) (hmid : mid = pos ∨ ∃ e ∈ dir, e.finish = mid) :
    ∃ first rest, dir = first ++ rest ∧ Laid im pos first mid ∧ Laid im mid rest finish := by
  induction dir generalizing pos with
  | nil =>
    rcases hmid with rfl | ⟨e, he, -⟩
    · exact ⟨[], [], rfl, rfl, h⟩
    · cases he
  | cons e dir ih =>
    rcases hmid with rfl | ⟨e', he', hfin⟩
    · exact ⟨[], e :: dir, rfl, rfl, h⟩
    · have hmid : mid = e.finish ∨ ∃ e' ∈ dir, e'.finish = mid := by
        rcases List.mem_cons.mp he' with rfl | he'
        · exact .inl hfin.symm
        · exact .inr ⟨e', he', hfin⟩
      obtain ⟨first, rest, rfl, hfirst, hrest⟩ := ih h.2 hmid
      exact ⟨e :: first, rest, rfl, ⟨h.1, hfirst⟩, hrest⟩

/-- The records of a first part are those that end where it ends, or before. -/
theorem filter_finish {mid : Nat} (h : Laid im pos dir mid) (h' : Laid im mid more finish) :
    (dir ++ more).filter (·.finish ≤ mid) = dir := by
  rw [List.filter_append, List.filter_eq_self.mpr, List.filter_eq_nil_iff.mpr, List.append_nil]
  · intro e he
    have := (h'.mem_bounds he).1
    rw [decide_eq_true_eq, Entry.finish]
    omega
  · intro e he
    exact decide_eq_true (h.mem_bounds he).2

end Laid

theorem Ends.keep {stop : Nat} (h : Ends im stop bound) (hk : Image.Keeps stop bound im im') :
    Ends im' stop bound :=
  ⟨h.1, by rw [hk.read_eq (Nat.le_refl _) h.1]; exact h.2⟩

theorem Ends.mono {stop bound' : Nat} (h : Ends im stop bound) (hb : bound ≤ bound') : Ends im stop bound' :=
  ⟨Nat.le_trans h.1 hb, h.2⟩

/-! ## Replaying them -/

section Replay

variable {seen : Directory} (hcap : bound ≤ l.capacity)

theorem keys_reverse {key : String} : (key ∈ Directory.keys seen.reverse) = (key ∈ seen.keys) := by
  rw [Directory.keys, List.map_reverse, List.mem_reverse]
  rfl

include hcap in
theorem replayFrom_at (h : e.At (d.image l.file) pos) (hb : e.finish ≤ bound)
    (hnew : seen.contains e.key = false) :
    replayFrom l d bound seen pos = replayFrom l d bound (e :: seen) e.finish := by
  have hfin := h.finish_eq
  have hlt := h.lt_finish
  have hpos : 0 < e.keyOffset := by rw [h.offset, Header.width]; omega
  have hkey : l.read d (pos + Header.width) e.keySize = .ok (keyBytes e.key) := by
    rw [Log.read_ok (by omega), h.key_eq]
  rw [replayFrom, if_pos (by omega), if_neg (by omega), Log.read_ok (by omega), h.header_eq]
  dsimp only
  rw [Header.decode_encode, Entry.isEnd_header h.fits hpos, decodeEntry_at h hb hkey]
  dsimp only
  rw [hnew, hfin, ← Nat.add_assoc]
  rfl

include hcap in
theorem replayFrom_laid (seen : Directory) {stop : Nat} (h : Laid (d.image l.file) pos dir stop)
    (hs : stop ≤ bound) (hn : Directory.Distinct (seen.reverse ++ dir)) :
    replayFrom l d bound seen pos = replayFrom l d bound (dir.reverse ++ seen) stop := by
  induction dir generalizing seen pos with
  | nil => cases h; rfl
  | cons e dir ih =>
    rw [List.append_cons] at hn
    have hnew := (Directory.distinct_snoc.mp hn.left).2
    rw [keys_reverse] at hnew
    rw [replayFrom_at hcap h.1 (Nat.le_trans h.2.le hs) (Directory.contains_eq_false.mpr hnew),
      ih _ h.2 (by rw [List.reverse_cons]; exact hn), List.reverse_cons, List.append_assoc]
    rfl

include hcap in
theorem replayFrom_stop {stop : Nat} (h : stop = bound ∨ Ends (d.image l.file) stop bound) :
    replayFrom l d bound seen stop = .ok seen.reverse := by
  rw [replayFrom]
  rcases h with rfl | h
  · rw [if_neg (Nat.lt_irrefl _)]
  · have hle := h.1
    rw [if_pos (by simp only [Header.width] at hle; omega), if_neg (by omega), Log.read_ok (by omega)]
    dsimp only
    rw [h.2]
    rfl

include hcap in
theorem laid_of_replayFrom (h : replayFrom l d bound seen pos = .ok dir) (hpos : pos ≤ bound)
    (hn : Directory.Distinct seen.reverse) :
    ∃ more stop, dir = seen.reverse ++ more ∧ Laid (d.image l.file) pos more stop ∧
      (stop = bound ∨ Ends (d.image l.file) stop bound) ∧ dir.Distinct := by
  fun_induction replayFrom l d bound seen pos with
  | case1 => cases h
  | case2 => cases h
  | case3 seen pos hlt hheader bs hread header hend =>
    cases h
    refine ⟨[], pos, by simp, rfl, .inr ⟨by omega, ?_⟩, hn⟩
    rw [Log.read_ok (by omega)] at hread
    cases hread
    exact hend
  | case4 => cases h
  | case5 => cases h
  | case6 seen pos hlt hheader bs hread header hend entry hentry hseen ih =>
    rw [Log.read_ok (by omega)] at hread
    cases hread
    obtain ⟨hat, hfin⟩ := at_of_decodeEntry (Header.encode_decode (by simp; rfl)).symm
      (fun hr => by
        unfold Log.read at hr
        split at hr
        · cases hr
        · cases hr; rfl) hentry
    have hnext : pos + Header.width + entry.keySize = entry.finish := by rw [hat.finish_eq, Nat.add_assoc]
    rw [hnext] at ih h
    have hnew := Directory.contains_eq_false.mp (Bool.eq_false_iff.mpr hseen)
    have hn' : Directory.Distinct (entry :: seen).reverse := by
      rw [List.reverse_cons, Directory.distinct_snoc, keys_reverse]
      exact ⟨hn, hnew⟩
    obtain ⟨more, stop, rfl, hlaid, hstop, hnd⟩ := ih h hfin hn'
    exact ⟨entry :: more, stop, by simp, ⟨hat, hlaid⟩, hstop, hnd⟩
  | case7 seen pos hge =>
    cases h
    exact ⟨[], pos, by simp, rfl, .inl (by omega), hn⟩

include hcap in
/-- A replay answers a directory that is laid out, and no other. -/
theorem replay_iff (hhead : headSize ≤ bound) : replay l d bound = .ok dir ↔
    ∃ stop, Laid (d.image l.file) headSize dir stop ∧ (stop = bound ∨ Ends (d.image l.file) stop bound) ∧
      dir.Distinct := by
  constructor
  · intro h
    obtain ⟨more, stop, rfl, hrest⟩ := laid_of_replayFrom hcap h hhead .nil
    exact ⟨stop, hrest⟩
  · rintro ⟨stop, hlaid, hstop, hdistinct⟩
    have hle : stop ≤ bound := by
      rcases hstop with rfl | h
      · exact Nat.le_refl _
      · exact Nat.le_trans (Nat.le_add_right ..) h.1
    rw [replay, replayFrom_laid hcap [] hlaid hle hdistinct, replayFrom_stop hcap hstop, List.append_nil,
      List.reverse_reverse]

end Replay

end KeyLog

end TwinLog
