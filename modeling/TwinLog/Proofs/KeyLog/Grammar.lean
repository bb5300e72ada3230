/-
  TwinLog.Proofs.KeyLog.Grammar — which files open as an index.

  The grammar is one of bytes. A file is lengthened with zeros to the capacity at which it is
  opened; its header is zero or says a bound between the header and the end; and from the
  header to the bound there are records one after the other, with nothing behind them or an
  end mark: room for one more header, the first 8 bytes of it zero. A record is five fields and a
  key (`RecordAt`); `Records` puts them in a row, and `Accepted` is the whole file.

  Opening follows the grammar in both directions. `accepted_iff` is the one place where the two
  meet: a file is accepted with a bound and a directory exactly where the header is read as this
  bound and the records are replayed as this directory. So a file is opened iff it is accepted,
  what is found is what the grammar says, and every other file is found damaged, since inside
  the capacity nothing but the bytes can stop a replay. It ends for each file: every record
  takes the position nearer to the bound.
-/

import TwinLog.Proofs.Vault.Truncation

namespace TwinLog

/-! ## Files as lists of bytes -/

def lengthened (bs : List UInt8) (n : Nat) : List UInt8 := bs ++ List.replicate (n - bs.length) 0

namespace Image

def content (im : Image) : List UInt8 := im.read 0 im.length

variable {im im' : Image} {offset m n : Nat}

theorem take_read (h : m ≤ n) : (im.read offset n).take m = im.read offset m := by
  rw [← Nat.add_sub_of_le h, read_add]
  exact List.take_left' (length_read ..)

theorem drop_read (im : Image) (offset m n : Nat) : (im.read offset (m + n)).drop m = im.read (offset + m) n := by
  rw [read_add]
  exact List.drop_left' (length_read ..)

theorem read_extend (im : Image) (h : im.length ≤ n) : (im.extend n).read 0 n = lengthened im.content n := by
  have hcontent : im.content.length = im.length := length_read ..
  have hsplit : im.length + (n - im.length) = n := by omega
  rw [lengthened, hcontent, ← hsplit, read_add, Nat.add_sub_cancel_left, Nat.zero_add]
  congr 1
  · apply List.map_congr_left
    intro i hi
    rw [List.mem_range'_1] at hi
    exact get_extend_of_lt (by omega) _
  · rw [List.eq_replicate_iff]
    refine ⟨length_read .., ?_⟩
    intro b hb
    obtain ⟨i, hi, rfl⟩ := List.mem_map.mp hb
    rw [List.mem_range'_1] at hi
    exact (get_extend (by rw [length_extend]; omega)).trans (if_neg (by omega))

end Image

namespace Header

theorem decode_take (bs : List UInt8) : decode (bs.take width) = decode bs := by
  simp only [decode, width, List.drop_take, List.take_take]
  rfl

theorem encode_decode_take {bs : List UInt8} (h : width ≤ bs.length) : (decode bs).encode = bs.take width := by
  rw [← decode_take, encode_decode (by rw [List.length_take]; exact Nat.min_eq_left h)]

theorem isEnd_iff {bs : List UInt8} (h : 8 ≤ bs.length) :
    (decode bs).isEnd = true ↔ bs.take 8 = List.replicate 8 0 := by
  have hlen : (bs.take 8).length = 8 := by rw [List.length_take]; exact Nat.min_eq_left h
  show ((int64OfBytes (bs.take 8)) == 0) = true ↔ _
  rw [beq_iff_eq]
  constructor
  · intro h0
    rw [← int64_bytes_round_trip hlen, h0]
    decide
  · intro h0
    rw [h0]
    decide

end Header

namespace KeyLog

/-! ## The grammar -/

structure RecordAt (position : Nat) (e : Entry) (bs : List UInt8) : Prop where
  length : bs.length = Header.width + e.keySize
  follows : e.keyOffset = position + Header.width
  keyOffset : (int64OfBytes (bs.take 8)).toInt = e.keyOffset
  keySize : (int32OfBytes ((bs.drop 8).take 4)).toInt = e.keySize
  size : (int64OfBytes ((bs.drop 12).take 8)).toInt = e.location.size
  offset : (int64OfBytes ((bs.drop 20).take 8)).toInt = e.location.offset
  checksum : (bs.drop 28).take 16 = e.location.checksum.toBytes
  key : bs.drop Header.width = keyBytes e.key

/-- Room for a header that is an end mark, whatever else it holds. -/
def Marked (bs : List UInt8) : Prop := Header.width ≤ bs.length ∧ bs.take 8 = List.replicate 8 0

/-- These bytes, from `position` on, are the records of `dir`, and perhaps an end mark. -/
inductive Records : Nat → List UInt8 → Directory → Prop
  | nothing {position : Nat} : Records position [] []
  | mark {position : Nat} {bs : List UInt8} (marked : Marked bs) : Records position bs []
  | record {position : Nat} {e : Entry} {bs rest : List UInt8} {dir : Directory} (here : RecordAt position e bs)
      (others : Records (position + bs.length) rest dir) : Records position (bs ++ rest) (e :: dir)

/-- These bytes are an index that ends at `bound` and holds `dir`. -/
structure Accepted (bytes : List UInt8) (bound : Nat) (dir : Directory) : Prop where
  header : (int64OfBytes (bytes.take headSize)).toInt = 0 ∧ bound = headSize ∨
    (int64OfBytes (bytes.take headSize)).toInt = bound ∧ headSize ≤ bound
  within : bound ≤ bytes.length
  records : Records headSize ((bytes.take bound).drop headSize) dir
  distinct : dir.Distinct

/-! ## Records as they are written -/

variable {position bound : Nat} {e : Entry} {bs bytes : List UInt8} {dir : Directory} {im : Image} {l : Log} {d : Disk}

/-- The record of an entry is what is written for it. -/
theorem recordAt_iff : RecordAt position e bs ↔ e.Fits ∧ e.keyOffset = position + Header.width ∧ bs = e.bytes := by
  constructor
  · intro h
    have hwide : Header.width ≤ bs.length := by rw [h.length]; omega
    have hoffset := toInt_le_maxSigned (int64OfBytes (bs.take 8))
    have hkey := toInt_le_maxKeySize (int32OfBytes ((bs.drop 8).take 4))
    have hsize := toInt_le_maxSigned (int64OfBytes ((bs.drop 12).take 8))
    have hcontent := toInt_le_maxSigned (int64OfBytes ((bs.drop 20).take 8))
    rw [h.keyOffset] at hoffset
    rw [h.keySize] at hkey
    rw [h.size] at hsize
    rw [h.offset] at hcontent
    have hfits : e.Fits := ⟨by omega, by omega, by omega, by omega⟩
    refine ⟨hfits, h.follows, ?_⟩
    have hheader : e.header = Header.decode bs := by
      simp only [Entry.header, Header.decode, Header.mk.injEq]
      refine ⟨?_, ?_, ?_, ?_, ?_⟩
      · rw [← Int64.toInt_inj, toInt_ofNat hfits.keyOffset, h.keyOffset]
      · rw [← Int32.toInt_inj, toInt_ofNat32 hfits.key, h.keySize]
      · rw [← Int64.toInt_inj, toInt_ofNat hfits.size, h.size]
      · rw [← Int64.toInt_inj, toInt_ofNat hfits.offset, h.offset]
      · rw [h.checksum, Checksum.ofBytes_toBytes]
    rw [Entry.bytes, hheader, Header.encode_decode_take hwide, ← h.key, List.take_append_drop]
  · rintro ⟨hfits, hfollows, rfl⟩
    have hheader : Header.decode e.bytes = e.header := by
      have htake : e.bytes.take Header.width = e.header.encode := List.take_left' (Header.length_encode _)
      rw [← Header.decode_take, htake, Header.decode_encode]
    have hkey : e.bytes.drop Header.width = keyBytes e.key := List.drop_left' (Header.length_encode _)
    have hlength := e.length_bytes
    generalize e.bytes = bs at hheader hkey hlength
    have hchecksum : ((bs.drop 28).take 16).length = 16 := by
      rw [List.length_take, List.length_drop, hlength, Header.width]
      omega
    refine ⟨hlength, hfollows, ?_, ?_, ?_, ?_, ?_, hkey⟩
    · show (Header.decode bs).keyOffset.toInt = _
      rw [hheader]
      exact toInt_ofNat hfits.keyOffset
    · show (Header.decode bs).keySize.toInt = _
      rw [hheader]
      exact toInt_ofNat32 hfits.key
    · show (Header.decode bs).size.toInt = _
      rw [hheader]
      exact toInt_ofNat hfits.size
    · show (Header.decode bs).offset.toInt = _
      rw [hheader]
      exact toInt_ofNat hfits.offset
    · have hsum : (Header.decode bs).checksum = e.location.checksum := by rw [hheader]; rfl
      rw [← Checksum.toBytes_ofBytes hchecksum, ← hsum]
      rfl

/-- An end mark behind the records. -/
theorem ends_iff {n : Nat} : Ends im position (position + n) ↔ Marked (im.read position n) := by
  unfold Ends Marked
  rw [Image.length_read]
  constructor
  · rintro ⟨hroom, hend⟩
    have hroom : Header.width ≤ n := by omega
    rw [Header.isEnd_iff (by rw [Image.length_read]; decide), Image.take_read (by decide)] at hend
    exact ⟨hroom, by rw [Image.take_read (Nat.le_trans (by decide) hroom), hend]⟩
  · rintro ⟨hroom, hzero⟩
    refine ⟨by omega, ?_⟩
    rw [Header.isEnd_iff (by rw [Image.length_read]; decide), Image.take_read (by decide), ← hzero,
      Image.take_read (Nat.le_trans (by decide) hroom)]

theorem laid_of_records {n : Nat} (h : Records position (im.read position n) dir) :
    ∃ stop, Laid im position dir stop ∧ (stop = position + n ∨ Ends im stop (position + n)) := by
  generalize hbs : im.read position n = bs at h
  induction h generalizing n with
  | @nothing position =>
    have hn : n = 0 := by
      have := congrArg List.length hbs
      rwa [Image.length_read] at this
    exact ⟨position, rfl, .inl (by omega)⟩
  | @mark position bs marked => exact ⟨position, rfl, .inr (ends_iff.mpr (hbs.symm ▸ marked))⟩
  | @record position e bs rest dir here others ih =>
    obtain ⟨hfits, hfollows, rfl⟩ := recordAt_iff.mp here
    have hlength := congrArg List.length hbs
    rw [Image.length_read, List.length_append] at hlength
    subst hlength
    rw [Image.read_add] at hbs
    obtain ⟨hfirst, hrest⟩ := List.append_inj hbs (Image.length_read ..)
    obtain ⟨stop, hlaid, hstop⟩ := ih hrest
    have hat : e.At im position := ⟨hfits, hfollows, by rw [← e.length_bytes]; exact hfirst⟩
    refine ⟨stop, ⟨hat, ?_⟩, by rwa [← Nat.add_assoc]⟩
    rw [hat.finish_eq, ← e.length_bytes]
    exact hlaid

theorem records_of_laid {stop n : Nat} (h : Laid im position dir stop)
    (hstop : stop = position + n ∨ Ends im stop (position + n)) : Records position (im.read position n) dir := by
  induction dir generalizing position n with
  | nil =>
    obtain rfl : position = stop := h
    rcases hstop with hstop | hstop
    · obtain rfl : n = 0 := by omega
      exact .nothing
    · exact .mark (ends_iff.mp hstop)
  | cons e dir ih =>
    obtain ⟨hat, hlaid⟩ := h
    have hle := hlaid.le
    have hfin := hat.finish_eq
    have hwithin : stop ≤ position + n := by
      rcases hstop with hstop | hstop
      · omega
      · exact Nat.le_trans (Nat.le_add_right ..) hstop.1
    rw [← e.length_bytes] at hfin
    obtain ⟨m, rfl⟩ : ∃ m, n = e.bytes.length + m := ⟨n - e.bytes.length, by omega⟩
    have hread : im.read position e.bytes.length = e.bytes := by rw [e.length_bytes]; exact hat.bytes
    rw [Image.read_add, hread]
    refine .record (recordAt_iff.mpr ⟨hat.fits, hat.offset, rfl⟩) ?_
    rw [hfin] at hlaid
    exact ih hlaid (by rwa [Nat.add_assoc])

theorem Records.encoded (h : Records position bs dir) :
    ∃ rest, bs = dir.flatMap Entry.bytes ++ rest ∧ (rest = [] ∨ Marked rest) := by
  induction h with
  | nothing => exact ⟨[], rfl, .inl rfl⟩
  | mark marked => exact ⟨_, rfl, .inr marked⟩
  | record here others ih =>
    obtain ⟨-, -, rfl⟩ := recordAt_iff.mp here
    obtain ⟨rest, rfl, hrest⟩ := ih
    exact ⟨rest, by rw [List.flatMap_cons, List.append_assoc], hrest⟩

/-! ## Opening -/

/-- A mounted log is accepted with what its header is read as and its records are replayed as. -/
theorem accepted_iff (hm : l.Mounted d) : Accepted ((d.image l.file).read 0 l.capacity) bound dir ↔
    l.loadCursor d = .ok bound ∧ replay l d bound = .ok dir := by
  have hcap := hm.head_le
  have hraw : (int64OfBytes (((d.image l.file).read 0 l.capacity).take headSize)).toInt = (d.image l.file).rawCursor := by
    rw [Image.take_read hcap]
    rfl
  have hregion (hlo : headSize ≤ bound) (hhi : bound ≤ l.capacity) :
      (((d.image l.file).read 0 l.capacity).take bound).drop headSize =
        (d.image l.file).read headSize (bound - headSize) := by
    obtain ⟨n, rfl⟩ := Nat.exists_eq_add_of_le hlo
    rw [Image.take_read hhi, Image.drop_read, Nat.zero_add, Nat.add_sub_cancel_left]
  constructor
  · rintro ⟨hheader, hwithin, hrecords, hdistinct⟩
    rw [hraw] at hheader
    rw [Image.length_read] at hwithin
    have hh : (d.image l.file).Headed bound := hheader
    have hlo := hh.head_le
    rw [hregion hlo hwithin] at hrecords
    obtain ⟨stop, hlaid, hstop⟩ := laid_of_records hrecords
    rw [Nat.add_sub_of_le hlo] at hstop
    exact ⟨(Log.loadCursor_iff hm).mpr ⟨hh, hwithin⟩, (replay_iff hwithin hlo).mpr ⟨stop, hlaid, hstop, hdistinct⟩⟩
  · rintro ⟨hload, hreplay⟩
    obtain ⟨hh, hwithin⟩ := (Log.loadCursor_iff hm).mp hload
    have hlo := hh.head_le
    obtain ⟨stop, hlaid, hstop, hdistinct⟩ := (replay_iff hwithin hlo).mp hreplay
    refine ⟨by rw [hraw]; exact hh, by rwa [Image.length_read], ?_, hdistinct⟩
    rw [hregion hlo hwithin]
    exact records_of_laid hlaid (by rwa [Nat.add_sub_of_le hlo])

/-- What there is to open, once the file is as long as its log: what the grammar says, or damage. -/
theorem openAt_cases {v v' : Volume} {path : String} {requested : Nat} (hopen : Log.openAt v path requested = .ok (l, v'))
    (hm : l.Mounted v'.disk) :
    (∃ bound dir, Accepted ((v'.disk.image l.file).read 0 l.capacity) bound dir ∧
      openAt v path requested = (.ok ⟨l, bound, bound, dir⟩, v')) ∨
    (¬ ∃ bound dir, Accepted ((v'.disk.image l.file).read 0 l.capacity) bound dir) ∧
      ∃ what, openAt v path requested = (.error (.corruption what), v') := by
  simp only [accepted_iff hm]
  unfold openAt
  rw [hopen]
  dsimp only
  cases hload : l.loadCursor v'.disk with
  | error e =>
    obtain ⟨what, rfl⟩ := Log.loadCursor_damaged hm hload
    exact .inr ⟨by rintro ⟨_, _, ⟨⟩, _⟩, what, rfl⟩
  | ok cursor =>
    have hcap := ((Log.loadCursor_iff hm).mp hload).2
    dsimp only
    cases hreplay : replay l v'.disk cursor with
    | error e =>
      obtain ⟨what, rfl⟩ := replayFrom_damaged hcap hreplay
      refine .inr ⟨?_, what, rfl⟩
      rintro ⟨bound, dir, hbound, hdir⟩
      cases hbound
      cases hreplay.symm.trans hdir
    | ok dir => exact .inl ⟨cursor, dir, ⟨rfl, hreplay⟩, rfl⟩

/-- A file opens as an index exactly if it is accepted, lengthened with zeros to the capacity.
    The directory is then the one of its records, which written out in their order are the bytes
    up to an end mark or the bound, and cursor and checkpoint stand at the bound. Any other
    file is found damaged; no other error comes up, and each opening has one of these two ends. -/
theorem opens_iff_accepted {v : Volume} {path : String} {f : FileId} {requested : Nat} (hv : v.Sound)
    (hn : v.Names path f) (hroom : Log.Room v path requested) :
    let bytes := lengthened (v.disk.image f).content (max (requested + headSize) (v.disk.image f).content.length)
    ((∃ k v', openAt v path requested = (.ok k, v')) ↔ ∃ bound dir, Accepted bytes bound dir) ∧
      (∀ k v', openAt v path requested = (.ok k, v') → Accepted bytes k.cursor k.directory ∧
        (∀ bound dir, Accepted bytes bound dir → bound = k.cursor ∧ dir = k.directory) ∧
        k.checkpoint = k.cursor ∧ k.capacity = bytes.length ∧
        ∃ rest, (bytes.take k.cursor).drop headSize = k.directory.flatMap Entry.bytes ++ rest ∧
          (rest = [] ∨ Marked rest)) ∧
      ((∃ k v', openAt v path requested = (.ok k, v')) ∨
        ∃ what v', openAt v path requested = (.error (.corruption what), v')) := by
  have hcapacity : (v.disk.image f).length ≤ Log.openCapacity (v.disk.image f) requested := Nat.le_max_right ..
  have hopen := Log.openAt_names hn hroom
  have hm := (Log.openAt_spec hv hopen).mounted
  have hbytes := Image.read_extend _ hcapacity
  rw [← v.disk.image_update_self (hn.file_lt hv) (·.extend (Log.openCapacity (v.disk.image f) requested))] at hbytes
  have hcontent : (v.disk.image f).content.length = (v.disk.image f).length := Image.length_read ..
  rw [hcontent, ← Log.openCapacity.eq_1, ← hbytes]
  intro bytes
  rcases openAt_cases hopen hm with ⟨bound, dir, haccepted, hok⟩ | ⟨hnone, what, herror⟩
  · have hunique : ∀ bound' dir', Accepted bytes bound' dir' → bound' = bound ∧ dir' = dir := by
      intro bound' dir' haccepted'
      obtain ⟨hload, hreplay⟩ := (accepted_iff hm).mp haccepted
      obtain ⟨hload', hreplay'⟩ := (accepted_iff hm).mp haccepted'
      cases hload.symm.trans hload'
      cases hreplay.symm.trans hreplay'
      exact ⟨rfl, rfl⟩
    refine ⟨⟨fun _ => ⟨bound, dir, haccepted⟩, fun _ => ⟨_, _, hok⟩⟩, ?_, .inl ⟨_, _, hok⟩⟩
    intro k v' h
    cases hok.symm.trans h
    exact ⟨haccepted, hunique, rfl, (Image.length_read ..).symm, haccepted.records.encoded⟩
  · refine ⟨⟨?_, fun h => absurd h hnone⟩, ?_, .inr ⟨what, _, herror⟩⟩
    · rintro ⟨k, v', h⟩
      cases herror.symm.trans h
    · intro k v' h
      cases herror.symm.trans h

/-- A file with one record, an end mark behind it and the cursor behind that. -/
def markedVolume : Volume :=
  { (Volume.empty 4096).withFile 1 "log.bin" with
    disk := ⟨#[.ofList (int64Bytes 97 ++ firstRecord.bytes ++ List.replicate 44 0)]⟩ }

/-- It opens, with the key of the record. -/
theorem marked_file_opens : markedVolume.Sound ∧ markedVolume.Names "log.bin" 0 ∧
    Log.Room markedVolume "log.bin" 0 ∧
    ∃ k v', openAt markedVolume "log.bin" 0 = (.ok k, v') ∧ k.directory = [firstRecord] ∧ k.cursor = 97 := by
  have hmade : ((Volume.empty 4096).withFile 1 "log.bin").Sound := Volume.sound_withFile (Volume.sound_empty 4096)
  have hv : markedVolume.Sound := hmade.of_nodes rfl (by decide +kernel)
  have hn : markedVolume.Names "log.bin" 0 := ⟨2, by rfl, rfl⟩
  have hroom : Log.Room markedVolume "log.bin" 0 := by
    refine ⟨by decide, 4096, by rfl, by decide, ?_⟩
    intro n hlength
    have h97 : markedVolume.length "log.bin" = .ok 97 := by decide +kernel
    cases h97.symm.trans hlength
    decide
  obtain ⟨hiff, hfound, -⟩ := opens_iff_accepted hv hn hroom
  have haccepted : Accepted (lengthened (markedVolume.disk.image 0).content
      (max (0 + headSize) (markedVolume.disk.image 0).content.length)) 97 [firstRecord] := by
    refine ⟨.inr ⟨by decide +kernel, by decide⟩, by decide +kernel, ?_, by simp [Directory.Distinct, Directory.keys]⟩
    have hregion : ((lengthened (markedVolume.disk.image 0).content
        (max (0 + headSize) (markedVolume.disk.image 0).content.length)).take 97).drop headSize =
        firstRecord.bytes ++ List.replicate 44 0 := by decide +kernel
    rw [hregion]
    exact .record (recordAt_iff.mpr ⟨⟨by decide, by decide, by decide, by decide⟩, rfl, rfl⟩)
      (.mark ⟨by decide, by decide⟩)
  obtain ⟨k, v', hopen⟩ := hiff.mpr ⟨97, [firstRecord], haccepted⟩
  obtain ⟨hcursor, hdirectory⟩ := (hfound k v' hopen).2.1 97 [firstRecord] haccepted
  exact ⟨hv, hn, hroom, k, v', hopen, hdirectory.symm, hcursor.symm⟩

end KeyLog

end TwinLog
