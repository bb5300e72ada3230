/-
  TwinLog.Proofs.KeyLog.Words — the offsets of an index are words, and so are their sums.

  Offsets and sizes are natural numbers here and 64-bit words on a machine, where a sum that
  is too large wraps in silence. `wordSum` is the sum on a machine that stops instead: it
  has no value where the sum is not a word. Replaying records and recording a key are written
  out once more with every sum a `wordSum` (`replayInWords`, `addInWords`), and what is shown
  is that they never stop and do what the index does.

  Nothing checks these sums. What bounds them lies elsewhere: a cursor on disk is a signed word
  (`loadCursor_le`), and so is every field of a record, whether it was read or written
  (`Entry.Fits`). A replay stays below the cursor, and the cursor in memory is at most one key past a
  signed word (`Narrow`), whatever bytes are on the disk and whoever writes there meanwhile.
-/

import TwinLog.Proofs.KeyLog.History
import TwinLog.Proofs.KeyLog.Outcome

namespace TwinLog

/-- The sum of two words, if it is a word. -/
def wordSum (a b : Nat) : Option Nat := if a + b ≤ maxUnsigned then some (a + b) else none

theorem wordSum_eq {a b : Nat} (h : a + b ≤ maxUnsigned) : wordSum a b = some (a + b) := if_pos h

theorem wordSum_eq_some {a b c : Nat} (h : wordSum a b = some c) : c = a + b := by
  unfold wordSum at h
  split at h
  · exact (Option.some.inj h).symm
  · cases h

def Location.finishInWords (l : Location) : Option Nat := wordSum l.offset l.size

theorem Location.finishInWords_eq {l : Location} (hoffset : l.offset ≤ maxSigned) (hsize : l.size ≤ maxSigned) :
    l.finishInWords = some l.finish := by
  have hword : maxSigned + maxSigned ≤ maxUnsigned := by decide
  exact wordSum_eq (by omega)

theorem Location.finishInWords_of_le {l : Location} (h : l.finish ≤ maxSigned) : l.finishInWords = some l.finish := by
  have hword : maxSigned ≤ maxUnsigned := by decide
  exact wordSum_eq (Nat.le_trans h hword)

/-- A cursor that is loaded is a signed word, whatever the header holds. -/
theorem Log.loadCursor_le {l : Log} {d : Disk} {c : Nat} (h : l.loadCursor d = .ok c) : c ≤ maxSigned := by
  unfold loadCursor at h
  split at h
  · cases h
  rename_i bs _
  have hraw := toInt_le_maxSigned (int64OfBytes bs)
  dsimp only at h
  split at h
  · cases h
    decide
  split at h
  · cases h
  split at h
  · cases h
  · cases h
    omega

namespace KeyLog

variable {k : KeyLog} {v v' : Volume} {d : Disk} {path key : String} {capacity position bound : Nat} {log : Log}
  {space : Volume.Space} {l : Location} {e : Entry} {dir seen : Directory}

/-! ## Replaying -/

/-- `decodeEntry` on a machine that stops at a sum that is no word. -/
def decodeEntryInWords (position bound : Nat) (h : Header) (key : Nat → Nat → Except Fault (List UInt8)) :
    Option (Except Fault Entry) :=
  (wordSum position Header.width).bind fun keyOffset =>
    let flawed := fun flaw => some (Except.error (.corruption (.badRecord position flaw h)))
    if h.keyOffset.toInt ≠ keyOffset then flawed .keyElsewhere
    else if h.keySize.toInt < 0 then flawed .negativeKeySize
    else if h.size.toInt < 0 then flawed .negativeSize
    else if h.offset.toInt < 0 then flawed .negativeOffset
    else (wordSum keyOffset h.keySize.toInt.toNat).bind fun stop =>
      if bound < stop then flawed .keyPastCursor
      else match key keyOffset h.keySize.toInt.toNat with
        | .error e => some (.error e)
        | .ok bs => match textOf bs with
          | none => flawed .keyNotText
          | some key => some (.ok ⟨key, keyOffset, h.size.toInt.toNat, h.offset.toInt.toNat, h.checksum⟩)

theorem decodeEntryInWords_eq (hp : position ≤ maxSigned) (bound : Nat) (h : Header)
    (key : Nat → Nat → Except Fault (List UInt8)) :
    decodeEntryInWords position bound h key = some (decodeEntry position bound h key) := by
  have hkey := toInt_le_maxKeySize h.keySize
  have hword : maxSigned + Header.width + maxKeySize ≤ maxUnsigned := by decide
  have hsum : position + Header.width ≤ maxUnsigned := by omega
  have hstop : position + Header.width + h.keySize.toInt.toNat ≤ maxUnsigned := by omega
  unfold decodeEntryInWords decodeEntry
  rw [wordSum_eq hsum, Option.bind_some]
  dsimp only
  rw [wordSum_eq hstop, Option.bind_some]
  split
  · rfl
  split
  · rfl
  split
  · rfl
  split
  · rfl
  split
  · rfl
  cases key (position + Header.width) h.keySize.toInt.toNat with
  | error e => rfl
  | ok bs =>
    dsimp only
    cases textOf bs <;> rfl

/-- The key of a record stands behind its header. -/
theorem keyOffset_of_decodeEntryInWords {h : Header} {key : Nat → Nat → Except Fault (List UInt8)}
    (he : decodeEntryInWords position bound h key = some (.ok e)) : e.keyOffset = position + Header.width := by
  obtain ⟨keyOffset, hsum, he⟩ := Option.bind_eq_some_iff.mp he
  dsimp only at he
  split at he
  · cases he
  split at he
  · cases he
  split at he
  · cases he
  split at he
  · cases he
  obtain ⟨stop, -, he⟩ := Option.bind_eq_some_iff.mp he
  split at he
  · cases he
  split at he
  · cases he
  split at he
  · cases he
  · cases he
    exact wordSum_eq_some hsum

def replayInWords (log : Log) (d : Disk) (bound : Nat) (seen : Directory) (position : Nat) :
    Option (Except Fault Directory) :=
  if position < bound then
    match wordSum position Header.width with
    | none => none
    | some behind =>
      if bound < behind then some (.error (.corruption (.truncatedHeader position bound)))
      else match log.read d position Header.width with
        | .error e => some (.error e)
        | .ok bs =>
          let header := Header.decode bs
          if header.isEnd then some (.ok seen.reverse)
          else match _decoded : decodeEntryInWords position bound header (log.read d) with
            | none => none
            | some (.error e) => some (.error e)
            | some (.ok entry) => match _next : wordSum entry.keyOffset entry.keySize with
              | none => none
              | some next =>
                if seen.contains entry.key then some (.error (.corruption (.recordedTwice entry.key)))
                else replayInWords log d bound (entry :: seen) next
  else some (.ok seen.reverse)
termination_by bound - position
decreasing_by
  have hoffset := keyOffset_of_decodeEntryInWords _decoded
  have hnext := wordSum_eq_some _next
  rw [Header.width] at hoffset
  omega

/-- What is decoded is a record of the file, below the bound, and all its numbers fit their fields. -/
theorem fits_of_decodeEntry {bs : List UInt8} (hread : log.read d position Header.width = .ok bs)
    (he : decodeEntry position bound (Header.decode bs) (log.read d) = .ok e) :
    e.Fits ∧ e.keyOffset = position + Header.width ∧ e.finish ≤ bound := by
  obtain ⟨-, rfl⟩ := Log.read_iff.mp hread
  have hheader : (d.image log.file).read position Header.width =
      (Header.decode ((d.image log.file).read position Header.width)).encode :=
    (Header.encode_decode (Image.length_read ..)).symm
  obtain ⟨hat, hfin⟩ := at_of_decodeEntry hheader (fun h => (Log.read_iff.mp h).2) he
  exact ⟨hat.fits, hat.offset, hfin⟩

/-- What is left of a step once a record is decoded. -/
theorem replayInWords_record {bs : List UInt8} {r : Except Fault Entry} (hlt : position < bound)
    (hb : bound ≤ maxSigned) (hwhole : ¬ bound < position + Header.width)
    (hread : log.read d position Header.width = .ok bs) (hgoes : ¬ (Header.decode bs).isEnd)
    (hr : decodeEntry position bound (Header.decode bs) (log.read d) = r) :
    replayInWords log d bound seen position = match r with
      | .error e => some (.error e)
      | .ok e => (wordSum e.keyOffset e.keySize).bind fun next =>
        if seen.contains e.key then some (.error (.corruption (.recordedTwice e.key)))
        else replayInWords log d bound (e :: seen) next := by
  have hword : maxSigned ≤ maxUnsigned := by decide
  have hdecoded := decodeEntryInWords_eq (show position ≤ maxSigned by omega) bound (Header.decode bs) (log.read d)
  rw [hr] at hdecoded
  rw [replayInWords, if_pos hlt, wordSum_eq (by omega)]
  simp only [if_neg hwhole, hread, if_neg hgoes]
  split
  · rename_i h
    cases hdecoded.symm.trans h
  · rename_i h
    cases hdecoded.symm.trans h
    rfl
  · rename_i e h
    cases hdecoded.symm.trans h
    dsimp only
    split
    · rename_i hnext
      rw [hnext, Option.bind_none]
    · rename_i hnext
      rw [hnext, Option.bind_some]

theorem replayInWords_eq (log : Log) (d : Disk) (hb : bound ≤ maxSigned) (seen : Directory) (position : Nat) :
    replayInWords log d bound seen position = some (replayFrom log d bound seen position) := by
  have hword : maxSigned + Header.width ≤ maxUnsigned := by decide
  fun_induction replayFrom log d bound seen position with
  | case1 seen position hlt htrunc =>
    rw [replayInWords, if_pos hlt, wordSum_eq (by omega)]
    exact if_pos htrunc
  | case2 seen position hlt hwhole e hread =>
    rw [replayInWords, if_pos hlt, wordSum_eq (by omega)]
    simp only [if_neg hwhole, hread]
  | case3 seen position hlt hwhole bs hread header hend =>
    rw [replayInWords, if_pos hlt, wordSum_eq (by omega)]
    simp only [if_neg hwhole, hread]
    exact if_pos hend
  | case4 seen position hlt hwhole bs hread header hgoes e hdecode =>
    exact replayInWords_record hlt hb hwhole hread hgoes hdecode
  | case5 seen position hlt hwhole bs hread header hgoes e hdecode hknown =>
    obtain ⟨-, -, hfin⟩ := fits_of_decodeEntry hread hdecode
    have hfin : e.keyOffset + e.keySize ≤ bound := hfin
    rw [replayInWords_record hlt hb hwhole hread hgoes hdecode]
    dsimp only
    rw [wordSum_eq (by omega), Option.bind_some, if_pos hknown]
  | case6 seen position hlt hwhole bs hread header hgoes e hdecode hnew ih =>
    obtain ⟨-, hoffset, hfin⟩ := fits_of_decodeEntry hread hdecode
    have hfin : e.keyOffset + e.keySize ≤ bound := hfin
    rw [replayInWords_record hlt hb hwhole hread hgoes hdecode]
    dsimp only
    rw [wordSum_eq (by omega), Option.bind_some, if_neg hnew, hoffset]
    exact ih
  | case7 seen position hlt =>
    rw [replayInWords, if_neg hlt]

/-- `openAt` with the records replayed on a machine that stops at a sum that is no word. -/
def openInWords (v : Volume) (path : String) (capacity : Nat) : Option (Except Fault KeyLog × Volume) :=
  match Log.openAt v path capacity with
  | .error e => some (.error e, v)
  | .ok (log, v) => match log.loadCursor v.disk with
    | .error e => some (.error e, v)
    | .ok cursor => (replayInWords log v.disk cursor [] headSize).map fun
      | .error e => (.error e, v)
      | .ok directory => (.ok ⟨log, cursor, cursor, directory⟩, v)

/-- An opening meets sums that are words only, whatever the file holds. -/
theorem openInWords_eq (v : Volume) (path : String) (capacity : Nat) :
    openInWords v path capacity = some (openAt v path capacity) := by
  unfold openInWords openAt
  cases Log.openAt v path capacity with
  | error e => rfl
  | ok opened =>
    obtain ⟨log, v'⟩ := opened
    dsimp only
    cases hc : log.loadCursor v'.disk with
    | error e => rfl
    | ok cursor =>
      dsimp only
      rw [replayInWords_eq log v'.disk (Log.loadCursor_le hc), Option.map_some]
      cases hr : replayFrom log v'.disk cursor [] headSize <;> simp only [replay, hr]

/-- What a replay answers is what it has seen and records that fit their fields. -/
theorem fits_of_replayFrom (hseen : ∀ e ∈ seen, e.Fits) (h : replayFrom log d bound seen position = .ok dir) :
    ∀ e ∈ dir, e.Fits := by
  have hdone {seen : Directory} (hseen : ∀ e ∈ seen, e.Fits)
      (hdir : (.ok seen.reverse : Except Fault Directory) = .ok dir) : ∀ e ∈ dir, e.Fits := by
    cases hdir
    exact fun e he => hseen e (List.mem_reverse.mp he)
  fun_induction replayFrom log d bound seen position with
  | case1 => cases h
  | case2 => cases h
  | case3 => exact hdone hseen h
  | case4 => cases h
  | case5 => cases h
  | case6 seen position hlt hwhole bs hread header hgoes e hdecode hnew ih =>
    refine ih (fun e' he' => ?_) h
    rcases List.mem_cons.mp he' with rfl | he'
    · exact (fits_of_decodeEntry hread hdecode).1
    · exact hseen e' he'
  | case7 => exact hdone hseen h

theorem fits_of_replay (h : replay log d bound = .ok dir) : ∀ e ∈ dir, e.Fits := by
  refine fits_of_replayFrom (fun e he => ?_) h
  cases he

/-! ## Recording -/

def addInWords (k : KeyLog) (space : Volume.Space) (d : Disk) (key : String) (l : Location) :
    Option (Except Fault Unit × KeyLog × Disk) :=
  if key = "" then some (.error (.invalidArgument .emptyKey), k, d)
  else if k.directory.contains key then some (.error (.duplicateKey key), k, d)
  else if maxKeySize < key.utf8ByteSize then some (.error (.invalidArgument (.keyTooLong key.utf8ByteSize)), k, d)
  else (wordSum k.cursor Header.width).bind fun keyOffset =>
    (wordSum keyOffset key.utf8ByteSize).map fun stop => match k.log.grow space d stop with
      | .error e => (.error e, k, d)
      | .ok (_, log, d) => match headerFor keyOffset key.utf8ByteSize l with
        | .error e => (.error e, { k with log }, d)
        | .ok header => match log.write d k.cursor (header.encode ++ keyBytes key) with
          | .error e => (.error e, { k with log }, d)
          | .ok d => (.ok (), { k with log, cursor := stop, directory := k.directory ++ [⟨key, keyOffset, l⟩] }, d)

theorem addInWords_eq (hc : k.cursor ≤ maxSigned + maxKeySize) (space : Volume.Space) (d : Disk) (key : String)
    (l : Location) : k.addInWords space d key l = some (k.add space d key l) := by
  unfold addInWords add
  split
  · rfl
  split
  · rfl
  split
  · rfl
  rename_i hlong
  have hword : maxSigned + maxKeySize + Header.width + maxKeySize ≤ maxUnsigned := by decide
  rw [wordSum_eq (by omega), Option.bind_some, wordSum_eq (by omega), Option.map_some]
  rfl

/-- An index that was opened on any file, and asked for anything, on any disk each time. -/
inductive InUse : KeyLog → Prop
  | opened {v v' : Volume} {path : String} {capacity : Nat} {k : KeyLog} (h : openAt v path capacity = (.ok k, v')) :
      InUse k
  | asked {k : KeyLog} (before : InUse k) (d : Disk) (r : Request) : InUse (k.serve d r).1

/-- The cursor is one key past a signed word at most, and what the directory says fits its fields. -/
structure Narrow (k : KeyLog) : Prop where
  cursor : k.cursor ≤ maxSigned + maxKeySize
  fits : ∀ e ∈ k.directory, e.Fits

theorem narrow_of_openAt (h : openAt v path capacity = (.ok k, v')) : k.Narrow := by
  unfold openAt at h
  split at h
  · cases h
  split at h
  · cases h
  rename_i hcursor
  split at h
  · cases h
  rename_i hreplay
  cases h
  exact ⟨Nat.le_trans (Log.loadCursor_le hcursor) (Nat.le_add_right ..), fits_of_replay hreplay⟩

theorem Narrow.add {k' : KeyLog} {d' : Disk} {r : Except Fault Unit} (h : k.Narrow)
    (ha : k.add space d key l = (r, k', d')) : k'.Narrow := by
  cases add_cases ha with
  | nameless | duplicate | tooLong | noRoom => exact h
  | tooFar => exact ⟨h.cursor, h.fits⟩
  | recorded named unknown short room fits written =>
    let entry : Entry := ⟨key, k.cursor + Header.width, l⟩
    have hshort : entry.keySize ≤ maxKeySize := short
    have hfits : entry.Fits := (headerFor_ok hshort fits).1
    refine ⟨Nat.add_le_add hfits.keyOffset hfits.key, fun e he => ?_⟩
    rcases List.mem_append.mp he with he | he
    · exact h.fits e he
    · rw [List.mem_singleton.mp he]
      exact hfits

theorem Narrow.serve (h : k.Narrow) (d : Disk) (r : Request) : (k.serve d r).1.Narrow := by
  cases r with
  | add space key l =>
    rcases hadd : k.add space d key l with ⟨r, k', d'⟩
    simp only [KeyLog.serve, hadd]
    exact h.add hadd
  | get | contains => exact h
  | commit =>
    simp only [KeyLog.serve, Gate.storing]
    cases k.commit d <;> exact h
  | rollback =>
    simp only [KeyLog.serve, Gate.storing]
    cases k.rollback d <;> exact h

theorem InUse.narrow (h : InUse k) : k.Narrow := by
  induction h with
  | opened h => exact narrow_of_openAt h
  | asked before d r ih => exact ih.serve d r

/-- An index answers locations with an end, and two signed words each. -/
theorem Narrow.get (h : k.Narrow) (hget : k.get key = .ok l) : l.finishInWords = some l.finish := by
  unfold KeyLog.get at hget
  split at hget
  · cases hget
  split at hget
  · rename_i e hfind
    cases hget
    have hfits := h.fits e (List.mem_of_find?_eq_some hfind)
    exact Location.finishInWords_eq hfits.offset hfits.size
  · cases hget

end KeyLog

end TwinLog
