/-
  TwinLog.Proofs.KeyLog.Outcome — what recording a key does and answers, and why.

  `add_cases` takes an add apart, once for all that is said of it: an index refuses a key
  that is empty, one that it has, one that is too long, one for which there is no room and
  one whose record would hold a number that does not fit its field; any other it records.
  The last of these refusals comes after the log has been made to fit. Room is the only
  reason that lies outside the index and the record (`add_way`), and it is asked for only
  past the capacity.
-/

import TwinLog.Proofs.KeyLog.Layout

namespace TwinLog.KeyLog

variable {k k' : KeyLog} {d d' : Disk} {space : Volume.Space} {key : String} {l : Location} {r : Except Fault Unit}

def recordEnd (k : KeyLog) (key : String) : Nat := k.cursor + Header.width + key.utf8ByteSize

/-- All that recording a key can do, in the order of its steps. -/
inductive Recording (k : KeyLog) (space : Volume.Space) (d : Disk) (key : String) (l : Location) :
    Except Fault Unit → KeyLog → Disk → Prop
  | nameless (empty : key = "") : Recording k space d key l (.error (.invalidArgument .emptyKey)) k d
  | duplicate (known : k.directory.contains key = true) : Recording k space d key l (.error (.duplicateKey key)) k d
  | tooLong (unknown : k.directory.contains key = false) (long : maxKeySize < key.utf8ByteSize) :
      Recording k space d key l (.error (.invalidArgument (.keyTooLong key.utf8ByteSize))) k d
  | noRoom {e : Fault} (unknown : k.directory.contains key = false) (short : key.utf8ByteSize ≤ maxKeySize)
      (refused : k.log.grow space d (k.recordEnd key) = .error e) : Recording k space d key l (.error e) k d
  | tooFar {grew : Bool} {log : Log} {dg : Disk} {e : Fault} (unknown : k.directory.contains key = false)
      (short : key.utf8ByteSize ≤ maxKeySize) (room : k.log.grow space d (k.recordEnd key) = .ok (grew, log, dg))
      (unfit : headerFor (k.cursor + Header.width) key.utf8ByteSize l = .error e) :
      Recording k space d key l (.error e) { k with log } dg
  | recorded {grew : Bool} {log : Log} {dg dw : Disk} {header : Header} (named : key ≠ "")
      (unknown : k.directory.contains key = false) (short : key.utf8ByteSize ≤ maxKeySize)
      (room : k.log.grow space d (k.recordEnd key) = .ok (grew, log, dg))
      (fits : headerFor (k.cursor + Header.width) key.utf8ByteSize l = .ok header)
      (written : log.write dg k.cursor (header.encode ++ keyBytes key) = .ok dw) :
      Recording k space d key l (.ok ())
        ⟨log, k.recordEnd key, k.checkpoint, k.directory ++ [⟨key, k.cursor + Header.width, l⟩]⟩ dw

theorem add_cases (ha : k.add space d key l = (r, k', d')) : k.Recording space d key l r k' d' := by
  unfold add at ha
  split at ha
  · rename_i hempty
    cases ha
    exact .nameless hempty
  rename_i hnamed
  split at ha
  · rename_i hknown
    cases ha
    exact .duplicate hknown
  rename_i hnew
  have hunknown := Bool.eq_false_iff.mpr hnew
  split at ha
  · rename_i hlong
    cases ha
    exact .tooLong hunknown hlong
  rename_i hlong
  have hshort := Nat.not_lt.mp hlong
  dsimp only at ha
  split at ha
  · rename_i hrefused
    cases ha
    exact .noRoom hunknown hshort hrefused
  rename_i hroom
  split at ha
  · rename_i hunfit
    cases ha
    exact .tooFar hunknown hshort hroom hunfit
  rename_i header hfits
  -- the record ends where room was made
  have hlength : (header.encode ++ keyBytes key).length = Header.width + key.utf8ByteSize := by
    rw [List.length_append, Header.length_encode, length_keyBytes]
    rfl
  have hend := Log.grow_fits hroom
  rw [Entry.finish, Entry.keySize, Nat.add_assoc, ← hlength] at hend
  rw [Log.write_ok hend] at ha
  cases ha
  exact .recorded hnamed hunknown hshort hroom hfits (Log.write_ok hend)

inductive Way (k : KeyLog) (space : Volume.Space) (key : String) (l : Location) : Except Fault Unit → Prop
  | duplicate (known : k.directory.contains key = true) : Way k space key l (.error (.duplicateKey key))
  | tooLong (unknown : k.directory.contains key = false) (long : maxKeySize < key.utf8ByteSize) :
      Way k space key l (.error (.invalidArgument (.keyTooLong key.utf8ByteSize)))
  | noRoom {e : Fault} (unknown : k.directory.contains key = false) (short : key.utf8ByteSize ≤ maxKeySize)
      (past : k.capacity < k.cursor + Header.width + key.utf8ByteSize)
      (refused : Log.checkSpace space k.log.path
        (k.log.grownCapacity (k.cursor + Header.width + key.utf8ByteSize)) = .error e) : Way k space key l (.error e)
  | tooFar {e : Fault} (unknown : k.directory.contains key = false) (short : key.utf8ByteSize ≤ maxKeySize)
      (unfit : headerFor (k.cursor + Header.width) key.utf8ByteSize l = .error e) : Way k space key l (.error e)
  | recorded {header : Header} (unknown : k.directory.contains key = false) (short : key.utf8ByteSize ≤ maxKeySize)
      (fits : headerFor (k.cursor + Header.width) key.utf8ByteSize l = .ok header) : Way k space key l (.ok ())

theorem add_way (hkey : key ≠ "") (ha : k.add space d key l = (r, k', d')) : k.Way space key l r := by
  cases add_cases ha with
  | nameless empty => exact absurd empty hkey
  | duplicate known => exact .duplicate known
  | tooLong unknown long => exact .tooLong unknown long
  | noRoom unknown short refused =>
    obtain ⟨hpast, hrefused⟩ := Log.grow_refused refused
    exact .noRoom unknown short hpast hrefused
  | tooFar unknown short room unfit => exact .tooFar unknown short unfit
  | recorded named unknown short room fits written => exact .recorded unknown short fits

/-- Recording a key leaves the path of the log and the header as they are. -/
theorem add_keeps (hm : k.log.Mounted d) (hlo : headSize ≤ k.cursor) (ha : k.add space d key l = (r, k', d')) :
    k'.log.path = k.log.path ∧ (d'.image k'.log.file).rawCursor = (d.image k.log.file).rawCursor := by
  have grown {grew : Bool} {log : Log} {dg : Disk} (room : k.log.grow space d (k.recordEnd key) = .ok (grew, log, dg)) :
      log.path = k.log.path ∧ log.Mounted dg ∧ (dg.image log.file).rawCursor = (d.image k.log.file).rawCursor := by
    obtain ⟨hfile, hpath, -, -, hmg, -, hkeep⟩ := Log.grow_spec hm room
    refine ⟨hpath, hmg, ?_⟩
    rw [hfile]
    exact Image.rawCursor_eq (hkeep.mono (Nat.le_refl _) hm.head_le)
  cases add_cases ha with
  | nameless | duplicate | tooLong | noRoom => exact ⟨rfl, rfl⟩
  | tooFar unknown short room unfit =>
    obtain ⟨hpath, -, hraw⟩ := grown room
    exact ⟨hpath, hraw⟩
  | recorded named unknown short room fits written =>
    obtain ⟨hpath, hmg, hraw⟩ := grown room
    obtain ⟨-, rfl⟩ := Log.write_iff.mp written
    refine ⟨hpath, ?_⟩
    rw [hmg.image_update, Image.rawCursor_eq (Image.keeps_write_below hlo)]
    exact hraw

end TwinLog.KeyLog
