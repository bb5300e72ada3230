/-
  TwinLog.Proofs.KeyLog.Refusal — what a key that is refused leaves of an index and its file.

  An index looks at the key first, whether it is empty, known or too long; then it makes room
  for the record, which may be refused; and only then it puts the record together, where the
  numbers of the location have to fit their signed fields. Up to there nothing has been
  touched, but the room has been made. So `Refused` has two cases for a number that does
  not fit: where there was room already nothing changes, and where there was not the index and
  its file are longer than before, by zeros.

  `refused_leaves_iff` is the exact condition. Whatever the reason, cursor, checkpoint,
  directory and all bytes the file had are kept.
-/

import Mathlib.Control.Monad.Basic
import TwinLog.Proofs.KeyLog.History

namespace TwinLog.KeyLog

/-- `k` is open on the disk `d`, after whatever has been asked of it and done to other files. -/
inductive Reached : KeyLog → Disk → Prop
  | opened {v v' : Volume} {path : String} {capacity : Nat} {k : KeyLog} (sound : v.Sound)
      (opened : openAt v path capacity = (.ok k, v')) : Reached k v'.disk
  | asked {k : KeyLog} {d : Disk} (before : Reached k d) (r : Request) : Reached (k.serve d r).1 (k.serve d r).2
  | elsewhere {k : KeyLog} {d d' : Disk} (before : Reached k d) (files : d.files.size ≤ d'.files.size)
      (same : d'.image k.log.file = d.image k.log.file) : Reached k d'

variable {k k' : KeyLog} {d d' : Disk} {space : Volume.Space} {key : String} {l : Location} {e : Fault} {n : Nat}

theorem Reached.steady (h : Reached k d) : ∃ opening stop saved, Steady opening stop saved k d := by
  induction h with
  | opened sound opened =>
    have ho := openAt_spec sound opened
    obtain ⟨stop, hstored⟩ := ho.stored
    exact ⟨_, stop, _, ho.steady hstored⟩
  | @asked k d before r ih =>
    obtain ⟨opening, stop, saved, hs⟩ := ih
    cases r with
    | add space key l => exact ⟨opening, stop, saved, (hs.add rfl).1⟩
    | get key => exact ⟨opening, stop, saved, hs⟩
    | contains key => exact ⟨opening, stop, saved, hs⟩
    | commit =>
      simp only [serve, Gate.storing]
      cases hc : k.commit d with
      | error e => exact ⟨opening, stop, saved, hs⟩
      | ok d' => exact ⟨opening, stop, _, (hs.commit hc).1⟩
    | rollback =>
      simp only [serve, Gate.storing]
      cases hr : k.rollback d with
      | error e => exact ⟨opening, stop, saved, hs⟩
      | ok d' => exact ⟨opening, stop, _, (hs.rollback hr).1⟩
  | @elsewhere k d d' before files same ih =>
    obtain ⟨opening, stop, saved, hs⟩ := ih
    have hkeep : Image.Keeps 0 k.cursor (d.image k.log.file) (d'.image k.log.file) := by
      rw [same]
      exact .refl
    exact ⟨opening, stop, saved, hs.keep k.log (hs.mounted.of_image files same) (Nat.le_refl _) hkeep⟩

/-! ## The ways of being refused -/

/-- One of the numbers of the record that does not fit a signed word. -/
def Unfit (k : KeyLog) (l : Location) (n : Nat) : Prop :=
  maxSigned < n ∧ (n = k.cursor + Header.width ∨ n = l.size ∨ n = l.offset)

/-- Why a key is refused, and what there is afterwards. -/
inductive Refused (k : KeyLog) (space : Volume.Space) (d : Disk) (key : String) (l : Location) :
    Fault → KeyLog → Disk → Prop
  | nameless (empty : key = "") : Refused k space d key l (.invalidArgument .emptyKey) k d
  | known (known : k.directory.contains key = true) : Refused k space d key l (.duplicateKey key) k d
  | tooLong (long : maxKeySize < key.utf8ByteSize) :
      Refused k space d key l (.invalidArgument (.keyTooLong key.utf8ByteSize)) k d
  | noRoom {e : Fault} (past : k.capacity < k.recordEnd key)
      (refused : Log.checkSpace space k.log.path (k.log.grownCapacity (k.recordEnd key)) = .error e) :
      Refused k space d key l e k d
  | unfit {n : Nat} (unfit : k.Unfit l n) (room : k.recordEnd key ≤ k.capacity) :
      Refused k space d key l (.invalidArgument (.doesNotFit n)) k d
  | unfitGrown {n : Nat} (unfit : k.Unfit l n) (past : k.capacity < k.recordEnd key) :
      Refused k space d key l (.invalidArgument (.doesNotFit n))
        { k with log := { k.log with capacity := k.log.grownCapacity (k.recordEnd key) } }
        (d.update k.log.file (·.resize (k.log.grownCapacity (k.recordEnd key))))

theorem toSigned_error (h : toSigned n = .error e) : maxSigned < n ∧ e = .invalidArgument (.doesNotFit n) := by
  unfold toSigned at h
  split at h
  · cases h
  · rename_i hfar
    cases h
    exact ⟨Nat.lt_of_not_le hfar, rfl⟩

/-- A header cannot be built only because a number does not fit. -/
theorem headerFor_error {keySize : Nat} (h : headerFor (k.cursor + Header.width) keySize l = .error e) :
    ∃ n, k.Unfit l n ∧ e = .invalidArgument (.doesNotFit n) := by
  unfold headerFor at h
  split at h
  · cases h
  · rename_i hoffset
    cases h
    obtain ⟨hfar, rfl⟩ := toSigned_error hoffset
    exact ⟨_, ⟨hfar, .inl rfl⟩, rfl⟩
  · rename_i hsize _
    cases h
    obtain ⟨hfar, rfl⟩ := toSigned_error hsize
    exact ⟨_, ⟨hfar, .inr (.inl rfl)⟩, rfl⟩
  · rename_i hoffset _ _
    cases h
    obtain ⟨hfar, rfl⟩ := toSigned_error hoffset
    exact ⟨_, ⟨hfar, .inr (.inr rfl)⟩, rfl⟩

theorem refused_of_add (ha : k.add space d key l = (.error e, k', d')) : k.Refused space d key l e k' d' := by
  cases add_cases ha with
  | nameless empty => exact .nameless empty
  | duplicate known => exact .known known
  | tooLong unknown long => exact .tooLong long
  | noRoom unknown short refused =>
    obtain ⟨hpast, hspace⟩ := Log.grow_refused refused
    exact .noRoom hpast hspace
  | tooFar unknown short room unfit =>
    obtain ⟨n, hn, rfl⟩ := headerFor_error unfit
    rcases Log.grow_iff.mp room with ⟨hroom, heq⟩ | ⟨hpast, -, heq⟩
    · cases heq
      exact .unfit hn hroom
    · cases heq
      exact .unfitGrown hn hpast

/-! ## What is left -/

/-- A refusal that gives no number as its reason leaves all as it is, and so does one that found the room
    there already; any other has made the log longer. -/
theorem Refused.leaves (h : k.Refused space d key l e k' d') :
    (k' = k ∧ d' = d) ∧ ¬ ((∃ n, k.Unfit l n ∧ e = .invalidArgument (.doesNotFit n)) ∧ k.capacity < k.recordEnd key) ∨
      ((∃ n, k.Unfit l n ∧ e = .invalidArgument (.doesNotFit n)) ∧ k.capacity < k.recordEnd key) ∧
        k' = { k with log := { k.log with capacity := k.log.grownCapacity (k.recordEnd key) } } ∧
        d' = d.update k.log.file (·.resize (k.log.grownCapacity (k.recordEnd key))) := by
  cases h with
  | nameless | known | tooLong => exact .inl ⟨⟨rfl, rfl⟩, by rintro ⟨⟨n, -, ⟨⟩⟩, -⟩⟩
  | noRoom past refused =>
    refine .inl ⟨⟨rfl, rfl⟩, ?_⟩
    rintro ⟨⟨n, -, rfl⟩, -⟩
    unfold Log.checkSpace at refused
    split at refused
    · cases refused
    · split at refused <;> cases refused
  | unfit unfit room => exact .inl ⟨⟨rfl, rfl⟩, fun hyes => absurd hyes.2 (Nat.not_lt.mpr room)⟩
  | unfitGrown unfit past => exact .inr ⟨⟨⟨_, unfit, rfl⟩, past⟩, rfl, rfl⟩

/-- Whatever a key is refused for, the index answers as before, and no byte that the file had
    changes. Index and disk are wholly unchanged except if a number of the location does not fit
    its field and the record would have ended past the capacity: then the file has grown, with zeros, and
    the index with it. -/
theorem refused_leaves_iff (h : Reached k d) (ha : k.add space d key l = (.error e, k', d')) :
    (k'.cursor = k.cursor ∧ k'.checkpoint = k.checkpoint ∧ k'.directory = k.directory ∧
      k'.log.file = k.log.file ∧ k'.log.path = k.log.path) ∧
    (d.OnlyAt k.log.file d' ∧ Image.Keeps 0 k.capacity (d.image k.log.file) (d'.image k.log.file)) ∧
    (k' = k ∧ d' = d ↔ ¬ ((∃ n, k.Unfit l n ∧ e = .invalidArgument (.doesNotFit n)) ∧ k.capacity < k.recordEnd key)) ∧
    ((∃ n, k.Unfit l n ∧ e = .invalidArgument (.doesNotFit n)) ∧ k.capacity < k.recordEnd key →
      k.capacity < k'.capacity ∧ k'.capacity = k.log.grownCapacity (k.recordEnd key) ∧
      (d'.image k.log.file).length = k'.capacity ∧
      ∀ i, k.capacity ≤ i → i < k'.capacity → (d'.image k.log.file).get i = 0) := by
  obtain ⟨opening, stop, saved, hs⟩ := h.steady
  have hm := hs.mounted
  rcases (refused_of_add ha).leaves with ⟨hsame, hno⟩ | ⟨hyes, rfl, rfl⟩
  · obtain ⟨rfl, rfl⟩ := hsame
    exact ⟨⟨rfl, rfl, rfl, rfl, rfl⟩, ⟨.refl, .refl⟩, ⟨fun _ => hno, fun _ => ⟨rfl, rfl⟩⟩, fun hyes => absurd hyes hno⟩
  · have himage := hm.image_update (·.resize (k.log.grownCapacity (k.recordEnd key)))
    have hgrown : k.capacity < k.log.grownCapacity (k.recordEnd key) :=
      Nat.lt_of_lt_of_le hyes.2 (Nat.le_max_right ..)
    have hlength : (d.image k.log.file).length = k.capacity := hm.length_eq
    refine ⟨⟨rfl, rfl, rfl, rfl, rfl⟩, ⟨.update _, ?_⟩, ⟨?_, fun hno => absurd hyes hno⟩, fun _ => ⟨hgrown, rfl, ?_, ?_⟩⟩
    · intro i _ hi
      rw [himage, Image.get_resize, if_pos (by omega)]
    · rintro ⟨hk, -⟩
      have hcapacity := congrArg capacity hk
      exact absurd hcapacity (Nat.ne_of_gt hgrown)
    · rw [himage, Image.length_resize]
      rfl
    · intro i hlo _
      rw [himage, Image.get_resize, if_neg (by omega)]

/-- A new index refuses a location whose size does not fit, and is twice as long afterwards. -/
theorem refused_location_leaves : Reached newIndex newVolume.disk ∧
    ∃ k' d', newIndex.add (fun _ => .ok 4096) newVolume.disk "a" ⟨9223372036854775808, 8, Checksum.of []⟩ =
        (.error (.invalidArgument (.doesNotFit 9223372036854775808)), k', d') ∧
      newIndex.capacity = 48 ∧ k'.capacity = 96 ∧ (d'.image k'.log.file).length = 96 := by
  have hreached : Reached newIndex newVolume.disk := .opened (Volume.sound_empty 4096) new_opens
  have hadd : (newIndex.add (fun _ => .ok 4096) newVolume.disk "a" ⟨9223372036854775808, 8, Checksum.of []⟩).1 =
      .error (.invalidArgument (.doesNotFit 9223372036854775808)) := by decide +kernel
  obtain ⟨⟨-, -, -, hfile, -⟩, -, -, hgrown⟩ := refused_leaves_iff hreached (Prod.ext hadd rfl)
  obtain ⟨-, hcapacity, hlength, -⟩ := hgrown ⟨⟨_, ⟨by decide, .inr (.inl rfl)⟩, rfl⟩, by decide⟩
  refine ⟨hreached, _, _, Prod.ext hadd rfl, rfl, hcapacity.trans (by decide), ?_⟩
  rw [hfile, hlength, hcapacity]
  decide

/-- So not every add that is refused leaves the index and its file as they were. -/
theorem refused_add_changes : ¬ ∀ (k k' : KeyLog) (d d' : Disk) (space : Volume.Space) (key : String) (l : Location)
    (e : Fault), Reached k d → k.add space d key l = (.error e, k', d') →
    k'.capacity = k.capacity ∧ (d'.image k.log.file).length = (d.image k.log.file).length := by
  intro hstays
  have hadd : (newIndex.add (fun _ => .ok 4096) newVolume.disk "a" ⟨9223372036854775808, 8, Checksum.of []⟩).1 =
      .error (.invalidArgument (.doesNotFit 9223372036854775808)) := by decide +kernel
  obtain ⟨hcapacity, -⟩ := hstays newIndex _ newVolume.disk _ (fun _ => .ok 4096) "a" ⟨9223372036854775808, 8, Checksum.of []⟩ _
    (.opened (Volume.sound_empty 4096) new_opens) (Prod.ext hadd rfl)
  revert hcapacity
  decide +kernel

end TwinLog.KeyLog
