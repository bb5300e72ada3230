/-
  TwinLog.Proofs.Content.Slicing — what a source gives does not depend on how it is read.

  Whoever reads a source chooses the room of each read. `stock` are the bytes a source holds in
  their order, whatever it answers in between; every read takes its bytes off the front of it
  (`stock_read`). `drained` is what a patient reader gets, who repeats interrupted reads and
  stops at the first empty answer; here, too, a read of any room takes its bytes off the front
  (`drained_read`). So a reader who was once given certain bytes in whatever portions
  (`Delivers`) determines what every other reader gets, those who hash piece by piece
  among them (`Source.Delivers.checksum`).
-/

import TwinLog.ContentLog.Buffers
import TwinLog.Proofs.ContentLog.Whole

namespace TwinLog

namespace Event

def bytes : Event → List UInt8
  | .data bs => bs
  | _ => []

/-- What a patient reader gets of a script. -/
def drained : List Event → Except IoFault (List UInt8)
  | [] => .ok []
  | .data bs :: rest => (drained rest).map (bs ++ ·)
  | .finish :: _ => .ok []
  | .fail e :: rest => if e.isInterrupted then drained rest else .error e

end Event

namespace Source

variable {src : Source} {d d' : Disk} {n : Nat} {bs : List UInt8}

def answered : Reading → List UInt8
  | .ok bs => bs
  | .error _ => []

def stock (d : Disk) : Source → List UInt8
  | memory data position => data.toList.drop position
  | file id position => (d.image id).read position ((d.image id).length - position)
  | folder => []
  | script left events _ => left ++ events.flatMap Event.bytes

/-- What a patient reader gets. -/
def drained (d : Disk) : Source → Except IoFault (List UInt8)
  | memory data position => .ok (data.toList.drop position)
  | file id position => .ok ((d.image id).read position ((d.image id).length - position))
  | folder => .error (.system .isFolder)
  | script left events _ => (Event.drained events).map (left ++ ·)

/-- The same once an answer is in hand and `rest` is what is left of the source. -/
def afterwards (d : Disk) (rest : Source) : Reading → Except IoFault (List UInt8)
  | .ok [] => .ok []
  | .ok (b :: bs) => (rest.drained d).map (b :: bs ++ ·)
  | .error e => if e.isInterrupted then rest.drained d else .error e

/-! ## One read -/

theorem length_read_le (h : (src.read d n).1 = .ok bs) :
    bs.length ≤ n := by
  cases src with
  | memory data position =>
    cases h
    rw [Array.length_toList, Array.size_extract]
    omega
  | file id position =>
    cases h
    rw [Image.readUpTo, Image.length_read]
    exact Nat.min_le_left ..
  | folder => cases h
  | script left events declared =>
    unfold read at h
    dsimp only at h
    split at h
    · induction events with
      | nil =>
        cases h
        exact Nat.zero_le _
      | cons e rest ih =>
        cases e with
        | data more =>
          unfold nextEvent at h
          split at h
          · exact ih h
          · cases h
            exact List.length_take_le ..
        | finish =>
          cases h
          exact Nat.zero_le _
        | fail e => cases h
    · cases h
      exact List.length_take_le ..

theorem length_answered_le (src : Source) (d : Disk) (n : Nat) : (answered (src.read d n).1).length ≤ n := by
  cases hanswer : (src.read d n).1 with
  | ok bs => exact length_read_le hanswer
  | error e => exact Nat.zero_le _

theorem read_file (im : Image) (position n : Nat) : im.read position (im.length - position) =
    im.readUpTo position n ++ im.read (position + (im.readUpTo position n).length)
      (im.length - (position + (im.readUpTo position n).length)) := by
  have hlen : (im.readUpTo position n).length = min n (im.length - position) := im.length_read ..
  have hsplit : im.length - position = min n (im.length - position) +
      (im.length - (position + min n (im.length - position))) := by omega
  rw [hlen, hsplit, Image.read_add, ← hsplit]
  rfl

theorem bytes_nextEvent (n : Nat) (events : List Event) : events.flatMap Event.bytes =
    answered (nextEvent n events).1 ++ ((nextEvent n events).2.1 ++ (nextEvent n events).2.2.flatMap Event.bytes) := by
  induction events with
  | nil => rfl
  | cons e rest ih =>
    cases e with
    | data bs =>
      rw [List.flatMap_cons, nextEvent]
      split
      · rename_i hempty
        rw [Event.bytes, List.isEmpty_iff.mp hempty]
        exact ih
      · rw [answered, ← List.append_assoc, List.take_append_drop]
        rfl
    | finish => rfl
    | fail e => rfl

theorem drop_eq_extract (data : Array UInt8) (position n : Nat) :
    data.toList.drop position = (data.extract position (position + n)).toList ++
      data.toList.drop (position + (data.extract position (position + n)).toList.length) := by
  have hnext : (data.extract position (position + n)).toList = (data.toList.drop position).take n := by
    rw [Array.toList_extract, List.extract_eq_take_drop, Nat.add_sub_cancel_left]
  rw [hnext, ← List.drop_drop]
  have htake : (data.toList.drop position).take n =
      (data.toList.drop position).take ((data.toList.drop position).take n).length := by
    rw [List.length_take, ← List.take_take, List.take_length]
  exact (List.take_append_drop _ _).symm.trans (by rw [← htake])

/-- A read takes its bytes off the front. -/
theorem stock_read (src : Source) (d : Disk) (n : Nat) :
    src.stock d = answered (src.read d n).1 ++ (src.read d n).2.stock d := by
  cases src with
  | memory data position => exact drop_eq_extract data position n
  | file id position => exact read_file (d.image id) position n
  | folder => rfl
  | script left events declared =>
    unfold read
    dsimp only
    split
    · rename_i hempty
      rw [List.isEmpty_iff.mp hempty]
      exact bytes_nextEvent n events
    · rw [answered, stock, stock, ← List.append_assoc, List.take_append_drop]

theorem stock_congr (h : ∀ f p, src = .file f p → d'.image f = d.image f) : src.stock d' = src.stock d := by
  cases src with
  | file id position => rw [stock, stock, h id position rfl]
  | _ => rfl

theorem map_append_append (x : Except IoFault (List UInt8)) (bs more : List UInt8) :
    (x.map (more ++ ·)).map (bs ++ ·) = x.map ((bs ++ more) ++ ·) := by
  cases x with
  | error e => rfl
  | ok rest => exact congrArg Except.ok (List.append_assoc ..).symm

theorem afterwards_ok (h : bs ≠ []) (rest : Source) (d : Disk) :
    afterwards d rest (.ok bs) = (rest.drained d).map (bs ++ ·) := by
  cases bs with
  | nil => exact absurd rfl h
  | cons b bs => rfl

/-- A read of data takes a part off it. -/
theorem afterwards_data (hn : 0 < n) (h : bs ≠ []) (events : List Event) (declared : Except IoFault Nat) :
    (Event.drained events).map (bs ++ ·) = afterwards d (.script (bs.drop n) events declared) (.ok (bs.take n)) := by
  have hsome : bs.take n ≠ [] := by
    intro hnone
    rcases List.take_eq_nil_iff.mp hnone with hzero | hempty
    · omega
    · exact h hempty
  rw [afterwards_ok hsome, drained, map_append_append, List.take_append_drop]

theorem drained_nextEvent (hn : 0 < n) (events : List Event) (declared : Except IoFault Nat) :
    Event.drained events = afterwards d (.script (nextEvent n events).2.1 (nextEvent n events).2.2 declared)
      (nextEvent n events).1 := by
  have hnone (x : Except IoFault (List UInt8)) : x.map (List.nil ++ ·) = x := by cases x <;> rfl
  induction events with
  | nil => rfl
  | cons e rest ih =>
    cases e with
    | data bs =>
      rw [Event.drained, nextEvent]
      split
      · rename_i hempty
        rw [List.isEmpty_iff.mp hempty, hnone]
        exact ih
      · rename_i hsome
        exact afterwards_data hn (fun hnil => hsome (List.isEmpty_iff.mpr hnil)) rest declared
    | finish => rfl
    | fail e =>
      rw [Event.drained, nextEvent, afterwards, drained, hnone]

/-- A patient reader gets the answer in hand and what is left of the source, whatever the room of the read. -/
theorem drained_read (hn : 0 < n) (src : Source) (d : Disk) :
    src.drained d = afterwards d (src.read d n).2 (src.read d n).1 := by
  cases src with
  | memory data position =>
    have hsplit := drop_eq_extract data position n
    unfold read
    dsimp only
    by_cases hnone : (data.extract position (position + n)).toList = []
    · have hend : data.toList.drop position = [] := by
        have hsize := congrArg List.length hnone
        rw [Array.length_toList, Array.size_extract, List.length_nil] at hsize
        rw [List.drop_eq_nil_iff, Array.length_toList]
        omega
      rw [hnone, drained, hend]
      rfl
    · rw [afterwards_ok hnone, drained, hsplit]
      rfl
  | file id position =>
    have hsplit := read_file (d.image id) position n
    unfold read
    dsimp only
    by_cases hnone : (d.image id).readUpTo position n = []
    · have hend : (d.image id).read position ((d.image id).length - position) = [] := by
        have hsize := congrArg List.length hnone
        rw [Image.readUpTo, Image.length_read, List.length_nil] at hsize
        rw [List.eq_nil_iff_length_eq_zero, Image.length_read]
        omega
      rw [hnone, drained, hend]
      rfl
    · rw [afterwards_ok hnone, drained, hsplit]
      rfl
  | folder => rfl
  | script left events declared =>
    unfold read
    dsimp only
    split
    · rename_i hempty
      rw [List.isEmpty_iff.mp hempty]
      have hnone : (Event.drained events).map (List.nil ++ ·) = Event.drained events := by
        cases Event.drained events <;> rfl
      exact hnone.trans (drained_nextEvent hn events declared)
    · rename_i hsome
      exact afterwards_data hn (fun hnil => hsome (List.isEmpty_iff.mpr hnil)) events declared

/-! ## Whole readers -/

/-- The reader of checksums is patient. -/
theorem readAll_eq (d : Disk) (step : Nat) (src : Source) : src.readAll d step = src.drained d := by
  fun_induction readAll d step src with
  | case1 src rest hread => rw [drained_read (Nat.succ_pos step), hread]; rfl
  | case2 src b bs rest hread ih =>
    rw [drained_read (Nat.succ_pos step), hread, afterwards, ih]
  | case3 src e rest hread again ih =>
    rw [drained_read (Nat.succ_pos step), hread, afterwards, if_pos again, ih]
  | case4 src e rest hread again =>
    rw [drained_read (Nat.succ_pos step), hread, afterwards, if_neg again]

/-- Somebody has read `bs` from a source, in portions of any sizes, and then got an empty answer. Reads
    that were interrupted were repeated. -/
inductive Delivers (d : Disk) : Source → List UInt8 → Prop
  | stops {src : Source} {n : Nat} (room : 0 < n) (empty : (src.read d n).1 = .ok []) : Delivers d src []
  | gives {src : Source} {n : Nat} {b : UInt8} {bs more : List UInt8} (room : 0 < n)
      (some : (src.read d n).1 = .ok (b :: bs)) (rest : Delivers d (src.read d n).2 more) :
      Delivers d src (b :: bs ++ more)
  | again {src : Source} {n : Nat} {e : IoFault} {bs : List UInt8} (room : 0 < n)
      (interrupted : (src.read d n).1 = .error e) (repeated : e.isInterrupted = true)
      (rest : Delivers d (src.read d n).2 bs) : Delivers d src bs

theorem Delivers.drained (h : Delivers d src bs) : src.drained d = .ok bs := by
  induction h with
  | stops room empty =>
    rw [drained_read room, empty]
    rfl
  | gives room some rest ih =>
    rw [drained_read room, some, afterwards, ih]
    rfl
  | again room interrupted repeated rest ih =>
    rw [drained_read room, interrupted, afterwards, if_pos repeated, ih]

theorem drained_congr (h : ∀ f p, src = .file f p → d'.image f = d.image f) : src.drained d' = src.drained d := by
  cases src with
  | file id position => rw [drained, drained, h id position rfl]
  | _ => rfl

end Source

/-! ## Checksums of sources -/

/-- Hashing in pieces is hashing the whole. -/
structure Hasher.Lawful (h : Hasher) : Prop where
  pieces : ∀ parts : List (List UInt8), h.finish (parts.foldl h.update h.init) = Checksum.of parts.flatten

/-- Hashing a source piece by piece hashes what a patient reader gets. -/
theorem Hasher.ofSource_eq {h : Hasher} (lawful : h.Lawful) (d : Disk) (step : Nat) (parts : List (List UInt8))
    (src : Source) : h.ofSource d step (parts.foldl h.update h.init) src =
      (src.drained d).map fun bs => Checksum.of (parts.flatten ++ bs) := by
  generalize hhash : parts.foldl h.update h.init = hash
  fun_induction ofSource h d step hash src generalizing parts with
  | case1 hash src rest hread =>
    subst hhash
    rw [Source.drained_read (Nat.succ_pos step), hread, lawful.pieces]
    simp only [Source.afterwards, Except.map, List.append_nil]
  | case2 hash src b bs rest hread ih =>
    subst hhash
    rw [Source.drained_read (Nat.succ_pos step), hread, Source.afterwards, ih (parts ++ [b :: bs]) (by rw [List.foldl_append]; rfl)]
    cases rest.drained d with
    | error e => simp only [Except.map]
    | ok more => simp only [Except.map, List.flatten_append, List.flatten_singleton, List.append_assoc]
  | case3 hash src e rest hread again ih =>
    rw [Source.drained_read (Nat.succ_pos step), hread, Source.afterwards, if_pos again, ih parts hhash]
  | case4 hash src e rest hread again =>
    rw [Source.drained_read (Nat.succ_pos step), hread, Source.afterwards, if_neg again]
    simp only [Except.map]

/-- A source of which a patient reader gets `bs` has the checksum of `bs`, summed up at once or piece by piece. -/
theorem Source.checksum_of_drained {h : Hasher} (lawful : h.Lawful) {d : Disk} {src : Source} {bs : List UInt8}
    (hd : src.drained d = .ok bs) :
    Checksum.ofSource d src = .ok (Checksum.of bs) ∧ ∀ step, h.ofSource d step h.init src = .ok (Checksum.of bs) := by
  refine ⟨?_, ?_⟩
  · rw [Checksum.ofSource, readAll_eq, hd]
    simp only [Except.map]
  · intro step
    have hpieces := Hasher.ofSource_eq lawful d step [] src
    rw [hd] at hpieces
    simpa only [List.foldl_nil, Except.map, List.flatten_nil, List.nil_append] using hpieces

/-- Every reader who is given `bs`, in whatever portions, finds the checksum of `bs`. -/
theorem Source.Delivers.checksum {h : Hasher} (lawful : h.Lawful) {d : Disk} {src : Source} {bs : List UInt8}
    (hd : src.Delivers d bs) :
    Checksum.ofSource d src = .ok (Checksum.of bs) ∧ ∀ step, h.ofSource d step h.init src = .ok (Checksum.of bs) :=
  checksum_of_drained lawful hd.drained

end TwinLog
