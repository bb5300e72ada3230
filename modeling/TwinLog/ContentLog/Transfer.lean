/-
  TwinLog.ContentLog.Transfer — an append, step by step.

  `start` reserves the range and makes room; what is left to do is a `Transfer`, which
  waits for readings of its source. Bytes are gathered in a chunk of fixed size and
  written when the chunk is full, when the declared size is reached, or when the source
  answers empty. A chunk cut short by an empty answer is not yet the end: the source is
  asked once more, and only an empty chunk ends the transfer too early (the very first
  chunk may be empty and is asked for again too). An interrupted reading changes
  nothing; any other failure drops the chunk in hand.

  The type keeps what makes each request sensible: the chunk in hand is not full and the
  declared size is not reached, so `wants` is positive (`wants_pos`). Each reading that
  is not interrupted brings the end nearer (`budget_advance`), which bounds the number
  of readings and makes `append` end for every source.

  A transfer writes through its log and knows nothing of other appends; `ContentLog.step`
  runs a step of it and releases the range once it has ended.

  It follows `append`, `stream` and `read_chunk` of `BlobStore`, whose loops become one
  step; `TwinLog.ContentLog.Buffers` keeps the loops.
-/

import TwinLog.Content.Source
import TwinLog.ContentLog.Basic

namespace TwinLog

structure Transfer where
  start : Nat
  /-- The declared size. -/
  size : Nat
  /-- Bytes of a full chunk. -/
  chunk : Nat
  /-- What is written, from `start` on. -/
  written : Array UInt8
  /-- The chunk in hand. -/
  filling : Array UInt8
  /-- No chunk is finished yet. -/
  fresh : Bool
  filling_lt : filling.size < chunk
  delivered_lt : written.size + filling.size < size

inductive Progress where
  | waiting (t : Transfer)
  | ended (result : Except Fault Location)

namespace Transfer

def span (t : Transfer) : Span := ⟨t.start, t.start + t.size⟩

/-- Room of the next read: never past the chunk, never past the declared size. -/
def wants (t : Transfer) : Nat := min (t.chunk - t.filling.size) (t.size - (t.written.size + t.filling.size))

theorem wants_pos (t : Transfer) : 0 < t.wants := by
  have := t.filling_lt
  have := t.delivered_lt
  unfold wants
  omega

/-- A bound on the readings still to come, interrupted ones not counted. -/
def budget (t : Transfer) : Nat :=
  2 * (t.size - (t.written.size + t.filling.size)) + (if t.filling.size = 0 then 0 else 1) + t.fresh.toNat

def location (start : Nat) (written : Array UInt8) : Location :=
  ⟨written.size, start, Checksum.of written.toList⟩

def finishChunk (t : Transfer) (filling : Array UInt8) (log : Log) (d : Disk) : Progress × Disk :=
  match log.write d (t.start + t.written.size) filling.toList with
  | .error e => (.ended (.error e), d)
  | .ok d =>
    let written := t.written ++ filling
    if more : written.size < t.size then
      (.waiting { t with
        written, filling := #[], fresh := false
        filling_lt := Nat.lt_of_le_of_lt (Nat.zero_le _) t.filling_lt
        delivered_lt := more }, d)
    else (.ended (.ok (location t.start written)), d)

def endedEarly (written size : Nat) : Fault :=
  .io (.reported .unexpectedEnd s!"content ended after {written} of {size} bytes")

def advance (t : Transfer) (r : Reading) (log : Log) (d : Disk) : Progress × Disk :=
  match r with
  | .error e => if e.isInterrupted then (.waiting t, d) else (.ended (.error (.io e)), d)
  | .ok [] =>
    if t.filling.isEmpty && !t.fresh then (.ended (.error (endedEarly t.written.size t.size)), d)
    else t.finishChunk t.filling log d
  | .ok bs =>
    let filling := t.filling ++ (bs.take t.wants).toArray
    if more : filling.size < t.chunk ∧ t.written.size + filling.size < t.size then
      (.waiting { t with filling, filling_lt := more.1, delivered_lt := more.2 }, d)
    else t.finishChunk filling log d

/-! ## Progress -/

theorem finishChunk_waiting {t u : Transfer} {filling : Array UInt8} {log : Log} {d : Disk}
    (h : (t.finishChunk filling log d).1 = .waiting u) :
    u.size = t.size ∧ u.written = t.written ++ filling ∧ u.filling = #[] ∧ u.fresh = false := by
  unfold finishChunk at h
  split at h
  · cases h
  · dsimp only at h
    split at h
    · cases h; exact ⟨rfl, rfl, rfl, rfl⟩
    · cases h

theorem budget_advance {t u : Transfer} {r : Reading} {log : Log} {d : Disk}
    (h : (t.advance r log d).1 = .waiting u) :
    u = t ∧ (∃ e, r = .error e ∧ e.isInterrupted) ∨ u.budget < t.budget := by
  have hs := t.delivered_lt
  unfold advance at h
  split at h
  · rename_i e
    split at h
    · rename_i hi
      cases h
      exact .inl ⟨rfl, e, rfl, hi⟩
    · cases h
  · right
    split at h
    · cases h
    · rename_i hf
      obtain ⟨h1, h2, h3, h4⟩ := finishChunk_waiting h
      have hf : t.filling.size ≠ 0 ∨ t.fresh = true := by
        simpa [Array.isEmpty_iff_size_eq_zero, Classical.or_iff_not_imp_left] using hf
      simp only [budget, h1, h2, h3, h4, Array.size_append, Array.size_empty, Bool.toNat_false, if_true]
      rcases hf with hf | hf
      · simp only [hf, if_false]; omega
      · simp only [hf, Bool.toNat_true]; omega
  · rename_i bs hne
    right
    have hb : 0 < bs.length := List.length_pos_iff.mpr fun e => hne e
    have hw := t.wants_pos
    have hw' : t.wants ≤ t.size - (t.written.size + t.filling.size) := Nat.min_le_right ..
    simp only at h
    split at h
    · cases h
      simp only [budget, Array.size_append, List.size_toArray, List.length_take]
      split <;> split <;> omega
    · obtain ⟨h1, h2, h3, h4⟩ := finishChunk_waiting h
      simp only [budget, h1, h2, h3, h4, Array.size_append, List.size_toArray, List.length_take, Bool.toNat_false]
      split <;> omega

end Transfer

/-! ## Whole appends -/

namespace ContentLog

def start (c : ContentLog) (space : Volume.Space) (d : Disk) (size : Nat) : Progress × ContentLog × Disk :=
  match c.reserve size with
  | .error e => (.ended (.error e), c, d)
  | .ok (start, c) => match c.ensure space d (start + size) with
    | .error e => (.ended (.error e), c.giveBack ⟨start, start + size⟩, d)
    | .ok (c, d) =>
      if busy : 0 < size then
        (.waiting ⟨start, size, min c.bufferSize size, #[], #[], true,
          Nat.lt_min.mpr ⟨c.bufferSize_pos, busy⟩, busy⟩, c, d)
      else (.ended (.ok (Transfer.location start #[])), c.release ⟨start, start + size⟩, d)

/-- One step of a transfer in this log; its range is released when it ends. -/
def step (c : ContentLog) (d : Disk) (t : Transfer) (r : Reading) : Progress × ContentLog × Disk :=
  match t.advance r c.log d with
  | (.waiting t, d) => (.waiting t, c, d)
  | (.ended result, d) => (.ended result, c.release t.span, d)

theorem budget_step {c : ContentLog} {d : Disk} {t u : Transfer} {r : Reading}
    (h : (c.step d t r).1 = .waiting u) :
    u = t ∧ (∃ e, r = .error e ∧ e.isInterrupted) ∨ u.budget < t.budget := by
  unfold step at h
  split at h
  · rename_i heq
    cases h
    exact Transfer.budget_advance (by rw [heq])
  · cases h

/-- A finished append: its result, the room of every read in order, and what is left. -/
structure Appended where
  result : Except Fault Location
  reads : List Nat
  source : Source
  log : ContentLog
  disk : Disk

/-- Serve a transfer from a source to its end. `reads` holds the reads so far, last first. -/
def serve (t : Transfer) (src : Source) (reads : List Nat) (c : ContentLog) (d : Disk) : Appended :=
  match _step : c.step d t (src.read d t.wants).1 with
  | (.ended result, c', d') => ⟨result, (t.wants :: reads).reverse, (src.read d t.wants).2, c', d'⟩
  | (.waiting t', c', d') => serve t' (src.read d t.wants).2 (t.wants :: reads) c' d'
termination_by src.interrupts + t.budget
decreasing_by
  have hs := Source.interrupts_read d t.wants src
  have ht : (c.step d t (src.read d t.wants).1).1 = .waiting t' := by rw [_step]
  rcases budget_step ht with ⟨rfl, e, he, hi⟩ | hb
  · have := hs.2 e he hi
    omega
  · have := hs.1
    omega

def append (c : ContentLog) (space : Volume.Space) (d : Disk) (src : Source) : Appended :=
  match src.declared d with
  | .error e => ⟨.error (.io e), [], src, c, d⟩
  | .ok size => match c.start space d size with
    | (.ended result, c, d) => ⟨result, [], src, c, d⟩
    | (.waiting t, c, d) => serve t src [] c d

end ContentLog

end TwinLog
