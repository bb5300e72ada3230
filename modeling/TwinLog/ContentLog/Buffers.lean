/-
  TwinLog.ContentLog.Buffers — how the bytes of an append move: two buffers and a hash.

  The source is read through a limit, so that nothing past the declared size is asked for.
  `readChunk` fills a buffer; behind a chunk that came out short, a buffer still holds what an
  earlier chunk left in it. `copy` writes the chunk in one buffer, fetches the next chunk into
  the other, takes the first one into the hash only then, and lets the buffers change places;
  it is over when a chunk comes back empty. Whether all of the declared size has arrived is
  seen at the end, by how far the writing came.

  `Transfer` is the same work cut at the readings of the source, with one chunk in hand and
  the content hashed when it is whole.

  It follows `stream`, `write_chunk` and `read_chunk` of `BlobStore` as they stand, with
  the hash of `Checksum` as a parameter.
-/

import TwinLog.ContentLog.Transfer

namespace TwinLog

/-- A checksum that takes its content in pieces. -/
structure Hasher where
  State : Type
  init : State
  update : State → List UInt8 → State
  finish : State → Checksum

/-- A source of which only the next `limit` bytes are to be read. -/
structure Limited where
  source : Source
  limit : Nat
  /-- The room of every read so far, last first. -/
  reads : List Nat

def Limited.count : Reading → Nat
  | .ok bs => bs.length
  | .error _ => 0

/-- Read at most `n` bytes. Where the limit is reached the source is not asked. -/
def Limited.read (s : Limited) (d : Disk) (n : Nat) : Reading × Limited :=
  if s.limit = 0 then (.ok [], s)
  else
    let room := min n s.limit
    let answer := s.source.read d room
    (answer.1, ⟨answer.2, s.limit - count answer.1, room :: s.reads⟩)

abbrev Buffer (n : Nat) : Type := Vector UInt8 n

namespace Buffer

variable {n : Nat}

def zeros (n : Nat) : Buffer n := .replicate n 0

def put (b : Buffer n) (pos : Nat) (bs : List UInt8) : Buffer n :=
  .ofFn fun i => if pos ≤ i.val then bs[i.val - pos]?.getD b[i] else b[i]

def chunk (b : Buffer n) (filled : Nat) : List UInt8 := b.toList.take filled

theorem chunk_zero (b : Buffer n) : b.chunk 0 = [] := List.take_zero

theorem length_chunk {b : Buffer n} {filled : Nat} (h : filled ≤ n) : (b.chunk filled).length = filled := by
  rw [chunk, List.length_take, Vector.length_toList]
  omega

theorem chunk_put {b : Buffer n} {filled : Nat} {bs : List UInt8} (h : filled + bs.length ≤ n) :
    (b.put filled bs).chunk (filled + bs.length) = b.chunk filled ++ bs := by
  have hlen : (b.chunk filled).length = filled := length_chunk (by omega)
  apply List.ext_getElem
  · rw [length_chunk h, List.length_append, hlen]
  · intro i hi hi'
    rw [length_chunk h] at hi
    have hput : ((b.put filled bs).chunk (filled + bs.length))[i] =
        if filled ≤ i then bs[i - filled]?.getD b[i] else b[i] := by simp [chunk, put]
    rw [hput]
    by_cases hlt : i < filled
    · rw [if_neg (Nat.not_le.mpr hlt), List.getElem_append_left (by rw [hlen]; exact hlt)]
      simp [chunk]
    · have hin : i - filled < bs.length := by omega
      rw [if_pos (Nat.le_of_not_lt hlt), List.getElem_append_right (by rw [hlen]; omega), List.getElem?_eq_getElem hin]
      simp only [hlen, Option.getD_some]

end Buffer

namespace Limited

variable {s s' : Limited} {d : Disk} {n : Nat} {b : UInt8} {bs : List UInt8} {e : IoFault}

theorem interrupts_read (h : s.read d n = (.ok bs, s')) : s'.source.interrupts ≤ s.source.interrupts := by
  unfold read at h
  split at h
  · cases h
    exact Nat.le_refl _
  · obtain ⟨-, rfl⟩ := Prod.ext_iff.mp h
    exact (Source.interrupts_read ..).1

theorem interrupts_interrupted (h : s.read d n = (.error e, s')) (hi : e.isInterrupted) :
    s'.source.interrupts < s.source.interrupts := by
  unfold read at h
  split at h
  · cases h
  · obtain ⟨hanswer, rfl⟩ := Prod.ext_iff.mp h
    exact (Source.interrupts_read ..).2 e hanswer hi

theorem limit_read_le (s : Limited) (d : Disk) (n : Nat) : (s.read d n).2.limit ≤ s.limit := by
  unfold read
  split
  · exact Nat.le_refl _
  · exact Nat.sub_le ..

theorem limit_read_lt (h : s.read d n = (.ok (b :: bs), s')) : s'.limit < s.limit := by
  unfold read at h
  split at h
  · cases h
  · rename_i hlimit
    obtain ⟨hanswer, rfl⟩ := Prod.ext_iff.mp h
    have hanswer : (s.source.read d (min n s.limit)).1 = .ok (b :: bs) := hanswer
    show s.limit - count (s.source.read d (min n s.limit)).1 < s.limit
    rw [hanswer, count, List.length_cons]
    omega

end Limited

/-! ## Chunks -/

/-- Fill a buffer that holds `filled` bytes already, and stop early only where the source answers
    empty. Interrupted reads are repeated. -/
def readChunk {n : Nat} (d : Disk) (s : Limited) (buffer : Buffer n) (filled : Nat) :
    Except IoFault Nat × Buffer n × Limited :=
  if _more : filled < n then
    match _read : s.read d (n - filled) with
    | (.ok [], s) => (.ok filled, buffer, s)
    | (.ok (b :: bs), s) => readChunk d s (buffer.put filled (b :: bs)) (filled + (b :: bs).length)
    | (.error e, s) => if _again : e.isInterrupted then readChunk d s buffer filled else (.error e, buffer, s)
  else (.ok filled, buffer, s)
termination_by s.source.interrupts + (n - filled)
decreasing_by
  · have := Limited.interrupts_read _read
    simp only [List.length_cons]
    omega
  · have := Limited.interrupts_interrupted _read _again
    omega

/-- A chunk that is not empty has used up some of the limit. -/
theorem limit_readChunk {n : Nat} {d : Disk} {s s' : Limited} {buffer buffer' : Buffer n} {filled fetched : Nat}
    (h : readChunk d s buffer filled = (.ok fetched, buffer', s')) :
    s'.limit ≤ s.limit ∧ (filled < fetched → s'.limit < s.limit) := by
  fun_induction readChunk d s buffer filled with
  | case1 s buffer filled more s₁ hread =>
    have hle := s.limit_read_le d (n - filled)
    rw [hread] at hle
    cases h
    exact ⟨hle, fun hlt => absurd hlt (Nat.lt_irrefl _)⟩
  | case2 s buffer filled more b bs s₁ hread ih =>
    obtain ⟨hle, -⟩ := ih h
    have hlt := Limited.limit_read_lt hread
    exact ⟨by omega, fun _ => by omega⟩
  | case3 s buffer filled more e s₁ hread again ih =>
    obtain ⟨hle, hlt⟩ := ih h
    have hlimit := s.limit_read_le d (n - filled)
    rw [hread] at hlimit
    have hlimit : s₁.limit ≤ s.limit := hlimit
    exact ⟨by omega, fun hf => by have := hlt hf; omega⟩
  | case4 s buffer filled more e s₁ hread again => cases h
  | case5 s buffer filled more =>
    cases h
    exact ⟨Nat.le_refl _, fun hlt => absurd hlt (Nat.lt_irrefl _)⟩

def writeChunk (log : Log) (d : Disk) (position : Nat) (chunk : List UInt8) : Except Fault Disk :=
  if chunk.isEmpty then .ok d else log.write d position chunk

/-- Copy `size` bytes to `start`. The buffer `current` holds a chunk of `filled` bytes that is to be
    written at `position`; `hash` has taken what comes before it. -/
def copy {n : Nat} (hasher : Hasher) (log : Log) (start size position : Nat) (current next : Buffer n) (filled : Nat)
    (hash : hasher.State) (s : Limited) (d : Disk) : Except Fault Checksum × Limited × Disk :=
  match writeChunk log d position (current.chunk filled) with
  | .error e => (.error e, s, d)
  | .ok d => match _fetch : readChunk d s next 0 with
    | (.error e, _, s) => (.error (.io e), s, d)
    | (.ok fetched, next, s) =>
      if _more : 0 < fetched then
        copy hasher log start size (position + filled) next current fetched (hasher.update hash (current.chunk filled)) s d
      else if position + filled - start = size then
        (.ok (hasher.finish (hasher.update hash (current.chunk filled))), s, d)
      else (.error (Transfer.endedEarly (position + filled - start) size), s, d)
termination_by s.limit
decreasing_by exact (limit_readChunk _fetch).2 _more

def stream (hasher : Hasher) (log : Log) (bufferSize start size : Nat) (src : Source) (d : Disk) :
    Except Fault Checksum × Limited × Disk :=
  let n := min bufferSize (max size 1)
  match readChunk d ⟨src, size, []⟩ (.zeros n) 0 with
  | (.error e, _, s) => (.error (.io e), s, d)
  | (.ok filled, current, s) => copy hasher log start size start current (.zeros n) filled hasher.init s d

namespace ContentLog

def settle (c : ContentLog) (start size : Nat) (copied : Except Fault Checksum × Limited × Disk) : Appended :=
  ⟨copied.1.map (⟨size, start, ·⟩), copied.2.1.reads.reverse, copied.2.1.source, c.release ⟨start, start + size⟩, copied.2.2⟩

def appendBuffered (hasher : Hasher) (c : ContentLog) (space : Volume.Space) (d : Disk) (src : Source) : Appended :=
  match src.declared d with
  | .error e => ⟨.error (.io e), [], src, c, d⟩
  | .ok size => match c.reserve size with
    | .error e => ⟨.error e, [], src, c, d⟩
    | .ok (start, c) => match c.ensure space d (start + size) with
      | .error e => ⟨.error e, [], src, c.giveBack ⟨start, start + size⟩, d⟩
      | .ok (c, d) => c.settle start size (stream hasher c.log c.bufferSize start size src d)

end ContentLog

/-! ## Hashing a source -/

/-- The checksum of all that a source yields, `step + 1` bytes at a time, after what `hash` has
    taken already. -/
def Hasher.ofSource (hasher : Hasher) (d : Disk) (step : Nat) (hash : hasher.State) (s : Source) :
    Except IoFault Checksum :=
  match _seen : s.read d (step + 1) with
  | (.ok [], _) => .ok (hasher.finish hash)
  | (.ok (b :: bs), rest) => ofSource hasher d step (hasher.update hash (b :: bs)) rest
  | (.error e, rest) => if _again : e.isInterrupted then ofSource hasher d step hash rest else .error e
termination_by s.weight d
decreasing_by
  · have := Source.weight_read_lt d (step + 1) (Nat.succ_pos _) s (by simp [_seen, Source.goesOn])
    rwa [_seen] at this
  · have := Source.weight_read_lt d (step + 1) (Nat.succ_pos _) s (by simpa [_seen, Source.goesOn] using _again)
    rwa [_seen] at this

end TwinLog
