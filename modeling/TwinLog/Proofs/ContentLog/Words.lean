/-
  TwinLog.Proofs.ContentLog.Words — the offsets of a content log are words, and so are their sums.

  Reserving a range, copying into it through two buffers and a whole append are written out
  with every sum a `wordSum`, and so is one move of a log in which many appends are under way.
  They never stop at a sum that is no word, and do what the log does.

  One check bounds all of this: a range is reserved only if its end is a signed word. What is
  read of a source and what may still be read never exceed the declared size together
  (`readChunk_within`), so a copy stays inside its range whatever its source answers, and an append
  on its way is never past the end of its own (`Append.Narrow`). Neither asks what is on the disk.
-/

import TwinLog.Proofs.ContentLog.Chunks
import TwinLog.Proofs.ContentLog.Copying
import TwinLog.Proofs.KeyLog.Words

namespace TwinLog

/-! ## Copying -/

theorem Limited.limit_read {s s' : Limited} {d : Disk} {n : Nat} {bs : List UInt8}
    (h : s.read d n = (.ok bs, s')) : bs.length + s'.limit = s.limit := by
  rcases Nat.eq_zero_or_pos s.limit with hdry | hpos
  · rw [read_dry hdry] at h
    cases h
    exact Nat.zero_add _
  · rw [read_room hpos] at h
    obtain ⟨hanswer, rfl⟩ := Prod.ext_iff.mp h
    have hanswer : (s.source.read d (min n s.limit)).1 = .ok bs := hanswer
    have hroom := Source.length_read_le hanswer
    have hle : min n s.limit ≤ s.limit := Nat.min_le_right ..
    rw [hanswer]
    show bs.length + (s.limit - bs.length) = s.limit
    omega

theorem readChunk_within {n m filled : Nat} {d : Disk} {s s' : Limited} {buffer buffer' : Buffer n}
    (h : readChunk d s buffer filled = (.ok m, buffer', s')) : m + s'.limit ≤ filled + s.limit := by
  fun_induction readChunk d s buffer filled with
  | case1 s buffer filled more s₁ hread =>
    have hlimit := Limited.limit_read hread
    rw [List.length_nil] at hlimit
    cases h
    omega
  | case2 s buffer filled more b bs s₁ hread ih =>
    have hlimit := Limited.limit_read hread
    have := ih h
    omega
  | case3 s buffer filled more e s₁ hread again ih =>
    have hlimit := s.limit_read_le d (n - filled)
    rw [hread] at hlimit
    have hlimit : s₁.limit ≤ s.limit := hlimit
    have := ih h
    omega
  | case4 => cases h
  | case5 =>
    cases h
    exact Nat.le_refl _

/-- `copy` on a machine that stops at a sum that is no word. -/
def copyInWords {n : Nat} (hasher : Hasher) (log : Log) (start size position : Nat) (current next : Buffer n)
    (filled : Nat) (hash : hasher.State) (s : Limited) (d : Disk) : Option (Except Fault Checksum × Limited × Disk) :=
  match writeChunk log d position (current.chunk filled) with
  | .error e => some (.error e, s, d)
  | .ok d => match wordSum position filled with
    | none => none
    | some position => match _fetch : readChunk d s next 0 with
      | (.error e, _, s) => some (.error (.io e), s, d)
      | (.ok fetched, next, s) =>
        if _more : 0 < fetched then
          copyInWords hasher log start size position next current fetched (hasher.update hash (current.chunk filled)) s
            d
        else if position - start = size then
          some (.ok (hasher.finish (hasher.update hash (current.chunk filled))), s, d)
        else some (.error (Transfer.endedEarly (position - start) size), s, d)
termination_by s.limit
decreasing_by exact (limit_readChunk _fetch).2 _more

/-- What is left of a step once the chunk in hand is written and the next one asked for. -/
theorem copyInWords_fetched {n filled position : Nat} {hasher : Hasher} {log : Log} {start size : Nat}
    {current next : Buffer n} {hash : hasher.State} {s : Limited} {d d' : Disk}
    {fetch : Except IoFault Nat × Buffer n × Limited} (hsum : position + filled ≤ maxUnsigned)
    (hwrite : writeChunk log d position (current.chunk filled) = .ok d') (hfetch : readChunk d' s next 0 = fetch) :
    copyInWords hasher log start size position current next filled hash s d = match fetch with
      | (.error e, _, s) => some (.error (.io e), s, d')
      | (.ok fetched, next, s) =>
        if 0 < fetched then
          copyInWords hasher log start size (position + filled) next current fetched
            (hasher.update hash (current.chunk filled)) s d'
        else if position + filled - start = size then
          some (.ok (hasher.finish (hasher.update hash (current.chunk filled))), s, d')
        else some (.error (Transfer.endedEarly (position + filled - start) size), s, d') := by
  rw [copyInWords, hwrite, wordSum_eq hsum]
  dsimp only
  split
  · rename_i hread
    cases hfetch.symm.trans hread
    rfl
  · rename_i hread
    cases hfetch.symm.trans hread
    rfl

/-- A copy that ends in its range at the latest. -/
theorem copyInWords_eq {n filled position : Nat} (hasher : Hasher) (log : Log) (start size : Nat)
    (current next : Buffer n) (hash : hasher.State) {s : Limited} (d : Disk)
    (h : position + filled + s.limit ≤ maxUnsigned) :
    copyInWords hasher log start size position current next filled hash s d =
      some (copy hasher log start size position current next filled hash s d) := by
  fun_induction copy hasher log start size position current next filled hash s d with
  | case1 position current next filled hash s d e hwrite =>
    rw [copyInWords, hwrite]
  | case2 position current next filled hash s d d' hwrite e b s' hfetch =>
    rw [copyInWords_fetched (by omega) hwrite hfetch]
  | case3 position current next filled hash s d d' hwrite fetched b s' hfetch more ih =>
    have hwithin := readChunk_within hfetch
    rw [copyInWords_fetched (by omega) hwrite hfetch]
    exact (if_pos more).trans (ih (by omega))
  | case4 position current next filled hash s d d' hwrite fetched b s' hfetch more hall =>
    rw [copyInWords_fetched (by omega) hwrite hfetch]
    exact (if_neg more).trans (if_pos hall)
  | case5 position current next filled hash s d d' hwrite fetched b s' hfetch more hshort =>
    rw [copyInWords_fetched (by omega) hwrite hfetch]
    exact (if_neg more).trans (if_neg hshort)

def streamInWords (hasher : Hasher) (log : Log) (bufferSize start size : Nat) (src : Source) (d : Disk) :
    Option (Except Fault Checksum × Limited × Disk) :=
  let n := min bufferSize (max size 1)
  match readChunk d ⟨src, size, []⟩ (.zeros n) 0 with
  | (.error e, _, s) => some (.error (.io e), s, d)
  | (.ok filled, current, s) => copyInWords hasher log start size start current (.zeros n) filled hasher.init s d

theorem streamInWords_eq (hasher : Hasher) (log : Log) (bufferSize : Nat) {start size : Nat} (src : Source) (d : Disk)
    (h : start + size ≤ maxUnsigned) :
    streamInWords hasher log bufferSize start size src d = some (stream hasher log bufferSize start size src d) := by
  unfold streamInWords stream
  dsimp only
  cases hfetch : readChunk d ⟨src, size, []⟩ (.zeros (min bufferSize (max size 1))) 0 with
  | mk answer rest =>
    obtain ⟨current, s⟩ := rest
    cases answer with
    | error e => rfl
    | ok filled =>
      have hwithin := readChunk_within hfetch
      dsimp only at hwithin ⊢
      rw [copyInWords_eq]
      omega

namespace ContentLog

variable {c : ContentLog} {d : Disk} {space : Volume.Space} {src : Source} {hasher : Hasher} {l : Location}

/-! ## Whole appends -/

/-- `reserve` on a machine that stops at a sum that is no word. Where the cursor is to go is checked first; the
    end of the pending range is summed up again and is not. -/
def reserveInWords (c : ContentLog) (size : Nat) : Option (Except Fault (Nat × ContentLog)) :=
  match (wordSum c.cursor size).filter (· ≤ maxSigned) with
  | none => some (.error (.invalidArgument (.contentTooLong size c.cursor)))
  | some cursor =>
    if size = 0 then some (.ok (c.cursor, { c with cursor }))
    else (wordSum c.cursor size).map fun finish =>
      .ok (c.cursor, { c with cursor, pending := c.pending ++ [⟨c.cursor, finish⟩] })

theorem reserveInWords_eq (c : ContentLog) (size : Nat) : c.reserveInWords size = some (c.reserve size) := by
  have hword : maxSigned ≤ maxUnsigned := by decide
  unfold reserveInWords reserve
  by_cases hfits : c.cursor + size ≤ maxSigned
  · rw [wordSum_eq (Nat.le_trans hfits hword), if_pos hfits, Option.filter_some, if_pos (decide_eq_true hfits)]
    dsimp only
    split <;> rfl
  · have hnone : (wordSum c.cursor size).filter (· ≤ maxSigned) = none := by
      unfold wordSum
      split
      · rw [Option.filter_some, if_neg (by simpa using hfits)]
      · rfl
    rw [hnone, if_neg hfits]

def appendInWords (hasher : Hasher) (c : ContentLog) (space : Volume.Space) (d : Disk) (src : Source) :
    Option Appended :=
  match src.declared d with
  | .error e => some ⟨.error (.io e), [], src, c, d⟩
  | .ok size => (c.reserveInWords size).bind fun
    | .error e => some ⟨.error e, [], src, c, d⟩
    | .ok (start, c) => (wordSum start size).bind fun finish => match c.ensure space d finish with
      | .error e => some ⟨.error e, [], src, c.giveBack ⟨start, finish⟩, d⟩
      | .ok (c, d) => (streamInWords hasher c.log c.bufferSize start size src d).map fun copied =>
        ⟨copied.1.map (⟨size, start, ·⟩), copied.2.1.reads.reverse, copied.2.1.source,
          c.release ⟨start, finish⟩, copied.2.2⟩

/-- No append meets a sum that is no word, whatever the log, the disk and the source are like. -/
theorem appendInWords_eq (hasher : Hasher) (c : ContentLog) (space : Volume.Space) (d : Disk) (src : Source) :
    c.appendInWords hasher space d src = some (c.appendBuffered hasher space d src) := by
  have hword : maxSigned ≤ maxUnsigned := by decide
  unfold appendInWords appendBuffered
  cases src.declared d with
  | error e => rfl
  | ok size =>
    dsimp only
    rw [reserveInWords_eq, Option.bind_some]
    cases hres : c.reserve size with
    | error e => rfl
    | ok reserved =>
      obtain ⟨start, c'⟩ := reserved
      have hfits : start + size ≤ maxSigned := (reserve_cursor hres).1 ▸ (reserve_log hres).2
      dsimp only
      rw [wordSum_eq (Nat.le_trans hfits hword), Option.bind_some]
      cases c'.ensure space d (start + size) with
      | error e => rfl
      | ok made =>
        obtain ⟨c', d'⟩ := made
        dsimp only
        rw [streamInWords_eq hasher c'.log c'.bufferSize src d' (Nat.le_trans hfits hword), Option.map_some]
        rfl

theorem cursor_of_openAt {v v' : Volume} {path : String} {capacity bufferSize : Nat}
    (h : openAt v path capacity bufferSize = (.ok c, v')) : c.cursor ≤ maxSigned := by
  unfold openAt at h
  split at h
  · split at h
    · cases h
    split at h
    · cases h
    · rename_i hcursor
      cases h
      exact Log.loadCursor_le hcursor
  · cases h

/-- What an append returns has an end that is a signed word. -/
theorem finish_of_appendBuffered (h : (c.appendBuffered hasher space d src).result = .ok l) :
    l.finish ≤ maxSigned := by
  unfold appendBuffered at h
  split at h
  · cases h
  split at h
  · cases h
  rename_i size _ _ start c' hres
  have hfits : start + size ≤ maxSigned := (reserve_cursor hres).1 ▸ (reserve_log hres).2
  split at h
  · cases h
  · rename_i c' d' _
    unfold settle at h
    cases hcopied : (stream hasher c'.log c'.bufferSize start size src d').1 with
    | error e =>
      rw [hcopied] at h
      cases h
    | ok checksum =>
      rw [hcopied] at h
      cases h
      exact hfits

/-- An append leaves the cursor a signed word. -/
theorem cursor_of_appendBuffered (hasher : Hasher) (space : Volume.Space) (d : Disk) (src : Source)
    (hc : c.cursor ≤ maxSigned) : (c.appendBuffered hasher space d src).log.cursor ≤ maxSigned := by
  unfold appendBuffered
  split
  · exact hc
  split
  · exact hc
  rename_i size _ _ start c' hres
  obtain ⟨rfl, hcursor⟩ := reserve_cursor hres
  have hfits : c'.cursor ≤ maxSigned := hcursor ▸ (reserve_log hres).2
  split
  · show (release _ _).cursor ≤ maxSigned
    rw [release_cursor]
    show (if c'.cursor = c.cursor + size then c.cursor else c'.cursor) ≤ maxSigned
    rw [if_pos hcursor]
    exact hc
  · rename_i made d' hens
    obtain ⟨-, -, hmade⟩ := ensure_grows hens
    show (release made _).cursor ≤ maxSigned
    rw [release_cursor, hmade]
    exact hfits

end ContentLog

/-! ## Many appends -/

/-- `advance` on a machine that stops at a sum that is no word: a chunk that is complete goes behind what is
    written, and the next one behind it. A transfer has what is written in hand and not the position of the
    next chunk, so of that position it is only asked that it is a word. -/
def Transfer.advanceInWords (t : Transfer) (r : Reading) (log : Log) (d : Disk) : Option (Progress × Disk) :=
  match t.completes r with
  | none => some (t.advance r log d)
  | some chunk => (wordSum t.start t.written.size).bind fun position =>
    (wordSum position chunk.size).map fun _ => t.advance r log d

namespace Append

/-- The end of a range is summed up once it is reserved. -/
def roomInWords (space : Volume.Space) (a : Append) (c : ContentLog) (d : Disk) :
    Option (Append × ContentLog × Disk) :=
  match a.stage with
  | .reserved => (wordSum a.start a.size).map fun finish => match c.ensure space d finish with
    | .error e => ({ a with stage := .refused e }, c, d)
    | .ok (c, d) => ({ a with stage := a.begun c }, c, d)
  | _ => some (a, c, d)

def feedInWords (r : Reading) (a : Append) (c : ContentLog) (d : Disk) : Option (Append × ContentLog × Disk) :=
  match a.stage with
  | .streaming t => (t.advanceInWords r c.log d).map fun
    | (.waiting u, d) => ({ a with stage := .streaming u, received := a.received ++ t.takes r }, c, d)
    | (.ended result, d) => ({ a with stage := .ended result, received := a.received ++ t.takes r }, c, d)
  | _ => some (a, c, d)

end Append

namespace Traffic

def actInWords (s : Traffic) (i : Nat) (f : Append → ContentLog → Disk → Option (Append × ContentLog × Disk)) :
    Option Traffic :=
  match s.appends[i]? with
  | none => some s
  | some a => (f a s.log s.disk).map fun (a, log, disk) => ⟨log, disk, s.appends.set i a⟩

/-- `step` on a machine that stops at a sum that is no word. Releasing a range and writing a header sum up nothing. -/
def stepInWords (s : Traffic) : Move → Option Traffic
  | .reserve size => (s.log.reserveInWords size).map fun
    | .error _ => s
    | .ok (start, log) => { s with log, appends := s.appends ++ [⟨start, size, .reserved, []⟩] }
  | .room i space => s.actInWords i (Append.roomInWords space)
  | .feed i r => s.actInWords i (Append.feedInWords r)
  | m => some (s.step m)

/-- A log that was opened on any file, in which appends, commits and rollbacks have made their moves and whole
    appends were made; the disk may have changed in any way meanwhile. -/
inductive InUse : Traffic → Prop
  | opened {v v' : Volume} {path : String} {capacity bufferSize : Nat} {c : ContentLog}
      (h : ContentLog.openAt v path capacity bufferSize = (.ok c, v')) : InUse (idle c v'.disk)
  | moved {s : Traffic} (before : InUse s) (m : Move) : InUse (s.step m)
  | appended {s : Traffic} (before : InUse s) (hasher : Hasher) (space : Volume.Space) (src : Source) :
      InUse { s with
        log := (s.log.appendBuffered hasher space s.disk src).log
        disk := (s.log.appendBuffered hasher space s.disk src).disk }
  | meanwhile {s : Traffic} (before : InUse s) (d : Disk) : InUse { s with disk := d }

end Traffic

def Stage.Narrow : Stage → Prop
  | .streaming t => t.span.finish ≤ maxSigned
  | .ended (.ok l) | .returned l => l.finish ≤ maxSigned
  | _ => True

structure Append.Narrow (a : Append) : Prop where
  range : a.span.finish ≤ maxSigned
  stage : a.stage.Narrow

/-- The cursor is a signed word, and so is the end of every range that was handed out. -/
structure Traffic.Narrow (s : Traffic) : Prop where
  cursor : s.log.cursor ≤ maxSigned
  appends : ∀ a ∈ s.appends, a.Narrow

namespace Transfer

variable {t : Transfer} {r : Reading} {log : Log} {d : Disk} {l : Location}

theorem advanceInWords_eq (h : t.span.finish ≤ maxSigned) (r : Reading) (log : Log) (d : Disk) :
    t.advanceInWords r log d = some (t.advance r log d) := by
  have hword : maxSigned ≤ maxUnsigned := by decide
  have h : t.start + t.size ≤ maxSigned := h
  unfold advanceInWords
  split
  · rfl
  · rename_i chunk hchunk
    have hsize := completes_size hchunk
    rw [wordSum_eq (by omega), Option.bind_some, wordSum_eq (by omega)]
    rfl

/-- A transfer that ends well has written its last chunk. -/
theorem advance_ended (h : (t.advance r log d).1 = .ended (.ok l)) :
    ∃ chunk, t.completes r = some chunk ∧ l = location t.start (t.written ++ chunk) := by
  have hfinish {chunk : Array UInt8} (h : (t.finishChunk chunk log d).1 = .ended (.ok l)) :
      l = location t.start (t.written ++ chunk) := by
    unfold finishChunk at h
    split at h
    · cases h
    · dsimp only at h
      split at h
      · cases h
      · cases h
        rfl
  unfold advance at h
  split at h
  · split at h
    · cases h
    · cases h
  · split at h
    · cases h
    · rename_i hgoes
      exact ⟨t.filling, if_neg hgoes, hfinish h⟩
  · rename_i bs hsome
    dsimp only at h
    split at h
    · cases h
    · rename_i hfull
      refine ⟨t.filling ++ (bs.take t.wants).toArray, ?_, hfinish h⟩
      rw [completes]
      · exact if_neg hfull
      · exact hsome

end Transfer

namespace Append

variable {a : Append} {c : ContentLog} {d : Disk}

theorem roomInWords_eq (h : a.Narrow) (space : Volume.Space) (c : ContentLog) (d : Disk) :
    a.roomInWords space c d = some (a.room space c d) := by
  have hword : maxSigned ≤ maxUnsigned := by decide
  obtain ⟨start, size, stage, received⟩ := a
  cases stage with
  | reserved =>
    rw [roomInWords, wordSum_eq (Nat.le_trans h.range hword)]
    rfl
  | _ => rfl

theorem feedInWords_eq (h : a.Narrow) (r : Reading) (c : ContentLog) (d : Disk) :
    a.feedInWords r c d = some (a.feed r c d) := by
  obtain ⟨start, size, stage, received⟩ := a
  cases stage with
  | streaming t =>
    have ht : t.span.finish ≤ maxSigned := h.stage
    have hadvance := Transfer.advanceInWords_eq ht r c.log d
    rcases hnext : t.advance r c.log d with ⟨u | result, d'⟩
    · simp only [feedInWords, feed, hadvance, hnext, Option.map_some]
    · simp only [feedInWords, feed, hadvance, hnext, Option.map_some]
  | _ => rfl

theorem Narrow.room (h : a.Narrow) (space : Volume.Space) (c : ContentLog) (d : Disk) :
    (a.room space c d).1.Narrow := by
  unfold Append.room
  split
  · split
    · exact ⟨h.range, trivial⟩
    · refine ⟨h.range, ?_⟩
      rename_i c' d' _
      have hrange : a.start + a.size ≤ maxSigned := h.range
      dsimp only
      rcases a.begun_cases c' with ⟨t, hs, hstart, hsize, -⟩ | ⟨-, hs⟩
      · rw [hs]
        show t.start + t.size ≤ maxSigned
        rwa [hstart, hsize]
      · rw [hs]
        show a.start + 0 ≤ maxSigned
        omega
  · exact h

theorem Narrow.feed (h : a.Narrow) (r : Reading) (c : ContentLog) (d : Disk) : (a.feed r c d).1.Narrow := by
  unfold Append.feed
  split
  · rename_i t hs
    have ht := h.stage
    rw [hs] at ht
    have ht : t.start + t.size ≤ maxSigned := ht
    dsimp only
    split
    · rename_i u d' hadvance
      have hspan := Transfer.span_advance (congrArg Prod.fst hadvance)
      exact ⟨h.range, by show u.span.finish ≤ maxSigned; rw [hspan]; exact ht⟩
    · rename_i result d' hadvance
      cases result with
      | error e => exact ⟨h.range, trivial⟩
      | ok l =>
        obtain ⟨chunk, hchunk, rfl⟩ := Transfer.advance_ended (congrArg Prod.fst hadvance)
        have hsize := Transfer.completes_size hchunk
        refine ⟨h.range, ?_⟩
        show t.start + (t.written ++ chunk).size ≤ maxSigned
        rw [Array.size_append]
        omega
  · exact h

theorem Narrow.release (h : a.Narrow) (c : ContentLog) (d : Disk) : (a.release c d).1.Narrow := by
  unfold Append.release
  split
  · rename_i hs
    have hstage := h.stage
    rw [hs] at hstage
    exact ⟨h.range, hstage⟩
  · exact ⟨h.range, trivial⟩
  · refine ⟨h.range, ?_⟩
    dsimp only
    split <;> trivial
  · exact h

theorem room_cursor (a : Append) (space : Volume.Space) (c : ContentLog) (d : Disk) :
    (a.room space c d).2.1.cursor = c.cursor := by
  unfold room
  split
  · split
    · rfl
    · rename_i hens
      obtain ⟨-, -, hmade⟩ := ContentLog.ensure_grows hens
      dsimp only
      rw [hmade]
  · rfl

/-- A range goes back to where it started, if it goes back. -/
theorem release_cursor_le (a : Append) (c : ContentLog) (d : Disk) :
    (a.release c d).2.1.cursor ≤ max c.cursor a.start := by
  unfold release
  split
  · rw [ContentLog.release_cursor]
    exact Nat.le_max_left ..
  · rw [ContentLog.release_cursor]
    exact Nat.le_max_left ..
  · show (ContentLog.release _ _).cursor ≤ _
    rw [ContentLog.release_cursor]
    show (if c.cursor = a.span.finish then a.start else c.cursor) ≤ _
    split
    · exact Nat.le_max_right ..
    · exact Nat.le_max_left ..
  · exact Nat.le_max_left ..

end Append

namespace Traffic

variable {s : Traffic} {i : Nat}

/-! ## Every move -/

theorem actInWords_eq {f : Append → ContentLog → Disk → Append × ContentLog × Disk}
    {g : Append → ContentLog → Disk → Option (Append × ContentLog × Disk)}
    (h : ∀ a ∈ s.appends, g a s.log s.disk = some (f a s.log s.disk)) : s.actInWords i g = some (s.act i f) := by
  cases hi : s.appends[i]? with
  | none => simp only [actInWords, act, hi]
  | some a => simp only [actInWords, act, hi, h a (List.mem_of_getElem? hi), Option.map_some]

/-- No move meets a sum that is no word. -/
theorem Narrow.stepInWords_eq (h : s.Narrow) (m : Move) : s.stepInWords m = some (s.step m) := by
  cases m with
  | reserve size =>
    unfold stepInWords
    dsimp only
    rw [ContentLog.reserveInWords_eq, Option.map_some]
    cases hres : s.log.reserve size <;> simp only [step, hres]
  | room i space => exact actInWords_eq fun a ha => Append.roomInWords_eq (h.appends a ha) space s.log s.disk
  | feed i r => exact actInWords_eq fun a ha => Append.feedInWords_eq (h.appends a ha) r s.log s.disk
  | release i => rfl
  | commit => rfl
  | rollback => rfl

theorem Narrow.act (h : s.Narrow) {f : Append → ContentLog → Disk → Append × ContentLog × Disk}
    (hf : ∀ a ∈ s.appends, (f a s.log s.disk).1.Narrow ∧ (f a s.log s.disk).2.1.cursor ≤ maxSigned) :
    (s.act i f).Narrow := by
  unfold Traffic.act
  split
  · exact h
  · rename_i a hi
    obtain ⟨hnarrow, hcursor⟩ := hf a (List.mem_of_getElem? hi)
    refine ⟨hcursor, fun b hb => ?_⟩
    rcases List.mem_or_eq_of_mem_set hb with hb | rfl
    · exact h.appends b hb
    · exact hnarrow

theorem Narrow.head (h : s.Narrow) (store : ContentLog → Disk → Except Fault Disk) : (s.head store).Narrow := by
  unfold Traffic.head
  split
  · exact h
  · exact ⟨h.cursor, h.appends⟩

theorem Narrow.step (h : s.Narrow) (m : Move) : (s.step m).Narrow := by
  cases m with
  | reserve size =>
    cases hres : s.log.reserve size with
    | error e =>
      simp only [Traffic.step, hres]
      exact h
    | ok reserved =>
      obtain ⟨start, c⟩ := reserved
      obtain ⟨rfl, hcursor⟩ := ContentLog.reserve_cursor hres
      have hfits := (ContentLog.reserve_log hres).2
      simp only [Traffic.step, hres]
      refine ⟨hcursor ▸ hfits, fun a ha => ?_⟩
      rcases List.mem_append.mp ha with ha | ha
      · exact h.appends a ha
      · rw [List.mem_singleton.mp ha]
        exact ⟨hfits, trivial⟩
  | room i space =>
    refine h.act fun a ha => ⟨(h.appends a ha).room space s.log s.disk, ?_⟩
    rw [Append.room_cursor]
    exact h.cursor
  | feed i r =>
    refine h.act fun a ha => ⟨(h.appends a ha).feed r s.log s.disk, ?_⟩
    rw [Append.feed_log]
    exact h.cursor
  | release i =>
    show (s.act i Append.release).Narrow
    refine h.act fun a ha => ⟨(h.appends a ha).release s.log s.disk, ?_⟩
    have hrange : a.start + a.size ≤ maxSigned := (h.appends a ha).range
    have hle := a.release_cursor_le s.log s.disk
    have hcursor := h.cursor
    omega
  | commit => exact h.head _
  | rollback => exact h.head _

theorem InUse.narrow (h : s.InUse) : s.Narrow := by
  induction h with
  | opened h => exact ⟨ContentLog.cursor_of_openAt h, fun a ha => nomatch ha⟩
  | moved before m ih => exact ih.step m
  | appended before hasher space src ih =>
    exact ⟨ContentLog.cursor_of_appendBuffered hasher space _ src ih.cursor, ih.appends⟩
  | meanwhile before d ih => exact ⟨ih.cursor, ih.appends⟩

/-- What an append among others has returned ends at a signed word. -/
theorem Narrow.returned (h : s.Narrow) {l : Location} {bs : List UInt8} (hr : s.Returned i l bs) :
    l.finish ≤ maxSigned := by
  obtain ⟨a, hi, hs, -⟩ := hr
  have hstage := (h.appends a (List.mem_of_getElem? hi)).stage
  rwa [hs] at hstage

end Traffic

end TwinLog
