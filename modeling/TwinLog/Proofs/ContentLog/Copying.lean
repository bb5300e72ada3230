/-
  TwinLog.Proofs.ContentLog.Copying — two buffers and a lagging hash do what a transfer does.

  The copy is cut at its chunks, the transfer at its readings. `serve_readChunk` brings them
  together: as long as both have the same bytes in hand (`Abreast`), a transfer gets to where a
  chunk is complete just as a buffer is filled, with the same source, the same reads and the
  same disk, and goes on as `conclude` says. From
  there `conclude_copy` takes one chunk after the other: it is written before the next one is
  fetched, it enters the hash after that, and what an earlier chunk left in a buffer is never
  used. `append_buffered` is the result, for every source and every log.
-/

import TwinLog.Proofs.Content.Slicing
import TwinLog.Proofs.ContentLog.Outcome

namespace TwinLog

theorem Disk.update_write_nil (d : Disk) (f : FileId) (offset : Nat) : d.update f (·.write offset []) = d := by
  have hfiles : d.files.modify f (·.write offset []) = d.files := by
    apply Array.ext
    · exact Array.size_modify ..
    · intro i hi hi'
      rw [Array.getElem_modify]
      split
      · rfl
      · rfl
  rw [update, hfiles]

namespace Limited

variable {s : Limited} {d : Disk}

theorem read_room (h : 0 < s.limit) (d : Disk) (n : Nat) : s.read d n = ((s.source.read d (min n s.limit)).1,
    ⟨(s.source.read d (min n s.limit)).2, s.limit - count (s.source.read d (min n s.limit)).1, min n s.limit :: s.reads⟩) := by
  rw [read, if_neg (Nat.ne_of_gt h)]

theorem read_dry (h : s.limit = 0) (d : Disk) (n : Nat) : s.read d n = (.ok [], s) := by
  rw [read, if_pos h]

end Limited

theorem readChunk_dry {n : Nat} {s : Limited} (h : s.limit = 0) (d : Disk) (buffer : Buffer n) (filled : Nat) :
    readChunk d s buffer filled = (.ok filled, buffer, s) := by
  rw [readChunk]
  split
  · rw [Limited.read_dry h]
  · rfl

theorem readChunk_full {n : Nat} (d : Disk) (s : Limited) (buffer : Buffer n) {filled : Nat} (h : n ≤ filled) :
    readChunk d s buffer filled = (.ok filled, buffer, s) := by
  rw [readChunk, dif_neg (Nat.not_lt.mpr h)]

namespace Transfer

variable {t : Transfer} {log : Log} {d : Disk} {b : UInt8} {bs : List UInt8} {e : IoFault}

theorem advance_interrupted (h : e.isInterrupted = true) : t.advance (.error e) log d = (.waiting t, d) := by
  rw [advance, if_pos h]

theorem advance_failed (h : ¬ e.isInterrupted = true) : t.advance (.error e) log d = (.ended (.error (.io e)), d) := by
  rw [advance, if_neg h]

theorem advance_more (t : Transfer) (log : Log) (d : Disk) (hroom : (b :: bs).length ≤ t.wants)
    (more : t.filling.size + (b :: bs).length < t.chunk ∧
      t.written.size + (t.filling.size + (b :: bs).length) < t.size) :
    ∃ u, t.advance (.ok (b :: bs)) log d = (.waiting u, d) ∧ u.start = t.start ∧ u.size = t.size ∧ u.chunk = t.chunk ∧
      u.written = t.written ∧ u.fresh = t.fresh ∧ u.filling = t.filling ++ (b :: bs).toArray := by
  unfold advance
  simp only [List.take_of_length_le hroom, Array.size_append, List.size_toArray]
  rw [dif_pos more]
  exact ⟨_, rfl, rfl, rfl, rfl, rfl, rfl, rfl⟩

theorem advance_full (hroom : (b :: bs).length ≤ t.wants)
    (full : ¬ (t.filling.size + (b :: bs).length < t.chunk ∧
      t.written.size + (t.filling.size + (b :: bs).length) < t.size)) :
    t.advance (.ok (b :: bs)) log d = t.finishChunk (t.filling ++ (b :: bs).toArray) log d := by
  unfold advance
  simp only [List.take_of_length_le hroom, Array.size_append, List.size_toArray]
  rw [dif_neg full]

end Transfer

namespace ContentLog

variable {c : ContentLog} {d d' : Disk} {t u : Transfer} {src : Source} {reads : List Nat} {n : Nat}

/-! ## One reading of a transfer -/

theorem serve_waiting (h : t.advance (src.read d t.wants).1 c.log d = (.waiting u, d')) :
    serve t src reads c d = serve u (src.read d t.wants).2 (t.wants :: reads) c d' := by
  have hstep : c.step d t (src.read d t.wants).1 = (.waiting u, c, d') := by
    rw [step, h]
  rw [serve, hstep]

theorem serve_ended {result : Except Fault Location}
    (h : t.advance (src.read d t.wants).1 c.log d = (.ended result, d')) :
    serve t src reads c d = ⟨result, (t.wants :: reads).reverse, (src.read d t.wants).2, c.release t.span, d'⟩ := by
  have hstep : c.step d t (src.read d t.wants).1 = (.ended result, c.release t.span, d') := by
    rw [step, h]
  rw [serve]
  split
  · rename_i hended
    cases hended.symm.trans hstep
    rfl
  · rename_i hwaiting
    cases hwaiting.symm.trans hstep

def conclude (t : Transfer) (chunk : List UInt8) (s : Limited) (c : ContentLog) (d : Disk) : Appended :=
  if chunk.isEmpty && !t.fresh then
    ⟨.error (Transfer.endedEarly t.written.size t.size), s.reads.reverse, s.source, c.release t.span, d⟩
  else match t.finishChunk chunk.toArray c.log d with
    | (.waiting u, d) => serve u s.source s.reads c d
    | (.ended result, d) => ⟨result, s.reads.reverse, s.source, c.release t.span, d⟩

theorem serve_conclude {s : Limited} {filling : Array UInt8} (hsource : s.source = (src.read d t.wants).2)
    (hreads : s.reads = t.wants :: reads) (hgoes : ¬ (filling.isEmpty && !t.fresh) = true)
    (hadvance : t.advance (src.read d t.wants).1 c.log d = t.finishChunk filling c.log d) :
    serve t src reads c d = conclude t filling.toList s c d := by
  rw [conclude, Array.isEmpty_toList, if_neg hgoes, Array.toArray_toList, hsource, hreads]
  cases hfinish : t.finishChunk filling c.log d with
  | mk p d' =>
    rw [hfinish] at hadvance
    cases p with
    | waiting u => exact serve_waiting hadvance
    | ended result => exact serve_ended hadvance

theorem conclude_congr (start : u.start = t.start) (size : u.size = t.size) (chunk : u.chunk = t.chunk)
    (written : u.written = t.written) (fresh : u.fresh = t.fresh) (bs : List UInt8) (s : Limited) (c : ContentLog)
    (d : Disk) : conclude u bs s c d = conclude t bs s c d := by
  obtain ⟨⟩ := t
  obtain ⟨⟩ := u
  dsimp only at start size chunk written fresh
  subst start size chunk written fresh
  rfl

/-- A transfer and a buffer have the same bytes in hand, and as much still to come. -/
structure Abreast (t : Transfer) (buffer : Buffer n) (filled : Nat) (s : Limited) : Prop where
  chunk : t.chunk = n
  filling : t.filling.toList = buffer.chunk filled
  size : t.filling.size = filled
  limit : s.limit = t.size - (t.written.size + filled)

namespace Abreast

variable {buffer : Buffer n} {filled : Nat} {s : Limited}

theorem limit_pos (h : Abreast t buffer filled s) : 0 < s.limit := by
  have hlt := t.delivered_lt
  rw [h.size] at hlt
  rw [h.limit]
  omega

theorem read (h : Abreast t buffer filled s) {r : Reading} {s' : Limited} (hread : s.read d (n - filled) = (r, s')) :
    (s.source.read d t.wants).1 = r ∧ s'.source = (s.source.read d t.wants).2 ∧ s'.reads = t.wants :: s.reads ∧
      s'.limit = t.size - (t.written.size + (filled + Limited.count r)) := by
  have hwants : min (n - filled) s.limit = t.wants := by rw [Transfer.wants, h.chunk, h.size, h.limit]
  rw [Limited.read_room h.limit_pos, hwants] at hread
  cases hread
  refine ⟨rfl, rfl, rfl, ?_⟩
  dsimp only
  rw [h.limit]
  omega

variable {s₁ : Limited} {b : UInt8} {bs : List UInt8}

theorem room (h : Abreast t buffer filled s) (hread : s.read d (n - filled) = (.ok (b :: bs), s₁)) :
    (b :: bs).length ≤ t.wants ∧ filled + (b :: bs).length ≤ n ∧ t.written.size + (filled + (b :: bs).length) ≤ t.size := by
  obtain ⟨hanswer, -⟩ := h.read hread
  have hroom : (b :: bs).length ≤ t.wants := Source.length_read_le hanswer
  have hchunk : t.wants ≤ t.chunk - t.filling.size := Nat.min_le_left ..
  have hsize : t.wants ≤ t.size - (t.written.size + t.filling.size) := Nat.min_le_right ..
  have hfilling := t.filling_lt
  have hlt := t.delivered_lt
  rw [h.size, h.chunk] at hchunk hfilling
  rw [h.size] at hsize hlt
  exact ⟨hroom, by omega, by omega⟩

theorem put (h : Abreast t buffer filled s) (hin : filled + (b :: bs).length ≤ n) :
    (t.filling ++ (b :: bs).toArray).toList = (buffer.put filled (b :: bs)).chunk (filled + (b :: bs).length) := by
  rw [Buffer.chunk_put hin, Array.toList_append, h.filling]

theorem more (h : Abreast t buffer filled s) (c : ContentLog) (hread : s.read d (n - filled) = (.ok (b :: bs), s₁))
    (hmore : filled + (b :: bs).length < n ∧ t.written.size + (filled + (b :: bs).length) < t.size) :
    ∃ u, serve t s.source s.reads c d = serve u s₁.source s₁.reads c d ∧
      Abreast u (buffer.put filled (b :: bs)) (filled + (b :: bs).length) s₁ ∧
      u.start = t.start ∧ u.size = t.size ∧ u.chunk = t.chunk ∧ u.written = t.written ∧ u.fresh = t.fresh := by
  obtain ⟨hanswer, hsource, hreads, hlimit⟩ := h.read hread
  obtain ⟨hroom, hin, -⟩ := h.room hread
  rw [← h.size, ← h.chunk] at hmore
  obtain ⟨u, hadvance, hus, huz, huc, huw, huf, hfilling⟩ := t.advance_more c.log d hroom hmore
  refine ⟨u, ?_, ⟨huc.trans h.chunk, ?_, ?_, ?_⟩, hus, huz, huc, huw, huf⟩
  · rw [hsource, hreads]
    exact serve_waiting (by rw [hanswer]; exact hadvance)
  · rw [hfilling]
    exact h.put hin
  · simp only [hfilling, ← h.size, Array.size_append, List.size_toArray]
  · rw [huz, huw]
    exact hlimit

/-- An answer that completes the chunk: the buffer is full, or nothing is to come any more. -/
theorem full (h : Abreast t buffer filled s) (c : ContentLog) (hread : s.read d (n - filled) = (.ok (b :: bs), s₁))
    (hfull : ¬ (filled + (b :: bs).length < n ∧ t.written.size + (filled + (b :: bs).length) < t.size)) :
    serve t s.source s.reads c d =
        conclude t ((buffer.put filled (b :: bs)).chunk (filled + (b :: bs).length)) s₁ c d ∧
      readChunk d s₁ (buffer.put filled (b :: bs)) (filled + (b :: bs).length) =
        (.ok (filled + (b :: bs).length), buffer.put filled (b :: bs), s₁) := by
  obtain ⟨hanswer, hsource, hreads, hlimit⟩ := h.read hread
  have hlimit : s₁.limit = t.size - (t.written.size + (filled + (b :: bs).length)) := hlimit
  obtain ⟨hroom, hin, -⟩ := h.room hread
  have hadvance : t.advance (s.source.read d t.wants).1 c.log d =
      t.finishChunk (t.filling ++ (b :: bs).toArray) c.log d := by
    rw [hanswer]
    refine Transfer.advance_full hroom ?_
    rw [h.size, h.chunk]
    exact hfull
  refine ⟨?_, ?_⟩
  · rw [← h.put hin]
    exact serve_conclude hsource hreads (by simp) hadvance
  · by_cases hn : n ≤ filled + (b :: bs).length
    · exact readChunk_full d s₁ _ hn
    · exact readChunk_dry (by omega) d _ _

end Abreast

/-- A transfer comes to where a chunk is complete, or its source fails, just as `readChunk` does. -/
theorem serve_readChunk (c : ContentLog) {buffer : Buffer n} {filled : Nat} {s : Limited} (h : Abreast t buffer filled s) :
    (∀ e b s', readChunk d s buffer filled = (.error e, b, s') →
      serve t s.source s.reads c d = ⟨.error (.io e), s'.reads.reverse, s'.source, c.release t.span, d⟩) ∧
    ∀ m b s', readChunk d s buffer filled = (.ok m, b, s') →
      serve t s.source s.reads c d = conclude t (b.chunk m) s' c d ∧ m ≤ n ∧ t.written.size + m ≤ t.size ∧
        s'.limit = t.size - (t.written.size + m) := by
  have hlt := t.delivered_lt
  rw [h.size] at hlt
  fun_induction readChunk d s buffer filled generalizing t with
  | case1 s buffer filled more s₁ hread =>
    obtain ⟨hanswer, hsource, hreads, hlimit⟩ := h.read hread
    refine ⟨by rintro e b s' ⟨⟩, ?_⟩
    rintro m b s' ⟨⟩
    refine ⟨?_, Nat.le_of_lt more, Nat.le_of_lt hlt, hlimit⟩
    have hadvance : t.advance (s.source.read d t.wants).1 c.log d =
        if t.filling.isEmpty && !t.fresh then (.ended (.error (Transfer.endedEarly t.written.size t.size)), d)
        else t.finishChunk t.filling c.log d := by rw [hanswer, Transfer.advance]
    rw [← h.filling]
    split at hadvance
    · rename_i hnone
      rw [conclude, Array.isEmpty_toList, if_pos hnone, hsource, hreads]
      exact serve_ended hadvance
    · rename_i hsome
      exact serve_conclude hsource hreads hsome hadvance
  | case2 s buffer filled more b bs s₁ hread ih =>
    by_cases hmore : filled + (b :: bs).length < n ∧ t.written.size + (filled + (b :: bs).length) < t.size
    · obtain ⟨u, hserve, habreast, hus, huz, huc, huw, huf⟩ := h.more c hread hmore
      have hspan : u.span = t.span := by rw [Transfer.span, Transfer.span, hus, huz]
      obtain ⟨hfail, hdone⟩ := ih habreast (by rw [huw, huz]; exact hmore.2)
      rw [hserve]
      refine ⟨?_, ?_⟩
      · intro e b' s' hfetch
        rw [hfail e b' s' hfetch, hspan]
      · intro m b' s' hfetch
        obtain ⟨hconclude, hrest⟩ := hdone m b' s' hfetch
        rw [huz, huw] at hrest
        exact ⟨hconclude.trans (conclude_congr hus huz huc huw huf ..), hrest⟩
    · obtain ⟨hconclude, hstays⟩ := h.full c hread hmore
      obtain ⟨-, hin, hwithin⟩ := h.room hread
      rw [hstays]
      refine ⟨by rintro e b' s' ⟨⟩, ?_⟩
      rintro m b' s' ⟨⟩
      exact ⟨hconclude, hin, hwithin, (h.read hread).2.2.2⟩
  | case3 s buffer filled more e s₁ hread again ih =>
    obtain ⟨hanswer, hsource, hreads, hlimit⟩ := h.read hread
    have hserve : serve t s.source s.reads c d = serve t s₁.source s₁.reads c d := by
      rw [hsource, hreads]
      exact serve_waiting (by rw [hanswer, Transfer.advance_interrupted again])
    rw [hserve]
    exact ih ⟨h.chunk, h.filling, h.size, hlimit⟩ hlt
  | case4 s buffer filled more e s₁ hread again =>
    obtain ⟨hanswer, hsource, hreads, -⟩ := h.read hread
    refine ⟨?_, by rintro m b s' ⟨⟩⟩
    rintro e b s' ⟨⟩
    rw [hsource, hreads]
    exact serve_ended (by rw [hanswer, Transfer.advance_failed again])
  | case5 s buffer filled more =>
    have := t.filling_lt
    rw [h.size, h.chunk] at this
    omega

/-! ## From chunk to chunk -/

theorem writeChunk_ok {log : Log} {position : Nat} {chunk : List UInt8} (h : position + chunk.length ≤ log.capacity) :
    writeChunk log d position chunk = .ok (d.update log.file (·.write position chunk)) := by
  unfold writeChunk
  split
  · rename_i hempty
    rw [List.isEmpty_iff.mp hempty, d.update_write_nil]
  · exact Log.write_ok h

theorem finishChunk_ok (t : Transfer) (log : Log) (d : Disk) (chunk : List UInt8)
    (h : t.start + t.written.size + chunk.length ≤ log.capacity) :
    (∃ u, t.finishChunk chunk.toArray log d = (.waiting u, d.update log.file (·.write (t.start + t.written.size) chunk)) ∧
        u.start = t.start ∧ u.size = t.size ∧ u.chunk = t.chunk ∧ u.written = t.written ++ chunk.toArray ∧
        u.filling = #[] ∧ u.fresh = false) ∨
      t.size ≤ t.written.size + chunk.length ∧ t.finishChunk chunk.toArray log d =
        (.ended (.ok ⟨t.written.size + chunk.length, t.start, Checksum.of (t.written.toList ++ chunk)⟩),
          d.update log.file (·.write (t.start + t.written.size) chunk)) := by
  unfold Transfer.finishChunk
  rw [Log.write_ok h]
  dsimp only
  split
  · exact .inl ⟨_, rfl, rfl, rfl, rfl, rfl, rfl, rfl⟩
  · rename_i hdone
    have hsize : (t.written ++ chunk.toArray).size = t.written.size + chunk.length := by simp
    rw [hsize] at hdone
    refine .inr ⟨Nat.le_of_not_lt hdone, ?_⟩
    rw [Transfer.location, hsize, Array.toList_append]

/-- How far a copy has come: all before `position` is written and hashed, and a chunk of `filled` bytes is
    complete. -/
structure Reaches (hasher : Hasher) (t : Transfer) (start size position n filled : Nat) (hash : hasher.State)
    (s : Limited) : Prop where
  begins : t.start = start
  declares : t.size = size
  chunk : t.chunk = n
  position : position = start + t.written.size
  hashed : ∃ parts : List (List UInt8), parts.flatten = t.written.toList ∧ hash = parts.foldl hasher.update hasher.init
  filled_le : filled ≤ n
  within : t.written.size + filled ≤ size
  limit : s.limit = size - (t.written.size + filled)
  goes : 0 < filled ∨ t.fresh = true

section Chunks

variable {hasher : Hasher} {start size position filled : Nat} {current next : Buffer n} {hash : hasher.State} {s : Limited}

theorem Reaches.hash_chunk (h : Reaches hasher t start size position n filled hash s) (bs : List UInt8) :
    ∃ parts : List (List UInt8), parts.flatten = t.written.toList ++ bs ∧
      hasher.update hash bs = parts.foldl hasher.update hasher.init := by
  obtain ⟨parts, hflat, rfl⟩ := h.hashed
  refine ⟨parts ++ [bs], ?_, ?_⟩
  · rw [List.flatten_append, hflat, List.flatten_singleton]
  · rw [List.foldl_append]
    rfl

theorem conclude_writes (next : Buffer n) (lawful : hasher.Lawful) (c : ContentLog)
    (h : Reaches hasher t start size position n filled hash s) (hfits : start + size ≤ c.log.capacity) (hwrite : writeChunk c.log d position (current.chunk filled) = .ok d') :
    (∃ u, conclude t (current.chunk filled) s c d = serve u s.source s.reads c d' ∧ Abreast u next 0 s ∧
        u.start = start ∧ u.size = size ∧ u.written.toList = t.written.toList ++ current.chunk filled ∧
        u.written.size = t.written.size + filled ∧ u.fresh = false) ∨
      s.limit = 0 ∧ t.written.size + filled = size ∧ conclude t (current.chunk filled) s c d =
        ⟨.ok ⟨size, start, hasher.finish (hasher.update hash (current.chunk filled))⟩, s.reads.reverse, s.source,
          c.release ⟨start, start + size⟩, d'⟩ := by
  have hlen : (current.chunk filled).length = filled := Buffer.length_chunk h.filled_le
  have hin := h.within
  have hlimit := h.limit
  have hposition : position = t.start + t.written.size := h.position.trans (by rw [h.begins])
  have hgoes : ¬ ((current.chunk filled).isEmpty && !t.fresh) = true := by
    intro hnone
    rw [Bool.and_eq_true, List.isEmpty_iff_length_eq_zero, hlen, Bool.not_eq_true'] at hnone
    rcases h.goes with hpos | hfresh
    · omega
    · exact absurd (hfresh.symm.trans hnone.2) (by decide)
  rw [hposition, writeChunk_ok (by rw [hlen, h.begins]; omega)] at hwrite
  cases hwrite
  have hsize := h.declares
  have hspan : t.span = ⟨start, start + size⟩ := by rw [Transfer.span, h.begins, hsize]
  rcases finishChunk_ok t c.log d (current.chunk filled) (by rw [hlen, h.begins]; omega) with
    ⟨u, hfinish, hus, huz, huc, huw, hfilling, hfresh⟩ | ⟨hall, hfinish⟩
  · left
    have hlist : u.written.toList = t.written.toList ++ current.chunk filled := by rw [huw, Array.toList_append]
    have hcount : u.written.size = t.written.size + filled := by
      rw [← Array.length_toList, hlist, List.length_append, hlen, Array.length_toList]
    refine ⟨u, by rw [conclude, if_neg hgoes, hfinish], ⟨huc.trans h.chunk, ?_, ?_, ?_⟩, hus.trans h.begins, huz.trans hsize,
      hlist, hcount, hfresh⟩
    · rw [hfilling, Buffer.chunk_zero]
    · rw [hfilling]
      rfl
    · rw [hlimit, huz, hsize, hcount, Nat.add_zero]
  · right
    rw [hlen] at hall hfinish
    have hfull : t.written.size + filled = size := by omega
    obtain ⟨parts, hflat, hhash⟩ := h.hash_chunk (current.chunk filled)
    have hsum : hasher.finish (hasher.update hash (current.chunk filled)) =
        Checksum.of (t.written.toList ++ current.chunk filled) := by
      rw [hhash, lawful.pieces, hflat]
    refine ⟨by omega, hfull, ?_⟩
    rw [conclude, if_neg hgoes, hfinish, hsum, hfull, hspan, h.begins]

/-- From a complete chunk on, `copy` comes to the same end as the transfer. -/
theorem conclude_copy (lawful : hasher.Lawful) (c : ContentLog) (h : Reaches hasher t start size position n filled hash s)
    (hfits : start + size ≤ c.log.capacity) :
    conclude t (current.chunk filled) s c d =
      c.settle start size (copy hasher c.log start size position current next filled hash s d) := by
  generalize hlog : c.log = log at hfits
  fun_induction copy hasher log start size position current next filled hash s d generalizing t with
  | case1 position current next filled hash s d e hwrite =>
    have hlen : (current.chunk filled).length = filled := Buffer.length_chunk h.filled_le
    have hin := h.within
    rw [writeChunk_ok (by rw [hlen, h.position]; omega)] at hwrite
    cases hwrite
  | case2 position current next filled hash s d d' hwrite e b s' hfetch =>
    subst hlog
    rcases conclude_writes next lawful c h hfits hwrite with
      ⟨u, hconclude, habreast, hus, huz, -⟩ | ⟨hdry, -, -⟩
    · rw [hconclude, (serve_readChunk c habreast).1 e b s' hfetch, settle, Transfer.span, hus, huz]
      rfl
    · rw [readChunk_dry hdry] at hfetch
      cases hfetch
  | case3 position current next filled hash s d d' hwrite fetched b s' hfetch more ih =>
    subst hlog
    rcases conclude_writes next lawful c h hfits hwrite with
      ⟨u, hconclude, habreast, hus, huz, hlist, hcount, -⟩ | ⟨hdry, -, -⟩
    · obtain ⟨hserve, hle, hin, hlimit⟩ := (serve_readChunk c habreast).2 fetched b s' hfetch
      rw [hconclude, hserve]
      refine ih ⟨hus, huz, habreast.chunk, ?_, ?_, hle, ?_, ?_, .inl more⟩
      · rw [h.position, hcount, Nat.add_assoc]
      · rw [hlist]
        exact h.hash_chunk (current.chunk filled)
      · rw [← huz]
        exact hin
      · rw [← huz]
        exact hlimit
    · rw [readChunk_dry hdry] at hfetch
      cases hfetch
      omega
  | case4 position current next filled hash s d d' hwrite fetched b s' hfetch more hall =>
    subst hlog
    rcases conclude_writes next lawful c h hfits hwrite with
      ⟨u, -, -, -, huz, -, hcount, -⟩ | ⟨hdry, -, hconclude⟩
    · have hlt := u.delivered_lt
      have hposition := h.position
      omega
    · rw [readChunk_dry hdry] at hfetch
      cases hfetch
      exact hconclude
  | case5 position current next filled hash s d d' hwrite fetched b s' hfetch more hshort =>
    subst hlog
    have hposition := h.position
    rcases conclude_writes next lawful c h hfits hwrite with
      ⟨u, hconclude, habreast, hus, huz, -, hcount, hfresh⟩ | ⟨-, hfull, -⟩
    · obtain ⟨hserve, -, -, -⟩ := (serve_readChunk c habreast).2 fetched b s' hfetch
      have hnone : fetched = 0 := by omega
      have hwritten : u.written.size = position + filled - start := by omega
      rw [hconclude, hserve, hnone, Buffer.chunk_zero, conclude, hfresh, if_pos (by decide), hwritten, Transfer.span, hus, huz]
      rfl
    · omega

end Chunks

/-! ## Whole appends -/

variable {space : Volume.Space} {hasher : Hasher}

/-- A range of no bytes is copied without a read. -/
theorem stream_nothing (lawful : hasher.Lawful) (log : Log) (bufferSize start : Nat) (src : Source) (d : Disk) :
    stream hasher log bufferSize start 0 src d = (.ok (Checksum.of []), ⟨src, 0, []⟩, d) := by
  have hsum : hasher.finish (hasher.update hasher.init []) = Checksum.of [] := lawful.pieces [[]]
  unfold stream
  dsimp only
  rw [readChunk_dry rfl]
  dsimp only
  have hwrite : writeChunk log d start [] = .ok d := rfl
  rw [copy, Buffer.chunk_zero, hwrite]
  dsimp only
  rw [readChunk_dry rfl]
  simp [hsum]

/-- A range of some bytes is copied as a transfer that starts with nothing in hand serves it. -/
theorem stream_serve (lawful : hasher.Lawful) (c : ContentLog) (src : Source) {start size : Nat} (ht : t.start = start)
    (hz : t.size = size) (hchunk : t.chunk = min c.bufferSize size) (hw : t.written = #[]) (hf : t.filling = #[])
    (hfresh : t.fresh = true) (hpos : 0 < size) (hfits : start + size ≤ c.log.capacity) :
    serve t src [] c d = c.settle start size (stream hasher c.log c.bufferSize start size src d) := by
  have hmax : max size 1 = size := Nat.max_eq_left hpos
  unfold stream
  rw [hmax]
  dsimp only
  have habreast : Abreast t (Buffer.zeros (min c.bufferSize size)) 0 ⟨src, size, []⟩ := by
    refine ⟨hchunk, by rw [hf, Buffer.chunk_zero], by rw [hf]; rfl, ?_⟩
    rw [hz, hw]
    rfl
  obtain ⟨hfail, hdone⟩ := serve_readChunk (d := d) c habreast
  split
  · rename_i e b s' hfetch
    rw [hfail e b s' hfetch, settle, Transfer.span, ht, hz]
    rfl
  · rename_i filled current s' hfetch
    obtain ⟨hserve, hle, hin, hlimit⟩ := hdone filled current s' hfetch
    rw [hserve]
    refine conclude_copy lawful c ⟨ht, hz, hchunk, ?_, ⟨[], ?_, rfl⟩, hle, ?_, ?_, .inr hfresh⟩ hfits
    · rw [hw]
      rfl
    · rw [hw]
      rfl
    · rw [← hz]
      exact hin
    · rw [← hz]
      exact hlimit

/-- An append that copies through two buffers is the append: same answer, same reads, same log, same disk. -/
theorem append_buffered (lawful : hasher.Lawful) (c : ContentLog) (space : Volume.Space) (d : Disk) (src : Source) :
    c.appendBuffered hasher space d src = c.append space d src := by
  unfold appendBuffered append
  cases src.declared d with
  | error e => rfl
  | ok size =>
    dsimp only
    cases hres : c.reserve size with
    | error e => rw [start_refused hres]
    | ok reserved =>
      obtain ⟨start, cr⟩ := reserved
      dsimp only
      cases hens : cr.ensure space d (start + size) with
      | error e => rw [start_short hres hens]
      | ok made =>
        obtain ⟨ce, de⟩ := made
        dsimp only
        obtain ⟨grew, hgrow, -⟩ := ensure_grows hens
        rcases Nat.eq_zero_or_pos size with rfl | hpos
        · rw [stream_nothing lawful]
          simp only [ContentLog.start, hres, hens, Nat.lt_irrefl, dite_false]
          rfl
        · simp only [ContentLog.start, hres, hens, hpos, dite_true]
          refine (stream_serve lawful ce src ?_ ?_ ?_ ?_ ?_ ?_ hpos (Log.grow_fits hgrow)).symm
          all_goals rfl

end ContentLog

end TwinLog
