/-
  TwinLog.Proofs.ContentLog.Requests — what an append asks its source for.

  Every read is asked for with the room that is left in the chunk in hand, and never past the
  declared size. What is in hand is decided by the answers alone (`Transfer.inHand`): bytes
  fill the chunk; a chunk that is full, or at which the source answers empty, leaves the hand.

  `Gets` is how a transfer comes from one state to another by hearing answers, and
  `Transfer.Onward` says how it stands then. Whatever is said of one read of an append is
  said of the state in which it is made (`heard_split`, `readings_split`).

  - `asks_in_bounds`: each read of an append is the room of its chunk cut at the declared
    size, at least one byte; there is none once the declared size is delivered, at most two
    for each byte and two more besides the interrupted ones, and nothing past
    the declared size is taken from the source.
-/

import TwinLog.Proofs.ContentLog.Exact

namespace TwinLog

def Source.interrupted : Reading → Bool
  | .ok _ => false
  | .error e => e.isInterrupted

@[simp] theorem delivered_nil : delivered [] = [] := rfl

theorem delivered_cons (r : Reading) (rs : List Reading) : delivered (r :: rs) = Source.answered r ++ delivered rs :=
  List.flatMap_cons

theorem delivered_append (rs more : List Reading) : delivered (rs ++ more) = delivered rs ++ delivered more :=
  List.flatMap_append

theorem Log.grow_stays {l l' : Log} {d d' : Disk} {space : Volume.Space} {required : Nat} {grew : Bool}
    (h : l.grow space d required = .ok (grew, l', d')) : l'.file = l.file ∧ d.OnlyAt l.file d' := by
  rcases Log.grow_iff.mp h with ⟨-, heq⟩ | ⟨-, -, heq⟩
  · cases heq
    exact ⟨rfl, .refl⟩
  · cases heq
    exact ⟨rfl, .update _⟩

namespace Transfer

def heldAfter (chunk held : Nat) : Reading → Nat
  | .ok [] => 0
  | .ok bs => if held + bs.length < chunk then held + bs.length else 0
  | .error _ => held

def inHand (chunk : Nat) (rs : List Reading) : Nat := rs.foldl (heldAfter chunk) 0

/-- How a transfer stands as `u` that stood as `t` before these answers. -/
structure Onward (t : Transfer) (rs : List Reading) (u : Transfer) : Prop where
  start : u.start = t.start
  size : u.size = t.size
  chunk : u.chunk = t.chunk
  soFar : u.soFar = t.soFar ++ delivered rs
  held : u.filling.size = rs.foldl (heldAfter t.chunk) t.filling.size
  /-- Where anything was answered, an empty hand has finished a chunk. -/
  begun : ∀ bs, .ok bs ∈ rs → u.filling.size = 0 → u.fresh = false
  idle : (∀ bs, .ok bs ∉ rs) → u = t

namespace Onward

variable {t u v : Transfer} {rs more : List Reading}

theorem refl (t : Transfer) : t.Onward [] t :=
  ⟨rfl, rfl, rfl, (List.append_nil _).symm, rfl, fun _ h => absurd h List.not_mem_nil, fun _ => rfl⟩

theorem trans (h : t.Onward rs u) (h' : u.Onward more v) : t.Onward (rs ++ more) v where
  start := h'.start.trans h.start
  size := h'.size.trans h.size
  chunk := h'.chunk.trans h.chunk
  soFar := by rw [h'.soFar, h.soFar, delivered_append, List.append_assoc]
  held := by rw [h'.held, h.held, h.chunk, List.foldl_append]
  begun := by
    intro bs hbs hnone
    by_cases hmore : ∃ bs, .ok bs ∈ more
    · obtain ⟨bs, hbs⟩ := hmore
      exact h'.begun bs hbs hnone
    · have hidle := h'.idle fun bs hbs => hmore ⟨bs, hbs⟩
      subst hidle
      rcases List.mem_append.mp hbs with hbs | hbs
      · exact h.begun bs hbs hnone
      · exact absurd ⟨bs, hbs⟩ hmore
  idle := by
    intro hnone
    rw [h'.idle fun bs hbs => hnone bs (List.mem_append_right _ hbs),
      h.idle fun bs hbs => hnone bs (List.mem_append_left _ hbs)]

end Onward

variable {t u : Transfer} {log : Log} {d : Disk} {r : Reading}

theorem finishChunk_onward {filling : Array UInt8} {bs : List UInt8} (hfilling : filling.toList = t.filling.toList ++ bs)
    (hheld : heldAfter t.chunk t.filling.size (.ok bs) = 0)
    (h : (t.finishChunk filling log d).1 = .waiting u) : t.Onward [.ok bs] u := by
  have hspan := span_finishChunk h
  obtain ⟨hsize, hwritten, hnone, hfresh⟩ := finishChunk_waiting h
  have hstart : u.start = t.start := congrArg Span.start hspan
  have hchunk : u.chunk = t.chunk := by
    unfold finishChunk at h
    split at h
    · cases h
    · dsimp only at h
      split at h
      · cases h
        rfl
      · cases h
  refine ⟨hstart, hsize, hchunk, ?_, ?_, fun _ _ _ => hfresh, fun hidle => absurd List.mem_cons_self (hidle bs)⟩
  · simp [soFar, hwritten, hnone, hfilling, delivered_cons, Source.answered]
  · simp [hnone, hheld]

/-- What one answer does to a transfer that goes on. -/
theorem advance_onward (hroom : (Source.answered r).length ≤ t.wants) (h : (t.advance r log d).1 = .waiting u) :
    t.Onward [r] u := by
  cases r with
  | error e =>
    by_cases he : e.isInterrupted = true
    · rw [advance_interrupted he] at h
      cases h
      refine ⟨rfl, rfl, rfl, by simp [delivered_cons, Source.answered], rfl, ?_, fun _ => rfl⟩
      intro bs hbs
      cases List.mem_singleton.mp hbs
    · rw [advance_failed he] at h
      cases h
  | ok bs =>
    cases bs with
    | nil =>
      unfold advance at h
      dsimp only at h
      split at h
      · cases h
      · exact finishChunk_onward (List.append_nil _).symm rfl h
    | cons b bs =>
      by_cases more : t.filling.size + (b :: bs).length < t.chunk ∧
          t.written.size + (t.filling.size + (b :: bs).length) < t.size
      · obtain ⟨u', hadvance, hstart, hsize, hchunk, hwritten, hfresh, hfilling⟩ := t.advance_more log d hroom more
        rw [hadvance] at h
        cases h
        refine ⟨hstart, hsize, hchunk, ?_, ?_, ?_, fun hidle => absurd List.mem_cons_self (hidle (b :: bs))⟩
        · simp [soFar, hwritten, hfilling, delivered_cons, Source.answered]
        · have hlt := more.1
          simp only [List.length_cons] at hlt
          simp [hfilling, heldAfter, hlt]
        · intro _ _ hnone
          simp [hfilling] at hnone
      · rw [advance_full hroom more] at h
        obtain ⟨-, hwritten, hnone, -⟩ := finishChunk_waiting h
        -- the declared size is not reached, so it is the chunk that is full
        have hlt := u.delivered_lt
        have hsize : u.size = t.size := (finishChunk_waiting h).1
        have hfull : ¬ t.filling.size + (bs.length + 1) < t.chunk := by
          simp only [hwritten, hnone, hsize, Array.size_append, List.size_toArray, List.length_cons] at hlt more
          omega
        apply finishChunk_onward _ _ h
        · simp
        · simp [heldAfter, hfull]

end Transfer

namespace ContentLog

variable {c : ContentLog} {d d' d'' : Disk} {t u v : Transfer} {src src' src'' : Source} {r : Reading}
  {rs before after : List Reading} {reads : List Nat} {space : Volume.Space} {size : Nat}

/-! ## From one state to another -/

inductive Gets (c : ContentLog) : Transfer → Source → Disk → List Reading → Transfer → Source → Disk → Prop
  | stays {t : Transfer} {src : Source} {d : Disk} : Gets c t src d [] t src d
  | hears {t u v : Transfer} {src src' : Source} {d d' d'' : Disk} {rs : List Reading}
      (step : c.step d t (src.read d t.wants).1 = (.waiting u, c, d'))
      (rest : Gets c u (src.read d t.wants).2 d' rs v src' d'') :
      Gets c t src d ((src.read d t.wants).1 :: rs) v src' d''

theorem step_onward {c' : ContentLog} (h : c.step d t (src.read d t.wants).1 = (.waiting u, c', d')) :
    t.Onward [(src.read d t.wants).1] u := by
  apply Transfer.advance_onward (src.length_answered_le d t.wants)
  unfold step at h
  split at h
  · rename_i hadv
    cases h
    rw [hadv]
  · cases h

namespace Gets

theorem onward (h : Gets c t src d rs u src' d') : t.Onward rs u := by
  induction h with
  | stays => exact .refl _
  | hears step rest ih => exact (step_onward step).trans ih

theorem serve (h : Gets c t src d rs u src' d') (reads : List Nat) : ∃ reads', reads'.length = reads.length + rs.length ∧
    ContentLog.serve t src reads c d = ContentLog.serve u src' reads' c d' := by
  induction h generalizing reads with
  | stays => exact ⟨reads, rfl, rfl⟩
  | @hears t u v src src' d d' d'' rs step rest ih =>
    obtain ⟨reads', hlen, hserve⟩ := ih (t.wants :: reads)
    refine ⟨reads', ?_, ?_⟩
    · simp only [List.length_cons] at hlen ⊢
      omega
    · rw [← hserve, ContentLog.serve, step]

end Gets

/-- Whatever a transfer hears, it hears in a state that it gets to. -/
theorem heard_split (h : heard t src c d = before ++ r :: after) :
    ∃ u src' d', Gets c t src d before u src' d' ∧ heard u src' c d' = r :: after := by
  induction before generalizing t src d with
  | nil => exact ⟨t, src, d, .stays, h⟩
  | cons first before ih =>
    rw [heard] at h
    split at h
    · simp at h
    · rename_i u c' d' hstep
      have hlog := step_log hstep
      subst hlog
      obtain ⟨rfl, hrest⟩ := List.cons.inj h
      obtain ⟨v, src', d'', hgets, hheard⟩ := ih hrest
      exact ⟨v, src', d'', .hears hstep hgets, hheard⟩

/-- The first thing a transfer hears is the answer to what it wants. -/
theorem heard_cons (h : heard t src c d = r :: after) : r = (src.read d t.wants).1 := by
  rw [heard] at h
  split at h
  · exact (List.cons.inj h).1.symm
  · exact (List.cons.inj h).1.symm

/-- The reads of a transfer: it asks for what it wants, and as often as it hears an answer. -/
theorem reads_serve (t : Transfer) (src : Source) (reads : List Nat) (c : ContentLog) (d : Disk) :
    ∃ more, (serve t src reads c d).reads = reads.reverse ++ t.wants :: more ∧
      more.length + 1 = (heard t src c d).length := by
  fun_induction serve t src reads c d with
  | case1 t src reads c d result c' d' hstep =>
    rw [heard, hstep]
    exact ⟨[], by simp, rfl⟩
  | case2 t src reads c d t' c' d' hstep ih =>
    obtain ⟨more, hreads, hlen⟩ := ih
    rw [heard, hstep]
    refine ⟨t'.wants :: more, ?_, ?_⟩
    · rw [hreads]
      simp
    · simp only [List.length_cons, ← hlen]

/-- An interrupted read uses up one of the interruptions that are still to come. -/
theorem interrupts_answer (src : Source) (d : Disk) (n : Nat) :
    (src.read d n).2.interrupts + [(src.read d n).1].countP Source.interrupted ≤ src.interrupts := by
  obtain ⟨hle, hlt⟩ := Source.interrupts_read d n src
  cases hanswer : (src.read d n).1 with
  | ok bs => simpa [Source.interrupted] using hle
  | error e =>
    by_cases he : e.isInterrupted = true
    · have := hlt e hanswer he
      simp [Source.interrupted, he]
      omega
    · simpa [Source.interrupted, he] using hle

/-- Interrupted reads are as many as the source has, and all others use up the budget of the transfer. -/
theorem heard_bounds (t : Transfer) (src : Source) (c : ContentLog) (d : Disk) :
    (heard t src c d).countP Source.interrupted ≤ src.interrupts ∧
      (heard t src c d).countP (!Source.interrupted ·) ≤ t.budget + 1 := by
  fun_induction heard t src c d with
  | case1 t src c d result c' d' hstep =>
    have hanswer := interrupts_answer src d t.wants
    have hone := List.countP_le_length (p := (!Source.interrupted ·)) (l := [(src.read d t.wants).1])
    rw [List.length_singleton] at hone
    exact ⟨by omega, by omega⟩
  | case2 t src c d t' c' d' hstep ih =>
    have hanswer := interrupts_answer src d t.wants
    have hbudget : t'.budget + [(src.read d t.wants).1].countP (!Source.interrupted ·) ≤ t.budget := by
      rcases budget_step (by rw [hstep] : (c.step d t (src.read d t.wants).1).1 = .waiting t') with ⟨rfl, e, he, hint⟩ | hlt
      · simp [he, Source.interrupted, hint]
      · have hone := List.countP_le_length (p := (!Source.interrupted ·)) (l := [(src.read d t.wants).1])
        rw [List.length_singleton] at hone
        omega
    rw [← List.singleton_append, List.countP_append, List.countP_append]
    omega

/-! ## A whole append -/

structure Begins (c : ContentLog) (size : Nat) (ce : ContentLog) (t : Transfer) : Prop where
  start : t.start = c.cursor
  declares : t.size = size
  chunk : t.chunk = min c.bufferSize size
  soFar : t.soFar = []
  fresh : t.fresh = true
  fits : t.start + t.size ≤ ce.capacity
  file : ce.log.file = c.log.file

theorem Begins.holds_nothing {ce : ContentLog} (h : c.Begins size ce t) : t.filling.size = 0 := by
  have hsofar := t.length_soFar
  rw [h.soFar, List.length_nil] at hsofar
  omega

theorem start_begins {ce : ContentLog} {de : Disk} (h : c.start space d size = (.waiting t, ce, de)) :
    c.Begins size ce t ∧ d.OnlyAt c.log.file de := by
  unfold start at h
  cases hres : c.reserve size with
  | error e =>
    rw [hres] at h
    cases h
  | ok reserved =>
    obtain ⟨start, cr⟩ := reserved
    obtain ⟨rfl, -⟩ := reserve_cursor hres
    obtain ⟨hlog, -⟩ := reserve_log hres
    have hbuffer : cr.bufferSize = c.bufferSize := by
      unfold reserve at hres
      split at hres
      · cases hres
        rfl
      · cases hres
    rw [hres] at h
    dsimp only at h
    cases hens : cr.ensure space d (c.cursor + size) with
    | error e =>
      rw [hens] at h
      cases h
    | ok made =>
      obtain ⟨c', d'⟩ := made
      rw [hens] at h
      dsimp only at h
      obtain ⟨grew, hgrow, hmade⟩ := ensure_grows hens
      split at h
      · cases h
        obtain ⟨hfile, honly⟩ := Log.grow_stays hgrow
        rw [hlog] at hfile honly
        exact ⟨⟨rfl, rfl, by rw [hmade, ← hbuffer], rfl, rfl, Log.grow_fits hgrow, hfile⟩, honly⟩
      · cases h

/-- Where an append stands that has heard certain answers and asks for more. -/
structure Asks (c : ContentLog) (space : Volume.Space) (d : Disk) (src : Source) (size : Nat) (before : List Reading)
    (u : Transfer) (src' : Source) (ce : ContentLog) (d' : Disk) : Prop where
  start : u.start = c.cursor
  declares : u.size = size
  chunk : u.chunk = min c.bufferSize size
  soFar : u.soFar = delivered before
  held : u.filling.size = Transfer.inHand (min c.bufferSize size) before
  fresh : u.filling.size = 0 → (u.fresh = false ↔ ∃ bs, .ok bs ∈ before)
  fits : u.start + u.size ≤ ce.capacity
  file : ce.log.file = c.log.file
  gets : ∃ t de, d.OnlyAt c.log.file de ∧ Gets ce t src de before u src' d'
  append : ∃ reads, reads.length = before.length ∧ c.append space d src = serve u src' reads ce d'

/-- Whatever an append hears, it has asked for in a state that follows from the answers before. -/
theorem readings_split (hdecl : src.declared d = .ok size) (h : c.readings space d src = before ++ r :: after) :
    ∃ u src' ce d', c.Asks space d src size before u src' ce d' ∧ heard u src' ce d' = r :: after := by
  cases hstart : c.start space d size with
  | mk p rest =>
    obtain ⟨ce, de⟩ := rest
    cases p with
    | ended result =>
      simp only [readings, hdecl, hstart] at h
      simp at h
    | waiting t =>
      simp only [readings, hdecl, hstart] at h
      obtain ⟨hbegins, honly⟩ := start_begins hstart
      obtain ⟨u, src', d', hgets, hheard⟩ := heard_split h
      have honward := hgets.onward
      obtain ⟨reads, hlen, hserve⟩ := hgets.serve []
      refine ⟨u, src', ce, d', ⟨honward.start.trans hbegins.start, honward.size.trans hbegins.declares,
        honward.chunk.trans hbegins.chunk, ?_, ?_, ?_, ?_, hbegins.file, ⟨t, de, honly, hgets⟩, reads, ?_, ?_⟩, hheard⟩
      · rw [honward.soFar, hbegins.soFar, List.nil_append]
      · rw [honward.held, hbegins.holds_nothing, hbegins.chunk]
        rfl
      · intro hempty
        constructor
        · intro hfresh
          -- without an answer nothing has changed, and a transfer begins fresh
          by_cases hany : ∃ bs, .ok bs ∈ before
          · exact hany
          · have hidle := honward.idle fun bs hbs => hany ⟨bs, hbs⟩
            rw [hidle, hbegins.fresh] at hfresh
            cases hfresh
        · intro hany
          obtain ⟨bs, hbs⟩ := hany
          exact honward.begun bs hbs hempty
      · rw [honward.start, honward.size]
        exact hbegins.fits
      · simpa using hlen
      · simp only [append, hdecl, hstart]
        exact hserve

theorem reads_length (c : ContentLog) (space : Volume.Space) (d : Disk) (src : Source) :
    (c.append space d src).reads.length = (c.readings space d src).length := by
  have hcourse := c.append_course space d src
  revert hcourse
  generalize c.taken space d src = bs, c.readings space d src = rs, c.append space d src = r
  intro hcourse
  cases hcourse with
  | length | tooLong | noRoom | nothing => rfl
  | @served size cr ce de t =>
    obtain ⟨more, hreads, hlen⟩ := reads_serve t src [] ce de
    rw [hreads, ← hlen]
    simp

/-- Interrupted reads are as many as the source has, and the others are bounded by the declared size. -/
theorem readings_bounds (hdecl : src.declared d = .ok size) (space : Volume.Space) :
    (c.readings space d src).countP Source.interrupted ≤ src.interrupts ∧
      (c.readings space d src).countP (!Source.interrupted ·) ≤ 2 * size + 2 := by
  cases hstart : c.start space d size with
  | mk p rest =>
    obtain ⟨ce, de⟩ := rest
    cases p with
    | ended result => simp [readings, hdecl, hstart]
    | waiting t =>
      simp only [readings, hdecl, hstart]
      obtain ⟨hbegins, -⟩ := start_begins hstart
      obtain ⟨hint, hbudget⟩ := heard_bounds t src ce de
      have hsize := hbegins.declares
      have hfresh : t.fresh.toNat ≤ 1 := Bool.toNat_le _
      refine ⟨hint, ?_⟩
      simp only [Transfer.budget, hbegins.holds_nothing, if_true] at hbudget
      omega

/-- A read has the room that is left in the chunk in hand, cut at the declared size. -/
theorem read_in_bounds (hdecl : src.declared d = .ok size) (hrs : c.readings space d src = before ++ r :: after) :
    (delivered before).length < size ∧ ∃ room, (c.append space d src).reads[before.length]? = some room ∧
      room = min (min c.bufferSize size - Transfer.inHand (min c.bufferSize size) before) (size - (delivered before).length) ∧
      0 < room ∧ (Source.answered r).length ≤ room := by
  obtain ⟨u, src', ce, d', hasks, hheard⟩ := readings_split hdecl hrs
  have hlt := u.soFar_lt
  rw [hasks.soFar, hasks.declares] at hlt
  obtain ⟨reads, hlen, happend⟩ := hasks.append
  obtain ⟨more, hmore, -⟩ := reads_serve u src' reads ce d'
  refine ⟨hlt, u.wants, ?_, ?_, u.wants_pos, ?_⟩
  · rw [happend, hmore, ← hlen]
    simp
  · have hsofar := u.length_soFar
    rw [hasks.soFar, hasks.held] at hsofar
    rw [Transfer.wants, hasks.chunk, hasks.held, hasks.declares, hsofar]
  · rw [heard_cons hheard]
    exact src'.length_answered_le d' u.wants

/-- So no more is delivered than was declared. -/
theorem delivered_readings_le (hdecl : src.declared d = .ok size) : (delivered (c.readings space d src)).length ≤ size := by
  rcases List.eq_nil_or_concat (c.readings space d src) with hnone | ⟨before, answer, hlast⟩
  · rw [hnone]
    exact Nat.zero_le _
  · rw [List.concat_eq_append] at hlast
    obtain ⟨hlt, room, -, hroom, -, hanswer⟩ := read_in_bounds hdecl hlast
    rw [hlast, delivered_append, List.length_append, delivered_cons, delivered_nil, List.append_nil]
    have hleft : room ≤ size - (delivered before).length := by
      rw [hroom]
      exact Nat.min_le_right ..
    omega

theorem readings_of_zero (hdecl : src.declared d = .ok 0) : c.readings space d src = [] := by
  cases hrs : c.readings space d src with
  | nil => rfl
  | cons answer after =>
    have hfirst : c.readings space d src = [] ++ answer :: after := hrs
    obtain ⟨hlt, -⟩ := read_in_bounds hdecl hfirst
    cases hlt

/-- An append, in the form that copies through two buffers, asks for `chunk` bytes at a time or less. Each of its reads
    has the room that is left in the chunk, cut at the declared size, and that is at least one byte; when the
    declared size has been delivered, or is zero, it does not read. Besides those that are interrupted it
    makes at most two reads for each byte and two more, so it ends; and it takes no more than the declared size
    from its source: the rest is still there. -/
theorem asks_in_bounds {hasher : Hasher} (lawful : hasher.Lawful) (c : ContentLog) (space : Volume.Space) (d : Disk)
    (src : Source) (hdecl : src.declared d = .ok size) {chunk : Nat} (hchunk : chunk = min c.bufferSize (max size 1))
    (hrs : c.readings space d src = rs) {r : Appended} (hr : c.appendBuffered hasher space d src = r) :
    r.reads.length = rs.length ∧
    (∀ before answer after, rs = before ++ answer :: after → (delivered before).length < size ∧
      ∃ room, r.reads[before.length]? = some room ∧
        room = min (chunk - Transfer.inHand chunk before) (size - (delivered before).length) ∧
        0 < room ∧ (Source.answered answer).length ≤ room) ∧
    (size = 0 → r.reads = []) ∧
    rs.countP (!Source.interrupted ·) ≤ 2 * size + 2 ∧
    r.reads.length ≤ 2 * size + 2 + src.interrupts ∧
    (delivered rs).length ≤ size ∧
    (c.log.Mounted d → (∀ p, src ≠ .file c.log.file p) → src.stock d = delivered rs ++ r.source.stock r.disk) := by
  rw [append_buffered lawful] at hr
  subst hr
  subst hrs
  have hlength := c.reads_length space d src
  obtain ⟨hint, hbudget⟩ := c.readings_bounds hdecl space
  refine ⟨hlength, ?_, ?_, hbudget, ?_, delivered_readings_le hdecl, ?_⟩
  · intro before answer after hsplit
    have hread := read_in_bounds hdecl hsplit
    have hmax : max size 1 = size := by
      have hlt := hread.1
      omega
    rw [hchunk, hmax]
    exact hread
  · intro hzero
    subst hzero
    rw [← List.length_eq_zero_iff, hlength, readings_of_zero hdecl, List.length_nil]
  · have hsum := List.length_eq_countP_add_countP (l := c.readings space d src) Source.interrupted
    simp only [Bool.not_eq_true, Bool.decide_eq_false] at hsum
    omega
  · intro hm other
    rw [← taken_eq]
    exact append_stock hm space other

/-- Five bytes of six, two at a time, from a source that pauses and is interrupted once. -/
theorem sliced_append_asks : gathering.Lawful ∧ slicedSource.declared Traffic.twoAppends.disk = .ok 5 ∧
    Traffic.twoAppends.log.log.Mounted Traffic.twoAppends.disk ∧
    ∃ r, Traffic.twoAppends.log.appendBuffered gathering (fun _ => .ok 40) Traffic.twoAppends.disk slicedSource = r ∧
      r.reads = [2, 2, 1, 1, 2, 1, 2] ∧ r.reads.length ≤ 2 * 5 + 2 + 1 ∧
      [1, 2, 3, 4, 5, 6] = [1, 2, 3, 4, 5] ++ r.source.stock r.disk := by
  obtain ⟨base, first, ht⟩ := Traffic.twoAppends_reached.tiled
  have hdelivered : delivered (Traffic.twoAppends.log.readings (fun _ => .ok 40) Traffic.twoAppends.disk slicedSource) =
      [1, 2, 3, 4, 5] := by decide +kernel
  have hreads : (Traffic.twoAppends.log.append (fun _ => .ok 40) Traffic.twoAppends.disk slicedSource).reads =
      [2, 2, 1, 1, 2, 1, 2] := by decide +kernel
  have hdecl : slicedSource.declared Traffic.twoAppends.disk = .ok 5 := rfl
  obtain ⟨-, -, -, -, hbound, -, hstock⟩ := asks_in_bounds gathering_lawful Traffic.twoAppends.log (fun _ => .ok 40)
    Traffic.twoAppends.disk slicedSource hdecl rfl rfl rfl
  have hrest := hstock ht.mounted (by rintro p ⟨⟩)
  rw [hdelivered] at hrest
  exact ⟨gathering_lawful, hdecl, ht.mounted, _, rfl, by rw [append_buffered gathering_lawful, hreads], hbound, hrest⟩

end ContentLog

end TwinLog
