/-
  TwinLog.Proofs.ContentLog.Whole — an append from its first move to its last.

  `append` makes its moves one after the other (`append_run`), so what holds of every run
  of moves holds of it. When nothing else is under way (`Resting`), an append that succeeds
  leaves the bytes it has taken from its source (`taken`) right behind the old cursor, and
  one that fails leaves at most a gap (`append_left`).
-/

import TwinLog.Proofs.ContentLog.Returns

namespace TwinLog

theorem Transfer.span_finishChunk {t u : Transfer} {filling : Array UInt8} {log : Log} {d : Disk}
    (h : (t.finishChunk filling log d).1 = .waiting u) : u.span = t.span := by
  unfold finishChunk at h
  split at h
  · cases h
  · dsimp only at h
    split at h
    · cases h; rfl
    · cases h

theorem Transfer.span_advance {t u : Transfer} {r : Reading} {log : Log} {d : Disk}
    (h : (t.advance r log d).1 = .waiting u) : u.span = t.span := by
  unfold advance at h
  split at h
  · split at h
    · cases h; rfl
    · cases h
  · split at h
    · cases h
    · exact span_finishChunk h
  · dsimp only at h
    split at h
    · cases h; rfl
    · exact span_finishChunk h

namespace ContentLog

theorem serve_decreases {c c' : ContentLog} {d d' : Disk} {t t' : Transfer} {src : Source}
    (h : c.step d t (src.read d t.wants).1 = (.waiting t', c', d')) :
    (src.read d t.wants).2.interrupts + t'.budget < src.interrupts + t.budget := by
  have hs := Source.interrupts_read d t.wants src
  rcases budget_step (c := c) (d := d) (r := (src.read d t.wants).1) (by rw [h]) with ⟨rfl, e, he, hi⟩ | hb
  · have := hs.2 e he hi
    omega
  · have := hs.1
    omega

def received (t : Transfer) (src : Source) (c : ContentLog) (d : Disk) : List UInt8 :=
  match _step : c.step d t (src.read d t.wants).1 with
  | (.ended _, _, _) => t.takes (src.read d t.wants).1
  | (.waiting t', c', d') => t.takes (src.read d t.wants).1 ++ received t' (src.read d t.wants).2 c' d'
termination_by src.interrupts + t.budget
decreasing_by exact serve_decreases _step

def taken (c : ContentLog) (space : Volume.Space) (d : Disk) (src : Source) : List UInt8 :=
  match src.declared d with
  | .error _ => []
  | .ok size => match c.start space d size with
    | (.ended _, _, _) => []
    | (.waiting t, c, d) => received t src c d

/-! ## The moves of an append -/

variable {c : ContentLog} {d : Disk} {space : Volume.Space} {src : Source}

theorem act_single (c : ContentLog) (d : Disk) (a : Append)
    (f : Append → ContentLog → Disk → Append × ContentLog × Disk) :
    (Traffic.mk c d [a]).act 0 f = ⟨(f a c d).2.1, (f a c d).2.2, [(f a c d).1]⟩ := rfl

/-- Serving a transfer is feeding it readings, and then releasing its range. -/
theorem serve_run (t : Transfer) (src : Source) (reads : List Nat) (c : ContentLog) (d : Disk) {a : Append}
    (hspan : t.span = a.span) (hs : a.stage = .streaming t) :
    ∃ rs : List Reading, (Traffic.mk c d [a]).run (rs.map (.feed 0)) =
        ⟨c, (serve t src reads c d).disk,
          [{ a with
            stage := .ended (serve t src reads c d).result
            received := a.received ++ received t src c d }]⟩ ∧
      (serve t src reads c d).log = c.release a.span := by
  fun_induction serve t src reads c d generalizing a with
  | case1 t src reads c d result c' d' hstep =>
    have hadv := hstep
    unfold step at hadv
    split at hadv
    · cases hadv
    rename_i result' d'' hadvance
    cases hadv
    refine ⟨[(src.read d t.wants).1], ?_, by rw [← hspan]⟩
    rw [received, hstep]
    show (Traffic.mk c d [a]).act 0 (Append.feed (src.read d t.wants).1) = _
    rw [act_single, Append.feed]
    simp only [hs, hadvance]
  | case2 t src reads c d t' c' d' hstep ih =>
    have hadv := hstep
    unfold step at hadv
    split at hadv
    · rename_i u d'' hadvance
      cases hadv
      have hspan' : t'.span = a.span := (Transfer.span_advance (by rw [hadvance])).trans hspan
      let next : Append :=
        { a with stage := .streaming t', received := a.received ++ t.takes (src.read d t.wants).1 }
      obtain ⟨rs, hrun, hlog⟩ := ih (a := next) hspan' rfl
      refine ⟨(src.read d t.wants).1 :: rs, ?_, hlog⟩
      rw [received, hstep]
      dsimp only
      rw [← List.append_assoc]
      refine Eq.trans ?_ hrun
      show ((Traffic.mk c d [a]).act 0 (Append.feed (src.read d t.wants).1)).run (rs.map (.feed 0)) = _
      have hact : (Traffic.mk c d [a]).act 0 (Append.feed (src.read d t.wants).1) = ⟨c, d', [next]⟩ := by
        rw [act_single, Append.feed]
        simp only [hs, hadvance]
        rfl
      rw [hact]
    · cases hadv

/-- How an append stands before it releases its range, and what it leaves then. -/
def Closing (c : ContentLog) (span : Span) (stage : Stage) (r : Appended) : Prop :=
  stage = .ended r.result ∧ r.log = c.release span ∨
    ∃ e, stage = .refused e ∧ r.result = .error e ∧ c.cursor = span.finish ∧ r.log = c.giveBack span

theorem start_refused {size : Nat} {e : Fault} (h : c.reserve size = .error e) :
    c.start space d size = (.ended (.error e), c, d) := by
  rw [start, h]

theorem start_short {size at' : Nat} {e : Fault} {cr : ContentLog} (h : c.reserve size = .ok (at', cr))
    (he : cr.ensure space d (at' + size) = .error e) :
    c.start space d size = (.ended (.error e), cr.giveBack ⟨at', at' + size⟩, d) := by
  simp only [start, h, he]

/-- A range for which there is room waits for its source, or is done if it is empty. -/
theorem start_begun {size at' : Nat} {cr ce : ContentLog} {de : Disk} (h : c.reserve size = .ok (at', cr))
    (he : cr.ensure space d (at' + size) = .ok (ce, de)) {a : Append} (ha : a.start = at' ∧ a.size = size) :
    (∃ t, a.begun ce = .streaming t ∧ t.span = a.span ∧ c.start space d size = (.waiting t, ce, de)) ∨
      ∃ l, a.begun ce = .ended (.ok l) ∧ c.start space d size = (.ended (.ok l), ce.release a.span, de) := by
  obtain ⟨rfl, rfl⟩ := ha
  unfold Append.begun
  simp only [start, h, he]
  split
  · exact .inl ⟨_, rfl, rfl, rfl⟩
  · exact .inr ⟨_, rfl, rfl⟩

theorem reserve_cursor {size at' : Nat} {cr : ContentLog} (h : c.reserve size = .ok (at', cr)) :
    at' = c.cursor ∧ cr.cursor = c.cursor + size := by
  unfold reserve at h
  split at h
  · cases h; exact ⟨rfl, rfl⟩
  · cases h

theorem run_reserve_room (space : Volume.Space) (d : Disk) {size at' : Nat} {cr : ContentLog}
    (h : c.reserve size = .ok (at', cr)) :
    (Traffic.idle c d).run [.reserve size, .room 0 space] =
      match cr.ensure space d (at' + size) with
      | .error e => ⟨cr, d, [⟨at', size, .refused e, []⟩]⟩
      | .ok (ce, de) => ⟨ce, de, [⟨at', size, Append.begun ⟨at', size, .reserved, []⟩ ce, []⟩]⟩ := by
  have hreserve : (Traffic.idle c d).step (.reserve size) = ⟨cr, d, [⟨at', size, .reserved, []⟩]⟩ := by
    simp only [Traffic.step, Traffic.idle, h, List.nil_append]
  show ((Traffic.idle c d).step (.reserve size)).step (.room 0 space) = _
  rw [hreserve]
  show (Traffic.mk cr d [⟨at', size, .reserved, []⟩]).act 0 (Append.room space) = _
  rw [act_single, Append.room]
  simp only [Append.span]
  cases cr.ensure space d (at' + size) <;> rfl

/-- An append that gets past its reservation fills its range until there is no more to do. -/
theorem append_run (c : ContentLog) (space : Volume.Space) (d : Disk) (src : Source) :
    ((c.append space d src).log = c ∧ (c.append space d src).disk = d ∧
        ∃ e, (c.append space d src).result = .error e) ∨
      ∃ moves size stage c' cr, src.declared d = .ok size ∧ c.reserve size = .ok (c.cursor, cr) ∧
        (∀ m ∈ moves, m.Fills 0) ∧
        (Traffic.idle c d).run (.reserve size :: moves) =
          ⟨c', (c.append space d src).disk, [⟨c.cursor, size, stage, c.taken space d src⟩]⟩ ∧
        Closing c' ⟨c.cursor, c.cursor + size⟩ stage (c.append space d src) := by
  unfold append taken
  cases src.declared d with
  | error e => exact .inl ⟨rfl, rfl, .io e, rfl⟩
  | ok size =>
    simp only [Except.ok.injEq]
    cases hres : c.reserve size with
    | error e =>
      rw [start_refused hres]
      exact .inl ⟨rfl, rfl, e, rfl⟩
    | ok reserved =>
      right
      obtain ⟨at', cr⟩ := reserved
      obtain ⟨rfl, hcursor⟩ := reserve_cursor hres
      have hroom := run_reserve_room space d hres
      have fills : ∀ m ∈ [Move.room 0 space], m.Fills 0 := by simp [Move.Fills]
      cases hens : cr.ensure space d (c.cursor + size) with
      | error e =>
        rw [start_short hres hens]
        rw [hens] at hroom
        exact ⟨_, size, .refused e, cr, cr, rfl, hres, fills, hroom, .inr ⟨e, rfl, rfl, hcursor, rfl⟩⟩
      | ok made =>
        obtain ⟨ce, de⟩ := made
        rw [hens] at hroom
        rcases start_begun hres hens (a := ⟨c.cursor, size, .reserved, []⟩) ⟨rfl, rfl⟩ with
          ⟨t, hbegun, hspan, hstart⟩ | ⟨l, hbegun, hstart⟩
        · rw [hstart]
          obtain ⟨rs, hrun, hlog⟩ := serve_run t src [] ce de (a := ⟨c.cursor, size, .streaming t, []⟩) hspan rfl
          refine ⟨[.room 0 space] ++ rs.map (.feed 0), size, _, ce, cr, rfl, hres, ?_, ?_, .inl ⟨rfl, hlog⟩⟩
          · intro m hm
            rcases List.mem_append.mp hm with hm | hm
            · exact fills m hm
            · obtain ⟨r, -, rfl⟩ := List.mem_map.mp hm
              rfl
          · rw [← List.cons_append, Traffic.run_append, hroom]
            dsimp only
            rw [hbegun, hrun]
            rfl
        · rw [hstart]
          refine ⟨_, size, _, ce, cr, rfl, hres, fills, ?_, .inl ⟨rfl, rfl⟩⟩
          rw [hroom]
          dsimp only
          rw [hbegun]

/-- The last move releases the range, and the append is over with its result. -/
theorem Closing.release {start size : Nat} {stage : Stage} {r : Appended}
    (h : Closing c ⟨start, start + size⟩ stage r) (d : Disk) (bs : List UInt8) :
    ∃ stage', (Traffic.mk c d [⟨start, size, stage, bs⟩]).step (.release 0) =
      ⟨r.log, d, [⟨start, size, stage', bs⟩]⟩ ∧ stage'.over? = some r.result := by
  rcases h with ⟨rfl, hlog⟩ | ⟨e, rfl, hresult, hcursor, hlog⟩
  · rw [hlog]
    cases r.result with
    | ok l => exact ⟨.returned l, rfl, rfl⟩
    | error e => exact ⟨.abandoned e, rfl, rfl⟩
  · refine ⟨.givenBack e, ?_, by rw [hresult]; rfl⟩
    show Traffic.mk _ _ [_] = _
    simp only [Append.span, hcursor, if_true, hlog]

/-! ## What an append leaves -/

/-- What an append leaves of a resting log: the content before the cursor is kept, and what
    has been returned lies behind it. -/
structure Left (c : ContentLog) (d : Disk) (src : Source) (bs : List UInt8) (r : Appended) : Prop where
  resting : Resting r.log r.disk
  file : r.log.log.file = c.log.file
  checkpoint : r.log.checkpoint = c.checkpoint
  capacity_le : c.capacity ≤ r.log.capacity
  cursor_le : c.cursor ≤ r.log.cursor
  only : d.OnlyAt c.log.file r.disk
  keeps : Image.Keeps 0 c.cursor (d.image c.log.file) (r.disk.image c.log.file)
  returned : ∀ l, r.result = .ok l → l = ⟨bs.length, c.cursor, Checksum.of bs⟩ ∧
    src.declared d = .ok bs.length ∧ l.finish ≤ r.log.cursor ∧ (r.disk.image c.log.file).read l.offset l.size = bs

/-- The cursor stands at the end of the only range there is. -/
theorem cursor_of_single {low base : Nat} {first : Image} {c' : ContentLog} {d' : Disk} {a : Append}
    (h : (Traffic.mk c' d' [a]).Tiled low base first) (hs : a.start = base) (hg : ∀ e, a.stage ≠ .givenBack e) :
    c'.cursor = a.span.finish := by
  obtain ⟨row, hrow, hperm⟩ := h.tiling
  by_cases h0 : a.size = 0
  · have hheld : (Traffic.mk c' d' [a]).held = [] := by simp [Traffic.held, Append.held?, h0]
    rw [hheld] at hperm
    rw [hperm.eq_nil] at hrow
    show c'.cursor = a.start + a.size
    rw [h0, hs]
    exact hrow.symm
  · have hheld : (Traffic.mk c' d' [a]).held = [a.span] := by
      simp [Traffic.held, Append.held?_of_kept h0 hg]
    rw [hheld] at hperm
    rw [List.perm_singleton.mp hperm] at hrow
    exact hrow.2.2.symm

theorem left_of_released (h : Resting c d) {r : Appended} {a : Append} {bs : List UInt8}
    (ht : (Traffic.mk r.log r.disk [a]).Tiled 0 c.cursor (d.image c.log.file))
    (hf : (Traffic.idle c d).Frame ⟨r.log, r.disk, [a]⟩) (hun : a.unreleased? = none)
    (hcap : r.log.cursor ≤ r.log.capacity)
    (hret : ∀ l, r.result = .ok l → l = ⟨bs.length, c.cursor, Checksum.of bs⟩ ∧ src.declared d = .ok bs.length ∧
      l.finish ≤ r.log.cursor ∧ (r.disk.image c.log.file).read l.offset l.size = bs) : Left c d src bs r where
  resting := by
    refine ⟨ht.mounted, Nat.le_trans h.head_le ht.base_le_cursor, hcap, ht.cursor_le, ?_⟩
    have hpending := ht.pending
    simpa [Traffic.unreleased, hun] using hpending
  file := hf.file
  checkpoint := hf.checkpoint
  capacity_le := hf.capacity_le
  cursor_le := ht.base_le_cursor
  only := hf.only
  keeps := by
    have hbelow := ht.below
    rwa [show r.log.log.file = c.log.file from hf.file] at hbelow
  returned := hret

theorem append_left (h : Resting c d) (space : Volume.Space) (src : Source) :
    Left c d src (c.taken space d src) (c.append space d src) := by
  rcases append_run c space d src with
    ⟨hlog, hdisk, e, hresult⟩ | ⟨moves, size, stage, c', cr, hdecl, -, hfills, hrun, hclosing⟩
  · exact {
      resting := by rw [hlog, hdisk]; exact h
      file := by rw [hlog]
      checkpoint := by rw [hlog]
      capacity_le := Nat.le_of_eq (by rw [hlog])
      cursor_le := Nat.le_of_eq (by rw [hlog])
      only := by rw [hdisk]; exact .refl
      keeps := by rw [hdisk]; exact .refl
      returned := fun l hl => nomatch hl.symm.trans hresult }
  generalize c.append space d src = r at hrun hclosing ⊢
  generalize c.taken space d src = bs at hrun ⊢
  have hlow : ∀ m ∈ Move.reserve size :: moves, m.heads → headSize ≤ 0 := by
    intro m hm hh
    rcases List.mem_cons.mp hm with rfl | hm
    · cases hh
    · rw [(hfills m hm).heads] at hh
      cases hh
  have ht := Traffic.tiled_run (h.tiled 0) _ hlow
  have hf := Traffic.frame_run (h.tiled 0) _ hlow
  rw [hrun] at ht hf
  -- the last move releases the range
  obtain ⟨stage', hstep, hover⟩ := hclosing.release r.disk bs
  have ht' := Traffic.tiled_step ht (.release 0) (fun hh => nomatch hh)
  have hf' := hf.trans (Traffic.frame_step ht (.release 0))
  rw [hstep] at ht' hf'
  refine left_of_released h ht' hf' (Append.unreleased?_of_over hover) ?_ ?_
  · rcases hclosing with ⟨rfl, hlog⟩ | ⟨e, rfl, -, hcursor, hlog⟩
    · have hcur : c'.cursor = c.cursor + size := cursor_of_single ht rfl (fun _ => Stage.noConfusion)
      show r.log.cursor ≤ r.log.log.capacity
      rw [hlog, release_cursor, release_log, hcur]
      exact (ht.sound 0 _ rfl).1
    · have hcur : r.log.cursor = c.cursor := by
        rw [hlog, giveBack, release_cursor]
        simp only [hcursor, if_true]
      rw [hcur]
      exact Nat.le_trans h.cursor_le hf'.capacity_le
  · intro l hl
    rcases hclosing with ⟨rfl, hlog⟩ | ⟨e, -, hresult, -⟩
    · have hcur : c'.cursor = c.cursor + size := cursor_of_single ht rfl (fun _ => Stage.noConfusion)
      obtain ⟨hfits, hholds⟩ := ht.sound 0 _ rfl
      rw [hl] at hholds
      obtain ⟨hl', hlen, hread⟩ := hholds
      have hl' : l = ⟨size, c.cursor, Checksum.of bs⟩ := hl'
      have hlen : bs.length = size := hlen
      rw [show c'.log.file = c.log.file from hf.file] at hread
      rw [hl', hlen]
      exact ⟨rfl, hdecl, by rw [hlog, release_cursor, hcur]; exact Nat.le_refl _, hread⟩
    · cases hl.symm.trans hresult

end ContentLog

end TwinLog
