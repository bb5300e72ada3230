/-
  TwinLog.Proofs.ContentLog.Aftermath — what an append leaves of a log in which others are under way.

  An append fails early or late. Early, the source does not know its length, the end does not
  fit, or there is no room (`Unstarted`): its range was never used, and log and disk are as they
  were. Late, its source fails or answers empty too soon (`BrokenOff`): the cursor has moved
  over the range for good, the range is not pending, and the file may have grown by zeros.
  In no case does a byte change outside the range (`Log.Confined`).

  `append_leaves` says so for a log in any state. `failed_append_leaves` is the whole of it
  for a log that can be reached: between its moves and those of the appends under way, other
  files may change as they like (`Traffic.Reached`), and all that could be read before the
  failure can be read after it.
-/

import Mathlib.Control.Monad.Basic
import TwinLog.Proofs.ContentLog.Outcome

namespace TwinLog

/-! ## Growth and ranges -/

/-- The log has gone from `l` to `l'` and its disk from `d` to `d'`: the file may be longer, by
    zeros, and otherwise differs in one range at most. -/
structure Log.Confined (l : Log) (range : Span) (d : Disk) (l' : Log) (d' : Disk) : Prop where
  file : l'.file = l.file
  path : l'.path = l.path
  mounted : l'.Mounted d'
  only : d.OnlyAt l.file d'
  capacity_le : l.capacity ≤ l'.capacity
  outside : ∀ i, i < l.capacity → i < range.start ∨ range.finish ≤ i →
    (d'.image l.file).get i = (d.image l.file).get i
  zeros : ∀ i, l.capacity ≤ i → i < l'.capacity → i < range.start ∨ range.finish ≤ i →
    (d'.image l.file).get i = 0

namespace Log.Confined

variable {l l' : Log} {range : Span} {d d' d'' : Disk}

theorem refl (hm : l.Mounted d) : l.Confined range d l d :=
  ⟨rfl, rfl, hm, .refl, Nat.le_refl _, fun _ _ _ => rfl, fun _ hl hh => absurd hh (Nat.not_lt.mpr hl)⟩

theorem grow (hm : l.Mounted d) {space : Volume.Space} {required : Nat} {grew : Bool}
    (h : l.grow space d required = .ok (grew, l', d')) : l.Confined range d l' d' := by
  obtain ⟨hfile, hpath, hcap, -, hm', ho, hkeep⟩ := grow_spec hm h
  refine ⟨hfile, hpath, hm', ho, hcap, fun i hi _ => hkeep i (Nat.zero_le _) hi, ?_⟩
  intro i hl hh _
  rcases grow_iff.mp h with ⟨-, heq⟩ | ⟨-, -, heq⟩
  · cases heq
    exact absurd hh (Nat.not_lt.mpr hl)
  · cases heq
    rw [hm.image_update, Image.get_resize, if_neg]
    rintro ⟨hlt, -⟩
    rw [hm.length_eq] at hlt
    omega

/-- What happens afterwards in the range alone. -/
theorem written (h : l.Confined range d l' d') (hm : l'.Mounted d'') (ho : d'.OnlyAt l'.file d'')
    (hk : ∀ lo hi, hi ≤ range.start ∨ range.finish ≤ lo →
      Image.Keeps lo hi (d'.image l'.file) (d''.image l'.file)) : l.Confined range d l' d'' := by
  rw [h.file] at ho hk
  have same : ∀ i, i < range.start ∨ range.finish ≤ i →
      (d''.image l.file).get i = (d'.image l.file).get i := by
    intro i hout
    rcases hout with hlt | hle
    · exact hk i (i + 1) (.inl hlt) i (Nat.le_refl _) (Nat.lt_succ_self i)
    · exact hk i (i + 1) (.inr hle) i (Nat.le_refl _) (Nat.lt_succ_self i)
  exact ⟨h.file, h.path, hm, h.only.trans ho, h.capacity_le,
    fun i hi hout => (same i hout).trans (h.outside i hi hout),
    fun i hl hh hout => (same i hout).trans (h.zeros i hl hh hout)⟩

theorem keeps_before (h : l.Confined range d l' d') {hi : Nat} (hstart : hi ≤ range.start) (hcap : hi ≤ l.capacity) :
    Image.Keeps 0 hi (d.image l.file) (d'.image l.file) :=
  fun i _ hlt => h.outside i (Nat.lt_of_lt_of_le hlt hcap) (.inl (Nat.lt_of_lt_of_le hlt hstart))

end Log.Confined

namespace ContentLog

variable {c c' : ContentLog} {d d' : Disk} {t : Transfer} {src : Source} {space : Volume.Space} {e : Fault} {size : Nat}

theorem ensure_confined (hm : c.log.Mounted d) {range : Span} {finish : Nat} (h : c.ensure space d finish = .ok (c', d')) :
    c.log.Confined range d c'.log d' := by
  obtain ⟨grew, hg, -⟩ := ensure_grows h
  exact .grow hm hg

/-! ## A whole transfer -/

/-- A transfer writes in its range alone, and ends with what it has received. -/
theorem serve_holds (t : Transfer) (src : Source) (reads : List Nat) (c : ContentLog) (d : Disk) {start size : Nat}
    {before : List UInt8} (hm : c.log.Mounted d) (hfits : start + size ≤ c.log.capacity)
    (h : (Progress.waiting t).Holds start size before (d.image c.log.file)) :
    c.log.Mounted (serve t src reads c d).disk ∧ d.OnlyAt c.log.file (serve t src reads c d).disk ∧
      (∀ lo hi, hi ≤ start ∨ start + size ≤ lo →
        Image.Keeps lo hi (d.image c.log.file) ((serve t src reads c d).disk.image c.log.file)) ∧
      (Progress.ended (serve t src reads c d).result).Holds start size (before ++ received t src c d)
        ((serve t src reads c d).disk.image c.log.file) := by
  fun_induction serve t src reads c d generalizing before with
  | case1 t src reads c d result c' d' hstep =>
    obtain ⟨p, d'', hadv, hm', ho, hkeep, hp⟩ := t.advance_holds hm hfits h (src.read d t.wants).1
    rw [received, hstep]
    unfold step at hstep
    rw [hadv] at hstep
    cases p with
    | waiting u => cases hstep
    | ended result' =>
      cases hstep
      exact ⟨hm', ho, hkeep, hp⟩
  | case2 t src reads c d t' c' d' hstep ih =>
    obtain ⟨p, d'', hadv, hm', ho, hkeep, hp⟩ := t.advance_holds hm hfits h (src.read d t.wants).1
    have hmoved : c' = c ∧ d' = d'' ∧ p = .waiting t' := by
      unfold step at hstep
      rw [hadv] at hstep
      cases p with
      | waiting u =>
        cases hstep
        exact ⟨rfl, rfl, rfl⟩
      | ended result => cases hstep
    obtain ⟨rfl, rfl, rfl⟩ := hmoved
    obtain ⟨hmr, hor, hkeepr, hpr⟩ := ih hm' hfits hp
    rw [received, hstep]
    dsimp only
    rw [← List.append_assoc]
    exact ⟨hmr, ho.trans hor, fun lo hi hout => (hkeep lo hi hout).trans (hkeepr lo hi hout), hpr⟩

/-! ## The ways of failing -/

/-- Why an append never gets to its first read. -/
inductive Unstarted (c : ContentLog) (space : Volume.Space) (d : Disk) (src : Source) : Fault → Prop
  | length {e : IoFault} (declared : src.declared d = .error e) : Unstarted c space d src (.io e)
  | tooLong {size : Nat} (declared : src.declared d = .ok size) (long : maxSigned < c.cursor + size) :
      Unstarted c space d src (.invalidArgument (.contentTooLong size c.cursor))
  | noRoom {size : Nat} {e : Fault} (declared : src.declared d = .ok size) (fits : c.cursor + size ≤ maxSigned)
      (past : c.capacity < c.cursor + size)
      (refused : Log.checkSpace space c.log.path (c.log.grownCapacity (c.cursor + size)) = .error e) :
      Unstarted c space d src e

/-- Why an append of `size` bytes ends while it reads its source. -/
inductive BrokenOff (c : ContentLog) (space : Volume.Space) (d : Disk) (src : Source) (size : Nat) : Fault → Prop
  | failed {e : IoFault} (last : (c.readings space d src).getLast? = some (.error e)) (fails : e.isInterrupted = false) :
      BrokenOff c space d src size (.io e)
  | early (last : (c.readings space d src).getLast? = some (.ok [])) (short : (c.taken space d src).length < size) :
      BrokenOff c space d src size (Transfer.endedEarly (c.taken space d src).length size)

/-- No pending range reaches to the cursor with its start. -/
def Behind (c : ContentLog) : Prop := ∀ p ∈ c.pending, p.start < c.cursor

theorem Behind.filter (h : c.Behind) : c.pending.filter (·.start ≠ c.cursor) = c.pending := by
  apply List.filter_eq_self.mpr
  intro p hp
  have := h p hp
  rw [decide_eq_true_eq]
  omega

/-- A range that is reserved and released leaves no trace but in log and cursor. -/
theorem release_reserved (h : c.Behind) {start : Nat} {cr : ContentLog} (hr : c.reserve size = .ok (start, cr))
    (log : Log) (cursor : Nat) :
    ({ cr with log, cursor } : ContentLog).release ⟨c.cursor, c.cursor + size⟩ = { c with log, cursor } := by
  unfold reserve at hr
  split at hr
  · cases hr
    unfold release
    by_cases h0 : size = 0
    · simp only [h0, Nat.add_zero, Nat.lt_irrefl, if_false, if_true]
    · rw [if_pos (Nat.lt_add_of_pos_right (Nat.pos_of_ne_zero h0))]
      simp only [h0, if_false, List.filter_append, h.filter]
      simp
  · cases hr

/-- A range that is reserved and given back leaves no trace. -/
theorem giveBack_reserved (h : c.Behind) {start : Nat} {cr : ContentLog} (hr : c.reserve size = .ok (start, cr)) :
    cr.giveBack ⟨c.cursor, c.cursor + size⟩ = c := by
  have hback : (if cr.cursor = c.cursor + size then c.cursor else cr.cursor) = c.cursor :=
    if_pos (reserve_cursor hr).2
  rw [giveBack, hback, release_reserved h hr cr.log c.cursor, (reserve_log hr).1]

/-! ## What an append leaves -/

structure Untouched (c : ContentLog) (d : Disk) (r : Appended) : Prop where
  disk : r.disk = d
  file : r.log.log = c.log
  cursor : r.log.cursor = c.cursor
  log : c.Behind → r.log = c

structure Spent (c : ContentLog) (space : Volume.Space) (d : Disk) (src : Source) (size : Nat) (r : Appended) : Prop where
  declared : src.declared d = .ok size
  fits : c.cursor + size ≤ maxSigned
  confined : c.log.Confined ⟨c.cursor, c.cursor + size⟩ d r.log.log r.disk
  cursor : r.log.cursor = c.cursor + size
  log : c.Behind → r.log = { c with cursor := c.cursor + size, log := r.log.log }
  result : (Progress.ended r.result).Holds c.cursor size (c.taken space d src) (r.disk.image c.log.file)
  failed : ∀ e, r.result = .error e → 0 < size ∧ c.BrokenOff space d src size e

theorem made_room (hm : c.log.Mounted d) {cr ce : ContentLog} {de : Disk} (reserved : c.reserve size = .ok (c.cursor, cr))
    (made : cr.ensure space d (c.cursor + size) = .ok (ce, de)) :
    c.log.Confined ⟨c.cursor, c.cursor + size⟩ d ce.log de ∧ ce.log.file = c.log.file ∧ ce.cursor = c.cursor + size ∧
      c.cursor + size ≤ ce.log.capacity ∧ ce.log.Mounted de ∧
      (c.Behind → ce.release ⟨c.cursor, c.cursor + size⟩ = { c with cursor := c.cursor + size, log := ce.log }) := by
  obtain ⟨hlog, -⟩ := reserve_log reserved
  obtain ⟨grew, -, hmade⟩ := ensure_grows made
  obtain ⟨hfile, hcur, -, -, hcap, hme, -⟩ := ensure_spec (hlog.symm ▸ hm) made
  refine ⟨hlog ▸ ensure_confined (hlog.symm ▸ hm) made, by rw [hfile, hlog], hcur.trans (reserve_cursor reserved).2, hcap,
    hme, ?_⟩
  intro hb
  rw [hmade, release_reserved hb reserved ce.log cr.cursor, (reserve_cursor reserved).2]

/-- An append ends before its first read and changes nothing, or it uses up its range. -/
theorem append_leaves (hm : c.log.Mounted d) (space : Volume.Space) (src : Source) :
    (∃ e, c.Unstarted space d src e ∧ (c.append space d src).result = .error e ∧
        c.Untouched d (c.append space d src)) ∨
      ∃ size, c.Spent space d src size (c.append space d src) := by
  have hcourse := c.append_course space d src
  revert hcourse
  generalize htaken : c.taken space d src = bs, hreadings : c.readings space d src = rs, c.append space d src = r
  intro hcourse
  cases hcourse with
  | length declared => exact .inl ⟨_, .length declared, rfl, rfl, rfl, rfl, fun _ => rfl⟩
  | tooLong declared long => exact .inl ⟨_, .tooLong declared long, rfl, rfl, rfl, rfl, fun _ => rfl⟩
  | noRoom declared reserved refused =>
    obtain ⟨hlog, hfits⟩ := reserve_log reserved
    obtain ⟨hpast, hrefused⟩ := ensure_refused refused
    rw [capacity, hlog] at hpast
    rw [hlog] at hrefused
    refine .inl ⟨_, .noRoom declared hfits hpast hrefused, rfl, rfl, ?_, ?_, fun hb => giveBack_reserved hb reserved⟩
    · exact (release_log ..).trans hlog
    · exact (release_cursor ..).trans (if_pos (reserve_cursor reserved).2)
  | nothing declared reserved made =>
    obtain ⟨hconf, -, hcur, -, -, hreleased⟩ := made_room hm reserved made
    refine .inr ⟨0, declared, (reserve_log reserved).2, ?_, ?_, ?_, ?_, ?_⟩
    · rw [release_log]
      exact hconf
    · rw [release_cursor, hcur]
    · intro hb
      rw [release_log]
      exact hreleased hb
    · rw [htaken]
      exact ⟨rfl, rfl, rfl⟩
    · rintro e ⟨⟩
  | @served size cr ce de t declared reserved made positive start declares soFar =>
    obtain ⟨hconf, hfile, hcur, hcap, hme, hreleased⟩ := made_room hm reserved made
    have hspan : t.span = ⟨c.cursor, c.cursor + size⟩ := by rw [Transfer.span, start, declares]
    have hwaits : (Progress.waiting t).Holds c.cursor size [] (de.image ce.log.file) := by
      refine ⟨start, declares, soFar.symm, ?_⟩
      have hnone : t.written = #[] := by simpa using (List.append_eq_nil_iff.mp soFar).1
      rw [hnone]
      rfl
    obtain ⟨hmr, hor, hkeep, hholds⟩ := serve_holds t src [] ce de hme hcap hwaits
    rw [List.nil_append, ← htaken, hfile] at hholds
    refine .inr ⟨size, declared, (reserve_log reserved).2, ?_, ?_, ?_, hholds, ?_⟩
    · rw [serve_log, release_log]
      exact hconf.written hmr hor hkeep
    · rw [serve_log, release_cursor, hcur]
    · intro hb
      rw [serve_log, hspan, release_log]
      exact hreleased hb
    · intro e he
      refine ⟨positive, ?_⟩
      have hfails := serve_fails t src [] ce de (by rw [start, declares]; exact hcap) he
      rw [soFar, List.nil_append, declares, ← hreadings, ← htaken] at hfails
      rcases hfails with ⟨f, hlast, hf, rfl⟩ | ⟨hlast, hshort, rfl⟩
      · exact .failed hlast hf
      · exact .early hlast hshort

/-- An append that succeeds returns a location at the cursor. -/
theorem append_offset (hm : c.log.Mounted d) {l : Location} (h : (c.append space d src).result = .ok l) :
    l.offset = c.cursor := by
  rcases append_leaves hm space src with ⟨e, -, hresult, -⟩ | ⟨size, hspent⟩
  · cases hresult.symm.trans h
  · have hholds := hspent.result
    rw [h] at hholds
    rw [hholds.1]

/-! ## Reading afterwards -/

/-- What could be read before an append has used up its range can be read after it. -/
theorem get_confined {finish : Nat} (h : c.log.Confined ⟨c.cursor, finish⟩ d c'.log d') (hcur : c.cursor ≤ c'.cursor)
    (hpending : c'.pending = c.pending) {l : Location} {bs : List UInt8} (hget : c.get d l = .ok bs) :
    c'.get d' l = .ok bs := by
  unfold get at hget ⊢
  by_cases h0 : l.size = 0
  · rw [if_pos h0] at hget ⊢
    exact hget
  rw [if_neg h0] at hget ⊢
  cases hcheck : c.checkReadable l with
  | error e => rw [hcheck] at hget; cases hget
  | ok readable =>
    rw [hcheck] at hget
    have hin : headSize ≤ l.offset ∧ l.finish ≤ c.cursor := by
      unfold checkReadable at hcheck
      split at hcheck
      · cases hcheck
      · omega
    have hlast : c'.lastBefore l.finish = c.lastBefore l.finish := by rw [lastBefore, lastBefore, hpending]
    have hcheck' : c'.checkReadable l = .ok () := by
      unfold checkReadable at hcheck ⊢
      rw [hlast, if_neg (by omega)]
      rw [if_neg (by omega)] at hcheck
      exact hcheck
    rw [hcheck']
    obtain ⟨hfits, rfl⟩ := Log.read_iff.mp hget
    refine Log.read_iff.mpr ⟨Nat.le_trans hfits h.capacity_le, ?_⟩
    rw [h.file]
    have hkeep : Image.Keeps 0 l.finish (d.image c.log.file) (d'.image c.log.file) := h.keeps_before hin.2 hfits
    exact (hkeep.read_eq (Nat.zero_le _) (Nat.le_refl _)).symm

end ContentLog

/-! ## From the opening on -/

namespace Traffic

/-- A log that has been opened and in which appends, commits and rollbacks have made their moves, while
    other files changed as they liked. -/
inductive Reached : Traffic → Prop
  | opened {v v' : Volume} {path : String} {capacity bufferSize : Nat} {c : ContentLog} (sound : v.Sound)
      (opened : ContentLog.openAt v path capacity bufferSize = (.ok c, v')) : Reached (idle c v'.disk)
  | moved {s : Traffic} (before : Reached s) (m : Move) : Reached (s.step m)
  | elsewhere {s : Traffic} {d : Disk} (before : Reached s) (files : s.disk.files.size ≤ d.files.size)
      (same : d.image s.log.log.file = s.disk.image s.log.log.file) : Reached { s with disk := d }

variable {s : Traffic} {src : Source} {space : Volume.Space} {r : ContentLog.Appended} {e : Fault}

theorem Reached.tiled (h : s.Reached) : ∃ base first, s.Tiled headSize base first := by
  induction h with
  | opened sound opened => exact ⟨_, _, (ContentLog.openAt_spec sound opened).resting.tiled headSize⟩
  | moved before m ih =>
    obtain ⟨base, first, ht⟩ := ih
    exact ⟨base, first, tiled_step ht m fun _ => Nat.le_refl _⟩
  | elsewhere before files same ih =>
    obtain ⟨base, first, ht⟩ := ih
    refine ⟨base, first, ht.onDisk (Nat.le_refl _) (ht.mounted.of_image files same) ?_⟩
    rw [same]
    exact .refl

theorem Reached.run (h : s.Reached) (moves : List Move) : (s.run moves).Reached := by
  induction moves generalizing s with
  | nil => exact h
  | cons m moves ih => exact ih (h.moved m)

theorem Tiled.behind {low base : Nat} {first : Image} (h : s.Tiled low base first) : s.log.Behind := by
  intro p hp
  obtain ⟨-, hlt, hle⟩ := h.pending_bounds hp
  exact Nat.lt_of_lt_of_le hlt hle

/-- An append that fails, while others are under way and make no move. Where it never got to its first
    read, log and disk are just as they were. Where its source failed or ended early, the
    cursor has passed over its range, which is not pending; all other ranges that are pending still are, the
    header is the same, and no byte has changed outside the range, unless the file has grown by
    zeros. Either way the next append starts at the cursor, and what appends have returned, or could be
    read at all, reads as before. -/
theorem failed_append_leaves (h : s.Reached) (hr : s.log.append space s.disk src = r) (he : r.result = .error e) :
    (s.log.Unstarted space s.disk src e ∧ r.log = s.log ∧ r.disk = s.disk ∨
      ∃ size, src.declared s.disk = .ok size ∧ s.log.BrokenOff space s.disk src size e ∧
        r.log = { s.log with cursor := s.log.cursor + size, log := r.log.log } ∧
        (∀ p ∈ r.log.pending, p.finish ≤ s.log.cursor) ∧
        (r.disk.image s.log.log.file).rawCursor = (s.disk.image s.log.log.file).rawCursor ∧
        s.log.log.Confined ⟨s.log.cursor, s.log.cursor + size⟩ s.disk r.log.log r.disk) ∧
    (∀ space src l, (r.log.append space r.disk src).result = .ok l → l.offset = r.log.cursor) ∧
    (∀ i l bs, s.Returned i l bs → r.log.get r.disk l = .ok bs) ∧
    ∀ l bs, s.log.get s.disk l = .ok bs → r.log.get r.disk l = .ok bs := by
  obtain ⟨base, first, ht⟩ := h.tiled
  rcases ContentLog.append_leaves ht.mounted space src with ⟨e', hunstarted, hresult, huntouched⟩ | ⟨size, hspent⟩
  · rw [hr] at hresult huntouched
    cases hresult.symm.trans he
    have hlog := huntouched.log ht.behind
    have hdisk := huntouched.disk
    refine ⟨.inl ⟨hunstarted, hlog, hdisk⟩, ?_, ?_, ?_⟩
    · intro space src l hl
      rw [hlog, hdisk] at hl
      rw [hlog]
      exact ContentLog.append_offset ht.mounted hl
    · intro i l bs hreturned
      rw [hlog, hdisk]
      exact get_returned ht hreturned
    · intro l bs hget
      rw [hlog, hdisk]
      exact hget
  · rw [hr] at hspent
    have hlog := hspent.log ht.behind
    have hpending : r.log.pending = s.log.pending := by rw [hlog]
    have hcursor : s.log.cursor ≤ r.log.cursor := by
      rw [hspent.cursor]
      exact Nat.le_add_right ..
    have hreads {l : Location} {bs : List UInt8} (hget : s.log.get s.disk l = .ok bs) : r.log.get r.disk l = .ok bs :=
      ContentLog.get_confined hspent.confined hcursor hpending hget
    refine ⟨.inr ⟨size, hspent.declared, (hspent.failed e he).2, hlog, ?_, ?_, hspent.confined⟩, ?_, ?_, fun l bs => hreads⟩
    · intro p hp
      rw [hpending] at hp
      exact (ht.pending_bounds hp).2.2
    · have hhead : headSize ≤ s.log.cursor := Nat.le_trans ht.head_le ht.base_le_cursor
      exact Image.rawCursor_eq (hspent.confined.keeps_before hhead ht.mounted.head_le)
    · intro space src l hl
      exact ContentLog.append_offset hspent.confined.mounted hl
    · intro i l bs hreturned
      exact hreads (get_returned ht hreturned)

def twoAppends : Traffic :=
  (idle ⟨⟨"store.bin", 0, 16⟩, 8, 8, [], 2, Nat.zero_lt_two⟩ ⟨#[⟨{}, 16⟩]⟩).run [.reserve 3, .room 0 fun _ => .ok 40,
    .feed 0 (.ok [7, 8]), .feed 0 (.ok [9]), .release 0, .reserve 2, .room 1 fun _ => .ok 40]

theorem twoAppends_reached : twoAppends.Reached := by
  exact (Reached.opened (Volume.sound_empty 4096) ContentLog.shortLog_opens).run _

def brokenSource : Source := .script [] [.data [1], .fail (.reported .interrupted ""), .data [1, 1],
  .fail (.reported .brokenPipe "gone")] (.ok 6)

/-- Between these two appends, a third one finds no room and leaves no trace; with room it grows the file,
    fails, and leaves its range unused. -/
theorem failed_third_append_leaves : twoAppends.Reached ∧ twoAppends.log.pending = [⟨11, 13⟩] ∧
    (∃ r, twoAppends.log.append (fun _ => .ok 20) twoAppends.disk brokenSource = r ∧
      r.result = .error (.noSpace 32 20) ∧ r.log = twoAppends.log ∧ r.disk = twoAppends.disk) ∧
    ∃ r, twoAppends.log.append (fun _ => .ok 40) twoAppends.disk brokenSource = r ∧
      r.result = .error (.io (.reported .brokenPipe "gone")) ∧ r.log.cursor = 19 ∧ r.log.capacity = 32 ∧
      r.log.pending = [⟨11, 13⟩] ∧ r.log.get r.disk ⟨3, 8, Checksum.of [7, 8, 9]⟩ = .ok [7, 8, 9] := by
  have hshort : (twoAppends.log.append (fun _ => .ok 20) twoAppends.disk brokenSource).result =
      .error (.noSpace 32 20) := by decide +kernel
  have hbroken : (twoAppends.log.append (fun _ => .ok 40) twoAppends.disk brokenSource).result =
      .error (.io (.reported .brokenPipe "gone")) := by decide +kernel
  obtain ⟨hunstarted | ⟨size, -, hbrokenOff, -⟩, -⟩ := failed_append_leaves twoAppends_reached rfl hshort
  · obtain ⟨-, -, hreturned, -⟩ := failed_append_leaves twoAppends_reached rfl hbroken
    refine ⟨twoAppends_reached, by decide +kernel, ⟨_, rfl, hshort, hunstarted.2⟩, _, rfl, hbroken, by decide +kernel,
      by decide +kernel, by decide +kernel, ?_⟩
    exact hreturned 0 ⟨3, 8, Checksum.of [7, 8, 9]⟩ [7, 8, 9] ⟨⟨8, 3, .returned ⟨3, 8, Checksum.of [7, 8, 9]⟩,
      [7, 8, 9]⟩, by rfl, rfl, rfl⟩
  · cases hbrokenOff

end Traffic

end TwinLog
