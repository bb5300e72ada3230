/-
  TwinLog.Proofs.ContentLog.Chunks — who writes which bytes, and who may read meanwhile.

  A get takes two steps, each under a lock of its own: it checks its location, and later it
  copies the bytes. Nothing keeps appends from writing in between, and the cursor the check
  has seen may have gone back by then. `Traffic.writes` lists what a run writes: every chunk
  with the append that writes it. No other byte behind the header changes (`run_keeps`).

  A byte is `Settled` when it lies below the cursor and in no pending range. The cursor goes
  back over a range that is still pending and over nothing else (`Shifts`), and a chunk is
  written into the pending range of its own append, so a settled byte stays settled and is
  never written again (`settled_writes`). The check looks at the last pending range before
  the end of the location only; that is enough because pending ranges stand in order
  (`Ordered`), and so a location that has passed holds settled bytes alone
  (`settled_of_readable`). An append that has found room keeps its range for good (`Firm`),
  so two appends that both write never write the same byte, however often other ranges are
  handed back and reserved again. `chunks_keep_apart` has all of it from the opening on.
-/

import TwinLog.Proofs.ContentLog.Returns

namespace TwinLog

def Span.Has (s : Span) (b : Nat) : Prop := s.start ≤ b ∧ b < s.finish

def Span.Meets (s t : Span) : Prop := ∃ b, s.Has b ∧ t.Has b

def Location.span (l : Location) : Span := ⟨l.offset, l.finish⟩

theorem Span.Apart.not_meets {s t s' t' : Span} (h : s'.Apart t') (hs : s'.start ≤ s.start ∧ s.finish ≤ s'.finish)
    (ht : t'.start ≤ t.start ∧ t.finish ≤ t'.finish) : ¬ s.Meets t := by
  rintro ⟨b, ⟨hsl, hsr⟩, htl, htr⟩
  rcases h with h | h
  · omega
  · omega

/-! ## What a reading writes -/

namespace Transfer

def completes (t : Transfer) : Reading → Option (Array UInt8)
  | .error _ => none
  | .ok [] => if t.filling.isEmpty && !t.fresh then none else some t.filling
  | .ok bs =>
    let filling := t.filling ++ (bs.take t.wants).toArray
    if filling.size < t.chunk ∧ t.written.size + filling.size < t.size then none else some filling

variable {t : Transfer} {chunk : Array UInt8} {r : Reading}

def place (t : Transfer) (chunk : Array UInt8) : Span :=
  ⟨t.start + t.written.size, t.start + t.written.size + chunk.size⟩

theorem finishChunk_disk (t : Transfer) (chunk : Array UInt8) (log : Log) (d : Disk) :
    (t.finishChunk chunk log d).2 = (log.write d (t.place chunk).start chunk.toList).toOption.getD d := by
  unfold finishChunk place
  cases log.write d (t.start + t.written.size) chunk.toList with
  | error e => rfl
  | ok d' =>
    dsimp only
    split <;> rfl

/-- A reading writes the chunk that it completes, and nothing else. -/
theorem advance_disk (t : Transfer) (r : Reading) (log : Log) (d : Disk) :
    (t.advance r log d).2 = match t.completes r with
      | none => d
      | some chunk => (log.write d (t.place chunk).start chunk.toList).toOption.getD d := by
  cases r with
  | error e =>
    simp only [advance, completes]
    split <;> rfl
  | ok bs =>
    cases bs with
    | nil =>
      simp only [advance, completes]
      by_cases hend : (t.filling.isEmpty && !t.fresh) = true
      · simp only [if_pos hend]
      · simp only [if_neg hend]
        exact finishChunk_disk ..
    | cons x bs =>
      simp only [advance, completes]
      split
      · rfl
      · exact finishChunk_disk ..

/-- Writing a chunk changes the bytes of its place alone. -/
theorem get_place {log : Log} {d : Disk} (hm : log.Mounted d) {b : Nat} (hb : ¬ (t.place chunk).Has b) :
    (((log.write d (t.place chunk).start chunk.toList).toOption.getD d).image log.file).get b =
      (d.image log.file).get b := by
  unfold Span.Has place at hb
  unfold Log.write
  split
  · rfl
  · dsimp only [Except.toOption, Option.getD]
    rw [hm.image_update, Image.get_write]
    split
    · rw [List.getElem?_eq_none]
      · rfl
      · rw [Array.length_toList]
        dsimp only [place] at *
        omega
    · rfl

theorem completes_size (h : t.completes r = some chunk) : t.written.size + chunk.size ≤ t.size := by
  have hlt := t.delivered_lt
  unfold completes at h
  split at h
  · cases h
  · split at h
    · cases h
    · cases h
      omega
  · rename_i bs _
    have hbs : (bs.take t.wants).length ≤ t.wants := List.length_take_le ..
    have hroom : t.wants ≤ t.size - (t.written.size + t.filling.size) := Nat.min_le_right ..
    dsimp only at h
    split at h
    · cases h
    · cases h
      simp only [Array.size_append, List.size_toArray]
      omega

end Transfer

theorem Append.feed_log (r : Reading) (a : Append) (c : ContentLog) (d : Disk) : (a.feed r c d).2.1 = c := by
  unfold feed
  split
  · dsimp only
    split <;> rfl
  · rfl

theorem Append.feed_disk {a : Append} {t : Transfer} (hs : a.stage = .streaming t) (r : Reading) (c : ContentLog)
    (d : Disk) : (a.feed r c d).2.2 = (t.advance r c.log d).2 := by
  unfold feed
  rw [hs]
  dsimp only
  split
  · rename_i heq
    rw [heq]
  · rename_i heq
    rw [heq]

namespace Traffic

def write? (s : Traffic) : Move → Option (Nat × Span)
  | .feed i r => match s.appends[i]? with
    | some ⟨_, _, .streaming t, _⟩ => (t.completes r).map fun chunk => (i, t.place chunk)
    | _ => none
  | _ => none

def writes (s : Traffic) : List Move → List (Nat × Span)
  | [] => []
  | m :: moves => (s.write? m).toList ++ (s.step m).writes moves

theorem writes_of_invariant (holds : Traffic → Prop) {P : Nat × Span → Prop} {s : Traffic} (h : holds s)
    (hstep : ∀ s m, holds s → holds (s.step m)) (hwrite : ∀ s m w, holds s → s.write? m = some w → P w)
    (moves : List Move) : ∀ w ∈ s.writes moves, P w := by
  induction moves generalizing s with
  | nil => exact fun w hw => nomatch hw
  | cons m moves ih =>
    intro w hw
    rcases List.mem_append.mp hw with hw | hw
    · exact hwrite s m w h (Option.mem_toList.mp hw)
    · exact ih (hstep s m h) w hw

variable {low base : Nat} {first : Image} {s : Traffic} {i b : Nat} {a : Append} {m : Move} {w : Nat × Span}

/-! ## Pending ranges -/

/-- An append that has reserved and not released is pending. -/
theorem Tiled.mem_pending (h : s.Tiled low base first) (hi : s.appends[i]? = some a) {t : Span}
    (ht : a.unreleased? = some t) : t ∈ s.log.pending :=
  h.pending.mem_iff.mpr (List.mem_filterMap.mpr ⟨a, List.mem_of_getElem? hi, ht⟩)

theorem write?_feed {t : Transfer} {r : Reading} (hi : s.appends[i]? = some a) (hs : a.stage = .streaming t) :
    s.write? (.feed i r) = (t.completes r).map fun chunk => (i, t.place chunk) := by
  obtain ⟨start, size, stage, received⟩ := a
  cases hs
  simp only [write?, hi]

theorem write?_eq_some (hw : s.write? m = some w) : ∃ r a t chunk, m = .feed w.1 r ∧ s.appends[w.1]? = some a ∧
    a.stage = .streaming t ∧ t.completes r = some chunk ∧ w.2 = t.place chunk := by
  unfold write? at hw
  split at hw
  · rename_i i r
    split at hw
    · rename_i t _ ha
      obtain ⟨chunk, hchunk, rfl⟩ := Option.map_eq_some_iff.mp hw
      exact ⟨r, _, t, chunk, rfl, ha, rfl, hchunk, rfl⟩
    · cases hw
  · cases hw

/-- A chunk is written into the pending range of its append. -/
theorem Tiled.write?_spec (h : s.Tiled low base first) (hw : s.write? m = some w) :
    ∃ a, s.appends[w.1]? = some a ∧ a.stage.over? = none ∧ a.held? = some a.span ∧ a.span ∈ s.log.pending ∧
      a.start ≤ w.2.start ∧ w.2.finish ≤ a.start + a.size := by
  obtain ⟨r, a, t, chunk, -, ha, hs, hchunk, hplace⟩ := write?_eq_some hw
  have hsound := h.sound _ a ha
  unfold Append.Sound at hsound
  rw [hs] at hsound
  obtain ⟨-, hstart, hsize, -⟩ := hsound
  have hle := Transfer.completes_size hchunk
  have hpos := t.delivered_lt
  have hne : a.size ≠ 0 := by omega
  have hun : a.unreleased? = some a.span := by
    unfold Append.unreleased?
    rw [if_neg hne, hs]
  refine ⟨a, ha, by rw [hs]; rfl, Append.held?_of_unreleased? hun, h.mem_pending ha hun, ?_, ?_⟩
  · rw [hplace, Transfer.place, hstart]
    exact Nat.le_add_right ..
  · rw [hplace, Transfer.place]
    dsimp only
    omega

def Ordered (s : Traffic) : Prop := s.log.pending.Pairwise fun t u => t.finish ≤ u.start

/-- What happens to the pending ranges and the cursor: a range is added at the cursor, or
    ranges are taken away, and the cursor goes back over one of those at most. -/
def Shifts (c c' : ContentLog) : Prop :=
  (∃ size, c'.pending = c.pending ++ [⟨c.cursor, c.cursor + size⟩] ∧ c.cursor ≤ c'.cursor) ∨
    c'.pending.Sublist c.pending ∧
      (c.cursor ≤ c'.cursor ∨ ∃ t ∈ c.pending, t.finish = c.cursor ∧ c'.cursor = t.start)

theorem Shifts.of_eq {c c' : ContentLog} (hp : c'.pending = c.pending) (hc : c'.cursor = c.cursor) :
    Shifts c c' :=
  .inr ⟨hp ▸ .refl _, .inl (Nat.le_of_eq hc.symm)⟩

theorem pending_release_sublist (c : ContentLog) (t : Span) : (c.release t).pending.Sublist c.pending := by
  unfold ContentLog.release
  split
  · exact List.filter_sublist
  · exact .refl _

theorem shifts_act {f : Append → ContentLog → Disk → Append × ContentLog × Disk}
    (hf : ∀ a, s.appends[i]? = some a → Shifts s.log (f a s.log s.disk).2.1) :
    Shifts s.log (s.act i f).log := by
  unfold act
  split
  · exact .of_eq rfl rfl
  · rename_i a ha
    exact hf a ha

theorem Tiled.shifts_release (h : s.Tiled low base first) (hi : s.appends[i]? = some a) :
    Shifts s.log (a.release s.log s.disk).2.1 := by
  unfold Append.release
  split
  · exact .inr ⟨pending_release_sublist .., .inl (Nat.le_of_eq (ContentLog.release_cursor ..).symm)⟩
  · exact .inr ⟨pending_release_sublist .., .inl (Nat.le_of_eq (ContentLog.release_cursor ..).symm)⟩
  · rename_i e hs
    have hpend : (s.log.giveBack a.span).pending.Sublist s.log.pending := pending_release_sublist ..
    have hcur : (s.log.giveBack a.span).cursor = if s.log.cursor = a.span.finish then a.start else s.log.cursor :=
      ContentLog.release_cursor ..
    refine .inr ⟨hpend, ?_⟩
    dsimp only
    rw [hcur]
    by_cases hlast : s.log.cursor = a.span.finish
    · rw [if_pos hlast]
      by_cases h0 : a.size = 0
      · left
        rw [hlast, Append.span, h0]
        exact Nat.le_refl _
      · have hun : a.unreleased? = some a.span := by
          unfold Append.unreleased?
          rw [if_neg h0, hs]
        exact .inr ⟨a.span, h.mem_pending hi hun, hlast.symm, rfl⟩
    · rw [if_neg hlast]
      exact .inl (Nat.le_refl _)
  · exact .of_eq rfl rfl

theorem Tiled.shifts_step (h : s.Tiled low base first) (m : Move) : Shifts s.log (s.step m).log := by
  cases m with
  | reserve size =>
    simp only [step, ContentLog.reserve]
    by_cases hfits : s.log.cursor + size ≤ maxSigned
    · simp only [if_pos hfits]
      by_cases h0 : size = 0
      · exact .of_eq (by simp [h0]) (by simp [h0])
      · exact .inl ⟨size, by simp [h0], Nat.le_add_right ..⟩
    · simp only [if_neg hfits]
      exact .of_eq rfl rfl
  | room i space =>
    refine shifts_act (i := i) (f := Append.room space) ?_
    intro a _
    unfold Append.room
    split
    · cases he : s.log.ensure space s.disk a.span.finish with
      | error e => exact .of_eq rfl rfl
      | ok made =>
        obtain ⟨-, -, hmade⟩ := ContentLog.ensure_grows he
        exact .of_eq (by rw [hmade]) (by rw [hmade])
    · exact .of_eq rfl rfl
  | feed i r =>
    refine shifts_act (i := i) (f := Append.feed r) ?_
    intro a _
    unfold Append.feed
    split
    · dsimp only
      split <;> exact .of_eq rfl rfl
    · exact .of_eq rfl rfl
  | release i => exact shifts_act (i := i) (f := Append.release) fun a hi => h.shifts_release hi
  | commit =>
    simp only [step, head]
    split <;> exact .of_eq rfl rfl
  | rollback =>
    simp only [step, head]
    split <;> exact .of_eq rfl rfl

theorem Tiled.ordered_step (h : s.Tiled low base first) (ho : s.Ordered) (m : Move) : (s.step m).Ordered := by
  rcases h.shifts_step m with ⟨size, hpend, -⟩ | ⟨hsub, -⟩
  · unfold Ordered
    rw [hpend, List.pairwise_append]
    refine ⟨ho, List.pairwise_singleton .., ?_⟩
    intro t ht u hu
    rw [List.mem_singleton.mp hu]
    exact (h.pending_bounds ht).2.2
  · exact List.Pairwise.sublist hsub ho

theorem Tiled.ordered_run (h : s.Tiled headSize base first) (ho : s.Ordered) (moves : List Move) :
    (s.run moves).Ordered := by
  induction moves generalizing s with
  | nil => exact ho
  | cons m moves ih => exact ih (tiled_step h m fun _ => Nat.le_refl _) (h.ordered_step ho m)

/-! ## Settled bytes -/

/-- The byte is content, or was left behind, and no append under way has it. -/
def Settled (s : Traffic) (b : Nat) : Prop := b < s.log.cursor ∧ ∀ t ∈ s.log.pending, ¬ t.Has b

theorem Tiled.settled_step (h : s.Tiled low base first) (hb : s.Settled b) (m : Move) : (s.step m).Settled b := by
  obtain ⟨hlt, hfree⟩ := hb
  rcases h.shifts_step m with ⟨size, hpend, hcur⟩ | ⟨hsub, hcur⟩
  · refine ⟨by omega, ?_⟩
    intro t ht
    rw [hpend] at ht
    rcases List.mem_append.mp ht with ht | ht
    · exact hfree t ht
    · rw [List.mem_singleton.mp ht]
      rintro ⟨hstart, -⟩
      dsimp only at hstart
      omega
  · refine ⟨?_, fun t ht => hfree t (hsub.subset ht)⟩
    rcases hcur with hcur | ⟨t, ht, hfin, hcur⟩
    · omega
    · -- the range that is handed back does not have the byte, so the byte lies before it
      have hout := hfree t ht
      unfold Span.Has at hout
      omega

theorem Tiled.not_has_of_settled (h : s.Tiled low base first) (hb : s.Settled b) (hw : s.write? m = some w) :
    ¬ w.2.Has b := by
  obtain ⟨a, -, -, -, hmem, hstart, hfin⟩ := h.write?_spec hw
  rintro ⟨hl, hr⟩
  exact hb.2 a.span hmem ⟨Nat.le_trans hstart hl, Nat.lt_of_lt_of_le hr hfin⟩

/-- A settled byte is never written again. -/
theorem Tiled.settled_writes (h : s.Tiled headSize base first) (hb : s.Settled b) (moves : List Move) :
    ∀ w ∈ s.writes moves, ¬ w.2.Has b := by
  refine writes_of_invariant (fun s => s.Tiled headSize base first ∧ s.Settled b) ⟨h, hb⟩ ?_ ?_ moves
  · rintro s m ⟨h, hb⟩
    exact ⟨tiled_step h m fun _ => Nat.le_refl _, h.settled_step hb m⟩
  · rintro s m w ⟨h, hb⟩ hw
    exact h.not_has_of_settled hb hw

/-- Of the pending ranges that start before an end, the last one reaches farthest. -/
theorem Tiled.lastBefore_le (h : s.Tiled low base first) (ho : s.Ordered) {t : Span} (ht : t ∈ s.log.pending)
    {finish : Nat} (hstart : t.start < finish) :
    ∃ u ∈ s.log.pending, s.log.lastBefore finish = some u ∧ u.start < finish ∧ t.finish ≤ u.finish := by
  have hmem : t ∈ s.log.pending.filter (·.start < finish) :=
    List.mem_filter.mpr ⟨ht, by rw [decide_eq_true_eq]; exact hstart⟩
  have hsorted := List.Pairwise.sublist (List.filter_sublist (p := (·.start < finish))) ho
  cases hlast : s.log.lastBefore finish with
  | none =>
    unfold ContentLog.lastBefore at hlast
    rw [List.getLast?_eq_none_iff.mp hlast] at hmem
    cases hmem
  | some u =>
    obtain ⟨hu, hbefore⟩ := List.mem_filter.mp (List.mem_of_getLast? hlast)
    rw [decide_eq_true_eq] at hbefore
    refine ⟨u, hu, rfl, hbefore, ?_⟩
    obtain ⟨init, heq⟩ := List.getLast?_eq_some_iff.mp hlast
    rw [heq] at hmem hsorted
    rcases List.mem_append.mp hmem with hmem | hmem
    · have hle := (List.pairwise_append.mp hsorted).2.2 t hmem u List.mem_cons_self
      have hpos := h.pending_bounds hu
      omega
    · exact Nat.le_of_eq (congrArg Span.finish (List.mem_singleton.mp hmem))

/-- A location that has passed the check holds settled bytes alone. -/
theorem Tiled.settled_of_readable (h : s.Tiled low base first) (ho : s.Ordered) {l : Location}
    (hl : s.log.checkReadable l = .ok ()) (hb : l.span.Has b) : headSize ≤ b ∧ s.Settled b := by
  obtain ⟨hlo, hhi⟩ := hb
  simp only [Location.span] at hlo hhi
  unfold ContentLog.checkReadable at hl
  split at hl
  · cases hl
  rename_i hin
  refine ⟨by omega, by omega, ?_⟩
  rintro t ht ⟨hstart, hfin⟩
  obtain ⟨u, -, hlast, -, hle⟩ := h.lastBefore_le ho ht (by omega : t.start < l.finish)
  simp only [hlast] at hl
  split at hl
  · cases hl
  · omega

/-! ## Ranges that are kept for good -/

end Traffic

/-- There is room for the range, so it is not handed back any more. -/
def Stage.firm : Stage → Bool
  | .reserved | .refused _ | .givenBack _ => false
  | _ => true

namespace Traffic

variable {low base : Nat} {first : Image} {s : Traffic} {i b : Nat} {a : Append} {m : Move} {w : Nat × Span}

def Firm (s : Traffic) (i : Nat) (t : Span) : Prop := ∃ a, s.appends[i]? = some a ∧ a.span = t ∧ a.stage.firm = true

theorem firm_act {t : Span} (h : s.Firm i t) {j : Nat} {f : Append → ContentLog → Disk → Append × ContentLog × Disk}
    (hf : ∀ a, a.stage.firm = true → (f a s.log s.disk).1.span = a.span ∧ (f a s.log s.disk).1.stage.firm = true) :
    (s.act j f).Firm i t := by
  obtain ⟨a, hi, hspan, hfirm⟩ := h
  unfold act
  split
  · exact ⟨a, hi, hspan, hfirm⟩
  · rename_i a' hj
    by_cases hij : j = i
    · subst hij
      cases hj.symm.trans hi
      obtain ⟨hspan', hfirm'⟩ := hf a hfirm
      exact ⟨_, List.getElem?_set_self (List.getElem?_eq_some_iff.mp hi).1, hspan'.trans hspan, hfirm'⟩
    · exact ⟨a, (List.getElem?_set_ne hij).trans hi, hspan, hfirm⟩

theorem firm_step {t : Span} (h : s.Firm i t) (m : Move) : (s.step m).Firm i t := by
  cases m with
  | reserve size =>
    simp only [step]
    split
    · exact h
    · obtain ⟨a, hi, hrest⟩ := h
      exact ⟨a, getElem?_snoc_of_some hi, hrest⟩
  | room j space =>
    refine firm_act (j := j) (f := Append.room space) h ?_
    intro a hfirm
    unfold Append.room
    split
    · rename_i hs
      rw [hs] at hfirm
      cases hfirm
    · exact ⟨rfl, hfirm⟩
  | feed j r =>
    refine firm_act (j := j) (f := Append.feed r) h ?_
    intro a hfirm
    unfold Append.feed
    split
    · dsimp only
      split <;> exact ⟨rfl, rfl⟩
    · exact ⟨rfl, hfirm⟩
  | release j =>
    refine firm_act (j := j) (f := Append.release) h ?_
    intro a hfirm
    unfold Append.release
    split
    · exact ⟨rfl, rfl⟩
    · exact ⟨rfl, rfl⟩
    · rename_i hs
      rw [hs] at hfirm
      cases hfirm
    · exact ⟨rfl, hfirm⟩
  | commit =>
    simp only [step, head]
    split <;> exact h
  | rollback =>
    simp only [step, head]
    split <;> exact h

/-- A chunk of one append never touches the range that another one has for good. -/
theorem Tiled.not_meets_firm (h : s.Tiled low base first) {t : Span} (hf : s.Firm i t) (hw : s.write? m = some w)
    (hne : i ≠ w.1) {u : Span} (hu : t.start ≤ u.start ∧ u.finish ≤ t.finish) : ¬ u.Meets w.2 := by
  obtain ⟨a, hi, rfl, hfirm⟩ := hf
  obtain ⟨a', hj, -, hheld', -, hin⟩ := h.write?_spec hw
  by_cases h0 : a.size = 0
  · rintro ⟨b, ⟨hl, hr⟩, -⟩
    simp only [Append.span] at hu
    omega
  · have hheld : a.held? = some a.span := by
      refine Append.held?_of_kept h0 ?_
      intro e he
      rw [he] at hfirm
      cases hfirm
    exact (h.span_apart hi hj hne hheld hheld').not_meets hu hin

/-- Chunks of two appends never have a byte in common. -/
theorem Tiled.writes_apart (h : s.Tiled headSize base first) (moves : List Move) :
    (s.writes moves).Pairwise fun w w' => w.1 ≠ w'.1 → ¬ w.2.Meets w'.2 := by
  induction moves generalizing s with
  | nil => exact .nil
  | cons m moves ih =>
    have hnext := tiled_step h m fun _ => Nat.le_refl _
    refine List.pairwise_append.mpr ⟨?_, ih hnext, ?_⟩
    · cases s.write? m <;> simp
    intro w hw w' hw' hne
    obtain ⟨r, a, t, chunk, -, ha, hs, -, -⟩ := write?_eq_some (Option.mem_toList.mp hw)
    obtain ⟨a', ha', -, -, -, hin⟩ := h.write?_spec (Option.mem_toList.mp hw)
    cases ha.symm.trans ha'
    have hfirm : s.Firm w.1 a.span := ⟨a, ha, rfl, by rw [hs]; rfl⟩
    refine writes_of_invariant (fun s => s.Tiled headSize base first ∧ s.Firm w.1 a.span)
      (P := fun w' => w.1 ≠ w'.1 → ¬ w.2.Meets w'.2) ⟨hnext, firm_step hfirm m⟩ ?_ ?_ moves w' hw' hne
    · rintro s m ⟨h, hf⟩
      exact ⟨tiled_step h m fun _ => Nat.le_refl _, firm_step hf m⟩
    · rintro s m w' ⟨h, hf⟩ hw' hne
      exact h.not_meets_firm hf hw' hne hin

theorem Tiled.writes_above (h : s.Tiled headSize base first) (moves : List Move) :
    ∀ w ∈ s.writes moves, base ≤ w.2.start := by
  refine writes_of_invariant (fun s => s.Tiled headSize base first) h ?_ ?_ moves
  · intro s m h
    exact tiled_step h m fun _ => Nat.le_refl _
  · intro s m w h hw
    obtain ⟨a, -, -, -, hmem, hstart, -⟩ := h.write?_spec hw
    exact Nat.le_trans (h.pending_bounds hmem).1 hstart

/-! ## Bytes that stay -/

/-- Behind the header and below the capacity a move changes the bytes of its chunk alone. -/
theorem Tiled.step_keeps (h : s.Tiled low base first) (m : Move) (hlo : headSize ≤ b) (hhi : b < s.log.capacity)
    (hout : ∀ w, s.write? m = some w → ¬ w.2.Has b) :
    ((s.step m).disk.image s.log.log.file).get b = (s.disk.image s.log.log.file).get b := by
  cases m with
  | reserve size =>
    simp only [step]
    split <;> rfl
  | room i space =>
    simp only [step, act]
    split
    · rfl
    rename_i a hi
    unfold Append.room
    split
    · cases he : s.log.ensure space s.disk a.span.finish with
      | error e => rfl
      | ok made => exact (ContentLog.ensure_spec h.mounted he).2.2.2.2.2.2.2 b (Nat.zero_le _) hhi
    · rfl
  | feed i r =>
    simp only [step, act]
    split
    · rfl
    rename_i a hi
    cases hs : a.stage with
    | streaming t =>
      have hwrite := write?_feed (r := r) hi hs
      rw [Append.feed_log, Append.feed_disk hs, Transfer.advance_disk]
      cases hc : t.completes r with
      | none => rfl
      | some chunk =>
        rw [hc] at hwrite
        exact Transfer.get_place h.mounted (hout _ hwrite)
    | _ => simp only [Append.feed, hs]
  | release i =>
    simp only [step, act]
    split
    · rfl
    · unfold Append.release
      split <;> rfl
  | commit =>
    simp only [step, head]
    split
    · rfl
    · rename_i d hd
      exact (ContentLog.commit_ok h.mounted hd).2.2.2 b hlo hhi
  | rollback =>
    simp only [step, head]
    split
    · rfl
    · rename_i d hd
      exact (Log.storeCursor_ok h.mounted hd).2.2.2 b hlo hhi

theorem Tiled.run_keeps (h : s.Tiled headSize base first) (moves : List Move) (hlo : headSize ≤ b)
    (hhi : b < s.log.capacity) (hout : ∀ w ∈ s.writes moves, ¬ w.2.Has b) :
    ((s.run moves).disk.image s.log.log.file).get b = (s.disk.image s.log.log.file).get b := by
  induction moves generalizing s with
  | nil => rfl
  | cons m moves ih =>
    have hnext := tiled_step h m fun _ => Nat.le_refl _
    have hf := frame_step h m
    have hlater := ih hnext (Nat.lt_of_lt_of_le hhi hf.capacity_le) fun w hw =>
      hout w (List.mem_append_right _ hw)
    rw [hf.file] at hlater
    refine hlater.trans (h.step_keeps m hlo hhi ?_)
    intro w hw
    exact hout w (List.mem_append_left _ (Option.mem_toList.mpr hw))

/-- What has passed the check is not written any more, however the run goes on. -/
theorem Tiled.readable_writes (h : s.Tiled headSize base first) (ho : s.Ordered) {l : Location}
    (hl : s.log.checkReadable l = .ok ()) (moves : List Move) : ∀ w ∈ s.writes moves, ¬ w.2.Meets l.span := by
  rintro w hw ⟨b, hwb, hlb⟩
  have hb := (h.settled_of_readable ho hl hlb).2
  exact h.settled_writes hb moves w hw hwb

/-- So the copy that follows the check, however late, gives what was there at the check. -/
theorem Tiled.read_readable (h : s.Tiled headSize base first) (ho : s.Ordered) {l : Location}
    (hl : s.log.checkReadable l = .ok ()) (hfits : l.finish ≤ s.log.capacity) (moves : List Move) :
    (s.run moves).log.log.read (s.run moves).disk l.offset l.size = s.log.log.read s.disk l.offset l.size := by
  have hf := frame_run h moves fun _ _ _ => Nat.le_refl _
  have hkeep : Image.Keeps l.offset l.finish (s.disk.image s.log.log.file)
      ((s.run moves).disk.image (s.run moves).log.log.file) := by
    intro b hlo hhi
    have hb := h.settled_of_readable ho hl (b := b) ⟨hlo, hhi⟩
    rw [hf.file]
    exact h.run_keeps moves hb.1 (Nat.lt_of_lt_of_le hhi hfits) (h.settled_writes hb.2 moves)
  rw [Log.read_ok hfits, Log.read_ok (Nat.le_trans hfits hf.capacity_le),
    hkeep.read_eq (Nat.le_refl _) (Nat.le_refl _)]

end Traffic

namespace ContentLog

variable {v v' : Volume} {path : String} {capacity bufferSize : Nat} {c : ContentLog}

/-- However appends, commits and rollbacks interleave after an opening: behind the header
    nothing but chunks is written. No chunk written after a location has passed the check,
    returned or made up, touches that location; chunks of two appends have no byte in common;
    and none reaches below the cursor of the opening. -/
theorem chunks_keep_apart (hv : v.Sound) (h : openAt v path capacity bufferSize = (.ok c, v'))
    (moves : List Move) :
    let s₀ := Traffic.idle c v'.disk
    let s := s₀.run moves
    (∀ more b, headSize ≤ b → b < s.log.capacity → (∀ w ∈ s.writes more, ¬ w.2.Has b) →
      ((s.run more).disk.image c.log.file).get b = (s.disk.image c.log.file).get b) ∧
    (∀ l, s.log.checkReadable l = .ok () → ∀ more, (∀ w ∈ s.writes more, ¬ w.2.Meets l.span) ∧
      (l.finish ≤ s.log.capacity →
        (s.run more).log.log.read (s.run more).disk l.offset l.size = s.log.log.read s.disk l.offset l.size)) ∧
    (s₀.writes moves).Pairwise (fun w w' => w.1 ≠ w'.1 → ¬ w.2.Meets w'.2) ∧
    ∀ w ∈ s₀.writes moves, c.cursor ≤ w.2.start := by
  intro s₀ s
  have hopened := openAt_spec hv h
  have h₀ : s₀.Tiled headSize c.cursor (v'.disk.image c.log.file) := hopened.resting.tiled headSize
  have ho₀ : s₀.Ordered := by
    unfold Traffic.Ordered
    rw [show s₀.log.pending = [] from hopened.pending]
    exact .nil
  have hs := Traffic.tiled_run h₀ moves fun _ _ _ => Nat.le_refl _
  have ho := h₀.ordered_run ho₀ moves
  have hfile : s.log.log.file = c.log.file := (Traffic.frame_run h₀ moves fun _ _ _ => Nat.le_refl _).file
  refine ⟨?_, ?_, h₀.writes_apart moves, h₀.writes_above moves⟩
  · intro more b hlo hhi hout
    rw [← hfile]
    exact hs.run_keeps more hlo hhi hout
  · intro l hl more
    exact ⟨hs.readable_writes ho hl more, fun hfits => hs.read_readable ho hl hfits more⟩

/-- Two appends at once in a new log of 16 bytes: the range of the second one, which finds no
    room, is handed back and reserved again by a third one. The location of the first one is
    checked before that, and copied after the third one has written. -/
theorem chunk_after_give_back_keeps_apart :
    let space : Volume.Space := fun _ => .ok 40
    ∃ c v', openAt (Volume.empty 4096) "store.bin" 8 2 = (.ok c, v') ∧
      let s := (Traffic.idle c v'.disk).run [.reserve 3, .reserve 40, .room 0 space, .feed 0 (.ok [7, 8]),
        .feed 0 (.ok [9]), .release 0]
      let more := [Move.room 1 space, .release 1, .reserve 4, .room 2 space, .feed 2 (.ok [1, 1])]
      s.log.checkReadable ⟨3, 8, Checksum.of []⟩ = .ok () ∧ s.writes more = [(2, ⟨11, 13⟩)] ∧
        ∀ w ∈ s.writes more, ¬ w.2.Meets ⟨8, 11⟩ := by
  have hrun := chunks_keep_apart (Volume.sound_empty 4096) shortLog_opens [.reserve 3, .reserve 40,
    .room 0 fun _ => .ok 40, .feed 0 (.ok [7, 8]), .feed 0 (.ok [9]), .release 0]
  have hcheck : ((Traffic.idle shortLog shortVolume.disk).run [.reserve 3, .reserve 40, .room 0 fun _ => .ok 40,
      .feed 0 (.ok [7, 8]), .feed 0 (.ok [9]), .release 0]).log.checkReadable ⟨3, 8, Checksum.of []⟩ = .ok () := by rfl
  refine ⟨_, _, shortLog_opens, hcheck, by decide +kernel, ?_⟩
  exact (hrun.2.1 ⟨3, 8, Checksum.of []⟩ hcheck _).1

end ContentLog

end TwinLog
