/-
  TwinLog.Proofs.ContentLog.Tiling — overlapping appends have disjoint ranges, without a gap.

  The cursor of a content log is not monotone: an append that finds no room hands its range
  back, if the cursor still stands at its end. The ranges that are not given back lie end
  to end all the same, from the cursor the session began with up to the cursor now
  (`Consecutive`): a reservation adds the next one, and only the last can be given back.
  So every write falls into a range of its own, and what an append has returned stays
  readable as it was written. `Tiled` is the invariant, `tiled_step` its step.
-/

import TwinLog.Proofs.ContentLog.Streaming

namespace TwinLog

/-! ## Rows of ranges -/

def Consecutive : Nat → List Span → Nat → Prop
  | lo, [], hi => lo = hi
  | lo, s :: row, hi => s.start = lo ∧ s.start < s.finish ∧ Consecutive s.finish row hi

def Span.Apart (s t : Span) : Prop := s.finish ≤ t.start ∨ t.finish ≤ s.start

namespace Consecutive

variable {lo hi : Nat} {row : List Span} {s : Span}

theorem le (h : Consecutive lo row hi) : lo ≤ hi := by
  induction row generalizing lo with
  | nil => exact Nat.le_of_eq h
  | cons s row ih =>
    obtain ⟨rfl, hlt, hrest⟩ := h
    have := ih hrest
    omega

theorem append {mid : Nat} {more : List Span} (h : Consecutive lo row mid) (h' : Consecutive mid more hi) :
    Consecutive lo (row ++ more) hi := by
  induction row generalizing lo with
  | nil => cases h; exact h'
  | cons s row ih =>
    obtain ⟨hs, hlt, hrest⟩ := h
    exact ⟨hs, hlt, ih hrest⟩

theorem bounds (h : Consecutive lo row hi) (hs : s ∈ row) :
    lo ≤ s.start ∧ s.start < s.finish ∧ s.finish ≤ hi := by
  induction row generalizing lo with
  | nil => cases hs
  | cons t row ih =>
    obtain ⟨rfl, hlt, hrest⟩ := h
    have := hrest.le
    rcases List.mem_cons.mp hs with rfl | hs
    · exact ⟨Nat.le_refl _, hlt, this⟩
    · have := ih hrest hs
      omega

theorem apart (h : Consecutive lo row hi) : row.Pairwise Span.Apart := by
  induction row generalizing lo with
  | nil => exact .nil
  | cons s row ih =>
    obtain ⟨-, -, hrest⟩ := h
    exact .cons (fun t ht => .inl (hrest.bounds ht).1) (ih hrest)

theorem last (h : Consecutive lo row hi) (hs : s ∈ row) (hfin : s.finish = hi) :
    ∃ init, row = init ++ [s] ∧ Consecutive lo init s.start := by
  induction row generalizing lo with
  | nil => cases hs
  | cons t row ih =>
    obtain ⟨rfl, hlt, hrest⟩ := h
    rcases List.mem_cons.mp hs with rfl | hs
    · cases row with
      | nil => exact ⟨[], rfl, rfl⟩
      | cons u row =>
        have := hrest.bounds List.mem_cons_self
        omega
    · obtain ⟨init, rfl, hinit⟩ := ih hrest hs
      exact ⟨t :: init, rfl, rfl, hlt, hinit⟩

end Consecutive

/-! ## Replacing one element of a list -/

section Replace

variable {α β : Type} {f : α → Option β} {l : List α} {i : Nat} {old : α}

theorem filterMap_set_same (h : l[i]? = some old) {new : α} (hf : f new = f old) :
    (l.set i new).filterMap f = l.filterMap f := by
  induction l generalizing i with
  | nil => cases h
  | cons x l ih =>
    cases i with
    | zero =>
      cases h
      simp only [List.set_cons_zero, List.filterMap_cons, hf]
    | succ i => simp only [List.set_cons_succ, List.filterMap_cons, ih (by simpa using h)]

theorem perm_filterMap_set (h : l[i]? = some old) {b : β} (hb : f old = some b) (new : α)
    (hn : f new = none) :
    (l.filterMap f).Perm (b :: (l.set i new).filterMap f) := by
  induction l generalizing i with
  | nil => cases h
  | cons x l ih =>
    cases i with
    | zero =>
      cases h
      simp only [List.set_cons_zero, List.filterMap_cons, hb, hn]
      exact .refl _
    | succ i =>
      have := ih (by simpa using h)
      simp only [List.set_cons_succ, List.filterMap_cons]
      cases f x with
      | none => exact this
      | some c => exact (this.cons c).trans (.swap b c _)

theorem pairwise_at {R : β → β → Prop} (hR : (l.filterMap f).Pairwise R) (symm : ∀ {x y}, R x y → R y x)
    {j : Nat} {x y : α} (hx : l[i]? = some x) (hy : l[j]? = some y) (hij : i ≠ j) {b c : β}
    (hb : f x = some b) (hc : f y = some c) :
    R b c := by
  rw [List.pairwise_filterMap] at hR
  obtain ⟨hi, rfl⟩ := List.getElem?_eq_some_iff.mp hx
  obtain ⟨hj, rfl⟩ := List.getElem?_eq_some_iff.mp hy
  rcases Nat.lt_or_gt_of_ne hij with h | h
  · exact List.pairwise_iff_getElem.mp hR i j hi hj h b hb c hc
  · exact symm (List.pairwise_iff_getElem.mp hR j i hj hi h c hc b hb)

end Replace

/-! ## The invariant -/

def Append.Sound (a : Append) (l : Log) (d : Disk) : Prop :=
  match a.stage with
  | .reserved => a.received = []
  | .streaming t => a.span.finish ≤ l.capacity ∧
      (Progress.waiting t).Holds a.start a.size a.received (d.image l.file)
  | .ended result => a.span.finish ≤ l.capacity ∧
      (Progress.ended result).Holds a.start a.size a.received (d.image l.file)
  | .returned loc => a.span.finish ≤ l.capacity ∧
      (Progress.ended (.ok loc)).Holds a.start a.size a.received (d.image l.file)
  | _ => True

/-- The state of a log whose session began with cursor `base` on the bytes `first`, of which
    those from `low` on are still there. -/
structure Traffic.Tiled (low base : Nat) (first : Image) (s : Traffic) : Prop where
  mounted : s.log.log.Mounted s.disk
  head_le : headSize ≤ base
  base_le : base ≤ s.log.capacity
  cursor_le : s.log.cursor ≤ maxSigned
  tiling : ∃ row, Consecutive base row s.log.cursor ∧ row.Perm s.held
  pending : s.log.pending.Perm s.unreleased
  sound : ∀ (i : Nat) (a : Append), s.appends[i]? = some a → a.Sound s.log.log s.disk
  below : Image.Keeps low base first (s.disk.image s.log.log.file)

namespace Append

variable {a : Append} {t : Span}

theorem held?_eq (h : a.held? = some t) : t = a.span ∧ 0 < a.size := by
  unfold held? at h
  split at h
  · cases h
  · rename_i hne
    split at h
    · cases h
    · cases h; exact ⟨rfl, Nat.pos_of_ne_zero hne⟩

theorem held?_of_unreleased? (h : a.unreleased? = some t) : a.held? = some t := by
  unfold unreleased? at h
  unfold held?
  split at h
  · cases h
  · rename_i hne
    rw [if_neg hne]
    split at h
    · cases h
    · cases h
    · cases h
    · rename_i hng
      split
      · rename_i e he; exact absurd he (hng e)
      · exact h

theorem held?_of_kept (h0 : a.size ≠ 0) (hs : ∀ e, a.stage ≠ .givenBack e) : a.held? = some a.span := by
  unfold held?
  rw [if_neg h0]
  split
  · rename_i e he; exact absurd he (hs e)
  · rfl

theorem begun_cases (a : Append) (c : ContentLog) :
    (∃ t, a.begun c = .streaming t ∧ t.start = a.start ∧ t.size = a.size ∧ t.written = #[] ∧ t.filling = #[]) ∨
      a.size = 0 ∧ a.begun c = .ended (.ok ⟨0, a.start, Checksum.of []⟩) := by
  unfold begun
  split
  · exact .inl ⟨_, rfl, rfl, rfl, rfl, rfl⟩
  · exact .inr ⟨by omega, rfl⟩

/-- Once there is room, an append stands as one that has received nothing. -/
theorem sound_begun {c : ContentLog} {d : Disk} {received : List UInt8} (hr : received = [])
    (hfits : a.span.finish ≤ c.log.capacity) : Sound { a with stage := a.begun c, received } c.log d := by
  rcases a.begun_cases c with ⟨t, hs, hstart, hsize, hw, hf⟩ | ⟨h0, hs⟩
  · unfold Sound
    rw [hs]
    exact ⟨hfits, hstart, hsize, by simp [hw, hf, hr], by rw [hw]; rfl⟩
  · unfold Sound
    rw [hs]
    exact ⟨hfits, by rw [h0, hr], by rw [h0, hr]; rfl, by rw [h0, hr]; rfl⟩

/-- An append keeps its standing while the bytes of its range stay. -/
theorem Sound.keep {l l' : Log} {d d' : Disk} (h : a.Sound l d) (hcap : l.capacity ≤ l'.capacity)
    (hk : a.held? = some a.span → a.span.finish ≤ l.capacity →
      Image.Keeps a.start (a.start + a.size) (d.image l.file) (d'.image l'.file)) : a.Sound l' d' := by
  have hk' (hs : ∀ e, a.stage ≠ .givenBack e) (hfits : a.span.finish ≤ l.capacity) :
      Image.Keeps a.start (a.start + a.size) (d.image l.file) (d'.image l'.file) := by
    by_cases h0 : a.size = 0
    · intro i hl hh; omega
    · exact hk (held?_of_kept h0 hs) hfits
  obtain ⟨start, size, stage, received⟩ := a
  cases stage with
  | reserved => exact h
  | refused e => trivial
  | streaming t => exact ⟨Nat.le_trans h.1 hcap, h.2.keep (hk' (fun _ h => nomatch h) h.1)⟩
  | ended result => exact ⟨Nat.le_trans h.1 hcap, h.2.keep (hk' (fun _ h => nomatch h) h.1)⟩
  | returned loc => exact ⟨Nat.le_trans h.1 hcap, h.2.keep (hk' (fun _ h => nomatch h) h.1)⟩
  | abandoned e => trivial
  | givenBack e => trivial

end Append

namespace Traffic

variable {low base : Nat} {first : Image} {s : Traffic} {i : Nat} {a : Append}

/-- The other appends with a range to themselves find their bytes again in `im`. -/
def Spares (s : Traffic) (i : Nat) (im : Image) : Prop :=
  ∀ (j : Nat) (b : Append), i ≠ j → s.appends[j]? = some b → b.held? = some b.span →
    b.span.finish ≤ s.log.capacity →
    Image.Keeps b.start (b.start + b.size) (s.disk.image s.log.log.file) im

theorem Spares.refl (s : Traffic) (i : Nat) : Spares s i (s.disk.image s.log.log.file) :=
  fun _ _ _ _ _ _ => .refl

namespace Tiled

theorem held_apart (h : s.Tiled low base first) : s.held.Pairwise Span.Apart := by
  obtain ⟨row, hrow, hperm⟩ := h.tiling
  exact hperm.pairwise hrow.apart Or.symm

theorem held_bounds (h : s.Tiled low base first) {t : Span} (ht : t ∈ s.held) :
    base ≤ t.start ∧ t.start < t.finish ∧ t.finish ≤ s.log.cursor := by
  obtain ⟨row, hrow, hperm⟩ := h.tiling
  exact hrow.bounds (hperm.mem_iff.mpr ht)

theorem mem_held (hi : s.appends[i]? = some a) {t : Span} (ht : a.held? = some t) : t ∈ s.held :=
  List.mem_filterMap.mpr ⟨a, List.mem_of_getElem? hi, ht⟩

/-- The cursor never falls to where the session began. -/
theorem base_le_cursor (h : s.Tiled low base first) : base ≤ s.log.cursor := by
  obtain ⟨row, hrow, -⟩ := h.tiling
  exact hrow.le

/-- Appends with a range to themselves share no byte. -/
theorem span_apart (h : s.Tiled low base first) {j : Nat} {b : Append} (hi : s.appends[i]? = some a)
    (hj : s.appends[j]? = some b) (hij : i ≠ j) (ha : a.held? = some a.span) (hb : b.held? = some b.span) :
    a.span.Apart b.span :=
  pairwise_at h.held_apart Or.symm hi hj hij ha hb

/-- Append `i` moves on to `a'`, the log to `c` and the disk to `d`. -/
theorem advance (h : s.Tiled low base first) (hi : s.appends[i]? = some a) {a' : Append} {c : ContentLog}
    {d : Disk} (hm : c.log.Mounted d) (hcap : s.log.capacity ≤ c.capacity) (hcur : c.cursor ≤ maxSigned)
    (htiling : ∃ row, Consecutive base row c.cursor ∧ row.Perm ((s.appends.set i a').filterMap Append.held?))
    (hpending : c.pending.Perm ((s.appends.set i a').filterMap Append.unreleased?))
    (hown : a'.Sound c.log d) (hothers : Spares s i (d.image c.log.file))
    (hbelow : Image.Keeps low base (s.disk.image s.log.log.file) (d.image c.log.file)) :
    (Traffic.mk c d (s.appends.set i a')).Tiled low base first where
  mounted := hm
  head_le := h.head_le
  base_le := Nat.le_trans h.base_le hcap
  cursor_le := hcur
  tiling := htiling
  pending := hpending
  below := h.below.trans hbelow
  sound := by
    intro j b hb
    rw [List.getElem?_set] at hb
    by_cases hij : i = j
    · subst hij
      have hlt : i < s.appends.length := (List.getElem?_eq_some_iff.mp hi).1
      rw [if_pos rfl, if_pos hlt] at hb
      cases hb
      exact hown
    · rw [if_neg hij] at hb
      exact (h.sound j b hb).keep hcap (hothers j b hij hb)

theorem advance_same (h : s.Tiled low base first) (hi : s.appends[i]? = some a) {a' : Append} {c : ContentLog}
    {d : Disk} (hm : c.log.Mounted d) (hcap : s.log.capacity ≤ c.capacity) (hcur : c.cursor = s.log.cursor)
    (hpend : c.pending = s.log.pending) (hheld : a'.held? = a.held?) (hunrel : a'.unreleased? = a.unreleased?)
    (hown : a'.Sound c.log d) (hothers : Spares s i (d.image c.log.file))
    (hbelow : Image.Keeps low base (s.disk.image s.log.log.file) (d.image c.log.file)) :
    (Traffic.mk c d (s.appends.set i a')).Tiled low base first := by
  refine h.advance hi hm hcap (hcur ▸ h.cursor_le) ?_ ?_ hown hothers hbelow
  · rw [hcur, filterMap_set_same hi hheld]
    exact h.tiling
  · rw [hpend, filterMap_set_same hi hunrel]
    exact h.pending

end Tiled

/-! ## The moves -/

theorem tiled_reserve (h : s.Tiled low base first) (size : Nat) :
    (s.step (.reserve size)).Tiled low base first := by
  obtain ⟨row, hrow, hperm⟩ := h.tiling
  by_cases hfits : s.log.cursor + size ≤ maxSigned
  · have hstep : s.step (.reserve size) = ⟨{ s.log with
        cursor := s.log.cursor + size
        pending := if size = 0 then s.log.pending else s.log.pending ++ [⟨s.log.cursor, s.log.cursor + size⟩] },
        s.disk, s.appends ++ [⟨s.log.cursor, size, .reserved, []⟩]⟩ := by
      simp only [step, ContentLog.reserve, hfits, if_true]
    rw [hstep]
    refine ⟨h.mounted, h.head_le, h.base_le, hfits, ?_, ?_, ?_, h.below⟩
    · by_cases h0 : size = 0
      · refine ⟨row, by simpa [h0] using hrow, ?_⟩
        simpa [held, Append.held?, h0] using hperm
      · have hone : Consecutive s.log.cursor [⟨s.log.cursor, s.log.cursor + size⟩] (s.log.cursor + size) :=
          ⟨rfl, Nat.lt_add_of_pos_right (Nat.pos_of_ne_zero h0), rfl⟩
        refine ⟨row ++ [⟨s.log.cursor, s.log.cursor + size⟩], hrow.append hone, ?_⟩
        simpa [held, Append.held?, Append.span, h0] using hperm.append_right _
    · by_cases h0 : size = 0
      · simpa [unreleased, Append.unreleased?, h0] using h.pending
      · simpa [unreleased, Append.unreleased?, Append.span, h0] using h.pending.append_right _
    · intro j b hb
      rcases getElem?_snoc_cases hb with hb | ⟨-, rfl⟩
      · exact h.sound j b hb
      · rfl
  · have hstep : s.step (.reserve size) = s := by
      simp only [step, ContentLog.reserve, hfits, if_false]
    rw [hstep]
    exact h

theorem tiled_act (h : s.Tiled low base first) {f : Append → ContentLog → Disk → Append × ContentLog × Disk}
    (hf : ∀ a, s.appends[i]? = some a →
      let r := f a s.log s.disk
      (Traffic.mk r.2.1 r.2.2 (s.appends.set i r.1)).Tiled low base first) :
    (s.act i f).Tiled low base first := by
  unfold act
  split
  · exact h
  · rename_i a ha
    exact hf a ha

theorem tiled_stays (h : s.Tiled low base first) (hi : s.appends[i]? = some a) :
    (Traffic.mk s.log s.disk (s.appends.set i a)).Tiled low base first :=
  h.advance_same hi h.mounted (Nat.le_refl _) rfl rfl rfl rfl (h.sound i a hi) (.refl s i) .refl

theorem tiled_room (h : s.Tiled low base first) (i : Nat) (space : Volume.Space) :
    (s.step (.room i space)).Tiled low base first := by
  show (s.act i (Append.room space)).Tiled low base first
  refine tiled_act h ?_
  intro a hi
  obtain ⟨start, size, stage, received⟩ := a
  unfold Append.room
  cases stage with
  | reserved =>
    have hs : received = [] := h.sound i _ hi
    dsimp only
    cases he : s.log.ensure space s.disk (Append.span ⟨start, size, .reserved, received⟩).finish with
    | error e =>
      exact h.advance_same hi h.mounted (Nat.le_refl _) rfl rfl rfl rfl trivial (.refl s i) .refl
    | ok made =>
      obtain ⟨c, d⟩ := made
      obtain ⟨hfile, hcursor, hpend, hcap, hreq, hm, -, hk⟩ := ContentLog.ensure_spec h.mounted he
      have hbegun := Append.begun_cases ⟨start, size, .reserved, received⟩ c
      have hbase := h.base_le
      refine h.advance_same hi hm hcap hcursor hpend ?_ ?_ (Append.sound_begun hs hreq) ?_ ?_
      · rcases hbegun with ⟨t, he, -⟩ | ⟨-, he⟩ <;> (simp only [Append.held?, he]; rfl)
      · rcases hbegun with ⟨t, he, -⟩ | ⟨-, he⟩ <;> (simp only [Append.unreleased?, he]; rfl)
      · intro j b _ _ _ hb
        rw [hfile]
        exact hk.mono (Nat.zero_le _) hb
      · rw [hfile]
        exact hk.mono (Nat.zero_le _) hbase
  | _ => exact tiled_stays h hi

theorem tiled_feed (h : s.Tiled low base first) (i : Nat) (r : Reading) :
    (s.step (.feed i r)).Tiled low base first := by
  show (s.act i (Append.feed r)).Tiled low base first
  refine tiled_act h ?_
  intro a hi
  obtain ⟨start, size, stage, received⟩ := a
  unfold Append.feed
  cases stage with
  | streaming t =>
    obtain ⟨hfits, hholds⟩ := h.sound i _ hi
    have hpos : 0 < size := by
      have hz : t.size = size := hholds.2.1
      have := t.delivered_lt
      omega
    have hheld : Append.held? ⟨start, size, .streaming t, received⟩ = some ⟨start, start + size⟩ := by
      unfold Append.held?
      rw [if_neg (Nat.ne_of_gt hpos)]
      rfl
    obtain ⟨p, d, hadv, hm, -, hkeep, hp⟩ := t.advance_holds h.mounted hfits hholds r
    have hothers : Spares s i (d.image s.log.log.file) := by
      intro j b hij hb hbh _
      rcases h.span_apart hi hb hij hheld hbh with hap | hap
      · exact hkeep _ _ (.inr hap)
      · exact hkeep _ _ (.inl hap)
    have hbelow : Image.Keeps low base (s.disk.image s.log.log.file) (d.image s.log.log.file) :=
      hkeep _ _ (.inl (h.held_bounds (Tiled.mem_held hi hheld)).1)
    dsimp only
    rw [hadv]
    cases p with
    | waiting u =>
      exact h.advance_same hi hm (Nat.le_refl _) rfl rfl rfl rfl ⟨hfits, hp⟩ hothers hbelow
    | ended result =>
      exact h.advance_same hi hm (Nat.le_refl _) rfl rfl rfl rfl ⟨hfits, hp⟩ hothers hbelow
  | _ => exact tiled_stays h hi

theorem Tiled.pending_bounds (h : s.Tiled low base first) {t : Span} (ht : t ∈ s.log.pending) :
    base ≤ t.start ∧ t.start < t.finish ∧ t.finish ≤ s.log.cursor := by
  obtain ⟨a, ha, hat⟩ := List.mem_filterMap.mp (h.pending.mem_iff.mp ht)
  exact h.held_bounds (List.mem_filterMap.mpr ⟨a, ha, Append.held?_of_unreleased? hat⟩)

theorem unreleased_apart (h : s.Tiled low base first) : s.unreleased.Pairwise Span.Apart :=
  List.pairwise_filterMap.mpr ((List.pairwise_filterMap.mp h.held_apart).imp fun h b hb c hc =>
    h b (Append.held?_of_unreleased? hb) c (Append.held?_of_unreleased? hc))

/-- Releasing a range takes it, and nothing else, off the pending ranges. -/
theorem pending_release (h : s.Tiled low base first) (hi : s.appends[i]? = some a) {a' : Append}
    (ha : a.unreleased? = if a.size = 0 then none else some a.span) (ha' : a'.unreleased? = none) :
    (s.log.release a.span).pending.Perm ((s.appends.set i a').filterMap Append.unreleased?) := by
  unfold ContentLog.release
  by_cases h0 : a.size = 0
  · rw [if_neg (by show ¬ a.start < a.start + a.size; omega),
      filterMap_set_same hi (by rw [ha', ha, if_pos h0])]
    exact h.pending
  · rw [if_neg h0] at ha
    rw [if_pos (by show a.start < a.start + a.size; omega)]
    have hperm : s.log.pending.Perm (a.span :: (s.appends.set i a').filterMap Append.unreleased?) :=
      h.pending.trans (perm_filterMap_set hi ha a' ha')
    have hapart := ((perm_filterMap_set hi ha a' ha').pairwise (unreleased_apart h) Or.symm)
    have hne : ∀ t ∈ (s.appends.set i a').filterMap Append.unreleased?,
        decide (t.start ≠ a.span.start) = true := by
      intro t ht
      have hap := (List.pairwise_cons.mp hapart).1 t ht
      have hmem : t ∈ s.unreleased := (perm_filterMap_set hi ha a' ha').mem_iff.mpr (List.mem_cons_of_mem _ ht)
      obtain ⟨b, hb, hbt⟩ := List.mem_filterMap.mp hmem
      obtain ⟨rfl, hpos⟩ := Append.held?_eq (Append.held?_of_unreleased? hbt)
      rw [decide_eq_true_eq]
      intro heq
      simp only [Span.Apart, Append.span] at hap heq
      omega
    have := hperm.filter (fun t => decide (t.start ≠ a.span.start))
    rw [List.filter_cons_of_neg (by simp), List.filter_eq_self.mpr hne] at this
    exact this

/-- A finished append leaves its range behind and lets go of it. -/
theorem tiled_ended (h : s.Tiled low base first) (hi : s.appends[i]? = some a) {a' : Append}
    (ha : a.unreleased? = if a.size = 0 then none else some a.span) (ha' : a'.unreleased? = none)
    (hheld : a'.held? = a.held?) (hown : a'.Sound s.log.log s.disk) :
    (Traffic.mk (s.log.release a.span) s.disk (s.appends.set i a')).Tiled low base first := by
  have hpending := pending_release h hi ha ha'
  refine h.advance hi ?_ ?_ ?_ ?_ hpending ?_ ?_ ?_
  · rw [ContentLog.release_log]; exact h.mounted
  · show s.log.log.capacity ≤ (s.log.release a.span).log.capacity
    exact Nat.le_of_eq (by rw [ContentLog.release_log])
  · rw [ContentLog.release_cursor]; exact h.cursor_le
  · rw [ContentLog.release_cursor, filterMap_set_same hi hheld]; exact h.tiling
  · rw [ContentLog.release_log]; exact hown
  · rw [ContentLog.release_log]; exact .refl s i
  · rw [ContentLog.release_log]; exact .refl

/-- A range that was never used goes back if it is the last one, and stays without owner
    otherwise. -/
theorem tiled_refused (h : s.Tiled low base first) (hi : s.appends[i]? = some a) {e : Fault}
    (hs : a.stage = .refused e) :
    (Traffic.mk (s.log.giveBack a.span) s.disk (s.appends.set i { a with
      stage := if s.log.cursor = a.span.finish then .givenBack e else .abandoned e })).Tiled low base first := by
  have hun : a.unreleased? = if a.size = 0 then none else some a.span := by
    unfold Append.unreleased?; rw [hs]
  have hlog : (s.log.giveBack a.span).log = s.log.log := ContentLog.release_log ..
  have hcur : (s.log.giveBack a.span).cursor = if s.log.cursor = a.span.finish then a.start else s.log.cursor :=
    ContentLog.release_cursor ..
  have hpend : (s.log.giveBack a.span).pending = (s.log.release a.span).pending := by
    unfold ContentLog.giveBack ContentLog.release; split <;> rfl
  obtain ⟨row, hrow, hperm⟩ := h.tiling
  refine h.advance hi (hlog ▸ h.mounted) ?_ ?_ ?_ ?_ ?_ ?_ ?_
  · show s.log.log.capacity ≤ (s.log.giveBack a.span).log.capacity
    exact Nat.le_of_eq (by rw [hlog])
  · have := h.cursor_le
    rw [hcur]
    split
    · rename_i hlast
      simp only [Append.span] at hlast
      omega
    · exact this
  · rw [hcur]
    by_cases h0 : a.size = 0
    · refine ⟨row, ?_, ?_⟩
      · have hsame : (if s.log.cursor = a.span.finish then a.start else s.log.cursor) = s.log.cursor := by
          simp only [Append.span, h0]
          split <;> omega
        rw [hsame]
        exact hrow
      · rw [filterMap_set_same hi (by simp [Append.held?, h0])]
        exact hperm
    have hheld : a.held? = some a.span := Append.held?_of_kept h0 (fun _ hg => by rw [hs] at hg; cases hg)
    by_cases hlast : s.log.cursor = a.span.finish
    · rw [if_pos hlast]
      obtain ⟨init, rfl, hinit⟩ := hrow.last (hperm.mem_iff.mpr (Tiled.mem_held hi hheld)) hlast.symm
      refine ⟨init, hinit, ?_⟩
      have hrest := hperm.trans (perm_filterMap_set hi hheld
        { a with stage := if s.log.cursor = a.span.finish then .givenBack e else .abandoned e }
        (by simp [Append.held?, hlast]))
      exact (List.perm_append_comm.trans hrest).cons_inv
    · rw [if_neg hlast, if_neg hlast, filterMap_set_same hi (by simp [Append.held?, hs, Append.span])]
      exact ⟨row, hrow, hperm⟩
  · rw [hpend]
    exact pending_release h hi hun (by unfold Append.unreleased?; split <;> split <;> simp_all)
  · unfold Append.Sound
    by_cases hlast : s.log.cursor = a.span.finish <;> simp [hlast]
  · rw [hlog]; exact .refl s i
  · rw [hlog]; exact .refl

theorem tiled_release (h : s.Tiled low base first) (i : Nat) :
    (s.step (.release i)).Tiled low base first := by
  show (s.act i Append.release).Tiled low base first
  refine tiled_act h ?_
  intro a hi
  have hsound := h.sound i a hi
  obtain ⟨start, size, stage, received⟩ := a
  unfold Append.release
  cases stage with
  | ended result =>
    cases result with
    | ok l => exact tiled_ended h hi rfl (by simp [Append.unreleased?]) rfl hsound
    | error e => exact tiled_ended h hi rfl (by simp [Append.unreleased?]) rfl trivial
  | refused e => exact tiled_refused h hi rfl
  | _ => exact tiled_stays h hi

theorem Tiled.onDisk (h : s.Tiled low base first) (hlow : headSize ≤ low) {d : Disk}
    (hm : s.log.log.Mounted d)
    (hk : Image.Keeps headSize s.log.capacity (s.disk.image s.log.log.file) (d.image s.log.log.file)) :
    Tiled low base first { s with disk := d } := by
  exact { h with
    mounted := hm
    sound := by
      intro j b hb
      refine (h.sound j b hb).keep (Nat.le_refl _) ?_
      intro hheld hfits
      have hlo := (h.held_bounds (Tiled.mem_held hb hheld)).1
      exact hk.mono (Nat.le_trans h.head_le hlo) hfits
    below := h.below.trans (hk.mono hlow h.base_le) }

theorem tiled_head (h : s.Tiled low base first) (hlow : headSize ≤ low)
    {store : ContentLog → Disk → Except Fault Disk}
    (hstore : ∀ d, store s.log s.disk = .ok d → s.log.log.Mounted d ∧
      Image.Keeps headSize s.log.capacity (s.disk.image s.log.log.file) (d.image s.log.log.file)) :
    (s.head store).Tiled low base first := by
  unfold head
  split
  · exact h
  · rename_i d hd
    obtain ⟨hm, hk⟩ := hstore d hd
    exact h.onDisk hlow hm hk

theorem tiled_step (h : s.Tiled low base first) (m : Move) (hlow : m.heads → headSize ≤ low) :
    (s.step m).Tiled low base first := by
  cases m with
  | reserve size => exact tiled_reserve h size
  | room i space => exact tiled_room h i space
  | feed i r => exact tiled_feed h i r
  | release i => exact tiled_release h i
  | commit =>
    refine tiled_head h (hlow rfl) ?_
    intro d hd
    obtain ⟨hm, -, -, hk⟩ := ContentLog.commit_ok h.mounted hd
    exact ⟨hm, hk⟩
  | rollback =>
    refine tiled_head h (hlow rfl) ?_
    intro d hd
    obtain ⟨hm, -, -, hk⟩ := Log.storeCursor_ok h.mounted hd
    exact ⟨hm, hk⟩

theorem tiled_run (h : s.Tiled low base first) (moves : List Move)
    (hlow : ∀ m ∈ moves, m.heads → headSize ≤ low) :
    (s.run moves).Tiled low base first := by
  induction moves generalizing s with
  | nil => exact h
  | cons m moves ih =>
    exact ih (tiled_step h m (hlow m List.mem_cons_self)) fun n hn => hlow n (List.mem_cons_of_mem m hn)

end Traffic

end TwinLog
