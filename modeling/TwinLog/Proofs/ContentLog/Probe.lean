/-
  TwinLog.Proofs.ContentLog.Probe — one look at the pending ranges is as good as a look at all.

  A get is refused where its location has a byte of a pending range. `checkReadable` looks at
  one of them only, the last that starts before the end of the location; `checkAll` looks at
  every one. In whatever order appends reserve, fail, give back and release, the pending
  ranges stand in order and apart (`Traffic.Ordered`), so the last of those that start before
  the end reaches farthest (`Tiled.lastBefore_le`): if any has a byte of the location, that one
  has (`Tiled.meets_iff_last`). So the two checks answer alike, down to the reason they give,
  and `readable_exact` says which locations can be read.
-/

import TwinLog.Proofs.ContentLog.Chunks

namespace TwinLog

theorem Span.meets_iff {s t : Span} (hs : s.start < s.finish) (ht : t.start < t.finish) :
    s.Meets t ↔ s.start < t.finish ∧ t.start < s.finish := by
  constructor
  · rintro ⟨b, ⟨hsl, hsr⟩, htl, htr⟩
    omega
  · intro h
    refine ⟨max s.start t.start, ?_, ?_⟩
    · unfold Has
      omega
    · unfold Has
      omega

namespace ContentLog

/-- Refuse a location outside the written content, or one that some pending range overlaps. -/
def checkAll (c : ContentLog) (l : Location) : Except Fault Unit :=
  if l.offset < headSize ∨ c.cursor < l.finish then
    .error (.invalidArgument (.outsideContent l.offset l.size c.cursor))
  else if c.pending.any fun s => s.start < l.finish && l.offset < s.finish then
    .error (.invalidArgument (.stillWritten l.offset l.size))
  else .ok ()

/-- A get succeeds if its location passes the check and the file reaches to its end. -/
theorem get_ok_iff (c : ContentLog) (d : Disk) {l : Location} (hpos : 0 < l.size) :
    (∃ bs, c.get d l = .ok bs) ↔ c.checkReadable l = .ok () ∧ l.finish ≤ c.capacity := by
  unfold get
  rw [if_neg (Nat.ne_of_gt hpos)]
  cases hcheck : c.checkReadable l with
  | error e => simp
  | ok u =>
    constructor
    · rintro ⟨bs, hread⟩
      exact ⟨rfl, (Log.read_iff.mp hread).1⟩
    · rintro ⟨-, hfits⟩
      exact ⟨_, Log.read_ok hfits⟩

end ContentLog

namespace Traffic

variable {low base : Nat} {first : Image} {s : Traffic} {l : Location}

/-- Some pending range has a byte of the location just if the last that starts before its end has one. -/
theorem Tiled.meets_iff_last (h : s.Tiled low base first) (ho : s.Ordered) (hpos : 0 < l.size) :
    (∃ t ∈ s.log.pending, t.Meets l.span) ↔
      ∃ u ∈ s.log.pending, s.log.lastBefore l.finish = some u ∧ l.offset < u.finish := by
  have hspan : l.span.start < l.span.finish := Nat.lt_add_of_pos_right hpos
  constructor
  · rintro ⟨t, ht, hmeets⟩
    obtain ⟨hstart, hfinish⟩ := (Span.meets_iff (h.pending_bounds ht).2.1 hspan).mp hmeets
    obtain ⟨u, hu, hlast, -, hle⟩ := h.lastBefore_le ho ht hstart
    exact ⟨u, hu, hlast, Nat.lt_of_lt_of_le hfinish hle⟩
  · rintro ⟨u, hu, hlast, hover⟩
    have hbefore := (List.mem_filter.mp (List.mem_of_getLast? hlast)).2
    rw [decide_eq_true_eq] at hbefore
    exact ⟨u, hu, (Span.meets_iff (h.pending_bounds hu).2.1 hspan).mpr ⟨hbefore, hover⟩⟩

/-- The check of one range against the check of all. -/
theorem Tiled.checkReadable_eq (h : s.Tiled low base first) (ho : s.Ordered) (hpos : 0 < l.size) :
    s.log.checkReadable l = s.log.checkAll l := by
  have hspan : l.span.start < l.span.finish := Nat.lt_add_of_pos_right hpos
  have hany : (s.log.pending.any fun t => t.start < l.finish && l.offset < t.finish) = true ↔
      ∃ t ∈ s.log.pending, t.Meets l.span := by
    rw [List.any_eq_true]
    refine exists_congr fun t => and_congr_right fun ht => ?_
    rw [Span.meets_iff (h.pending_bounds ht).2.1 hspan, Bool.and_eq_true, decide_eq_true_eq, decide_eq_true_eq]
    rfl
  unfold ContentLog.checkReadable ContentLog.checkAll
  by_cases hout : l.offset < headSize ∨ s.log.cursor < l.finish
  · rw [if_pos hout, if_pos hout]
  rw [if_neg hout, if_neg hout]
  by_cases hmeets : ∃ t ∈ s.log.pending, t.Meets l.span
  · obtain ⟨u, -, hlast, hover⟩ := (h.meets_iff_last ho hpos).mp hmeets
    simp only [hlast, if_pos hover, if_pos (hany.mpr hmeets)]
  · rw [if_neg fun ht => hmeets (hany.mp ht)]
    cases hlast : s.log.lastBefore l.finish with
    | none => rfl
    | some u =>
      have hu := (List.mem_filter.mp (List.mem_of_getLast? hlast)).1
      exact if_neg fun hover => hmeets ((h.meets_iff_last ho hpos).mpr ⟨u, hu, hlast, hover⟩)

/-- What is refused: what is not between the header and the cursor, and what a pending range has a byte of. -/
theorem Tiled.refused_iff (h : s.Tiled low base first) (ho : s.Ordered) (hpos : 0 < l.size) :
    (∃ e, s.log.checkReadable l = .error e) ↔
      l.offset < headSize ∨ s.log.cursor < l.finish ∨ ∃ t ∈ s.log.pending, t.Meets l.span := by
  rw [h.meets_iff_last ho hpos]
  unfold ContentLog.checkReadable
  by_cases hout : l.offset < headSize ∨ s.log.cursor < l.finish
  · rw [if_pos hout]
    exact iff_of_true ⟨_, rfl⟩ (hout.imp_right .inl)
  rw [if_neg hout, ← or_assoc]
  cases hlast : s.log.lastBefore l.finish with
  | none => simp [hout]
  | some u =>
    have hu := (List.mem_filter.mp (List.mem_of_getLast? hlast)).1
    by_cases hover : l.offset < u.finish
    · simp only [if_pos hover]
      exact iff_of_true ⟨_, rfl⟩ (.inr ⟨u, hu, rfl, hover⟩)
    · simp only [if_neg hover]
      refine iff_of_false nofun ?_
      rintro (hout' | ⟨u', -, heq, hover'⟩)
      · exact hout hout'
      · cases heq
        exact hover hover'

end Traffic

namespace ContentLog

variable {v v' : Volume} {path : String} {capacity bufferSize : Nat} {c : ContentLog}

/-- However appends, commits and rollbacks interleave after an opening, and however many ranges
    are pending: a location that holds something is refused just if it starts in the header, or
    its end does not fit an unsigned word or lies past the cursor, or a pending range has a byte
    of it. The look at one range answers as the look at all. The bytes of a location that is not
    refused can be read just if the file reaches to its end. -/
theorem readable_exact (hv : v.Sound) (h : openAt v path capacity bufferSize = (.ok c, v')) (moves : List Move)
    (l : Location) (hpos : 0 < l.size) :
    let s := (Traffic.idle c v'.disk).run moves
    ((∃ e, s.log.checkReadable l = .error e) ↔ l.offset < headSize ∨
      (maxUnsigned < l.offset + l.size ∨ s.log.cursor < l.offset + l.size) ∨ ∃ t ∈ s.log.pending, t.Meets l.span) ∧
    s.log.checkReadable l = s.log.checkAll l ∧
    ((∃ bs, s.log.get s.disk l = .ok bs) ↔
      s.log.checkReadable l = .ok () ∧ l.offset + l.size ≤ s.log.capacity) := by
  intro s
  have hopened := openAt_spec hv h
  have h₀ : (Traffic.idle c v'.disk).Tiled headSize c.cursor (v'.disk.image c.log.file) := hopened.resting.tiled headSize
  have ho₀ : (Traffic.idle c v'.disk).Ordered := by
    unfold Traffic.Ordered
    rw [show (Traffic.idle c v'.disk).log.pending = [] from hopened.pending]
    exact .nil
  have hs : s.Tiled headSize c.cursor (v'.disk.image c.log.file) :=
    Traffic.tiled_run h₀ moves fun _ _ _ => Nat.le_refl _
  have ho : s.Ordered := h₀.ordered_run ho₀ moves
  refine ⟨?_, hs.checkReadable_eq ho hpos, get_ok_iff _ _ hpos⟩
  -- an end that does not fit a word lies past the cursor, which fits a signed one
  have hwraps : maxUnsigned < l.finish ∨ s.log.cursor < l.finish ↔ s.log.cursor < l.finish := by
    have hcursor := hs.cursor_le
    unfold maxSigned at hcursor
    unfold maxUnsigned
    omega
  rw [hs.refused_iff ho hpos]
  exact or_congr_right (or_congr_left hwraps.symm)

/-- Three appends in a new log of 16 bytes. The second one has returned, and its location can be
    read between the ranges of the two others; one byte more on its left is refused. -/
theorem middle_of_three_readable :
    let space : Volume.Space := fun _ => .ok 40
    ∃ c v', openAt (Volume.empty 4096) "store.bin" 8 2 = (.ok c, v') ∧
      let s := (Traffic.idle c v'.disk).run [.reserve 3, .reserve 2, .reserve 4, .room 1 space,
        .feed 1 (.ok [7, 8]), .release 1]
      s.log.pending = [⟨8, 11⟩, ⟨13, 17⟩] ∧ (∃ bs, s.log.get s.disk ⟨2, 11, default⟩ = .ok bs) ∧
        (∃ e, s.log.checkReadable ⟨3, 10, default⟩ = .error e) := by
  have hexact := readable_exact (Volume.sound_empty 4096) shortLog_opens [.reserve 3, .reserve 2, .reserve 4,
    .room 1 fun _ => .ok 40, .feed 1 (.ok [7, 8]), .release 1]
  refine ⟨_, _, shortLog_opens, by decide +kernel, ?_, ?_⟩
  · exact (hexact ⟨2, 11, default⟩ (by decide)).2.2.mpr ⟨by rfl, by decide +kernel⟩
  · exact (hexact ⟨3, 10, default⟩ (by decide)).1.mpr
      (.inr (.inr ⟨⟨8, 11⟩, by decide +kernel, 10, ⟨by decide, by decide⟩, by decide, by decide⟩))

end ContentLog

end TwinLog
