/-
  TwinLog.Proofs.ContentLog.Returns — what an append has returned can be read from then on.

  `frame_step` says what every move keeps; in particular an append that has returned stays
  as it is. Its range is its own (`Tiled`), so no other append writes there and no pending
  range touches it: `get_returned` reads back what the source handed over.
-/

import TwinLog.Proofs.ContentLog.Tiling
import TwinLog.Proofs.Log.Opening

namespace TwinLog

structure Append.Carries (a : Append) (c : ContentLog) (d : Disk) (r : Append × ContentLog × Disk) : Prop where
  file : r.2.1.log.file = c.log.file
  checkpoint : r.2.1.checkpoint = c.checkpoint
  capacity_le : c.capacity ≤ r.2.1.capacity
  only : d.OnlyAt c.log.file r.2.2
  returned : ∀ l, a.stage = .returned l → r.1 = a

namespace Append.Carries

variable {a a' : Append} {c : ContentLog} {d d' : Disk}

theorem refl : Carries a c d (a, c, d) := ⟨rfl, rfl, Nat.le_refl _, .refl, fun _ _ => rfl⟩

theorem moved (ho : d.OnlyAt c.log.file d') (hs : ∀ l, a.stage ≠ .returned l) : Carries a c d (a', c, d') :=
  ⟨rfl, rfl, Nat.le_refl _, ho, fun l h => absurd h (hs l)⟩

theorem counted {log : ContentLog} (hlog : log.log = c.log) (hcheck : log.checkpoint = c.checkpoint)
    (hs : ∀ l, a.stage ≠ .returned l) : Carries a c d (a', log, d) := by
  have hcap : c.capacity ≤ log.capacity := by
    unfold ContentLog.capacity
    exact Nat.le_of_eq (by rw [hlog])
  exact ⟨by rw [hlog], hcheck, hcap, .refl, fun l h => absurd h (hs l)⟩

theorem room (hm : c.log.Mounted d) (space : Volume.Space) : a.Carries c d (a.room space c d) := by
  unfold Append.room
  split
  · rename_i hs
    have under : ∀ l, a.stage ≠ .returned l := fun l hl => nomatch hs.symm.trans hl
    cases he : c.ensure space d a.span.finish with
    | error e => exact .moved .refl under
    | ok made =>
      obtain ⟨c', d'⟩ := made
      obtain ⟨hfile, -, -, hcap, -, -, ho, -⟩ := ContentLog.ensure_spec hm he
      obtain ⟨-, -, hmade⟩ := ContentLog.ensure_grows he
      have hcheck : c'.checkpoint = c.checkpoint := by rw [hmade]
      exact ⟨hfile, hcheck, hcap, ho, fun l hl => absurd hl (under l)⟩
  · exact .refl

theorem feed (hm : c.log.Mounted d) (hsound : a.Sound c.log d) (r : Reading) : a.Carries c d (a.feed r c d) := by
  unfold Append.Sound at hsound
  unfold Append.feed
  split
  · rename_i t hs
    have under : ∀ l, a.stage ≠ .returned l := fun l hl => nomatch hs.symm.trans hl
    rw [hs] at hsound
    obtain ⟨p, d', hadv, -, ho, -, -⟩ := t.advance_holds hm hsound.1 hsound.2 r
    dsimp only
    rw [hadv]
    cases p with
    | waiting u => exact .moved ho under
    | ended result => exact .moved ho under
  · exact .refl

theorem release (a : Append) (c : ContentLog) (d : Disk) : a.Carries c d (a.release c d) := by
  unfold Append.release
  split
  · rename_i hs
    exact counted (ContentLog.release_log ..) (ContentLog.release_checkpoint ..) fun l hl => nomatch hs.symm.trans hl
  · rename_i hs
    exact counted (ContentLog.release_log ..) (ContentLog.release_checkpoint ..) fun l hl => nomatch hs.symm.trans hl
  · rename_i hs
    exact counted (ContentLog.release_log ..) (ContentLog.release_checkpoint ..) fun l hl => nomatch hs.symm.trans hl
  · exact .refl

end Append.Carries

namespace Traffic

variable {low base : Nat} {first : Image} {s s' : Traffic} {i : Nat} {a : Append}

/-! ## Every move keeps the frame -/

theorem frame_act {f : Append → ContentLog → Disk → Append × ContentLog × Disk}
    (hf : ∀ a, s.appends[i]? = some a → a.Carries s.log s.disk (f a s.log s.disk)) : Frame s (s.act i f) := by
  unfold act
  split
  · exact .refl s
  · rename_i a ha
    have hc := hf a ha
    refine ⟨hc.file, hc.checkpoint, hc.capacity_le, hc.only, ?_⟩
    rintro j l bs ⟨b, hb, hstage, hbs⟩
    refine ⟨b, ?_, hstage, hbs⟩
    by_cases hij : i = j
    · subst hij
      cases ha.symm.trans hb
      obtain ⟨hlt, -⟩ := List.getElem?_eq_some_iff.mp ha
      show (s.appends.set i _)[i]? = some a
      rw [List.getElem?_set_self hlt, hc.returned l hstage]
    · show (s.appends.set i _)[j]? = some b
      rw [List.getElem?_set_ne hij, hb]

theorem frame_head {store : ContentLog → Disk → Except Fault Disk}
    (hstore : ∀ d, store s.log s.disk = .ok d → s.disk.OnlyAt s.log.log.file d) : Frame s (s.head store) := by
  unfold head
  split
  · exact .refl s
  · rename_i d hd
    exact ⟨rfl, rfl, Nat.le_refl _, hstore d hd, fun _ _ _ h => h⟩

theorem frame_reserve (s : Traffic) (size : Nat) : Frame s (s.step (.reserve size)) := by
  simp only [step, ContentLog.reserve]
  by_cases hfits : s.log.cursor + size ≤ maxSigned
  · simp only [if_pos hfits]
    refine ⟨rfl, rfl, Nat.le_refl _, .refl, ?_⟩
    rintro j l bs ⟨b, hb, hrest⟩
    exact ⟨b, getElem?_snoc_of_some hb, hrest⟩
  · simp only [if_neg hfits]
    exact .refl s

theorem frame_step (h : s.Tiled low base first) (m : Move) : Frame s (s.step m) := by
  cases m with
  | reserve size => exact frame_reserve s size
  | room i space => exact frame_act fun a _ => .room h.mounted space
  | feed i r => exact frame_act fun a hi => .feed h.mounted (h.sound i a hi) r
  | release i => exact frame_act fun a _ => .release a s.log s.disk
  | commit => exact frame_head fun d hd => (ContentLog.commit_ok h.mounted hd).2.1
  | rollback => exact frame_head fun d hd => (Log.storeCursor_ok h.mounted hd).2.1

theorem frame_run (h : s.Tiled low base first) (moves : List Move)
    (hlow : ∀ m ∈ moves, m.heads → headSize ≤ low) :
    Frame s (s.run moves) := by
  induction moves generalizing s with
  | nil => exact .refl s
  | cons m moves ih =>
    have hnext := tiled_step h m (hlow m List.mem_cons_self)
    exact (frame_step h m).trans (ih hnext fun n hn => hlow n (List.mem_cons_of_mem m hn))

/-! ## Reading what an append has returned -/

/-- The location of a returned append, its range and its bytes. -/
theorem returned_spec (h : s.Tiled low base first) {l : Location} {bs : List UInt8} (hr : s.Returned i l bs) :
    l = ⟨bs.length, l.offset, Checksum.of bs⟩ ∧ l.finish ≤ s.log.capacity ∧
      (s.disk.image s.log.log.file).read l.offset l.size = bs ∧
      (0 < l.size → ⟨l.offset, l.finish⟩ ∈ s.held) := by
  obtain ⟨a, hi, hs, rfl⟩ := hr
  have hsound := h.sound i a hi
  unfold Append.Sound at hsound
  rw [hs] at hsound
  obtain ⟨hfits, rfl, hlen, hread⟩ := hsound
  refine ⟨by rw [hlen], hfits, hread, ?_⟩
  intro hpos
  exact Tiled.mem_held hi (Append.held?_of_kept (Nat.ne_of_gt hpos) fun e he => nomatch hs.symm.trans he)

/-- No pending range touches what has been returned. -/
theorem readable_returned (h : s.Tiled low base first) {l : Location} {bs : List UInt8}
    (hr : s.Returned i l bs) (hpos : 0 < l.size) :
    s.log.checkReadable l = .ok () := by
  obtain ⟨-, -, -, hheld⟩ := returned_spec h hr
  have hbounds := h.held_bounds (hheld hpos)
  have hlo := h.head_le
  dsimp only at hbounds
  unfold ContentLog.checkReadable
  rw [if_neg (by omega)]
  split
  · rename_i t hlast
    have hmem : t ∈ s.log.pending.filter (·.start < l.finish) := List.mem_of_getLast? hlast
    obtain ⟨hmem, hstart⟩ := List.mem_filter.mp hmem
    simp only [decide_eq_true_eq] at hstart
    -- the pending range is that of another append, which has not returned
    obtain ⟨b, hb, hbt⟩ := List.mem_filterMap.mp (h.pending.mem_iff.mp hmem)
    obtain ⟨j, hj⟩ := List.getElem?_of_mem hb
    obtain ⟨a, hi, hs, rfl⟩ := hr
    have hij : i ≠ j := by
      rintro rfl
      cases hi.symm.trans hj
      unfold Append.unreleased? at hbt
      rw [hs] at hbt
      split at hbt <;> cases hbt
    have hsound := h.sound i a hi
    unfold Append.Sound at hsound
    rw [hs] at hsound
    obtain ⟨-, rfl, -⟩ := hsound
    have ha := Append.held?_of_kept (a := a) (Nat.ne_of_gt hpos) fun e he => nomatch hs.symm.trans he
    have hbh := Append.held?_of_unreleased? hbt
    obtain ⟨rfl, -⟩ := Append.held?_eq hbh
    rcases h.span_apart hi hj hij ha hbh with hap | hap
    · simp only [Append.span, Location.finish] at hap hstart
      omega
    · rw [if_neg]
      simp only [Append.span] at hap ⊢
      omega
  · rfl

/-- What a returned location reads as. -/
theorem read_returned (h : s.Tiled low base first) {l : Location} {bs : List UInt8} (hr : s.Returned i l bs) :
    s.log.log.read s.disk l.offset l.size = .ok bs := by
  obtain ⟨-, hfits, hread, -⟩ := returned_spec h hr
  rw [Log.read_ok hfits, hread]

theorem get_returned (h : s.Tiled low base first) {l : Location} {bs : List UInt8} (hr : s.Returned i l bs) :
    s.log.get s.disk l = .ok bs := by
  unfold ContentLog.get
  split
  · rename_i h0
    obtain ⟨hl, -⟩ := returned_spec h hr
    have : bs.length = 0 := by rw [hl] at h0; exact h0
    rw [List.length_eq_zero_iff.mp this]
  · rename_i h0
    rw [readable_returned h hr (Nat.pos_of_ne_zero h0)]
    exact read_returned h hr

end Traffic

/-! ## From the opening on -/

namespace ContentLog

structure Opened (v : Volume) (path : String) (capacity : Nat) (c : ContentLog) (v' : Volume) : Prop where
  log : Log.Opened v path capacity c.log v'
  headed : (v'.disk.image c.log.file).Headed c.cursor
  cursor_le : c.cursor ≤ c.log.capacity
  checkpoint : c.checkpoint = c.cursor
  pending : c.pending = []

variable {v v' : Volume} {path : String} {capacity bufferSize : Nat} {c : ContentLog}

theorem openAt_spec (hv : v.Sound) (h : openAt v path capacity bufferSize = (.ok c, v')) :
    Opened v path capacity c v' := by
  unfold openAt at h
  split at h
  · split at h
    · cases h
    · rename_i log w hopen
      have ho := Log.openAt_spec hv hopen
      split at h
      · cases h
      · rename_i cursor hcursor
        cases h
        obtain ⟨hh, hle⟩ := (Log.loadCursor_iff ho.mounted).mp hcursor
        exact ⟨ho, hh, hle, rfl, rfl⟩
  · cases h

theorem log_of_openAt (h : openAt v path capacity bufferSize = (.ok c, v')) :
    Log.openAt v path capacity = .ok (c.log, v') := by
  unfold openAt at h
  split at h
  · split at h
    · cases h
    rename_i log w hopen
    split at h
    · cases h
    · cases h
      exact hopen
  · cases h

theorem Opened.cursor_eq (h : Opened v path capacity c v') {p : Nat}
    (hp : (v.disk.image c.log.file).Resumes p) :
    c.cursor = p := h.headed.unique (h.log.resumes hp).1

/-- Opening a file that resumes somewhere succeeds. -/
theorem openAt_resumes (hv : v.Sound) {log : Log} (h : Log.openAt v path capacity = .ok (log, v')) {p : Nat}
    (hp : (v.disk.image log.file).Resumes p) (hb : 0 < bufferSize) :
    openAt v path capacity bufferSize = (.ok ⟨log, p, p, [], bufferSize, hb⟩, v') := by
  have ho := Log.openAt_spec hv h
  unfold openAt
  rw [dif_pos hb, h]
  dsimp only
  rw [(Log.loadCursor_iff ho.mounted).mpr (ho.resumes hp)]

/-- A log in which nothing is under way and whose file reaches to the cursor. -/
structure Resting (c : ContentLog) (d : Disk) : Prop where
  mounted : c.log.Mounted d
  head_le : headSize ≤ c.cursor
  cursor_le : c.cursor ≤ c.capacity
  fits : c.cursor ≤ maxSigned
  pending : c.pending = []

theorem Opened.resting (h : Opened v path capacity c v') : Resting c v'.disk :=
  ⟨h.log.mounted, h.headed.head_le, h.cursor_le, h.headed.le_maxSigned, h.pending⟩

theorem Resting.tiled {d : Disk} (h : Resting c d) (low : Nat) :
    (Traffic.idle c d).Tiled low c.cursor (d.image c.log.file) where
  mounted := h.mounted
  head_le := h.head_le
  base_le := h.cursor_le
  cursor_le := h.fits
  tiling := ⟨[], rfl, .refl _⟩
  pending := by rw [Traffic.idle, h.pending]; exact .refl _
  sound := fun i a ha => nomatch ha
  below := .refl

/-- However appends, commits and rollbacks interleave after an opening: the ranges that were
    not given back lie end to end from the cursor of then to the cursor of now, pending is
    what is reserved and not released, and what an append has returned is read back, at
    once and ever after, as the bytes it received. -/
theorem run_tiles_and_keeps_returned (hv : v.Sound) (h : openAt v path capacity bufferSize = (.ok c, v'))
    (moves : List Move) :
    let s := (Traffic.idle c v'.disk).run moves
    (∃ row, Consecutive c.cursor row s.log.cursor ∧ row.Perm s.held) ∧ s.log.pending.Perm s.unreleased ∧
      ∀ i l bs, s.Returned i l bs → ∀ more,
        let s' := s.run more
        (0 < l.size → s'.log.checkReadable l = .ok ()) ∧ s'.log.log.read s'.disk l.offset l.size = .ok bs ∧
          s'.log.get s'.disk l = .ok bs := by
  intro s
  have low : ∀ (ms : List Move), ∀ m ∈ ms, m.heads → headSize ≤ headSize := fun _ _ _ _ => Nat.le_refl _
  have hs : s.Tiled headSize c.cursor (v'.disk.image c.log.file) :=
    Traffic.tiled_run ((openAt_spec hv h).resting.tiled headSize) moves (low moves)
  refine ⟨hs.tiling, hs.pending, ?_⟩
  intro i l bs hr more
  have hs' := Traffic.tiled_run hs more (low more)
  have hr' := (Traffic.frame_run hs more (low more)).returned i l bs hr
  exact ⟨Traffic.readable_returned hs' hr', Traffic.read_returned hs' hr', Traffic.get_returned hs' hr'⟩

def shortLog : ContentLog := ⟨⟨"store.bin", 0, 16⟩, 8, 8, [], 2, Nat.zero_lt_two⟩

def shortVolume : Volume := ⟨#[.folder 0 [("work", 1)], .folder 0 [("store.bin", 2)], .file 0], ⟨#[⟨{}, 16⟩]⟩, 4096⟩

theorem shortLog_opens : openAt (Volume.empty 4096) "store.bin" 8 2 = (.ok shortLog, shortVolume) := by
  set_option maxRecDepth 20000 in rfl

/-- Two appends at once in a new log of 16 bytes. The second one finds no room and gives its
    range back; the first one is read back after it, and after a third one and a commit. -/
theorem overlapping_appends_read_back :
    let space : Volume.Space := fun _ => .ok 40
    ∃ c v', openAt (Volume.empty 4096) "store.bin" 8 2 = (.ok c, v') ∧
      let s := (Traffic.idle c v'.disk).run [.reserve 3, .reserve 40, .room 0 space, .feed 0 (.ok [7, 8, 9]),
        .room 1 space, .feed 0 (.ok [9]), .release 0, .release 1]
      let s' := s.run [.reserve 4, .room 2 space, .commit, .feed 2 (.ok [1, 1])]
      s.log.cursor = 11 ∧ s.Returned 0 ⟨3, 8, Checksum.of [7, 8, 9]⟩ [7, 8, 9] ∧
        s'.log.get s'.disk ⟨3, 8, Checksum.of [7, 8, 9]⟩ = .ok [7, 8, 9] := by
  have hrun := run_tiles_and_keeps_returned (Volume.sound_empty 4096) shortLog_opens
  refine ⟨_, _, shortLog_opens, by decide +kernel, ?_, ?_⟩
  · exact ⟨⟨8, 3, .returned ⟨3, 8, Checksum.of [7, 8, 9]⟩, [7, 8, 9]⟩, by rfl, rfl, rfl⟩
  · obtain ⟨-, -, hread⟩ := hrun [.reserve 3, .reserve 40, .room 0 fun _ => .ok 40, .feed 0 (.ok [7, 8, 9]),
      .room 1 fun _ => .ok 40, .feed 0 (.ok [9]), .release 0, .release 1]
    refine (hread 0 _ [7, 8, 9] ?_ _).2.2
    exact ⟨⟨8, 3, .returned ⟨3, 8, Checksum.of [7, 8, 9]⟩, [7, 8, 9]⟩, by rfl, rfl, rfl⟩

end ContentLog

end TwinLog
