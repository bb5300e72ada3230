/-
  TwinLog.Proofs.ContentLog.Streaming — what a transfer has done with the bytes it took.

  `Progress.Holds start size received` says how an append of `size` bytes at `start`
  stands once its source has handed over `received`: while it waits, the bytes it took
  are those on disk followed by those of the chunk in hand; once it has succeeded, all of
  them are on disk and the location it answers is theirs. A reading keeps this and changes
  no byte outside the range (`advance_holds`).
-/

import TwinLog.Proofs.ContentLog.Traffic

namespace TwinLog

/-- How an append of `size` bytes at `start` stands after `received`, its file being `im`. -/
def Progress.Holds (start size : Nat) (received : List UInt8) (im : Image) : Progress → Prop
  | .waiting t => t.start = start ∧ t.size = size ∧ received = t.written.toList ++ t.filling.toList ∧
      im.read start t.written.size = t.written.toList
  | .ended (.ok l) =>
    l = ⟨size, start, Checksum.of received⟩ ∧ received.length = size ∧ im.read start size = received
  | .ended (.error _) => True

/-- The bytes of a range decide how an append in it stands. -/
theorem Progress.Holds.keep {start size : Nat} {received : List UInt8} {im im' : Image} {p : Progress}
    (h : p.Holds start size received im) (hk : Image.Keeps start (start + size) im im') :
    p.Holds start size received im' := by
  cases p with
  | waiting t =>
    obtain ⟨hs, hz, hr, hw⟩ := h
    have := t.delivered_lt
    exact ⟨hs, hz, hr, (hk.read_eq (Nat.le_refl _) (by omega)).trans hw⟩
  | ended result =>
    cases result with
    | error e => trivial
    | ok l => exact ⟨h.1, h.2.1, (hk.read_eq (Nat.le_refl _) (Nat.le_refl _)).trans h.2.2⟩

namespace Transfer

variable {t : Transfer} {log : Log} {d : Disk} {received : List UInt8}

theorem finishChunk_holds (hm : log.Mounted d) (hfits : t.start + t.size ≤ log.capacity)
    (hw : (d.image log.file).read t.start t.written.size = t.written.toList) (filling : Array UInt8)
    (hf : t.written.size + filling.size ≤ t.size) :
    ∃ p d', t.finishChunk filling log d = (p, d') ∧ log.Mounted d' ∧ d.OnlyAt log.file d' ∧
      (∀ lo hi, hi ≤ t.start ∨ t.start + t.size ≤ lo → Image.Keeps lo hi (d.image log.file) (d'.image log.file)) ∧
      p.Holds t.start t.size (t.written.toList ++ filling.toList) (d'.image log.file) := by
  obtain ⟨d', hwrite, hm', ho, hi⟩ := Log.write_spec hm (t.start + t.written.size) filling.toList
    (by simp only [Array.length_toList]; omega)
  have hsize : (t.written ++ filling).size = t.written.size + filling.size := Array.size_append
  have hread : (d'.image log.file).read t.start (t.written ++ filling).size = (t.written ++ filling).toList := by
    have below : (d'.image log.file).read t.start t.written.size = t.written.toList := by
      rw [hi, ← hw]
      exact (Image.keeps_write_below (Nat.le_refl _)).read_eq (Nat.le_refl _) (Nat.le_refl _)
    have chunk : (d'.image log.file).read (t.start + t.written.size) filling.size = filling.toList := by
      rw [hi, ← Array.length_toList]
      exact Image.read_write ..
    rw [hsize, Image.read_add, below, chunk, Array.toList_append]
  have hkeep : ∀ lo hi, hi ≤ t.start ∨ t.start + t.size ≤ lo →
      Image.Keeps lo hi (d.image log.file) (d'.image log.file) := by
    intro lo hi' hout
    rw [hi]
    rcases hout with h | h
    · exact Image.keeps_write_below (by omega)
    · exact Image.keeps_write_above (by simp only [Array.length_toList]; omega)
  unfold finishChunk
  rw [hwrite]
  dsimp only
  split
  · exact ⟨_, _, rfl, hm', ho, hkeep, rfl, rfl, by simp, hread⟩
  · rename_i hdone
    refine ⟨_, _, rfl, hm', ho, hkeep, ?_, ?_, ?_⟩
    · rw [location, Array.toList_append]
      congr 1
      omega
    · simp only [List.length_append, Array.length_toList]
      omega
    · rw [← Array.toList_append, ← hread]
      congr 1
      omega

/-- A reading moves an append on inside its own range. -/
theorem advance_holds {start size : Nat} (hm : log.Mounted d) (hfits : start + size ≤ log.capacity)
    (h : (Progress.waiting t).Holds start size received (d.image log.file)) (r : Reading) :
    ∃ p d', t.advance r log d = (p, d') ∧ log.Mounted d' ∧ d.OnlyAt log.file d' ∧
      (∀ lo hi, hi ≤ start ∨ start + size ≤ lo → Image.Keeps lo hi (d.image log.file) (d'.image log.file)) ∧
      p.Holds start size (received ++ t.takes r) (d'.image log.file) := by
  obtain ⟨rfl, rfl, rfl, hw⟩ := h
  have hlt := t.delivered_lt
  have still : ∀ lo hi, hi ≤ t.start ∨ t.start + t.size ≤ lo →
      Image.Keeps lo hi (d.image log.file) (d.image log.file) := fun _ _ _ => .refl
  unfold advance
  split
  · rename_i e
    split
    · exact ⟨_, _, rfl, hm, .refl, still, rfl, rfl, by simp [takes], hw⟩
    · exact ⟨_, _, rfl, hm, .refl, still, trivial⟩
  · split
    · exact ⟨_, _, rfl, hm, .refl, still, trivial⟩
    · simpa [takes] using finishChunk_holds hm hfits hw t.filling (by omega)
  · rename_i bs _
    have hbs : (bs.take t.wants).length ≤ t.wants := List.length_take_le ..
    have hroom : t.wants ≤ t.size - (t.written.size + t.filling.size) := Nat.min_le_right ..
    dsimp only
    split
    · exact ⟨_, _, rfl, hm, .refl, still, rfl, rfl, by simp [takes], hw⟩
    · have := finishChunk_holds hm hfits hw (t.filling ++ (bs.take t.wants).toArray)
        (by simp only [Array.size_append, List.size_toArray]; omega)
      simpa [takes] using this

end Transfer

namespace ContentLog

section Ensure

variable {c c' : ContentLog} {d d' : Disk} {space : Volume.Space} {finish : Nat} {e : Fault}

theorem ensure_grows (h : c.ensure space d finish = .ok (c', d')) :
    ∃ grew, c.log.grow space d finish = .ok (grew, c'.log, d') ∧ c' = { c with log := c'.log } := by
  unfold ensure at h
  cases hg : c.log.grow space d finish with
  | error e => rw [hg] at h; cases h
  | ok grown =>
    obtain ⟨grew, l, d''⟩ := grown
    rw [hg] at h
    cases h
    exact ⟨grew, rfl, rfl⟩

theorem ensure_fails (h : c.ensure space d finish = .error e) : c.log.grow space d finish = .error e := by
  unfold ensure at h
  cases hg : c.log.grow space d finish with
  | error e' => rw [hg] at h; cases h; rfl
  | ok grown => rw [hg] at h; cases h

/-- Making room changes the log under a content log and nothing else of it. -/
theorem ensure_spec (hm : c.log.Mounted d) (h : c.ensure space d finish = .ok (c', d')) :
    c'.log.file = c.log.file ∧ c'.cursor = c.cursor ∧ c'.pending = c.pending ∧ c.log.capacity ≤ c'.log.capacity ∧
      finish ≤ c'.log.capacity ∧ c'.log.Mounted d' ∧ d.OnlyAt c.log.file d' ∧
      Image.Keeps 0 c.log.capacity (d.image c.log.file) (d'.image c.log.file) := by
  obtain ⟨grew, hg, heq⟩ := ensure_grows h
  obtain ⟨hfile, -, hcap, hreq, hm', ho, hk⟩ := Log.grow_spec hm hg
  exact ⟨hfile, by rw [heq], by rw [heq], hcap, hreq, hm', ho, hk⟩

end Ensure

/-- A commit that succeeds writes the header alone, with the cursor or the end of the file. -/
theorem commit_ok {c : ContentLog} {d d' : Disk} (hm : c.log.Mounted d) (h : c.commit d = .ok d') :
    c.log.Mounted d' ∧ d.OnlyAt c.log.file d' ∧
      (headSize ≤ min c.cursor c.capacity → (d'.image c.log.file).Headed (min c.cursor c.capacity)) ∧
      Image.Keeps headSize c.capacity (d.image c.log.file) (d'.image c.log.file) := by
  obtain ⟨hmf, hof, hkf⟩ := Log.flush_spec hm
  obtain ⟨hm', ho, hh, hk⟩ := Log.storeCursor_ok hmf h
  exact ⟨hm', hof.trans ho, hh, (hkf.mono (Nat.zero_le _) (Nat.le_refl _)).trans hk⟩

@[simp] theorem release_log (c : ContentLog) (s : Span) : (c.release s).log = c.log := by
  unfold release; split <;> rfl

@[simp] theorem release_cursor (c : ContentLog) (s : Span) : (c.release s).cursor = c.cursor := by
  unfold release; split <;> rfl

@[simp] theorem release_checkpoint (c : ContentLog) (s : Span) : (c.release s).checkpoint = c.checkpoint := by
  unfold release; split <;> rfl

end ContentLog

end TwinLog
