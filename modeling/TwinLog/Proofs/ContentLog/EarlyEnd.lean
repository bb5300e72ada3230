/-
  TwinLog.Proofs.ContentLog.EarlyEnd — when an empty answer is taken for the end of the source.

  Whoever sums up a source takes its first empty answer for the end. An append does so only
  where the chunk in hand is empty and something was answered before: at the end of a full
  chunk, or after another empty answer. An empty answer in the middle of a chunk, and the
  very first answer, only cut the chunk short, and the source is asked again.

  - `early_end_iff` is the exact condition, for every source and every log. A source that
    brings nothing more after an empty answer is reported, with the number of bytes up to it.
  - `pause_in_chunk_passed_over`: one script that goes on after an empty answer is stored
    whole where chunks are large, and refused where they are small.
-/

import TwinLog.Proofs.ContentLog.Requests

namespace TwinLog

theorem Transfer.advance_empty {log : Log} {t : Transfer} (hfits : t.start + t.size ≤ log.capacity) (d : Disk) :
    t.filling.size = 0 ∧ t.fresh = false ∧
        t.advance (.ok []) log d = (.ended (.error (endedEarly t.soFar.length t.size)), d) ∨
      ¬ (t.filling.size = 0 ∧ t.fresh = false) ∧ ∃ u d', t.advance (.ok []) log d = (.waiting u, d') := by
  have hlt := t.delivered_lt
  rw [advance]
  by_cases hnone : t.filling.size = 0 ∧ t.fresh = false
  · obtain ⟨hempty, hfresh⟩ := hnone
    have hsofar : t.soFar.length = t.written.size := by rw [length_soFar, hempty, Nat.add_zero]
    rw [if_pos (by simp [Array.eq_empty_of_size_eq_zero hempty, hfresh]), hsofar]
    exact .inl ⟨hempty, hfresh, rfl⟩
  · have hgoes : ¬ (t.filling.isEmpty && !t.fresh) = true := by
      simpa [Array.isEmpty_iff_size_eq_zero] using hnone
    rw [if_neg hgoes]
    right
    refine ⟨hnone, ?_⟩
    have hchunk : t.start + t.written.size + t.filling.toList.length ≤ log.capacity := by
      rw [Array.length_toList]
      omega
    rcases ContentLog.finishChunk_ok t log d t.filling.toList hchunk with ⟨u, hfinish, -⟩ | ⟨hall, -⟩
    · exact ⟨u, _, hfinish⟩
    · rw [Array.length_toList] at hall
      omega

namespace ContentLog

variable {c ce : ContentLog} {d d' : Disk} {t u : Transfer} {src src' : Source} {r : Reading}
  {rs before after : List Reading} {space : Volume.Space} {size : Nat}

theorem heard_ne_nil (t : Transfer) (src : Source) (c : ContentLog) (d : Disk) : heard t src c d ≠ [] := by
  rw [heard]
  split
  · simp
  · simp

/-- A reading that a transfer does not end with is not the last one it hears. -/
theorem heard_on (h : t.advance (src.read d t.wants).1 c.log d = (.waiting u, d')) :
    heard t src c d = (src.read d t.wants).1 :: heard u (src.read d t.wants).2 c d' := by
  have hstep : c.step d t (src.read d t.wants).1 = (.waiting u, c, d') := by rw [step, h]
  rw [heard, hstep]

theorem heard_last {result : Except Fault Location}
    (h : t.advance (src.read d t.wants).1 c.log d = (.ended result, d')) :
    heard t src c d = [(src.read d t.wants).1] := by
  have hstep : c.step d t (src.read d t.wants).1 = (.ended result, c.release t.span, d') := by rw [step, h]
  rw [heard, hstep]

/-- After an interrupted read there is another one. -/
theorem heard_interrupted (h : heard t src c d = r :: after) (hint : Source.interrupted r = true) : after ≠ [] := by
  cases r with
  | ok bs => cases hint
  | error e =>
    have hadvance : t.advance (src.read d t.wants).1 c.log d = (.waiting t, d) := by
      rw [← heard_cons h]
      exact Transfer.advance_interrupted hint
    have hon := heard_on hadvance
    rw [h] at hon
    rw [(List.cons.inj hon).2]
    exact heard_ne_nil t _ c d

namespace Gets

/-- As long as it has not answered empty, a source gives what a patient reader gets. -/
theorem drained (h : Gets c t src d rs u src' d') (hother : ∀ p, src ≠ .file c.log.file p) (hsome : .ok [] ∉ rs) :
    src.drained d = (src'.drained d').map (delivered rs ++ ·) := by
  induction h with
  | @stays t src d =>
    rw [delivered_nil]
    cases src.drained d <;> rfl
  | @hears t u v src src' d d' d'' rs step rest ih =>
    have hother' : ∀ p, (src.read d t.wants).2 ≠ .file c.log.file p := other_read hother
    have hrest := ih hother' fun hmem => hsome (List.mem_cons_of_mem _ hmem)
    have hsame := Source.drained_congr (image_of_other (step_only step) hother')
    rw [Source.drained_read t.wants_pos, delivered_cons]
    have hfirst : (src.read d t.wants).1 ≠ .ok [] := fun hempty => hsome (hempty ▸ List.mem_cons_self)
    cases hanswer : (src.read d t.wants).1 with
    | ok bs =>
      rw [hanswer] at hfirst
      rw [Source.afterwards_ok (fun hnil => hfirst (congrArg Except.ok hnil)), ← hsame, hrest, Source.answered,
        Source.map_append_append]
    | error e =>
      by_cases he : e.isInterrupted = true
      · rw [Source.afterwards, if_pos he, ← hsame, hrest]
        rfl
      · unfold ContentLog.step at step
        rw [hanswer, Transfer.advance_failed he] at step
        cases step

end Gets

/-- Where an append is answered empty, it ends if it has nothing in hand and something was answered before,
    and else asks again. -/
theorem Asks.empty (h : c.Asks space d src size before u src' ce d') (hheard : heard u src' ce d' = .ok [] :: after) :
    (after = [] ↔ Transfer.inHand (min c.bufferSize size) before = 0 ∧ ∃ bs, .ok bs ∈ before) ∧
      (after = [] → (c.append space d src).result = .error (Transfer.endedEarly (delivered before).length size)) := by
  obtain ⟨reads, -, happend⟩ := h.append
  have hanswer := heard_cons hheard
  rw [← h.held, ← h.soFar, ← h.declares]
  rcases u.advance_empty h.fits d' with ⟨hnone, hfresh, hended⟩ | ⟨hgoes, v, d'', hwaiting⟩
  · rw [hanswer] at hended
    rw [heard_last hended] at hheard
    have hafter : after = [] := (List.cons.inj hheard).2.symm
    refine ⟨⟨fun _ => ⟨hnone, (h.fresh hnone).mp hfresh⟩, fun _ => hafter⟩, fun _ => ?_⟩
    rw [happend, serve_ended hended]
  · rw [hanswer] at hwaiting
    rw [heard_on hwaiting] at hheard
    have hafter : after ≠ [] := by
      rw [← (List.cons.inj hheard).2]
      exact heard_ne_nil v _ ce d''
    refine ⟨⟨fun hnone => absurd hnone hafter, ?_⟩, fun hnone => absurd hnone hafter⟩
    intro hends
    exact absurd ⟨hends.1, (h.fresh hends.1).mpr hends.2⟩ hgoes

/-- Up to its first empty answer an append gets what a patient reader gets. -/
theorem Asks.drained (h : c.Asks space d src size before u src' ce d') (hheard : heard u src' ce d' = .ok [] :: after)
    (hother : ∀ p, src ≠ .file c.log.file p) (hsome : .ok [] ∉ before) : src.drained d = .ok (delivered before) := by
  obtain ⟨t, de, honly, hgets⟩ := h.gets
  have hother' : ∀ p, src ≠ .file ce.log.file p := by
    rw [h.file]
    exact hother
  have hsource := hgets.drained hother' hsome
  rw [Source.drained_congr (image_of_other honly hother), Source.drained_read u.wants_pos src', ← heard_cons hheard] at hsource
  rw [hsource]
  show Except.ok (delivered before ++ []) = _
  rw [List.append_nil]

/-- Nothing was delivered by empty answers and interruptions. -/
theorem delivered_silent (h : ∀ r ∈ rs, r = .ok [] ∨ Source.interrupted r = true) : delivered rs = [] := by
  induction rs with
  | nil => rfl
  | cons r rs ih =>
    rw [delivered_cons, ih fun r hr => h r (List.mem_cons_of_mem _ hr), List.append_nil]
    rcases h r List.mem_cons_self with rfl | hint
    · rfl
    · cases r with
      | ok bs => cases hint
      | error e => rfl

/-- An append that is answered empty and gets no bytes afterwards reports how many it got. -/
theorem reports_silent (hdecl : src.declared d = .ok size) (hrs : c.readings space d src = before ++ .ok [] :: after)
    (hsilent : ∀ r ∈ after, r = .ok [] ∨ Source.interrupted r = true) :
    (c.append space d src).result = .error (Transfer.endedEarly (delivered before).length size) := by
  -- the last answer is no interruption, so it is empty too
  obtain ⟨front, last, hlast⟩ : ∃ front last, .ok [] :: after = front ++ [last] := by
    rcases List.eq_nil_or_concat (.ok [] :: after : List Reading) with hnil | ⟨front, last, hlast⟩
    · cases hnil
    · exact ⟨front, last, by rw [hlast, List.concat_eq_append]⟩
  have hall : ∀ r ∈ front ++ [last], r = .ok [] ∨ Source.interrupted r = true := by
    intro r hr
    rw [← hlast] at hr
    rcases List.mem_cons.mp hr with rfl | hr
    · exact .inl rfl
    · exact hsilent r hr
  have hrs' : c.readings space d src = (before ++ front) ++ last :: [] := by
    rw [hrs, hlast, List.append_assoc]
  obtain ⟨u, src', ce, d', hasks, hheard⟩ := readings_split hdecl hrs'
  have hempty : last = .ok [] := by
    rcases hall last (List.mem_append_right _ List.mem_cons_self) with hempty | hint
    · exact hempty
    · exact absurd rfl (heard_interrupted hheard hint)
  subst hempty
  obtain ⟨-, hresult⟩ := hasks.empty hheard
  rw [hresult rfl, delivered_append, delivered_silent fun r hr => hall r (List.mem_append_left _ hr), List.append_nil]

/-- An append is answered empty before the declared size has been delivered. It takes that for the end just if the chunk
    in hand is empty and something was answered before; then it fails, and says how many bytes there were. It
    comes to the same if it asks again and gets no more bytes. Who sums up the source takes the first
    empty answer for its end wherever it comes. -/
theorem early_end_iff {hasher : Hasher} (lawful : hasher.Lawful) (hdecl : src.declared d = .ok size)
    (hrs : c.readings space d src = before ++ .ok [] :: after) {r : Appended}
    (hr : c.appendBuffered hasher space d src = r) :
    (delivered before).length < size ∧
    (after = [] ↔ Transfer.inHand (min c.bufferSize size) before = 0 ∧ ∃ bs, .ok bs ∈ before) ∧
    ((∀ answer ∈ after, answer = .ok [] ∨ Source.interrupted answer = true) →
      r.result = .error (Transfer.endedEarly (delivered before).length size)) ∧
    ((∀ p, src ≠ .file c.log.file p) → .ok [] ∉ before →
      Checksum.ofSource d src = .ok (Checksum.of (delivered before)) ∧
        ∀ step, hasher.ofSource d step hasher.init src = .ok (Checksum.of (delivered before))) := by
  rw [append_buffered lawful] at hr
  subst hr
  obtain ⟨u, src', ce, d', hasks, hheard⟩ := readings_split hdecl hrs
  obtain ⟨hends, -⟩ := hasks.empty hheard
  have hlt := u.soFar_lt
  rw [hasks.soFar, hasks.declares] at hlt
  refine ⟨hlt, hends, reports_silent hdecl hrs, ?_⟩
  intro hother hsome
  exact Source.checksum_of_drained lawful (hasks.drained hheard hother hsome)

def newLog (n : Nat) : ContentLog := ⟨⟨"store.bin", 0, 72⟩, 8, 8, [], n + 1, Nat.succ_pos n⟩

def newDisk : Disk := ⟨#[⟨{}, 72⟩]⟩

theorem newLog_opens (n : Nat) : ContentLog.openAt (Volume.empty 4096) "store.bin" 64 (n + 1) =
    (.ok (newLog n), ⟨#[.folder 0 [("work", 1)], .folder 0 [("store.bin", 2)], .file 0], newDisk, 4096⟩) := by
  rw [openAt, dif_pos (Nat.succ_pos n)]
  set_option maxRecDepth 20000 in rfl

def pausingSource : Source := .script [] [.data [97, 98], .finish, .data [99, 100, 101]] (.ok 5)

/-- Two bytes at a time, the empty answer comes with nothing in hand, and ends the append. -/
theorem pause_between_chunks_ends : gathering.Lawful ∧ pausingSource.declared newDisk = .ok 5 ∧
    ∃ r, (newLog 1).appendBuffered gathering (fun _ => .ok 4096) newDisk pausingSource = r ∧
      r.result = .error (Transfer.endedEarly 2 5) ∧
      Checksum.ofSource newDisk pausingSource = .ok (Checksum.of [97, 98]) := by
  have hdecl : pausingSource.declared newDisk = .ok 5 := rfl
  have hrs : (newLog 1).readings (fun _ => .ok 4096) newDisk pausingSource = [.ok [97, 98]] ++ .ok [] :: [] := by
    decide +kernel
  obtain ⟨-, -, hreports, hsum⟩ := early_end_iff gathering_lawful hdecl hrs rfl
  have hother : ∀ p, pausingSource ≠ .file (newLog 1).log.file p := by
    intro p h
    cases h
  obtain ⟨hofSource, -⟩ := hsum hother (by decide)
  exact ⟨gathering_lawful, hdecl, _, rfl, hreports (by simp), hofSource⟩

/-- Sixteen bytes at a time, it comes in the middle of a chunk, and the append succeeds. So not every append that
    is answered empty too early reports it. -/
theorem pause_in_chunk_passed_over : ¬ ∀ (s : Traffic) (space : Volume.Space) (src : Source) (size : Nat)
    (before after : List Reading), s.Reached → src.declared s.disk = .ok size →
    s.log.readings space s.disk src = before ++ .ok [] :: after → (delivered before).length < size →
    (s.log.append space s.disk src).result = .error (Transfer.endedEarly (delivered before).length size) := by
  intro hreports
  have hreached : (Traffic.idle (newLog 15) newDisk).Reached := .opened (Volume.sound_empty 4096) (newLog_opens 15)
  have hrs : (newLog 15).readings (fun _ => .ok 4096) newDisk pausingSource =
      [.ok [97, 98]] ++ .ok [] :: [.ok [99, 100, 101]] := by decide +kernel
  have hfails := hreports _ (fun _ => .ok 4096) pausingSource 5 [.ok [97, 98]] [.ok [99, 100, 101]] hreached rfl hrs
    (by decide)
  revert hfails
  decide +kernel

end ContentLog

end TwinLog
