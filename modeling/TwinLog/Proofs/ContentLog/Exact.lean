/-
  TwinLog.Proofs.ContentLog.Exact — an append stores just what its source delivered.

  What a source has delivered are the bytes of its answers in their order (`delivered`). An
  append that succeeds has them in the file behind the old cursor, as many as were declared,
  and returns their checksum: nothing of an older chunk, nothing twice, nothing left out,
  wherever the answers were cut and whatever was interrupted (`append_exact`). They are the
  first bytes of what the source held, and any other reader that is given them
  finds the same checksum. A source that is the very file of the log is read while it is
  written; of it only the answers can be told.
-/

import Mathlib.Control.Monad.Basic
import TwinLog.Proofs.ContentLog.Aftermath
import TwinLog.Proofs.ContentLog.Copying

namespace TwinLog

def delivered (rs : List Reading) : List UInt8 := rs.flatMap Source.answered

theorem Transfer.advance_writes (t : Transfer) (r : Reading) (log : Log) (d : Disk) :
    (t.advance r log d).2 = d ∨ ∃ offset bs, log.write d offset bs = .ok (t.advance r log d).2 := by
  have finished (filling : Array UInt8) : (t.finishChunk filling log d).2 = d ∨
      ∃ offset bs, log.write d offset bs = .ok (t.finishChunk filling log d).2 := by
    unfold finishChunk
    split
    · exact .inl rfl
    · rename_i hwrite
      right
      refine ⟨_, _, hwrite.trans ?_⟩
      dsimp only
      split <;> rfl
  unfold advance
  split
  · split
    · exact .inl rfl
    · exact .inl rfl
  · split
    · exact .inl rfl
    · exact finished _
  · dsimp only
    split
    · exact .inl rfl
    · exact finished _

namespace ContentLog

variable {c : ContentLog} {d : Disk} {t : Transfer} {src : Source} {space : Volume.Space}

theorem takes_read (t : Transfer) (src : Source) (d : Disk) :
    t.takes (src.read d t.wants).1 = Source.answered (src.read d t.wants).1 := by
  cases hanswer : (src.read d t.wants).1 with
  | ok bs => exact List.take_of_length_le (Source.length_read_le hanswer)
  | error e => rfl

/-- What a transfer takes is what its source delivers. -/
theorem received_eq (t : Transfer) (src : Source) (c : ContentLog) (d : Disk) :
    received t src c d = delivered (heard t src c d) := by
  fun_induction received t src c d with
  | case1 t src c d result c' d' hstep =>
    rw [heard, hstep, takes_read]
    exact (List.append_nil _).symm
  | case2 t src c d t' c' d' hstep ih =>
    rw [heard, hstep, takes_read, ih]
    exact List.flatMap_cons.symm

/-- A source stays a file or none, and the same file. -/
theorem file_of_read {n p : Nat} {f : FileId} (h : (src.read d n).2 = .file f p) : ∃ p', src = .file f p' := by
  cases src with
  | memory data position => cases h
  | file id position =>
    cases h
    exact ⟨position, rfl⟩
  | folder => cases h
  | script left events declared =>
    unfold Source.read at h
    dsimp only at h
    split at h
    · cases h
    · cases h

theorem step_writes {p : Progress} {c' : ContentLog} {d' : Disk} {r : Reading} (h : c.step d t r = (p, c', d')) :
    d' = d ∨ ∃ offset bs, c.log.write d offset bs = .ok d' := by
  have hwrites := t.advance_writes r c.log d
  unfold step at h
  split at h
  · rename_i hadv
    cases h
    rw [hadv] at hwrites
    exact hwrites
  · rename_i hadv
    cases h
    rw [hadv] at hwrites
    exact hwrites

theorem step_only {p : Progress} {c' : ContentLog} {d' : Disk} {r : Reading} (h : c.step d t r = (p, c', d')) :
    d.OnlyAt c.log.file d' := by
  rcases step_writes h with rfl | ⟨offset, bs, hwrite⟩
  · exact .refl
  · rw [(Log.write_iff.mp hwrite).2]
    exact .update _

theorem step_log {u : Transfer} {c' : ContentLog} {d' : Disk} {r : Reading} (h : c.step d t r = (.waiting u, c', d')) :
    c' = c := by
  unfold step at h
  split at h
  · cases h
    rfl
  · cases h

/-- What is left of a source that is not written to stays the same through a step. -/
theorem other_read {n : Nat} (other : ∀ p, src ≠ .file c.log.file p) (p : Nat) : (src.read d n).2 ≠ .file c.log.file p := by
  intro hfile
  obtain ⟨p', hsrc⟩ := file_of_read hfile
  exact other p' hsrc

theorem image_of_other {rest : Source} {d' : Disk} (honly : d.OnlyAt c.log.file d') (other : ∀ p, rest ≠ .file c.log.file p) :
    ∀ f p, rest = .file f p → d'.image f = d.image f := by
  intro f p hfile
  apply honly.others f
  intro heq
  exact other p (heq ▸ hfile)

/-- What a transfer takes comes off the front of its source, and the rest stays, unless that is the file it writes. -/
theorem serve_stock (t : Transfer) (src : Source) (reads : List Nat) (c : ContentLog) (d : Disk)
    (other : ∀ p, src ≠ .file c.log.file p) :
    src.stock d = received t src c d ++ (serve t src reads c d).source.stock (serve t src reads c d).disk := by
  have hstays {p : Progress} {src : Source} {t : Transfer} {c c' : ContentLog} {d d' : Disk}
      (other : ∀ p, src ≠ .file c.log.file p) (hstep : c.step d t (src.read d t.wants).1 = (p, c', d')) :
      src.stock d = t.takes (src.read d t.wants).1 ++ (src.read d t.wants).2.stock d' := by
    rw [takes_read, Source.stock_congr (image_of_other (step_only hstep) (other_read other)), ← src.stock_read d t.wants]
  fun_induction serve t src reads c d with
  | case1 t src reads c d result c' d' hstep =>
    rw [received, hstep]
    exact hstays other hstep
  | case2 t src reads c d t' c' d' hstep ih =>
    have hlog := step_log hstep
    subst hlog
    rw [received, hstep]
    dsimp only
    rw [List.append_assoc, ← ih (other_read other)]
    exact hstays other hstep

/-- What an append takes, and what its source delivers. -/
theorem taken_eq (c : ContentLog) (space : Volume.Space) (d : Disk) (src : Source) :
    c.taken space d src = delivered (c.readings space d src) := by
  have hcourse := c.append_course space d src
  revert hcourse
  generalize c.taken space d src = bs, c.readings space d src = rs, c.append space d src = r
  intro hcourse
  cases hcourse with
  | length | tooLong | noRoom | nothing => rfl
  | served => exact received_eq ..

/-- What an append takes comes off the front of its source, and the rest stays. -/
theorem append_stock (hm : c.log.Mounted d) (space : Volume.Space) (other : ∀ p, src ≠ .file c.log.file p) :
    src.stock d = c.taken space d src ++ (c.append space d src).source.stock (c.append space d src).disk := by
  -- making room changes no file but that of the log
  have hroom {cr ce : ContentLog} {de : Disk} {size : Nat} (reserved : c.reserve size = .ok (c.cursor, cr))
      (made : cr.ensure space d (c.cursor + size) = .ok (ce, de)) : src.stock de = src.stock d := by
    obtain ⟨hconf, -⟩ := made_room hm reserved made
    exact Source.stock_congr (image_of_other hconf.only other)
  have hcourse := c.append_course space d src
  revert hcourse
  generalize c.taken space d src = bs, c.readings space d src = rs, c.append space d src = r
  intro hcourse
  cases hcourse with
  | length | tooLong | noRoom => rfl
  | nothing declared reserved made => exact (hroom reserved made).symm
  | @served size cr ce de t declared reserved made =>
    obtain ⟨-, hfile, -⟩ := made_room hm reserved made
    rw [← hroom reserved made]
    apply serve_stock
    rw [hfile]
    exact other

theorem taken_stock (hm : c.log.Mounted d) (space : Volume.Space) (other : ∀ p, src ≠ .file c.log.file p) :
    c.taken space d src <+: src.stock d := by
  rw [append_stock hm space other]
  exact List.prefix_append ..

/-- What an append that succeeds returns, and what the file then holds. -/
theorem append_returns (hm : c.log.Mounted d) {l : Location} (hl : (c.append space d src).result = .ok l) :
    src.declared d = .ok l.size ∧ l.offset = c.cursor ∧
      ((c.append space d src).disk.image c.log.file).read l.offset l.size = delivered (c.readings space d src) ∧
      l.checksum = Checksum.of (delivered (c.readings space d src)) ∧
      ((∀ p, src ≠ .file c.log.file p) → delivered (c.readings space d src) = (src.stock d).take l.size) := by
  rcases append_leaves hm space src with ⟨e, -, hresult, -⟩ | ⟨size, hspent⟩
  · cases hresult.symm.trans hl
  have hholds := hspent.result
  rw [hl] at hholds
  obtain ⟨rfl, hlen, hread⟩ := hholds
  rw [taken_eq] at hlen hread ⊢
  refine ⟨hspent.declared, rfl, hread, rfl, ?_⟩
  intro other
  have hprefix := taken_stock hm space other
  rw [taken_eq] at hprefix
  rw [← hlen]
  exact List.prefix_iff_eq_take.mp hprefix

/-- An append through two buffers does what the append does. If it succeeds, the size it returns is the declared
    one, the offset is where the cursor stood, and the file holds there what the source has delivered, of which the
    checksum is that of every other reader to whom the same bytes are delivered. However it
    ends, no byte changes outside the range it reserved, but that the file may grow by zeros. -/
theorem append_exact {hasher : Hasher} (lawful : hasher.Lawful) (hm : c.log.Mounted d) {r : Appended}
    (hr : c.append space d src = r) :
    c.appendBuffered hasher space d src = r ∧
    (∀ l, r.result = .ok l → ∃ bs, bs = delivered (c.readings space d src) ∧
      src.declared d = .ok l.size ∧ l.offset = c.cursor ∧ (r.disk.image c.log.file).read l.offset l.size = bs ∧
      l.checksum = Checksum.of bs ∧
      ((∀ p, src ≠ .file c.log.file p) → bs = (src.stock d).take l.size) ∧
      ∀ d' reader, Source.Delivers d' reader bs → Checksum.ofSource d' reader = .ok l.checksum ∧
        ∀ step, hasher.ofSource d' step hasher.init reader = .ok l.checksum) ∧
    (∀ e, src.declared d = .error e → r.log = c ∧ r.disk = d) ∧
    ∀ size, src.declared d = .ok size → c.log.Confined ⟨c.cursor, c.cursor + size⟩ d r.log.log r.disk := by
  subst hr
  refine ⟨append_buffered lawful c space d src, ?_, ?_, ?_⟩
  · intro l hl
    obtain ⟨hdeclared, hoffset, hread, hsum, hstock⟩ := append_returns hm hl
    refine ⟨_, rfl, hdeclared, hoffset, hread, hsum, hstock, ?_⟩
    intro d' reader hdelivers
    rw [hsum]
    exact hdelivers.checksum lawful
  · intro e hdecl
    have happ : c.append space d src = ⟨.error (.io e), [], src, c, d⟩ := by rw [append, hdecl]
    rw [happ]
    exact ⟨rfl, rfl⟩
  · intro size hdecl
    rcases append_leaves hm space src with ⟨e, -, -, huntouched⟩ | ⟨size', hspent⟩
    · rw [huntouched.file, huntouched.disk]
      exact .refl hm
    · cases hspent.declared.symm.trans hdecl
      exact hspent.confined

def gathering : Hasher := ⟨List UInt8, [], (· ++ ·), Checksum.of⟩

theorem gathering_lawful : gathering.Lawful where
  pieces parts := by
    have hfold (parts : List (List UInt8)) (bs : List UInt8) : parts.foldl (· ++ ·) bs = bs ++ parts.flatten := by
      induction parts generalizing bs with
      | nil => exact (List.append_nil bs).symm
      | cons part parts ih =>
        rw [List.foldl_cons, ih, List.flatten_cons, List.append_assoc]
    exact congrArg Checksum.of (hfold parts [])

/-- A source that answers empty at first, is interrupted in its first chunk, cuts its second chunk short, and has more
    than it has declared. -/
def slicedSource : Source := .script [] [.finish, .data [1], .fail (.reported .interrupted ""), .data [2, 3], .finish,
  .data [4, 5, 6]] (.ok 5)

/-- Between two other appends, two bytes at a time. -/
theorem sliced_append_exact : gathering.Lawful ∧ Traffic.twoAppends.log.log.Mounted Traffic.twoAppends.disk ∧
    ∃ r, Traffic.twoAppends.log.append (fun _ => .ok 40) Traffic.twoAppends.disk slicedSource = r ∧
      r.result = .ok ⟨5, 13, Checksum.of [1, 2, 3, 4, 5]⟩ ∧
      Traffic.twoAppends.log.appendBuffered gathering (fun _ => .ok 40) Traffic.twoAppends.disk slicedSource = r ∧
      (r.disk.image 0).read 13 5 = [1, 2, 3, 4, 5] ∧
      Checksum.ofSource {} (.ofBytes [1, 2, 3, 4, 5] 0) = .ok (Checksum.of [1, 2, 3, 4, 5]) := by
  obtain ⟨base, first, ht⟩ := Traffic.twoAppends_reached.tiled
  have hresult : (Traffic.twoAppends.log.append (fun _ => .ok 40) Traffic.twoAppends.disk slicedSource).result =
      .ok ⟨5, 13, Checksum.of [1, 2, 3, 4, 5]⟩ := by decide +kernel
  obtain ⟨hbuffered, hok, -, -⟩ := append_exact gathering_lawful ht.mounted
    (rfl : Traffic.twoAppends.log.append (fun _ => .ok 40) Traffic.twoAppends.disk slicedSource = _)
  obtain ⟨bs, -, -, -, hread, -, hstock, hreaders⟩ := hok _ hresult
  have hbs : bs = [1, 2, 3, 4, 5] := (hstock (by rintro p ⟨⟩)).trans (by decide)
  subst hbs
  have hgives : ((Source.ofBytes [1, 2, 3, 4, 5] 0).read {} 5).1 = .ok (1 :: [2, 3, 4, 5]) := by rfl
  have hstops : (((Source.ofBytes [1, 2, 3, 4, 5] 0).read {} 5).2.read {} 1).1 = .ok [] := by rfl
  have hdelivers : Source.Delivers {} (.ofBytes [1, 2, 3, 4, 5] 0) (1 :: [2, 3, 4, 5] ++ []) :=
    .gives (by decide) hgives (.stops (by decide) hstops)
  exact ⟨gathering_lawful, ht.mounted, _, rfl, hresult, hbuffered, hread, (hreaders {} _ hdelivers).1⟩

end ContentLog

end TwinLog
