/-
  TwinLog.Proofs.ContentLog.Provided — appends from bytes in memory and from open files.

  These sources answer every read with the next bytes they hold, as many as there is room for,
  and answer empty only when nothing is left (`Provided.read`). So each reader gets all that is
  left from the position on (`Provided.delivers_iff`), and an append succeeds just if that
  is as much as was declared (`serve_provided`). Writing changes no length, so this holds even of
  the file that the append itself writes to.

  Bytes in memory declare what is left of them. A file declares its whole length, at whatever
  position it is read.

  - `provided_append`: what these sources yield and declare; an append of one, given room,
    stores what is left if it is bytes in memory or a file at its start, and fails otherwise.
  - `offset_file_refused`: a file at its third byte is refused.
-/

import TwinLog.Proofs.ContentLog.EarlyEnd

namespace TwinLog

namespace Source

variable {src : Source} {d d' : Disk} {n size : Nat} {bs : List UInt8}

def Provided : Source → Prop
  | memory .. | file .. => True
  | folder | script .. => False

def FromStart (d : Disk) : Source → Prop
  | file id position => position = 0 ∨ (d.image id).length = 0
  | _ => True

/-- A read gives the next bytes, and all that there is room for. -/
theorem Provided.read (h : src.Provided) (d : Disk) (n : Nat) :
    (src.read d n).1 = .ok ((src.stock d).take n) ∧ (src.read d n).2.Provided ∧
      (src.read d n).2.stock d = (src.stock d).drop n := by
  have hstock := src.stock_read d n
  have htake : (src.read d n).1 = .ok ((src.stock d).take n) := by
    cases src with
    | memory data position => simp [Source.read, stock, Array.toList_extract, List.extract_eq_take_drop]
    | file id position =>
      rw [stock, read_file, List.take_append]
      have hlen : ((d.image id).readUpTo position n).length = min n ((d.image id).length - position) := Image.length_read ..
      by_cases hfew : n ≤ (d.image id).length - position
      · have hall : ((d.image id).readUpTo position n).length = n := by omega
        rw [List.take_of_length_le (Nat.le_of_eq hall), hall, Nat.sub_self, List.take_zero, List.append_nil]
        rfl
      · have hnone : (d.image id).length - (position + ((d.image id).readUpTo position n).length) = 0 := by omega
        rw [hnone, List.take_of_length_le (by omega)]
        simp [Source.read, Image.read, Sparse.read]
    | folder | script => cases h
  refine ⟨htake, ?_, ?_⟩
  · cases src with
    | memory | file => trivial
    | folder | script => cases h
  · rw [htake, answered] at hstock
    conv at hstock => lhs; rw [← List.take_append_drop n (src.stock d)]
    exact (List.append_cancel_left hstock).symm

theorem Provided.drained (h : src.Provided) (d : Disk) : src.drained d = .ok (src.stock d) := by
  cases src with
  | memory | file => rfl
  | folder | script => cases h

/-- Every reader gets what is left, and nothing else. -/
theorem Provided.delivers_iff (h : src.Provided) : src.Delivers d bs ↔ bs = src.stock d := by
  constructor
  · intro hdelivers
    have hdrained := hdelivers.drained
    rw [h.drained] at hdrained
    exact (Except.ok.inj hdrained).symm
  · intro hbs
    subst hbs
    cases hstock : src.stock d with
    | nil =>
      obtain ⟨hread, -⟩ := h.read d 1
      rw [hstock] at hread
      exact .stops Nat.one_pos hread
    | cons b bs =>
      obtain ⟨hread, hprov, hrest⟩ := h.read d (bs.length + 1)
      obtain ⟨hempty, -⟩ := hprov.read d 1
      have hall : (b :: bs).length ≤ bs.length + 1 := Nat.le_refl _
      rw [hstock, List.take_of_length_le hall] at hread
      rw [hrest, hstock, List.drop_of_length_le hall] at hempty
      rw [← List.append_nil (b :: bs)]
      exact .gives (Nat.succ_pos _) hread (.stops Nat.one_pos hempty)

/-- Bytes in memory declare what is left of them, and a file the whole of it. -/
theorem Provided.declared_iff (h : src.Provided) (hdecl : src.declared d = .ok size) :
    size = (src.stock d).length ↔ src.FromStart d := by
  cases src with
  | memory data position =>
    cases hdecl
    simp [stock, FromStart]
  | file id position =>
    cases hdecl
    simp only [stock, FromStart, Image.length_read]
    omega
  | folder | script => cases h

theorem Provided.length_stock_le (h : src.Provided) (hdecl : src.declared d = .ok size) : (src.stock d).length ≤ size := by
  cases src with
  | memory data position =>
    cases hdecl
    simp [stock]
  | file id position =>
    cases hdecl
    simp [stock]
  | folder | script => cases h

/-- How much is left is decided by the lengths of the files. -/
theorem length_stock_congr (h : ∀ f, (d'.image f).length = (d.image f).length) :
    (src.stock d').length = (src.stock d).length := by
  cases src with
  | file id position => simp [stock, h id]
  | _ => rfl

end Source

theorem Log.length_write {l : Log} {d d' : Disk} {offset : Nat} {bs : List UInt8} (h : l.write d offset bs = .ok d')
    (f : FileId) : (d'.image f).length = (d.image f).length := by
  obtain ⟨-, rfl⟩ := write_iff.mp h
  by_cases hf : l.file = f
  · subst hf
    by_cases hlt : l.file < d.files.size
    · rw [d.image_update_self hlt, Image.length_write]
    · simp [Disk.image, Disk.update, hlt]
  · rw [d.image_update_ne hf]

namespace ContentLog

variable {c : ContentLog} {d : Disk} {space : Volume.Space} {src : Source} {size : Nat}

/-- What is left of a source that is `Provided`, and what the transfer has, is as much after a step as before. -/
theorem step_provided {t : Transfer} {p : Progress} {c' : ContentLog} {d' : Disk} (hprov : src.Provided)
    (hstep : c.step d t (src.read d t.wants).1 = (p, c', d')) :
    (src.read d t.wants).1 = .ok ((src.stock d).take t.wants) ∧ (src.read d t.wants).2.Provided ∧
      ((src.read d t.wants).2.stock d').length = (src.stock d).length - t.wants := by
  obtain ⟨hread, hprov', hrest⟩ := hprov.read d t.wants
  have hlengths : ∀ f, (d'.image f).length = (d.image f).length := by
    intro f
    rcases step_writes hstep with rfl | ⟨offset, bs, hwrite⟩
    · rfl
    · exact Log.length_write hwrite f
  refine ⟨hread, hprov', ?_⟩
  rw [Source.length_stock_congr hlengths, hrest, List.length_drop]

/-- A transfer from such a source succeeds if there is enough left, and else reports what there was. -/
theorem serve_provided (t : Transfer) (src : Source) (reads : List Nat) (c : ContentLog) (d : Disk) (hprov : src.Provided)
    (hfits : t.start + t.size ≤ c.log.capacity) :
    (t.size ≤ t.soFar.length + (src.stock d).length → ∃ l, (serve t src reads c d).result = .ok l) ∧
      (t.soFar.length + (src.stock d).length < t.size → (serve t src reads c d).result =
        .error (Transfer.endedEarly (t.soFar.length + (src.stock d).length) t.size)) := by
  fun_induction serve t src reads c d with
  | case1 t src reads c d result c' d' hstep =>
    obtain ⟨hread, -, -⟩ := step_provided hprov hstep
    have hnext := step_ended hfits hstep
    have hlt := t.soFar_lt
    have hpos := t.wants_pos
    rw [hread] at hnext
    generalize hbs : (src.stock d).take t.wants = bs at hnext
    cases hnext with
    | early =>
      have hnone : src.stock d = [] := by
        rcases List.take_eq_nil_iff.mp hbs with hzero | hnone
        · omega
        · exact hnone
      rw [hnone, List.length_nil, Nat.add_zero]
      exact ⟨fun hle => absurd hle (Nat.not_le.mpr hlt), fun _ => rfl⟩
    | @full b bs whole =>
      have hlen := congrArg List.length hbs
      simp only [List.length_append, List.length_take] at hlen whole
      exact ⟨fun _ => ⟨_, rfl⟩, fun _ => by omega⟩
  | case2 t src reads c d u c' d' hstep ih =>
    obtain ⟨hread, hprov', hleft⟩ := step_provided hprov hstep
    obtain ⟨rfl, hnext⟩ := step_waiting hfits hstep
    obtain ⟨hstart, hsize, hsofar⟩ := hnext.waiting
    rw [takes_read, hread, Source.answered] at hsofar
    have ih := ih hprov' (by rw [hstart, hsize]; exact hfits)
    -- what moved from the source to the transfer
    have hmoved : u.soFar.length + ((src.read d t.wants).2.stock d').length = t.soFar.length + (src.stock d).length := by
      rw [hsofar, hleft, List.length_append, List.length_take]
      omega
    rw [hmoved, hsize] at ih
    exact ih

structure Room (c : ContentLog) (space : Volume.Space) (size : Nat) : Prop where
  signed : c.cursor + size ≤ maxSigned
  grows : c.cursor + size ≤ c.capacity ∨
    Log.checkSpace space c.log.path (c.log.grownCapacity (c.cursor + size)) = .ok ()

/-- Given room, an append from such a source succeeds if what is left of the source when the room is made is enough,
    and else reports it. -/
theorem append_provided (hm : c.log.Mounted d) (hprov : src.Provided) (hdecl : src.declared d = .ok size)
    (hroom : c.Room space size) : ∃ de, (c.log.Confined ⟨c.cursor, c.cursor + size⟩ d (c.append space d src).log.log de) ∧
      (size ≤ (src.stock de).length → ∃ l, (c.append space d src).result = .ok l) ∧
      ((src.stock de).length < size →
        (c.append space d src).result = .error (Transfer.endedEarly (src.stock de).length size)) := by
  have hcourse := c.append_course space d src
  revert hcourse
  generalize c.taken space d src = bs, c.readings space d src = rs, c.append space d src = r
  intro hcourse
  cases hcourse with
  | length declared => cases declared.symm.trans hdecl
  | tooLong declared long =>
    cases declared.symm.trans hdecl
    exact absurd hroom.signed (Nat.not_le.mpr long)
  | noRoom declared reserved refused =>
    cases declared.symm.trans hdecl
    obtain ⟨hlog, -⟩ := reserve_log reserved
    obtain ⟨hpast, hrefused⟩ := ensure_refused refused
    rw [capacity, hlog] at hpast
    rw [hlog] at hrefused
    rcases hroom.grows with hfits | hgrows
    · exact absurd hfits (Nat.not_le.mpr hpast)
    · cases hrefused.symm.trans hgrows
  | @nothing cr ce de declared reserved made =>
    cases declared.symm.trans hdecl
    obtain ⟨hconf, -⟩ := made_room hm reserved made
    refine ⟨de, ?_, fun _ => ⟨_, rfl⟩, fun hlt => absurd hlt (Nat.not_lt_zero _)⟩
    rw [release_log]
    exact hconf
  | @served size' cr ce de t declared reserved made positive start declares soFar =>
    cases declared.symm.trans hdecl
    obtain ⟨hconf, -, -, hcap, -⟩ := made_room hm reserved made
    have hserve := serve_provided t src [] ce de hprov (by rw [start, declares]; exact hcap)
    rw [soFar, List.length_nil, Nat.zero_add, declares] at hserve
    refine ⟨de, ?_, hserve⟩
    rw [serve_log, release_log]
    exact hconf

/-- From a source that it does not write to, an append stores what is left if that is what was declared, and else fails. -/
theorem append_beside (hm : c.log.Mounted d) (hprov : src.Provided) (hdecl : src.declared d = .ok size)
    (hroom : c.Room space size) (hother : ∀ p, src ≠ .file c.log.file p) :
    (src.FromStart d → (c.append space d src).result = .ok ⟨size, c.cursor, Checksum.of (src.stock d)⟩ ∧
      ((c.append space d src).disk.image c.log.file).read c.cursor size = src.stock d) ∧
    (¬ src.FromStart d → (c.append space d src).result = .error (Transfer.endedEarly (src.stock d).length size)) := by
  obtain ⟨de, hconf, hok, hearly⟩ := append_provided hm hprov hdecl hroom
  have hstock : src.stock de = src.stock d := Source.stock_congr (image_of_other hconf.only hother)
  rw [hstock] at hok hearly
  have hstart := hprov.declared_iff hdecl
  constructor
  · intro hfrom
    have hsize := hstart.mpr hfrom
    obtain ⟨l, hl⟩ := hok (Nat.le_of_eq hsize)
    obtain ⟨hdeclared, hoffset, hread, hsum, htakes⟩ := append_returns hm hl
    cases hdecl.symm.trans hdeclared
    rw [htakes hother, List.take_of_length_le (Nat.le_of_eq hsize.symm)] at hread hsum
    rw [hl, ← hoffset, ← hsum]
    exact ⟨rfl, hread⟩
  · intro hlater
    apply hearly
    have hle := hprov.length_stock_le hdecl
    have hne : size ≠ (src.stock d).length := fun hsize => hlater (hstart.mp hsize)
    omega

/-- An append of the file of its own log: the file grows before it is read, and only then is it decided how much
    there is. -/
theorem append_own_file (hm : c.log.Mounted d) {p : Nat} (hdecl : (Source.file c.log.file p).declared d = .ok size)
    (hroom : c.Room space size) {r : Appended} (hr : c.append space d (.file c.log.file p) = r) :
    (p = 0 → p + size ≤ r.log.capacity) ∧
    (p + size ≤ r.log.capacity → ∃ l, r.result = .ok l ∧ l.size = size ∧ l.offset = c.cursor) ∧
    (r.log.capacity < p + size → r.result = .error (Transfer.endedEarly (r.log.capacity - p) size)) := by
  have hprov : (Source.file c.log.file p).Provided := trivial
  obtain ⟨de, hconf, hok, hearly⟩ := append_provided hm hprov hdecl hroom
  rw [hr] at hconf hok hearly
  have hsize : size = c.log.capacity := (Except.ok.inj hdecl).symm.trans hm.length_eq
  have hlength : (de.image c.log.file).length = r.log.log.capacity := by
    have hmounted := hconf.mounted.length_eq
    rw [hconf.file] at hmounted
    exact hmounted
  have hleft : ((Source.file c.log.file p).stock de).length = r.log.capacity - p := by
    rw [Source.stock, Image.length_read, hlength]
    rfl
  have hcap : c.log.capacity ≤ r.log.capacity := hconf.capacity_le
  have hhead : 0 < c.log.capacity := Nat.lt_of_lt_of_le (by decide) hm.head_le
  rw [hleft] at hok hearly
  refine ⟨fun hzero => by omega, ?_, fun hshort => hearly (by omega)⟩
  intro hreach
  obtain ⟨l, hl⟩ := hok (by omega)
  rw [← hr] at hl
  obtain ⟨hdeclared, hoffset, -⟩ := append_returns hm hl
  cases hdecl.symm.trans hdeclared
  rw [hr] at hl
  exact ⟨l, hl, rfl, hoffset⟩

/-- What sources in memory and open files yield is what they hold from their position on, to every reader. They declare as
    much just if it is bytes in memory or a file at its start. Given room for the declared size, an append
    of one that is not the file of its own log then stores exactly these bytes, and fails if it is a file
    read from later on. The file of its own log is read while it grows: the append succeeds if the file reaches
    far enough once room is made, as it does from the start. -/
theorem provided_append {hasher : Hasher} (lawful : hasher.Lawful) (hm : c.log.Mounted d) (hprov : src.Provided)
    (hdecl : src.declared d = .ok size) (hroom : c.Room space size) {r : Appended}
    (hr : c.appendBuffered hasher space d src = r) :
    (∀ bs, src.Delivers d bs ↔ bs = src.stock d) ∧
    (size = (src.stock d).length ↔ src.FromStart d) ∧
    ((∀ p, src ≠ .file c.log.file p) →
      (src.FromStart d → r.result = .ok ⟨size, c.cursor, Checksum.of (src.stock d)⟩ ∧
        (r.disk.image c.log.file).read c.cursor size = src.stock d) ∧
      (¬ src.FromStart d → r.result = .error (Transfer.endedEarly (src.stock d).length size))) ∧
    (∀ p, src = .file c.log.file p →
      (p = 0 → p + size ≤ r.log.capacity) ∧
      (p + size ≤ r.log.capacity → ∃ l, r.result = .ok l ∧ l.size = size ∧ l.offset = c.cursor) ∧
      (r.log.capacity < p + size → r.result = .error (Transfer.endedEarly (r.log.capacity - p) size))) := by
  rw [append_buffered lawful] at hr
  subst hr
  refine ⟨fun bs => hprov.delivers_iff, hprov.declared_iff hdecl, append_beside hm hprov hdecl hroom, ?_⟩
  intro p hown
  subst hown
  exact append_own_file hm hdecl hroom rfl

def helloDisk : Disk := ⟨#[⟨{}, 72⟩, .ofList [104, 101, 108, 108, 111]]⟩

theorem newLog_mounted (n : Nat) : (newLog n).log.Mounted helloDisk := ⟨Nat.zero_lt_two, rfl, Nat.le_add_left 8 64⟩

theorem newLog_room (n : Nat) : (newLog n).Room (fun _ => .ok 4096) 5 where
  signed := by
    show 8 + 5 ≤ maxSigned
    decide
  grows := .inl (Nat.le_add_left 13 59)

/-- From its start the file is stored; from its third byte on it is not, although there are bytes left. -/
theorem hello_stored : gathering.Lawful ∧ (newLog 15).log.Mounted helloDisk ∧ (newLog 15).Room (fun _ => .ok 4096) 5 ∧
    (Source.file 1 0).Provided ∧ (Source.file 1 0).declared helloDisk = .ok 5 ∧
    (Source.file 1 2).Provided ∧ (Source.file 1 2).declared helloDisk = .ok 5 ∧
    (Source.file 1 2).Delivers helloDisk [108, 108, 111] ∧
    (∃ r, (newLog 15).appendBuffered gathering (fun _ => .ok 4096) helloDisk (.file 1 0) = r ∧
      r.result = .ok ⟨5, 8, Checksum.of [104, 101, 108, 108, 111]⟩ ∧
      (r.disk.image 0).read 8 5 = [104, 101, 108, 108, 111]) ∧
    ∃ r, (newLog 15).appendBuffered gathering (fun _ => .ok 4096) helloDisk (.file 1 2) = r ∧
      r.result = .error (Transfer.endedEarly 3 5) := by
  have hdecl (p : Nat) : (Source.file 1 p).declared helloDisk = .ok 5 := rfl
  have hprov (p : Nat) : (Source.file 1 p).Provided := trivial
  have hother (p : Nat) : ∀ q, Source.file 1 p ≠ .file (newLog 15).log.file q := by
    intro q h
    cases h
  have hall : (Source.file 1 0).stock helloDisk = [104, 101, 108, 108, 111] := by decide +kernel
  have hrest : (Source.file 1 2).stock helloDisk = [108, 108, 111] := by decide +kernel
  obtain ⟨-, -, hstart, -⟩ := provided_append gathering_lawful (newLog_mounted 15) (hprov 0) (hdecl 0) (newLog_room 15) rfl
  obtain ⟨hdelivers, -, hlater, -⟩ := provided_append gathering_lawful (newLog_mounted 15) (hprov 2) (hdecl 2)
    (newLog_room 15) rfl
  have hbehind : ¬ (Source.file 1 2).FromStart helloDisk := by
    show ¬ (2 = 0 ∨ (helloDisk.image 1).length = 0)
    decide
  obtain ⟨hok, hread⟩ := (hstart (hother 0)).1 (.inl rfl)
  have hearly := (hlater (hother 2)).2 hbehind
  rw [hall] at hok hread
  rw [hrest] at hearly
  exact ⟨gathering_lawful, newLog_mounted 15, newLog_room 15, hprov 0, hdecl 0, hprov 2, hdecl 2, (hdelivers _).mpr hrest.symm,
    ⟨_, rfl, hok, hread⟩, _, rfl, hearly⟩

/-- So not every such source declares what it yields, and not every append of one succeeds where there is room. -/
theorem offset_file_refused : ¬ ∀ (c : ContentLog) (space : Volume.Space) (d : Disk) (src : Source) (size : Nat),
    c.log.Mounted d → src.Provided → src.declared d = .ok size → c.Room space size →
    size = (src.stock d).length ∧ ∃ l, (c.append space d src).result = .ok l := by
  intro hstores
  obtain ⟨-, l, hl⟩ := hstores (newLog 15) (fun _ => .ok 4096) helloDisk (.file 1 2) 5 (newLog_mounted 15) trivial rfl
    (newLog_room 15)
  have hfails : ((newLog 15).append (fun _ => .ok 4096) helloDisk (.file 1 2)).result = .error (Transfer.endedEarly 3 5) := by
    decide +kernel
  cases hfails.symm.trans hl

end ContentLog

end TwinLog
