/-
  TwinLog.Proofs.ContentLog.Outcome — what an append answers, and why.

  `append_course` takes an append apart, once for all that is said of whole appends: it fails
  before anything is read, because the source does not know its length or there is no room,
  or it serves a transfer whose range lies in the log. A transfer with its range in the log
  never fails to write, so one reading moves it on as `Transfer.Next` says, and it fails for
  what it heard last (`serve_fails`): a read that failed, or nothing where there should have
  been more. `Fails` lists the steps that can fail, each with its error (`append_fails`).
-/

import TwinLog.Proofs.ContentLog.Whole

namespace TwinLog

/-! ## One reading -/

namespace Transfer

variable {t u : Transfer} {log : Log} {d : Disk} {r : Reading}

def soFar (t : Transfer) : List UInt8 := t.written.toList ++ t.filling.toList

theorem length_soFar (t : Transfer) : t.soFar.length = t.written.size + t.filling.size := by
  rw [soFar, List.length_append, Array.length_toList, Array.length_toList]

theorem soFar_lt (t : Transfer) : t.soFar.length < t.size := by
  rw [length_soFar]
  exact t.delivered_lt

theorem wants_le (t : Transfer) : t.wants ≤ t.size - t.soFar.length := by
  rw [length_soFar]
  exact Nat.min_le_right ..

/-- How a transfer stands after a reading, if its range lies in the log. -/
inductive Next (t : Transfer) : Reading → Progress → Prop
  | again {e : IoFault} (interrupted : e.isInterrupted = true) : Next t (.error e) (.waiting t)
  | broken {e : IoFault} (failed : e.isInterrupted = false) : Next t (.error e) (.ended (.error (.io e)))
  | pause {u : Transfer} (start : u.start = t.start) (size : u.size = t.size) (soFar : u.soFar = t.soFar) :
      Next t (.ok []) (.waiting u)
  | early : Next t (.ok []) (.ended (.error (endedEarly t.soFar.length t.size)))
  | more {b : UInt8} {bs : List UInt8} {u : Transfer} (start : u.start = t.start) (size : u.size = t.size)
      (soFar : u.soFar = t.soFar ++ (b :: bs).take t.wants) : Next t (.ok (b :: bs)) (.waiting u)
  | full {b : UInt8} {bs : List UInt8} (whole : (t.soFar ++ (b :: bs).take t.wants).length = t.size) :
      Next t (.ok (b :: bs))
        (.ended (.ok ⟨t.size, t.start, Checksum.of (t.soFar ++ (b :: bs).take t.wants)⟩))

theorem finishChunk_cases (hcap : t.start + t.size ≤ log.capacity) {filling : Array UInt8}
    (hf : t.written.size + filling.size ≤ t.size) :
    (∃ u d', t.finishChunk filling log d = (.waiting u, d') ∧ u.start = t.start ∧ u.size = t.size ∧
        u.soFar = t.written.toList ++ filling.toList) ∨
      ∃ d', t.finishChunk filling log d =
          (.ended (.ok ⟨t.size, t.start, Checksum.of (t.written.toList ++ filling.toList)⟩), d') ∧
        (t.written.toList ++ filling.toList).length = t.size := by
  unfold finishChunk
  rw [Log.write_ok (by rw [Array.length_toList]; omega)]
  dsimp only
  split
  · exact .inl ⟨_, _, rfl, rfl, rfl, by simp [soFar]⟩
  · rename_i hdone
    rw [Array.size_append] at hdone
    have hsize : t.written.size + filling.size = t.size := by omega
    exact .inr ⟨_, Prod.ext (by simp [location, hsize]) rfl, by simpa using hsize⟩

theorem next_advance (log : Log) (hcap : t.start + t.size ≤ log.capacity) (r : Reading) (d : Disk) :
    t.Next r (t.advance r log d).1 := by
  have hlt := t.delivered_lt
  unfold advance
  split
  · rename_i e
    cases he : e.isInterrupted with
    | true => exact .again he
    | false => exact .broken he
  · split
    · rename_i hempty
      have hnone : t.filling = #[] := by
        have := (Bool.and_eq_true_iff.mp hempty).1
        simpa using this
      have hsofar : t.soFar.length = t.written.size := by simp [length_soFar, hnone]
      rw [← hsofar]
      exact .early
    · rcases finishChunk_cases (d := d) hcap (Nat.le_of_lt hlt) with ⟨u, d', heq, hs, hz, hu⟩ | ⟨d', -, hwhole⟩
      · rw [heq]
        exact .pause hs hz hu
      · simp only [List.length_append, Array.length_toList] at hwhole
        omega
  · rename_i bs hne
    obtain ⟨b, bs, rfl⟩ := List.exists_cons_of_ne_nil fun h => hne h
    have htake : ((b :: bs).take t.wants).length ≤ t.wants := List.length_take_le ..
    have hroom : t.wants ≤ t.size - (t.written.size + t.filling.size) := Nat.min_le_right ..
    dsimp only
    split
    · exact .more rfl rfl (by simp [soFar])
    · have hfits : t.written.size + (t.filling ++ ((b :: bs).take t.wants).toArray).size ≤ t.size := by
        simp only [Array.size_append, List.size_toArray]
        omega
      have hsofar : t.written.toList ++ (t.filling ++ ((b :: bs).take t.wants).toArray).toList =
          t.soFar ++ (b :: bs).take t.wants := by simp [soFar]
      rcases finishChunk_cases (d := d) hcap hfits with ⟨u, d', heq, hs, hz, hu⟩ | ⟨d', heq, hwhole⟩
      · rw [heq]
        exact .more hs hz (hu.trans hsofar)
      · rw [hsofar] at heq hwhole
        rw [heq]
        exact .full hwhole

theorem Next.waiting (h : t.Next r (.waiting u)) :
    u.start = t.start ∧ u.size = t.size ∧ u.soFar = t.soFar ++ t.takes r := by
  cases h with
  | again => exact ⟨rfl, rfl, by simp [takes]⟩
  | pause hs hz hu => exact ⟨hs, hz, by simp [takes, hu]⟩
  | more hs hz hu => exact ⟨hs, hz, hu⟩

end Transfer

/-! ## A whole transfer -/

namespace ContentLog

variable {c c' : ContentLog} {d d' : Disk} {t u : Transfer} {src : Source} {r : Reading} {space : Volume.Space}

theorem step_waiting (hcap : t.start + t.size ≤ c.capacity) (h : c.step d t r = (.waiting u, c', d')) :
    c' = c ∧ t.Next r (.waiting u) := by
  have hnext := Transfer.next_advance c.log hcap r d
  unfold step at h
  split at h
  · rename_i hadv
    cases h
    rw [hadv] at hnext
    exact ⟨rfl, hnext⟩
  · cases h

theorem step_ended (hcap : t.start + t.size ≤ c.capacity) {result : Except Fault Location}
    (h : c.step d t r = (.ended result, c', d')) : t.Next r (.ended result) := by
  have hnext := Transfer.next_advance c.log hcap r d
  unfold step at h
  split at h
  · cases h
  · rename_i hadv
    cases h
    rw [hadv] at hnext
    exact hnext

def heard (t : Transfer) (src : Source) (c : ContentLog) (d : Disk) : List Reading :=
  match _step : c.step d t (src.read d t.wants).1 with
  | (.ended _, _, _) => [(src.read d t.wants).1]
  | (.waiting t', c', d') => (src.read d t.wants).1 :: heard t' (src.read d t.wants).2 c' d'
termination_by src.interrupts + t.budget
decreasing_by exact serve_decreases _step

/-- A transfer that fails does so for what it heard last. -/
theorem serve_fails (t : Transfer) (src : Source) (reads : List Nat) (c : ContentLog) (d : Disk)
    (hcap : t.start + t.size ≤ c.capacity) {e : Fault} (h : (serve t src reads c d).result = .error e) :
    (∃ f, (heard t src c d).getLast? = some (.error f) ∧ f.isInterrupted = false ∧ e = .io f) ∨
      (heard t src c d).getLast? = some (.ok []) ∧ (t.soFar ++ received t src c d).length < t.size ∧
        e = Transfer.endedEarly (t.soFar ++ received t src c d).length t.size := by
  fun_induction serve t src reads c d with
  | case1 t src reads c d result c' d' hstep =>
    have hnext := step_ended hcap hstep
    rw [heard, hstep, received, hstep]
    dsimp only at h ⊢
    generalize (src.read d t.wants).1 = r at hnext
    subst h
    cases hnext with
    | broken failed => exact .inl ⟨_, rfl, failed, rfl⟩
    | early => exact .inr ⟨rfl, by simpa [Transfer.takes] using t.soFar_lt, by simp [Transfer.takes]⟩
  | case2 t src reads c d t' c' d' hstep ih =>
    obtain ⟨rfl, hnext⟩ := step_waiting hcap hstep
    obtain ⟨hs, hz, hu⟩ := hnext.waiting
    have ih := ih (by rw [hs, hz]; exact hcap) h
    rw [heard, hstep, received, hstep]
    dsimp only
    rw [hz, hu, List.append_assoc] at ih
    rw [List.getLast?_cons]
    refine ih.imp ?_ ?_
    · rintro ⟨f, hlast, hf⟩
      exact ⟨f, by rw [hlast]; rfl, hf⟩
    · rintro ⟨hlast, hf⟩
      exact ⟨by rw [hlast]; rfl, hf⟩

/-- A transfer releases its range when it ends. -/
theorem serve_log (t : Transfer) (src : Source) (reads : List Nat) (c : ContentLog) (d : Disk) :
    (serve t src reads c d).log = c.release t.span := by
  obtain ⟨rs, -, hlog⟩ := serve_run t src reads c d (a := ⟨t.start, t.size, .streaming t, []⟩) rfl rfl
  exact hlog

/-! ## A whole append -/

def readings (c : ContentLog) (space : Volume.Space) (d : Disk) (src : Source) : List Reading :=
  match src.declared d with
  | .error _ => []
  | .ok size => match c.start space d size with
    | (.ended _, _, _) => []
    | (.waiting t, c, d) => heard t src c d

/-- An append whose range is reserved and fits the log: what it answers, takes and hears is what its
    transfer does. -/
structure Served (c : ContentLog) (space : Volume.Space) (d : Disk) (src : Source) (size : Nat) (ce : ContentLog)
    (de : Disk) (t : Transfer) : Prop where
  start : t.start = c.cursor
  size : t.size = size
  soFar : t.soFar = []
  fits : t.start + t.size ≤ ce.capacity
  append : c.append space d src = serve t src [] ce de
  taken : c.taken space d src = received t src ce de
  readings : c.readings space d src = heard t src ce de

inductive Way (c : ContentLog) (space : Volume.Space) (d : Disk) (src : Source) : Prop
  | length {e : IoFault} (declared : src.declared d = .error e)
      (result : (c.append space d src).result = .error (.io e))
      (cursor : (c.append space d src).log.cursor = c.cursor)
  | tooLong {size : Nat} (declared : src.declared d = .ok size) (long : maxSigned < c.cursor + size)
      (result : (c.append space d src).result = .error (.invalidArgument (.contentTooLong size c.cursor)))
      (cursor : (c.append space d src).log.cursor = c.cursor)
  | noRoom {size : Nat} {e : Fault} (declared : src.declared d = .ok size) (fits : c.cursor + size ≤ maxSigned)
      (past : c.capacity < c.cursor + size)
      (refused : Log.checkSpace space c.log.path (c.log.grownCapacity (c.cursor + size)) = .error e)
      (result : (c.append space d src).result = .error e)
      (cursor : (c.append space d src).log.cursor = c.cursor)
  | nothing (declared : src.declared d = .ok 0) (fits : c.cursor ≤ maxSigned)
      (result : (c.append space d src).result = .ok ⟨0, c.cursor, Checksum.of []⟩)
      (taken : c.taken space d src = []) (cursor : (c.append space d src).log.cursor = c.cursor)
  | served {size : Nat} {ce : ContentLog} {de : Disk} {t : Transfer} (declared : src.declared d = .ok size)
      (fits : c.cursor + size ≤ maxSigned) (served : c.Served space d src size ce de t)
      (cursor : (c.append space d src).log.cursor = c.cursor + size)

theorem reserve_refused {size : Nat} {e : Fault} (h : c.reserve size = .error e) :
    maxSigned < c.cursor + size ∧ e = .invalidArgument (.contentTooLong size c.cursor) := by
  unfold reserve at h
  split at h
  · cases h
  · rename_i hlong
    cases h
    exact ⟨Nat.lt_of_not_le hlong, rfl⟩

theorem reserve_log {size at' : Nat} {cr : ContentLog} (h : c.reserve size = .ok (at', cr)) :
    cr.log = c.log ∧ c.cursor + size ≤ maxSigned := by
  unfold reserve at h
  split at h
  · rename_i hfits
    cases h
    exact ⟨rfl, hfits⟩
  · cases h

/-- Room is refused only where the log has to grow. -/
theorem ensure_refused {finish : Nat} {e : Fault} (h : c.ensure space d finish = .error e) :
    c.capacity < finish ∧ Log.checkSpace space c.log.path (c.log.grownCapacity finish) = .error e :=
  Log.grow_refused (ensure_fails h)

theorem start_nothing {cr ce : ContentLog} {de : Disk} (h : c.reserve 0 = .ok (c.cursor, cr))
    (he : cr.ensure space d (c.cursor + 0) = .ok (ce, de)) :
    c.start space d 0 = (.ended (.ok ⟨0, c.cursor, Checksum.of []⟩), ce.release ⟨c.cursor, c.cursor⟩, de) := by
  unfold start
  rw [h]
  dsimp only
  rw [he]
  rfl

theorem start_waiting {size : Nat} {cr ce : ContentLog} {de : Disk} (h : c.reserve size = .ok (c.cursor, cr))
    (he : cr.ensure space d (c.cursor + size) = .ok (ce, de)) (hpos : 0 < size) :
    ∃ t : Transfer, c.start space d size = (.waiting t, ce, de) ∧ t.start = c.cursor ∧ t.size = size ∧
      t.soFar = [] := by
  simp only [start, h, he, hpos, dite_true]
  exact ⟨_, rfl, rfl, rfl, rfl⟩

/-- How an append goes, by what its start comes to: what it takes, what it hears, and what there is
    afterwards. -/
inductive Course (c : ContentLog) (space : Volume.Space) (d : Disk) (src : Source) :
    List UInt8 → List Reading → Appended → Prop
  | length {e : IoFault} (declared : src.declared d = .error e) :
      Course c space d src [] [] ⟨.error (.io e), [], src, c, d⟩
  | tooLong {size : Nat} (declared : src.declared d = .ok size) (long : maxSigned < c.cursor + size) :
      Course c space d src [] [] ⟨.error (.invalidArgument (.contentTooLong size c.cursor)), [], src, c, d⟩
  | noRoom {size : Nat} {cr : ContentLog} {e : Fault} (declared : src.declared d = .ok size)
      (reserved : c.reserve size = .ok (c.cursor, cr)) (refused : cr.ensure space d (c.cursor + size) = .error e) :
      Course c space d src [] [] ⟨.error e, [], src, cr.giveBack ⟨c.cursor, c.cursor + size⟩, d⟩
  | nothing {cr ce : ContentLog} {de : Disk} (declared : src.declared d = .ok 0)
      (reserved : c.reserve 0 = .ok (c.cursor, cr)) (made : cr.ensure space d (c.cursor + 0) = .ok (ce, de)) :
      Course c space d src [] []
        ⟨.ok ⟨0, c.cursor, Checksum.of []⟩, [], src, ce.release ⟨c.cursor, c.cursor + 0⟩, de⟩
  | served {size : Nat} {cr ce : ContentLog} {de : Disk} {t : Transfer} (declared : src.declared d = .ok size)
      (reserved : c.reserve size = .ok (c.cursor, cr)) (made : cr.ensure space d (c.cursor + size) = .ok (ce, de))
      (positive : 0 < size) (start : t.start = c.cursor) (declares : t.size = size) (soFar : t.soFar = []) :
      Course c space d src (received t src ce de) (heard t src ce de) (serve t src [] ce de)

theorem append_course (c : ContentLog) (space : Volume.Space) (d : Disk) (src : Source) :
    c.Course space d src (c.taken space d src) (c.readings space d src) (c.append space d src) := by
  cases hdecl : src.declared d with
  | error e =>
    simp only [append, taken, readings, hdecl]
    exact .length hdecl
  | ok size =>
    simp only [append, taken, readings, hdecl]
    cases hres : c.reserve size with
    | error e =>
      obtain ⟨hlong, rfl⟩ := reserve_refused hres
      rw [start_refused hres]
      exact .tooLong hdecl hlong
    | ok reserved =>
      obtain ⟨start, cr⟩ := reserved
      obtain ⟨rfl, -⟩ := reserve_cursor hres
      cases hens : cr.ensure space d (c.cursor + size) with
      | error e =>
        rw [start_short hres hens]
        exact .noRoom hdecl hres hens
      | ok made =>
        obtain ⟨ce, de⟩ := made
        rcases Nat.eq_zero_or_pos size with rfl | hpos
        · rw [start_nothing hres hens]
          exact .nothing hdecl hres hens
        · obtain ⟨t, hstart, hs, hz, hsofar⟩ := start_waiting hres hens hpos
          rw [hstart]
          exact .served hdecl hres hens hpos hs hz hsofar

theorem append_way (h : c.Resting d) (space : Volume.Space) (src : Source) : c.Way space d src := by
  have hcourse := c.append_course space d src
  generalize htaken : c.taken space d src = bs, hreadings : c.readings space d src = rs,
    happ : c.append space d src = r at hcourse
  cases hcourse with
  | length declared => exact .length declared (by rw [happ]) (by rw [happ])
  | tooLong declared long => exact .tooLong declared long (by rw [happ]) (by rw [happ])
  | noRoom declared reserved refused =>
    obtain ⟨hlog, hfits⟩ := reserve_log reserved
    obtain ⟨hpast, hrefused⟩ := ensure_refused refused
    rw [capacity, hlog] at hpast
    rw [hlog] at hrefused
    refine .noRoom declared hfits hpast hrefused (by rw [happ]) ?_
    rw [happ, giveBack, release_cursor]
    exact if_pos (reserve_cursor reserved).2
  | nothing declared reserved made =>
    obtain ⟨hlog, hfits⟩ := reserve_log reserved
    obtain ⟨-, hcur, -⟩ := ensure_spec (hlog.symm ▸ h.mounted) made
    refine .nothing declared hfits (by rw [happ]) htaken ?_
    rw [happ, release_cursor, hcur, (reserve_cursor reserved).2, Nat.add_zero]
  | @served size cr ce de t declared reserved made positive start declares soFar =>
    obtain ⟨hlog, hfits⟩ := reserve_log reserved
    obtain ⟨-, hcur, -, -, hcap, -⟩ := ensure_spec (hlog.symm ▸ h.mounted) made
    have hserved : c.Served space d src size ce de t :=
      ⟨start, declares, soFar, by rw [start, declares]; exact hcap, happ, htaken, hreadings⟩
    refine .served declared hfits hserved ?_
    rw [happ, serve_log, release_cursor, hcur, (reserve_cursor reserved).2]

/-- The step at which an append fails, and what that step answers. -/
inductive Fails (c : ContentLog) (space : Volume.Space) (d : Disk) (src : Source) : Fault → Prop
  | length {e : IoFault} (declared : src.declared d = .error e) : Fails c space d src (.io e)
  | tooLong {size : Nat} (declared : src.declared d = .ok size) (long : maxSigned < c.cursor + size) :
      Fails c space d src (.invalidArgument (.contentTooLong size c.cursor))
  | noRoom {size : Nat} {e : Fault} (declared : src.declared d = .ok size) (fits : c.cursor + size ≤ maxSigned)
      (past : c.capacity < c.cursor + size)
      (refused : Log.checkSpace space c.log.path (c.log.grownCapacity (c.cursor + size)) = .error e) :
      Fails c space d src e
  | broken {size : Nat} {e : IoFault} (declared : src.declared d = .ok size) (fits : c.cursor + size ≤ maxSigned)
      (last : (c.readings space d src).getLast? = some (.error e)) (failed : e.isInterrupted = false) :
      Fails c space d src (.io e)
  | early {size : Nat} (declared : src.declared d = .ok size) (fits : c.cursor + size ≤ maxSigned)
      (last : (c.readings space d src).getLast? = some (.ok [])) (short : (c.taken space d src).length < size) :
      Fails c space d src (Transfer.endedEarly (c.taken space d src).length size)

theorem append_fails (h : c.Resting d) {e : Fault} (hr : (c.append space d src).result = .error e) :
    c.Fails space d src e := by
  cases append_way h space src with
  | length hdecl hresult hcursor =>
    cases hresult.symm.trans hr
    exact .length hdecl
  | tooLong hdecl hlong hresult hcursor =>
    cases hresult.symm.trans hr
    exact .tooLong hdecl hlong
  | noRoom hdecl hfits hpast hrefused hresult hcursor =>
    cases hresult.symm.trans hr
    exact .noRoom hdecl hfits hpast hrefused
  | nothing hdecl hfits hresult htaken hcursor => cases hresult.symm.trans hr
  | @served size ce de t hdecl hfits hserved hcursor =>
    rw [hserved.append] at hr
    have hfails := serve_fails t src [] ce de hserved.fits hr
    rw [← hserved.readings, ← hserved.taken, hserved.soFar, List.nil_append, hserved.size] at hfails
    rcases hfails with ⟨f, hlast, hfailed, rfl⟩ | ⟨hlast, hshort, rfl⟩
    · exact .broken hdecl hfits hlast hfailed
    · exact .early hdecl hfits hlast hshort

/-! ## The path of the log -/

theorem ensure_path {c' : ContentLog} {d' : Disk} {finish : Nat} (hm : c.log.Mounted d)
    (h : c.ensure space d finish = .ok (c', d')) : c'.log.path = c.log.path := by
  obtain ⟨grew, hg, -⟩ := ensure_grows h
  exact (Log.grow_spec hm hg).2.1

theorem append_path (h : c.Resting d) (space : Volume.Space) (src : Source) :
    (c.append space d src).log.log.path = c.log.path := by
  have made_path {size start : Nat} {cr ce : ContentLog} {de : Disk} (reserved : c.reserve size = .ok (start, cr))
      (made : cr.ensure space d (start + size) = .ok (ce, de)) : ce.log.path = c.log.path := by
    obtain ⟨hlog, -⟩ := reserve_log reserved
    exact (ensure_path (hlog.symm ▸ h.mounted) made).trans (congrArg Log.path hlog)
  have hcourse := c.append_course space d src
  revert hcourse
  generalize c.taken space d src = bs, c.readings space d src = rs, c.append space d src = r
  intro hcourse
  cases hcourse with
  | length | tooLong => rfl
  | noRoom declared reserved refused =>
    rw [giveBack, release_log]
    exact congrArg Log.path (reserve_log reserved).1
  | nothing declared reserved made =>
    rw [release_log]
    exact made_path reserved made
  | served declared reserved made =>
    rw [serve_log, release_log]
    exact made_path reserved made

end ContentLog

end TwinLog
