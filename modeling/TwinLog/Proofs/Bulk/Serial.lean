/-
  TwinLog.Proofs.Bulk.Serial — the load in which every file is stored in one go.

  `Load.load` works on a file without a pause, where the workers of a `Crew` do one part of an
  add at a time. The parts of an add that nobody disturbs are that add (`Solo.adds`): it
  reserves, makes room, reads its file to the end, releases, and records the key or puts both
  headers back. So an add to a vault is a run of its turns (`Service.run_add`), and `Load.load`
  is one of the loads there are (`loads_load`).
-/

import TwinLog.Proofs.Bulk.Conclusion

namespace TwinLog

namespace Logs

variable {l : Logs} {space : Volume.Space} {d : Disk} {key : String} {src : Source} {e : Fault} {loc : Location}

theorem add_short (h : (l.content.append space d src).result = .error e) :
    l.add space d key src = (.error e, (rollback ⟨(l.content.append space d src).log, l.index⟩
      (l.content.append space d src).disk).2) := by
  simp only [add, h]

theorem add_listed (h : (l.content.append space d src).result = .ok loc)
    (hk : (l.index.add space (l.content.append space d src).disk key loc).1 = .ok ()) :
    l.add space d key src = (.ok loc, ⟨(l.content.append space d src).log,
      (l.index.add space (l.content.append space d src).disk key loc).2.1⟩,
      (l.index.add space (l.content.append space d src).disk key loc).2.2) := by
  simp only [add, h]
  generalize l.index.add space (l.content.append space d src).disk key loc = x at hk ⊢
  obtain ⟨r, index, disk⟩ := x
  cases hk
  rfl

theorem add_unlisted (h : (l.content.append space d src).result = .ok loc)
    (hk : (l.index.add space (l.content.append space d src).disk key loc).1 = .error e) :
    l.add space d key src = (.error e, (rollback ⟨(l.content.append space d src).log,
      (l.index.add space (l.content.append space d src).disk key loc).2.1⟩
      (l.index.add space (l.content.append space d src).disk key loc).2.2).2) := by
  simp only [add, h]
  generalize l.index.add space (l.content.append space d src).disk key loc = x at hk ⊢
  obtain ⟨r, index, disk⟩ := x
  cases hk
  rfl

end Logs

/-- One add, the file it reads from, and the two logs. -/
structure Solo where
  phase : Phase
  source : Source
  twin : Twin

namespace Solo

def step (path : String) (space : Volume.Space) (o : Solo) : Solo :=
  let x := o.twin.next space o.source o.phase
  let y := o.twin.move path o.phase x.1
  ⟨y.1, x.2, y.2⟩

/-- Parts of an add that has not answered yet. -/
inductive Goes (path : String) : Solo → Solo → Prop
  | refl {o : Solo} : Goes path o o
  | step {o o' : Solo} (space : Volume.Space) (silent : o.phase.answer? = none)
      (rest : Goes path (o.step path space) o') : Goes path o o'

variable {path : String} {o o' o'' : Solo}

theorem Goes.trans (h : Goes path o o') (h' : Goes path o' o'') : Goes path o o'' := by
  induction h with
  | refl => exact h'
  | step space silent _ ih => exact .step space silent (ih h')

theorem Goes.one (space : Volume.Space) (silent : o.phase.answer? = none) : Goes path o (o.step path space) :=
  .step space silent .refl

/-! ## The append -/

structure At (o : Solo) (slot : Nat) (a : Append) (src : Source) (l : Logs) (d : Disk) : Prop where
  phase : o.phase = .appending slot
  source : o.source = src
  append : o.twin.traffic.appends[slot]? = some a
  logs : o.twin.logs = (l, d)

variable {slot : Nat} {a : Append} {src : Source} {c : ContentLog} {k : Gate} {l : Logs} {d : Disk}

theorem At.silent (h : o.At slot a src l d) : o.phase.answer? = none := by
  rw [h.phase]
  rfl

variable (path) (space : Volume.Space)

theorem At.acts (h : o.At slot a src ⟨c, k⟩ d) {part : Part} {src' : Source} {m : Move}
    {f : Append → ContentLog → Disk → Append × ContentLog × Disk}
    (hnext : a.stage.next space d src = (part, src'))
    (hmove : ∀ t : Twin, t.move path (.appending slot) part = (.appending slot, t.work m))
    (hm : ∀ s : Traffic, s.step m = s.act slot f) :
    (o.step path space).At slot (f a c d).1 src' ⟨(f a c d).2.1, k⟩ (f a c d).2.2 := by
  obtain ⟨phase, source, twin⟩ := o
  obtain ⟨rfl, rfl, happend, hlogs⟩ := h
  have hlog : twin.traffic.log = c := congrArg (fun x => x.1.content) hlogs
  have hindex : twin.index = k := congrArg (fun x => x.1.index) hlogs
  have hdisk : twin.traffic.disk = d := congrArg Prod.snd hlogs
  have happend : twin.traffic.appends[slot]? = some a := happend
  have hnext' : twin.next space source (.appending slot) = (part, src') := by
    simp only [Twin.next, happend, hdisk, hnext]
  have hstep : step path space ⟨.appending slot, source, twin⟩ = ⟨.appending slot, src', twin.work m⟩ := by
    simp only [step, hnext', hmove]
  have hwork : (twin.work m).traffic = ⟨(f a c d).2.1, (f a c d).2.2, twin.traffic.appends.set slot (f a c d).1⟩ := by
    simp only [Twin.work, hm, Traffic.act, happend, hlog, hdisk]
  rw [hstep]
  refine ⟨rfl, rfl, ?_, ?_⟩
  · show (twin.work m).traffic.appends[slot]? = _
    rw [hwork]
    exact List.getElem?_set_self (List.getElem?_eq_some_iff.mp happend).1
  · show ((⟨(twin.work m).traffic.log, twin.index⟩ : Logs), (twin.work m).traffic.disk) = _
    rw [hwork, hindex]

theorem At.makes_room (h : o.At slot a src ⟨c, k⟩ d) (hstage : a.stage = .reserved) :
    (o.step path space).At slot (a.room space c d).1 src ⟨(a.room space c d).2.1, k⟩ (a.room space c d).2.2 :=
  h.acts path space (by rw [hstage, Stage.next]) (fun _ => rfl) fun _ => (rfl : Traffic.step _ (.room slot space) = _)

theorem At.reads (h : o.At slot a src ⟨c, k⟩ d) {u : Transfer} (hstage : a.stage = .streaming u) :
    (o.step path space).At slot (a.feed (src.read d u.wants).1 c d).1 (src.read d u.wants).2
      ⟨(a.feed (src.read d u.wants).1 c d).2.1, k⟩ (a.feed (src.read d u.wants).1 c d).2.2 :=
  h.acts path space (by rw [hstage, Stage.next]) (fun _ => rfl)
    fun _ => (rfl : Traffic.step _ (.feed slot (src.read d u.wants).1) = _)

theorem At.releases (h : o.At slot a src ⟨c, k⟩ d) (hnext : a.stage.next space d src = (.release, src)) :
    (o.step path space).At slot (a.release c d).1 src ⟨(a.release c d).2.1, k⟩ (a.release c d).2.2 :=
  h.acts path space hnext (fun _ => rfl) fun _ => (rfl : Traffic.step _ (.release slot) = _)

theorem At.serves (space : Volume.Space) (u : Transfer) (src : Source) (reads : List Nat) (c : ContentLog) (d : Disk)
    {a : Append} {o : Solo} (h : o.At slot a src ⟨c, k⟩ d) (hstage : a.stage = .streaming u) (hspan : u.span = a.span) :
    ∃ o' src', o.Goes path o' ∧
      o'.At slot { a with
          stage := .ended (ContentLog.serve u src reads c d).result
          received := a.received ++ ContentLog.received u src c d }
        src' ⟨c, k⟩ (ContentLog.serve u src reads c d).disk ∧
      (ContentLog.serve u src reads c d).log = c.release a.span := by
  fun_induction ContentLog.serve u src reads c d generalizing a o with
  | case1 u src reads c d result c' d' hstep =>
    have hadv := hstep
    unfold ContentLog.step at hadv
    split at hadv
    · cases hadv
    rename_i result' d'' hadvance
    cases hadv
    have hfeed : a.feed (src.read d u.wants).1 c d = (⟨a.start, a.size, .ended result,
        a.received ++ u.takes (src.read d u.wants).1⟩, c, d') := by
      simp only [Append.feed, hstage, hadvance]
    have hnext := h.reads path space hstage
    rw [hfeed] at hnext
    rw [ContentLog.received, hstep]
    exact ⟨_, _, .one space h.silent, hnext, by rw [← hspan]⟩
  | case2 u src reads c d u' c' d' hstep ih =>
    have hadv := hstep
    unfold ContentLog.step at hadv
    split at hadv
    · rename_i u'' d'' hadvance
      cases hadv
      have hfeed : a.feed (src.read d u.wants).1 c d = (⟨a.start, a.size, .streaming u',
          a.received ++ u.takes (src.read d u.wants).1⟩, c, d') := by
        simp only [Append.feed, hstage, hadvance]
      have hnext := h.reads path space hstage
      rw [hfeed] at hnext
      obtain ⟨o', src', hgoes, hat, hlog⟩ := ih hnext rfl ((Transfer.span_advance (by rw [hadvance])).trans hspan)
      rw [List.append_assoc] at hat
      rw [ContentLog.received, hstep]
      exact ⟨o', src', .trans (.one space h.silent) hgoes, hat, hlog⟩
    · cases hadv

theorem At.ends (h : o.At slot a src ⟨c, k⟩ d) {r : Except Fault Location} (hstage : a.stage = .ended r) :
    ∃ a', (o.step path space).At slot a' src ⟨c.release a.span, k⟩ d ∧ a'.stage.over? = some r ∧
      a'.received = a.received := by
  have hnext := h.releases path space (by rw [hstage, Stage.next])
  cases r with
  | ok l =>
    have hrelease : a.release c d = ({ a with stage := .returned l }, c.release a.span, d) := by
      simp only [Append.release, hstage]
    rw [hrelease] at hnext
    exact ⟨_, hnext, rfl, rfl⟩
  | error e =>
    have hrelease : a.release c d = ({ a with stage := .abandoned e }, c.release a.span, d) := by
      simp only [Append.release, hstage]
    rw [hrelease] at hnext
    exact ⟨_, hnext, rfl, rfl⟩

theorem At.fills {src : Source} {c cr : ContentLog} {size : Nat}
    (hreserve : c.reserve size = .ok (c.cursor, cr)) (hsize : src.declared d = .ok size)
    (h : o.At slot ⟨c.cursor, size, .reserved, []⟩ src ⟨cr, k⟩ d) :
    ∃ o' a' src', o.Goes path o' ∧ o'.At slot a' src' ⟨(c.append space d src).log, k⟩ (c.append space d src).disk ∧
      a'.stage.over? = some (c.append space d src).result ∧ a'.received = c.taken space d src := by
  have hroom := h.makes_room path space rfl
  have hgo : o.Goes path (o.step path space) := .one space h.silent
  unfold ContentLog.append ContentLog.taken
  rw [hsize]
  dsimp only
  cases hensure : cr.ensure space d (c.cursor + size) with
  | error e =>
    rw [ContentLog.start_short hreserve hensure]
    have hrefused : Append.room space ⟨c.cursor, size, .reserved, []⟩ cr d =
        (⟨c.cursor, size, .refused e, []⟩, cr, d) := by
      simp only [Append.room, Append.span, hensure]
    rw [hrefused] at hroom
    have hback := hroom.releases path space rfl
    have hcursor := (ContentLog.reserve_cursor hreserve).2
    have hrelease : Append.release ⟨c.cursor, size, .refused e, []⟩ cr d =
        (⟨c.cursor, size, .givenBack e, []⟩, cr.giveBack ⟨c.cursor, c.cursor + size⟩, d) := by
      simp only [Append.release, Append.span, hcursor, if_true]
    rw [hrelease] at hback
    exact ⟨_, _, _, hgo.trans (.one space hroom.silent), hback, rfl, rfl⟩
  | ok made =>
    obtain ⟨ce, de⟩ := made
    have hbegun : Append.room space ⟨c.cursor, size, .reserved, []⟩ cr d =
        (⟨c.cursor, size, Append.begun ⟨c.cursor, size, .reserved, []⟩ ce, []⟩, ce, de) := by
      simp only [Append.room, Append.span, hensure]
    rw [hbegun] at hroom
    rcases ContentLog.start_begun hreserve hensure (a := ⟨c.cursor, size, .reserved, []⟩) ⟨rfl, rfl⟩ with
      ⟨t, hstreams, hspan, hstart⟩ | ⟨l, hended, hstart⟩
    · rw [hstart]
      rw [hstreams] at hroom
      obtain ⟨o₁, src₁, hgoes, hat, hlog⟩ := hroom.serves path space t src [] ce de rfl hspan
      obtain ⟨a', hover, hresult, hbytes⟩ := hat.ends path space rfl
      dsimp only
      rw [hlog]
      exact ⟨_, a', src₁, (hgo.trans hgoes).trans (.one space hat.silent), hover, hresult, hbytes⟩
    · rw [hstart]
      rw [hended] at hroom
      obtain ⟨a', hover, hresult, hbytes⟩ := hroom.ends path space rfl
      exact ⟨_, a', src, hgo.trans (.one space hroom.silent), hover, hresult, hbytes⟩

/-! ## The add -/

theorem fails (space : Volume.Space) (o : Solo) {e : Fault} (hphase : o.phase = .failing e) :
    ∃ o', o.Goes path o' ∧ o'.phase = .failed e ∧
      o'.twin.logs = (o.twin.logs.1.rollback o.twin.logs.2).2 := by
  obtain ⟨phase, src, t⟩ := o
  cases hphase
  have hgo : Goes path ⟨.failing e, src, t⟩ (step path space ⟨.failing e, src, t⟩) := .one space rfl
  cases ht : t.headContent .rollback with
  | none =>
    have hstep : step path space ⟨.failing e, src, t⟩ = ⟨.failed e, src, t⟩ := by
      simp only [step, Twin.next, Twin.move, ht]
    obtain ⟨e', hrefused⟩ := Twin.logs_refused ht
    refine ⟨_, hgo, by rw [hstep], ?_⟩
    rw [hstep]
    exact (congrArg Prod.snd hrefused).symm
  | some t' =>
    have hstep : step path space ⟨.failing e, src, t⟩ = ⟨.unwinding e, src, t'⟩ := by
      simp only [step, Twin.next, Twin.move, ht]
    rw [hstep] at hgo
    exact ⟨⟨.failed e, src, t'.headIndex .rollback true⟩, hgo.trans (.one space rfl), rfl,
      (congrArg Prod.snd (Twin.logs_headed ht)).symm⟩

theorem At.finishes (h : o.At slot a src l d) {r : Except Fault Location} (hover : a.stage.over? = some r) :
    (∃ e, (o.step path space).phase = .failing e ∧ r = .error e ∧ (o.step path space).twin.logs = (l, d)) ∨
      ∃ loc, r = .ok loc ∧ (o.step path space).twin.logs =
          (⟨l.content, (l.index.add space d path loc).2.1⟩, (l.index.add space d path loc).2.2) ∧
        ((l.index.add space d path loc).1 = .ok () ∧ (o.step path space).phase = .recorded slot loc ∧
            (o.step path space).twin.traffic.Returned slot loc a.received ∨
          ∃ e, (l.index.add space d path loc).1 = .error e ∧ (o.step path space).phase = .failing e) := by
  obtain ⟨phase, source, t⟩ := o
  obtain ⟨rfl, rfl, happend, hlogs⟩ := h
  have happend : t.traffic.appends[slot]? = some a := happend
  have hnext : t.next space source (.appending slot) = (.finish space true, source) := by
    simp only [Twin.next, happend]
    cases hs : a.stage with
    | returned _ => rfl
    | abandoned _ => rfl
    | givenBack _ => rfl
    | _ =>
      rw [hs] at hover
      cases hover
  have houtcome : t.traffic.outcome? slot = some r := by
    unfold Traffic.outcome?
    rw [happend]
    exact hover
  cases r with
  | error e =>
    have hstep : step path space ⟨.appending slot, source, t⟩ = ⟨.failing e, source, t⟩ := by
      simp only [step, hnext, Twin.move, houtcome]
    rw [hstep]
    exact .inl ⟨e, rfl, rfl, hlogs⟩
  | ok loc =>
    have hstep : step path space ⟨.appending slot, source, t⟩ =
        ⟨(t.record path slot loc space true).1, source, (t.record path slot loc space true).2⟩ := by
      simp only [step, hnext, Twin.move, houtcome]
    have hlogs : t.logs = (l, d) := hlogs
    have hl : l = t.logs.1 := by rw [hlogs]
    have hd : d = t.logs.2 := by rw [hlogs]
    rw [hstep, hl, hd]
    refine .inr ⟨loc, rfl, ?_⟩
    cases hr : t.index.add space t.traffic.disk path loc with
    | mk result rest =>
      obtain ⟨index, disk⟩ := rest
      have hadd : t.logs.1.index.add space t.logs.2 path loc = (result, index, disk) := hr
      cases result with
      | ok u =>
        have hrecord : t.record path slot loc space true = (.recorded slot loc, t.put index disk) := by
          simp only [Twin.record, Gate.ask, if_true, ← Gate.add.eq_1, hr]
        rw [hrecord, hadd]
        exact ⟨rfl, .inl ⟨rfl, rfl, a, happend, Stage.returned_of_over hover, rfl⟩⟩
      | error e =>
        have hrecord : t.record path slot loc space true = (.failing e, t.put index disk) := by
          simp only [Twin.record, Gate.ask, if_true, ← Gate.add.eq_1, hr]
        rw [hrecord, hadd]
        exact ⟨rfl, .inr ⟨e, rfl, rfl⟩⟩

/-- The append of an add: it fails at once, or fills its range until there is no more to do. -/
theorem appends (src : Source) (t : Twin) :
    ∃ o', Goes path ⟨.starting, src, t⟩ o' ∧
      ((∃ e, o'.phase = .failing e ∧ (t.traffic.log.append space t.traffic.disk src).result = .error e ∧
          o'.twin.logs = (⟨(t.traffic.log.append space t.traffic.disk src).log, t.index⟩,
            (t.traffic.log.append space t.traffic.disk src).disk)) ∨
        ∃ slot a src', o'.At slot a src' ⟨(t.traffic.log.append space t.traffic.disk src).log, t.index⟩
            (t.traffic.log.append space t.traffic.disk src).disk ∧
          a.stage.over? = some (t.traffic.log.append space t.traffic.disk src).result ∧
          a.received = t.traffic.log.taken space t.traffic.disk src) := by
  have hgo : Goes path ⟨.starting, src, t⟩ (step path space ⟨.starting, src, t⟩) := .one space rfl
  cases hsize : src.declared t.traffic.disk with
  | error e =>
    have hstep : step path space ⟨.starting, src, t⟩ = ⟨.failing (.io e), src, t⟩ := by
      simp only [step, Twin.next, Source.opening, hsize, Twin.move]
    have happend : t.traffic.log.append space t.traffic.disk src =
        ⟨.error (.io e), [], src, t.traffic.log, t.traffic.disk⟩ := by
      simp only [ContentLog.append, hsize]
    rw [happend]
    exact ⟨_, hgo, .inl ⟨.io e, by rw [hstep], rfl, by rw [hstep]; rfl⟩⟩
  | ok size =>
    cases hreserve : t.traffic.log.reserve size with
    | error e =>
      have hstep : step path space ⟨.starting, src, t⟩ = ⟨.failing e, src, t⟩ := by
        simp only [step, Twin.next, Source.opening, hsize, Twin.move, hreserve]
      have happend : t.traffic.log.append space t.traffic.disk src =
          ⟨.error e, [], src, t.traffic.log, t.traffic.disk⟩ := by
        simp only [ContentLog.append, hsize, ContentLog.start_refused hreserve]
      rw [happend]
      exact ⟨_, hgo, .inl ⟨e, by rw [hstep], rfl, by rw [hstep]; rfl⟩⟩
    | ok reserved =>
      obtain ⟨start, cr⟩ := reserved
      obtain ⟨rfl, -⟩ := ContentLog.reserve_cursor hreserve
      have hstep : step path space ⟨.starting, src, t⟩ =
          ⟨.appending t.traffic.appends.length, src, t.work (.reserve size)⟩ := by
        simp only [step, Twin.next, Source.opening, hsize, Twin.move, hreserve]
      have hwork : (t.work (.reserve size)).traffic =
          ⟨cr, t.traffic.disk, t.traffic.appends ++ [⟨t.traffic.log.cursor, size, .reserved, []⟩]⟩ := by
        simp only [Twin.work, Traffic.step, hreserve]
      have hat : (step path space ⟨.starting, src, t⟩).At t.traffic.appends.length
          ⟨t.traffic.log.cursor, size, .reserved, []⟩ src ⟨cr, t.index⟩ t.traffic.disk := by
        rw [hstep]
        refine ⟨rfl, rfl, ?_, ?_⟩
        · show (t.work (.reserve size)).traffic.appends[_]? = _
          rw [hwork]
          exact List.getElem?_concat_length
        · show ((⟨(t.work (.reserve size)).traffic.log, t.index⟩ : Logs), (t.work (.reserve size)).traffic.disk) = _
          rw [hwork]
      obtain ⟨o', a', src', hgoes, hover, hresult, hbytes⟩ := hat.fills path space hreserve hsize
      exact ⟨o', hgo.trans hgoes, .inr ⟨_, a', src', hover, hresult, hbytes⟩⟩

/-- An add from its first part to its answer. What it has recorded is what it took from its source. -/
theorem adds (src : Source) (t : Twin) :
    ∃ o', Goes path ⟨.starting, src, t⟩ o' ∧
      o'.phase.answer? = some (t.logs.1.add space t.logs.2 path src).1 ∧
      o'.twin.logs = (t.logs.1.add space t.logs.2 path src).2 ∧
      ∀ loc, (t.logs.1.add space t.logs.2 path src).1 = .ok loc → ∃ slot, o'.phase = .recorded slot loc ∧
        o'.twin.traffic.Returned slot loc (t.logs.1.content.taken space t.logs.2 src) := by
  -- an add whose append or whose key is refused puts both headers back
  have failing {o' : Solo} {e : Fault} {l : Logs} {d : Disk} (hgoes : Goes path ⟨.starting, src, t⟩ o')
      (hphase : o'.phase = .failing e) (hlogs : o'.twin.logs = (l, d))
      (hadd : t.logs.1.add space t.logs.2 path src = (.error e, (l.rollback d).2)) :
      ∃ o', Goes path ⟨.starting, src, t⟩ o' ∧
        o'.phase.answer? = some (t.logs.1.add space t.logs.2 path src).1 ∧
        o'.twin.logs = (t.logs.1.add space t.logs.2 path src).2 ∧
        ∀ loc, (t.logs.1.add space t.logs.2 path src).1 = .ok loc → ∃ slot, o'.phase = .recorded slot loc ∧
          o'.twin.traffic.Returned slot loc (t.logs.1.content.taken space t.logs.2 src) := by
    obtain ⟨o'', hfails, hfailed, hback⟩ := fails path space o' hphase
    refine ⟨o'', hgoes.trans hfails, ?_, ?_, ?_⟩
    · rw [hfailed, hadd]
      rfl
    · rw [hback, hadd, hlogs]
    · rw [hadd]
      exact nofun
  obtain ⟨o', hgoes, ⟨e, hphase, hresult, hlogs⟩ | ⟨slot, a, src', hat, hover, hbytes⟩⟩ := appends path space src t
  · exact failing hgoes hphase hlogs (Logs.add_short hresult)
  · have hgo := hgoes.trans (.one space hat.silent)
    rcases hat.finishes path space hover with
      ⟨e, hphase, hresult, hlogs⟩ | ⟨loc, hresult, hlogs, ⟨hadded, hphase, hreturned⟩ | ⟨e, hrefused, hphase⟩⟩
    · exact failing hgo hphase hlogs (Logs.add_short hresult)
    · have hadd := Logs.add_listed (l := t.logs.1) (d := t.logs.2) hresult hadded
      refine ⟨_, hgo, ?_, ?_, ?_⟩
      · rw [hphase, hadd]
        rfl
      · rw [hlogs, hadd]
        rfl
      · rw [hadd]
        intro loc' hloc
        cases hloc
        rw [hbytes] at hreturned
        exact ⟨slot, hphase, hreturned⟩
    · exact failing hgo hphase hlogs (Logs.add_unlisted (l := t.logs.1) hresult hrefused)

theorem Goes.turns (h : Goes path o o') :
    ∃ turns, Service.run ⟨o.twin, [⟨path, o.phase⟩], none⟩ turns = ⟨o'.twin, [⟨path, o'.phase⟩], none⟩ := by
  induction h with
  | refl => exact ⟨[], rfl⟩
  | @step o _ space _ _ ih =>
    obtain ⟨turns, hrun⟩ := ih
    exact ⟨.add 0 (o.twin.next space o.source o.phase).1 :: turns, hrun⟩

end Solo

/-- An add that finds nobody at work. -/
theorem Service.run_add (l : Logs) (d : Disk) (space : Volume.Space) {key : String} (hkey : key ≠ "") (src : Source) :
    ∃ turns, ((ofLogs l d).run turns).twin.logs = (l.add space d key src).2 ∧
      ∀ location, (l.add space d key src).1 = .ok location →
        ((ofLogs l d).run turns).Recorded ⟨key, location, l.content.taken space d src⟩ := by
  obtain ⟨o, hgoes, -, hlogs, hreturned⟩ := Solo.adds key space src ⟨.idle l.content d, l.index, [], []⟩
  obtain ⟨turns, hrun⟩ := hgoes.turns
  have hbegin : (ofLogs l d).step (.begin key) = ⟨⟨.idle l.content d, l.index, [], []⟩, [⟨key, .starting⟩], none⟩ :=
    if_neg (by simp [ofLogs, hkey])
  have hall : (ofLogs l d).run (.begin key :: turns) = ⟨o.twin, [⟨key, o.phase⟩], none⟩ := by
    rw [← hrun, ← hbegin]
    rfl
  refine ⟨.begin key :: turns, ?_, ?_⟩
  · rw [hall]
    exact hlogs
  · intro location h
    obtain ⟨slot, hphase, hkept⟩ := hreturned location h
    rw [hall, hphase]
    exact ⟨0, slot, rfl, hkept⟩

/-! ## The load -/

structure Intake.Follows (s : Intake) (i : Nat) (path : String) (o : Solo) : Prop where
  twin : s.service.twin = o.twin
  add : s.service.adds[i]? = some ⟨path, o.phase⟩
  source : s.sources[i]? = some o.source
  shared : s.service.exclusive = none
  length : s.sources.length = s.service.adds.length

namespace Intake.Follows

variable {s : Intake} {i : Nat} {path : String} {o o' : Solo}

theorem advance (h : s.Follows i path o) (space : Volume.Space) :
    (s.advance i space).Follows i path (o.step path space) := by
  have hadvance : s.advance i space = ⟨⟨(o.step path space).twin,
      s.service.adds.set i ⟨path, (o.step path space).phase⟩, s.service.exclusive⟩,
      s.sources.set i (o.step path space).source⟩ := by
    simp only [Intake.advance, h.add, h.source, Service.step, h.twin]
    rfl
  rw [hadvance]
  refine ⟨rfl, ?_, ?_, h.shared, ?_⟩
  · exact List.getElem?_set_self (List.getElem?_eq_some_iff.mp h.add).1
  · exact List.getElem?_set_self (List.getElem?_eq_some_iff.mp h.source).1
  · simp only [List.length_set, h.length]

theorem answer (h : s.Follows i path o) : s.answer? i = o.phase.answer? := by
  rw [Intake.answer?, h.add]
  rfl

/-- A worker that stays with his add does all its parts. -/
theorem goes (h : s.Follows i path o) (hg : o.Goes path o') (w : Volume) (attempts left : Nat) :
    ∃ s', s'.Follows i path o' ∧ ∀ r t, (Load.trade w attempts).Does path (.adding i left) s' r t →
      (Load.trade w attempts).Does path (.adding i left) s r t := by
  induction hg generalizing s with
  | refl => exact ⟨s, h, fun _ _ hd => hd⟩
  | step space silent _ ih =>
    obtain ⟨s', hs', hdoes⟩ := ih (h.advance space)
    refine ⟨s', hs', fun r t hd => .more space ?_ (hdoes r t hd)⟩
    simp only [Load.trade, h.answer, silent]

end Intake.Follows

namespace Load

/-- A load between two files: the crew's intake, and the site of the pool. -/
structure Between (vault : Vault) (w : Volume) (site : Site) (s : Intake) : Prop where
  site : site = s.site vault w
  shared : s.service.exclusive = none
  length : s.sources.length = s.service.adds.length

variable {vault : Vault} {w : Volume} {site : Site} {s : Intake} {path : String} {attempts left : Nat}

theorem Between.opens (h : Between vault w site s) (path : String) :
    Source.openAt site.2 path 0 = Source.openAt w path 0 := by
  have hnodes : (s.site vault w).2.nodes = w.nodes := rfl
  rw [h.site, Source.openAt_start, Source.openAt_start, Volume.openToRead_congr hnodes]

theorem Between.stores (h : Between vault w site s) {src : Source} (hopen : Source.openAt w path 0 = .ok src)
    (hkey : path ≠ "") :
    addOnce path site = ((s.service.twin.logs.1.add site.2.space s.service.twin.logs.2 path src).1,
      ({ vault with logs := some (s.service.twin.logs.1.add site.2.space s.service.twin.logs.2 path src).2.1 },
        { w with disk := (s.service.twin.logs.1.add site.2.space s.service.twin.logs.2 path src).2.2 })) := by
  unfold addOnce
  rw [h.opens, hopen, h.site]
  unfold onDisk Vault.add Vault.withKey
  simp only [if_neg hkey]
  rfl

/-- One attempt to store a file: it is refused before its add begins, or its add answers. -/
theorem Between.once (h : Between vault w site s) (path : String) (attempts left : Nat) :
    (∃ e, addOnce path site = (.error e, site) ∧ (∀ t, e ≠ .timedOut t) ∧
        (trade w attempts).Does path (.opening left) s (.error e) s) ∨
      ∃ i s', Between vault w (addOnce path site).2 s' ∧ s'.answer? i = some (addOnce path site).1 ∧
        ∀ r t, (trade w attempts).Does path (.adding i left) s' r t →
          (trade w attempts).Does path (.opening left) s r t := by
  cases hopen : Source.openAt w path 0 with
  | error e =>
    refine .inl ⟨.io e, ?_, nofun, .last (fun _ => .ok 0) ?_⟩
    · simp only [addOnce, h.opens, hopen]
    · simp only [trade, hopen]
  | ok src =>
    by_cases hkey : path = ""
    · refine .inl ⟨.invalidArgument .emptyKey, ?_, nofun, .last (fun _ => .ok 0) ?_⟩
      · simp only [addOnce, h.opens, hopen, onDisk, Vault.add, Vault.withKey, if_pos hkey]
      · simp only [trade, hopen, if_pos hkey]
    · right
      obtain ⟨o', hgoes, hanswer, hlogs, -⟩ := Solo.adds path site.2.space src s.service.twin
      have hservice : (s.accept path src).service = { s.service with adds := s.service.adds ++ [⟨path, .starting⟩] } :=
        Intake.step_begin hkey h.shared
      have hbegun : (s.accept path src).Follows s.service.adds.length path ⟨.starting, src, s.service.twin⟩ := by
        refine ⟨?_, ?_, ?_, ?_, ?_⟩
        · rw [hservice]
        · rw [hservice]
          exact List.getElem?_concat_length
        · rw [← h.length]
          exact List.getElem?_concat_length
        · rw [hservice]
          exact h.shared
        · rw [hservice]
          show (s.sources ++ [src]).length = _
          simp only [List.length_append, h.length, List.length_singleton]
      obtain ⟨s', hs', hdoes⟩ := hbegun.goes hgoes w attempts left
      have honce := h.stores hopen hkey
      rw [← hlogs, ← hs'.twin] at honce
      refine ⟨s.service.adds.length, s', ?_, ?_, ?_⟩
      · rw [honce]
        exact ⟨rfl, hs'.shared, hs'.length⟩
      · rw [honce, hs'.answer, hanswer]
      · intro r t hd
        refine .more (fun _ => .ok 0) ?_ (hdoes r t hd)
        simp only [trade, hopen, if_neg hkey]

theorem Between.fresh (vault : Vault) (w : Volume) {l : Logs} (hl : vault.logs = some l) :
    Between vault w (vault, w) (.ofLogs l w.disk) where
  site := by
    obtain ⟨settings, logs⟩ := vault
    cases hl
    rfl
  shared := rfl
  length := rfl

theorem reply_done {r : Except Fault Location} (h : left = 0 ∨ ∀ t, r ≠ .error (.timedOut t)) :
    reply left r = .ended (r.map fun _ => ()) := by
  unfold reply
  split
  · rfl
  · rename_i left t
    exact absurd rfl (h.resolve_left (Nat.succ_ne_zero left) t)
  · rfl

/-- All attempts to store a file are the pieces of its errand. -/
theorem Between.tries (h : Between vault w site s) (path : String) (attempts left : Nat) :
    ∃ s', (trade w attempts).Does path (.opening left) s ((retryMore (addOnce path) left site).1.map fun _ => ()) s' ∧
      Between vault w (retryMore (addOnce path) left site).2 s' := by
  induction left generalizing site s with
  | zero =>
    rw [retryMore]
    rcases h.once path attempts 0 with ⟨e, honce, -, hdoes⟩ | ⟨i, s', hs', hanswer, hdoes⟩
    · rw [honce]
      exact ⟨s, hdoes, h⟩
    · refine ⟨s', hdoes _ _ (.last (fun _ => .ok 0) ?_), hs'⟩
      simp only [trade, hanswer, reply_done (.inl rfl)]
  | succ left ih =>
    rw [retryMore]
    rcases h.once path attempts (left + 1) with ⟨e, honce, hnot, hdoes⟩ | ⟨i, s', hs', hanswer, hdoes⟩
    · rw [honce]
      split
      · rename_i t _ heq
        cases heq
        exact absurd rfl (hnot t)
      · exact ⟨s, hdoes, h⟩
    · split
      · rename_i t site' heq
        rw [heq] at hs' hanswer
        obtain ⟨s'', hagain, hs''⟩ := ih hs'
        refine ⟨s'', hdoes _ _ (.more (fun _ => .ok 0) ?_ hagain), hs''⟩
        simp only [trade, hanswer, reply]
      · rename_i hlast
        refine ⟨s', hdoes _ _ (.last (fun _ => .ok 0) ?_), hs'⟩
        have hsettled : ∀ t, (addOnce path site).1 ≠ .error (.timedOut t) := by
          intro t ht
          exact hlast t (addOnce path site).2 (Prod.ext ht rfl)
        simp only [trade, hanswer, reply_done (.inr hsettled)]

end Load

/-- Storing every file in one go is a load like any other. -/
theorem loads_load {v w : Volume} {s : Settings} {vault : Vault} (hopen : Vault.openAt v s = (.ok vault, w))
    (paths : List String) (threads attempts : Nat) :
    Loads vault w paths threads attempts (Load.load v s paths threads attempts).1
      (Load.load v s paths threads attempts).2 := by
  obtain ⟨l, hl⟩ : ∃ l, vault.logs = some l := by
    obtain ⟨u, c, x, k, -, rfl⟩ := Vault.openAt_iff.mp hopen
    exact ⟨_, rfl⟩
  have hstart : Crew.Mirrors (Load.trade w attempts) (Load.Between vault w) (Pool.start threads paths (vault, w))
      (Crew.start threads paths (.ofLogs l w.disk)) :=
    Crew.mirrors_start threads paths (.fresh vault w hl)
  obtain ⟨moves, hmirrors, hdone, houtcome⟩ := hstart.run (Load.addFile attempts)
    (fun path site s h => h.tries path attempts (attempts - 1)) fun _ => .ok 0
  have hload : Load.load v s paths threads attempts =
      Load.conclude ((Pool.start threads paths (vault, w)).run (Load.addFile attempts)).outcome
        ((Pool.start threads paths (vault, w)).run (Load.addFile attempts)).shared := by
    unfold Load.load Load.pooled
    rw [hopen]
    dsimp only
    cases ((Pool.start threads paths (vault, w)).run (Load.addFile attempts)).outcome <;> rfl
  rw [hload, ← houtcome, hmirrors.shared.site]
  exact .done hl moves hdone

end TwinLog
