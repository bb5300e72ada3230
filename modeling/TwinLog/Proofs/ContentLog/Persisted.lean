/-
  TwinLog.Proofs.ContentLog.Persisted — the cursor in the header of a content log.

  `Used path s v` says that a content log is open on the volume `v` in the state `s`, and that
  nothing but content logs has ever written the file at `path`. A session of such a log is
  any sequence of moves of any appends, commits and rollbacks (`Goes`), and ends with a close
  or by letting go of the log wherever it stands.

  A commit holds the lock of the file, but reads the cursor before it writes the header.
  Between the two other threads can reserve ranges and release them, those without room
  included, so that the cursor in memory may be higher or lower by then (`committed`). These
  moves touch neither the file nor its capacity (`Move.quiet`), so all is as if the commit
  had been made when it read the cursor (`committed_eq`).

  The cursor in memory may lie past the end of the file, after growth that failed while
  another append had reserved the next range. The smaller of the two is stored. This cuts
  off nothing: what an append has returned ends within the file, since it was written
  there, and before the cursor, which falls back over the last range alone, and only if that
  is given back (`Anchored`).

  - `header_covers`: the header is zero or within the file at any time, so that no opening
    finds it damaged, and a commit covers what was returned before, so that it reads back.
-/

import TwinLog.Proofs.ContentLog.Returns
import TwinLog.Proofs.KeyLog.History

namespace TwinLog

/-- The moves that touch neither the file nor its capacity. -/
def Move.quiet : Move → Bool
  | .reserve _ | .release _ => true
  | _ => false

namespace Traffic

/-- What a commit writes that has read the cursor in `s` and comes to write in `t`. -/
def stores (s t : Traffic) : Except Fault Disk :=
  t.log.log.storeCursor (t.log.log.flush t.disk) (min s.log.cursor s.log.capacity)

end Traffic

namespace ContentLog

/-- The volume that a session leaves, closed or just let go of. -/
def left (c : ContentLog) (v : Volume) (closes : Bool) : Volume :=
  { v with disk := if closes then c.close v.disk else v.disk }

/-- From `s` on the volume `v` a session can come to this state and volume. -/
inductive Goes (path : String) (may : Move → Prop) (s : Traffic) (v : Volume) : Traffic → Volume → Prop
  | here : Goes path may s v s v
  | moved {t : Traffic} {w : Volume} (before : Goes path may s v t w) (m : Move) (allowed : may m) :
      Goes path may s v (t.step m) { w with disk := (t.step m).disk }
  | committed {t : Traffic} {w : Volume} {d : Disk} (before : Goes path may s v t w) (others : List Move)
      (quiet : ∀ m ∈ others, m.quiet) (stored : t.stores (t.run others) = .ok d) :
      Goes path may s v { t.run others with disk := d } { w with disk := d }
  | meanwhile {t : Traffic} {w x : Volume} (before : Goes path may s v t w) (change : w.Spares path x) :
      Goes path may s v { t with disk := x.disk } x

/-- A content log is open on `v`, and only content logs have written its file. -/
inductive Used (path : String) : Traffic → Volume → Prop
  | first {v v' : Volume} {f : FileId} {capacity bufferSize : Nat} {c : ContentLog} (sound : v.Sound)
      (reaches : v.Reaches path f) (new : (v.disk.image f).length = 0)
      (opened : openAt v path capacity bufferSize = (.ok c, v')) : Used path (.idle c v'.disk) v'
  | goes {s t : Traffic} {v w : Volume} (before : Used path s v) (later : Goes path (fun _ => True) s v t w) :
      Used path t w
  | again {s : Traffic} {c : ContentLog} {v w w' : Volume} {capacity bufferSize : Nat} (before : Used path s v)
      (closes : Bool) (change : (s.log.left v closes).Spares path w)
      (opened : openAt w path capacity bufferSize = (.ok c, w')) : Used path (.idle c w'.disk) w'

end ContentLog

namespace Traffic

variable {s t : Traffic} {low base stop : Nat} {first : Image}

/-! ## A commit and what comes between -/

theorem release_quiet (a : Append) (c : ContentLog) (d : Disk) :
    (a.release c d).2.2 = d ∧ (a.release c d).2.1.log = c.log ∧
      ∀ d', a.release c d' = ((a.release c d).1, (a.release c d).2.1, d') := by
  unfold Append.release
  split
  · exact ⟨rfl, ContentLog.release_log .., fun _ => rfl⟩
  · exact ⟨rfl, ContentLog.release_log .., fun _ => rfl⟩
  · exact ⟨rfl, ContentLog.release_log .., fun _ => rfl⟩
  · exact ⟨rfl, rfl, fun _ => rfl⟩

theorem quiet_step {m : Move} (h : m.quiet) (s : Traffic) (d : Disk) :
    (s.step m).disk = s.disk ∧ (s.step m).log.log = s.log.log ∧
      step { s with disk := d } m = { s.step m with disk := d } := by
  cases m with
  | reserve size =>
    by_cases hfits : s.log.cursor + size ≤ maxSigned
    · simp only [step, ContentLog.reserve, hfits, if_true, and_self]
    · simp only [step, ContentLog.reserve, hfits, if_false, and_self]
  | release i =>
    simp only [step, act]
    cases s.appends[i]? with
    | none => exact ⟨rfl, rfl, rfl⟩
    | some a =>
      obtain ⟨hdisk, hlog, hother⟩ := release_quiet a s.log s.disk
      dsimp only
      rw [hother d]
      exact ⟨hdisk, hlog, rfl⟩
  | _ => cases h

theorem quiet_run {others : List Move} (h : ∀ m ∈ others, m.quiet) (s : Traffic) (d : Disk) :
    (s.run others).disk = s.disk ∧ (s.run others).log.log = s.log.log ∧
      run { s with disk := d } others = { s.run others with disk := d } := by
  induction others generalizing s with
  | nil => exact ⟨rfl, rfl, rfl⟩
  | cons m others ih =>
    obtain ⟨hdisk, hlog, hother⟩ := quiet_step (h m List.mem_cons_self) s d
    obtain ⟨hdisk', hlog', hother'⟩ := ih (fun n hn => h n (List.mem_cons_of_mem m hn)) (s.step m)
    refine ⟨hdisk'.trans hdisk, hlog'.trans hlog, ?_⟩
    show run (step { s with disk := d } m) others = _
    rw [hother]
    exact hother'

/-- What other threads reserve and release in the meantime does not show in what is stored. -/
theorem stores_quiet {others : List Move} (h : ∀ m ∈ others, m.quiet) (s : Traffic) :
    s.stores (s.run others) = s.log.commit s.disk := by
  obtain ⟨hdisk, hlog, -⟩ := quiet_run h s s.disk
  rw [stores, hdisk, hlog, ContentLog.commit]

/-- A commit with others in between is one that came before them. -/
theorem committed_eq {others : List Move} (h : ∀ m ∈ others, m.quiet) {d : Disk}
    (hd : s.stores (s.run others) = .ok d) : { s.run others with disk := d } = s.run (.commit :: others) := by
  rw [stores_quiet h] at hd
  have hstep : s.step .commit = { s with disk := d } := by simp only [step, head, hd]
  show _ = run (s.step .commit) others
  rw [hstep]
  exact (quiet_run h s d).2.2.symm

/-! ## The invariant -/

/-- Nothing can take the cursor below `stop`: an append that ends there has returned. -/
def Anchored (stop : Nat) (s : Traffic) : Prop :=
  stop ≤ headSize ∨ ∃ i l bs, s.Returned i l bs ∧ 0 < l.size ∧ l.finish = stop

theorem Anchored.le (h : s.Anchored stop) (ht : s.Tiled low base first) :
    stop ≤ s.log.cursor ∧ stop ≤ s.log.capacity := by
  have hhead := ht.head_le
  have hbase := ht.base_le
  have hcursor := ht.base_le_cursor
  rcases h with h | ⟨i, l, bs, hr, hpos, rfl⟩
  · omega
  · obtain ⟨-, hfits, -, hheld⟩ := returned_spec ht hr
    exact ⟨(ht.held_bounds (hheld hpos)).2.2, hfits⟩

theorem Anchored.frame (h : s.Anchored stop) (hf : Frame s t) : t.Anchored stop :=
  h.imp_right fun ⟨i, l, bs, hr, hrest⟩ => ⟨i, l, bs, hf.returned i l bs hr, hrest⟩

/-- The log is sound on its volume, and its header lies between `stop` and the end of the file. -/
structure Persists (path : String) (stop : Nat) (s : Traffic) (v : Volume) : Prop where
  disk : s.disk = v.disk
  sound : v.Sound
  names : v.Names path s.log.log.file
  tiled : ∃ first, s.Tiled headSize s.log.checkpoint first
  headed : ∃ p, (s.disk.image s.log.log.file).Headed p ∧ stop ≤ p ∧ p ≤ s.log.capacity

namespace Persists

variable {path : String} {v w : Volume}

/-- A move changes the header only if it writes one. -/
theorem headed_step (ht : s.Tiled headSize base first) (m : Move) (hs : s.Anchored stop) (hc : base = s.log.checkpoint)
    (hroll : m = .rollback → stop ≤ headSize)
    (hh : ∃ p, (s.disk.image s.log.log.file).Headed p ∧ stop ≤ p ∧ p ≤ s.log.capacity) :
    ∃ p, ((s.step m).disk.image (s.step m).log.log.file).Headed p ∧ stop ≤ p ∧ p ≤ (s.step m).log.capacity := by
  obtain ⟨hcursor, hcap⟩ := hs.le ht
  have hhead := ht.head_le
  have hbase := ht.base_le
  have hbasecur := ht.base_le_cursor
  obtain ⟨p, hp, hstop, hle⟩ := hh
  have hquiet (hm : m.heads = false) : ∃ p, ((s.step m).disk.image (s.step m).log.log.file).Headed p ∧ stop ≤ p ∧
      p ≤ (s.step m).log.capacity := by
    have hzero : s.Tiled 0 base (s.disk.image s.log.log.file) := { ht with below := .refl }
    have hk := (tiled_step hzero m fun h => by rw [hm] at h; cases h).below
    have hframe := frame_step ht m
    exact ⟨p, hp.congr (hk.mono (Nat.le_refl _) hhead), hstop, Nat.le_trans hle hframe.capacity_le⟩
  cases m with
  | commit =>
    simp only [step, head]
    split
    · exact ⟨p, hp, hstop, hle⟩
    · rename_i d hd
      obtain ⟨-, -, hh, -⟩ := ContentLog.commit_ok ht.mounted hd
      exact ⟨_, hh (by omega), by omega, Nat.min_le_right ..⟩
  | rollback =>
    have hlow := hroll rfl
    simp only [step, head]
    split
    · exact ⟨p, hp, hstop, hle⟩
    · rename_i d hd
      obtain ⟨-, -, hh, -⟩ := Log.storeCursor_ok ht.mounted hd
      exact ⟨_, hh (by omega), by omega, by show s.log.checkpoint ≤ s.log.capacity; omega⟩
  | _ => exact hquiet rfl

theorem step (h : Persists path stop s v) (hs : s.Anchored stop) (m : Move) (hroll : m = .rollback → stop ≤ headSize) :
    Persists path stop (s.step m) { v with disk := (s.step m).disk } ∧ (s.step m).Anchored stop := by
  obtain ⟨first, ht⟩ := h.tiled
  have hframe := frame_step ht m
  have hsize : v.disk.files.size = (s.step m).disk.files.size := by rw [hframe.only.size, h.disk]
  refine ⟨{
    disk := rfl
    sound := h.sound.of_nodes rfl (Nat.le_of_eq hsize)
    names := by
      rw [hframe.file]
      exact h.names.grown h.sound (.of_nodes rfl)
    tiled := by
      rw [hframe.checkpoint]
      exact ⟨first, tiled_step ht m fun _ => Nat.le_refl _⟩
    headed := headed_step ht m hs rfl hroll h.headed }, hs.frame hframe⟩

theorem run (h : Persists path stop s v) (hs : s.Anchored stop) (moves : List Move)
    (hroll : .rollback ∈ moves → stop ≤ headSize) :
    Persists path stop (s.run moves) { v with disk := (s.run moves).disk } ∧ (s.run moves).Anchored stop := by
  induction moves generalizing s v with
  | nil =>
    have hv : ({ v with disk := s.disk } : Volume) = v := by rw [h.disk]
    exact ⟨hv.symm ▸ h, hs⟩
  | cons m moves ih =>
    obtain ⟨h', hs'⟩ := h.step hs m fun hm => hroll (hm ▸ List.mem_cons_self)
    have hrest := ih h' hs' fun hm => hroll (List.mem_cons_of_mem m hm)
    exact hrest

/-- What happens elsewhere on the volume. -/
theorem spares (h : Persists path stop s v) (hw : v.Spares path w) :
    Persists path stop { s with disk := w.disk } w := by
  obtain ⟨first, ht⟩ := h.tiled
  obtain ⟨hname, himage⟩ := hw.kept _ h.names
  rw [← h.disk] at himage
  have hm : s.log.log.Mounted w.disk :=
    ⟨hname.file_lt hw.sound, himage ▸ ht.mounted.length_eq, ht.mounted.head_le⟩
  have hk : Image.Keeps headSize s.log.capacity (s.disk.image s.log.log.file) (w.disk.image s.log.log.file) := by
    rw [himage]
    exact .refl
  obtain ⟨p, hp, hstop, hle⟩ := h.headed
  exact ⟨rfl, hw.sound, hname, ⟨first, ht.onDisk (Nat.le_refl _) hm hk⟩, p, himage.symm ▸ hp, hstop, hle⟩

/-- A session that goes on keeps the header behind `stop`, unless it may roll back, and
    what was returned. -/
theorem goes {may : Move → Prop} {t : Traffic} (hroll : may .rollback → stop ≤ headSize)
    (h : Persists path stop s v) (hs : s.Anchored stop) (hg : ContentLog.Goes path may s v t w) :
    Persists path stop t w ∧ t.Anchored stop ∧ ∀ i l bs, s.Returned i l bs → t.Returned i l bs := by
  induction hg with
  | here => exact ⟨h, hs, fun _ _ _ hr => hr⟩
  | moved before m allowed ih =>
    obtain ⟨h', hs', hr'⟩ := ih
    obtain ⟨first, ht'⟩ := h'.tiled
    obtain ⟨hnext, hsnext⟩ := h'.step hs' m fun hm => hroll (hm ▸ allowed)
    exact ⟨hnext, hsnext, fun i l bs hr => (frame_step ht' m).returned i l bs (hr' i l bs hr)⟩
  | committed before others quiet stored ih =>
    obtain ⟨h', hs', hr'⟩ := ih
    obtain ⟨first, ht'⟩ := h'.tiled
    have hmem : .rollback ∉ Move.commit :: others := by
      intro hmem
      rcases List.mem_cons.mp hmem with hmem | hmem
      · cases hmem
      · cases quiet _ hmem
    have hrun := h'.run hs' (.commit :: others) fun hm => absurd hm hmem
    have hframe := frame_run ht' (.commit :: others) fun _ _ _ => Nat.le_refl _
    rw [← committed_eq quiet stored] at hrun hframe
    exact ⟨hrun.1, hrun.2, fun i l bs hr => hframe.returned i l bs (hr' i l bs hr)⟩
  | meanwhile before change ih =>
    obtain ⟨h', hs', hr'⟩ := ih
    exact ⟨h'.spares change, hs', hr'⟩

/-- After a commit the header covers what nothing can take back, whatever others reserved and
    released during it. -/
theorem committed (h : Persists path headSize s v) (hs : s.Anchored stop) {others : List Move}
    (hq : ∀ m ∈ others, m.quiet) {d : Disk} (hd : s.stores (s.run others) = .ok d)
    (hh : (d.image s.log.log.file).Headed (min s.log.cursor s.log.capacity)) :
    Persists path stop { s.run others with disk := d } { v with disk := d } ∧
      Frame s { s.run others with disk := d } := by
  obtain ⟨first, ht⟩ := h.tiled
  -- the state right after the commit is one that a run of moves reaches
  obtain ⟨hrun, -⟩ := h.run (.inl (Nat.le_refl _)) (.commit :: others) fun _ => Nat.le_refl _
  have hframe := frame_run ht (.commit :: others) fun _ _ _ => Nat.le_refl _
  rw [← committed_eq hq hd] at hrun hframe
  have hlog := (quiet_run hq s s.disk).2.1
  refine ⟨{ hrun with headed := ⟨_, ?_, Nat.le_min.mpr (hs.le ht), ?_⟩ }, hframe⟩
  · show (d.image (s.run others).log.log.file).Headed _
    rw [hlog]
    exact hh
  · show min s.log.cursor s.log.capacity ≤ (s.run others).log.log.capacity
    rw [hlog]
    exact Nat.min_le_right ..

theorem opened {capacity bufferSize : Nat} {c : ContentLog} (hv : v.Sound)
    (h : ContentLog.openAt v path capacity bufferSize = (.ok c, w)) : Persists path headSize (.idle c w.disk) w := by
  have ho := ContentLog.openAt_spec hv h
  have hc := ho.checkpoint
  have ht := ho.resting.tiled headSize
  rw [← hc] at ht
  exact ⟨rfl, ho.log.sound, ho.log.names, ⟨_, ht⟩, _, ho.headed, ho.headed.head_le, ho.cursor_le⟩

end Persists

/-! ## Opening what a session leaves -/

namespace Persists

variable {path : String} {v w w' : Volume} {capacity bufferSize : Nat} {c : ContentLog}

theorem left_keeps (h : Persists path stop s v) (closes : Bool) :
    Image.Keeps 0 s.log.capacity (s.disk.image s.log.log.file) ((s.log.left v closes).disk.image s.log.log.file) := by
  obtain ⟨first, ht⟩ := h.tiled
  have hm := ht.mounted
  rw [h.disk] at hm ⊢
  cases closes with
  | false => exact .refl
  | true => exact (Log.flush_spec hm).2.2

/-- The file under its name, as the next session finds it. -/
theorem resumes (h : Persists path stop s v) {closes : Bool} (hw : (s.log.left v closes).Spares path w) :
    w.Names path s.log.log.file ∧
      Image.Keeps 0 s.log.capacity (s.disk.image s.log.log.file) (w.disk.image s.log.log.file) ∧
      ∃ p, (s.disk.image s.log.log.file).Headed p ∧ stop ≤ p ∧ (w.disk.image s.log.log.file).Resumes p := by
  obtain ⟨first, ht⟩ := h.tiled
  obtain ⟨p, hp, hstop, hle⟩ := h.headed
  have hm : s.log.log.Mounted v.disk := h.disk ▸ ht.mounted
  have hcap := ht.mounted.head_le
  have hsize : v.disk.files.size ≤ (s.log.left v closes).disk.files.size := by
    cases closes with
    | false => exact Nat.le_refl _
    | true => exact Nat.le_of_eq (Log.flush_spec hm).2.1.size.symm
  have hname : (s.log.left v closes).Names path s.log.log.file := h.names.grown h.sound (.of_nodes rfl)
  obtain ⟨hname, himage⟩ := hw.kept _ hname
  have hk := h.left_keeps closes
  have hlen : ((s.log.left v closes).disk.image s.log.log.file).length = s.log.capacity := by
    cases closes with
    | false => exact hm.length_eq
    | true => exact (Log.flush_spec hm).1.length_eq
  rw [← himage] at hk hlen
  exact ⟨hname, hk, p, hp, hstop, .inr ⟨hp.congr (hk.mono (Nat.le_refl _) hcap), by omega⟩⟩

/-- The next opening does not find the file damaged, and goes on from the header. -/
theorem reopens (h : Persists path stop s v) {closes : Bool} (hw : (s.log.left v closes).Spares path w)
    (capacity bufferSize : Nat) :
    (∀ damage, (ContentLog.openAt w path capacity bufferSize).1 ≠ .error (.corruption damage)) ∧
      (0 < bufferSize → Log.Room w path capacity →
        ∃ c w', ContentLog.openAt w path capacity bufferSize = (.ok c, w')) ∧
      ∀ c w', ContentLog.openAt w path capacity bufferSize = (.ok c, w') →
        (s.disk.image s.log.log.file).Headed c.cursor ∧ stop ≤ c.cursor := by
  obtain ⟨hname, -, p, hp, hstop, hres⟩ := h.resumes hw
  have hopen {log : Log} {w' : Volume} (hb : 0 < bufferSize) (hlog : Log.openAt w path capacity = .ok (log, w')) :
      ContentLog.openAt w path capacity bufferSize = (.ok ⟨log, p, p, [], bufferSize, hb⟩, w') := by
    have hfile := (Log.openAt_spec hw.sound hlog).reaches.unique (.inl hname)
    exact ContentLog.openAt_resumes hw.sound hlog (hfile ▸ hres) hb
  refine ⟨?_, ?_, ?_⟩
  · intro damage
    by_cases hb : 0 < bufferSize
    · cases hlog : Log.openAt w path capacity with
      | error e =>
        unfold ContentLog.openAt
        rw [dif_pos hb, hlog]
        rintro heq
        cases heq
        exact KeyLog.log_not_corrupt hlog
      | ok opened =>
        rw [hopen hb hlog]
        exact fun heq => nomatch heq
    · unfold ContentLog.openAt
      rw [dif_neg hb]
      exact fun heq => nomatch heq
  · intro hb hroom
    obtain ⟨log, w', hlog, -⟩ := Log.openAt_ok hw.sound (.inl hname) hroom
    exact ⟨_, w', hopen hb hlog⟩
  · intro c w' hc
    have hfile := (ContentLog.openAt_spec hw.sound hc).log.reaches.unique (.inl hname)
    have hcur := (ContentLog.openAt_spec hw.sound hc).cursor_eq (hfile ▸ hres)
    rw [hcur]
    exact ⟨hp, hstop⟩

/-- What an append has returned and the header covers, the next session reads back. -/
theorem reads_back {i : Nat} {l : Location} {bs : List UInt8} (h : Persists path l.finish s v)
    (hr : s.Returned i l bs) (hpos : 0 < l.size) {closes : Bool} (hw : (s.log.left v closes).Spares path w)
    (hc : ContentLog.openAt w path capacity bufferSize = (.ok c, w')) : c.get w'.disk l = .ok bs := by
  obtain ⟨first, ht⟩ := h.tiled
  obtain ⟨-, hfits, hread, hheld⟩ := returned_spec ht hr
  have hlow : headSize ≤ l.offset := Nat.le_trans ht.head_le (ht.held_bounds (hheld hpos)).1
  have hfinish : l.finish = l.offset + l.size := rfl
  obtain ⟨hname, hk, p, hp, hstop, hres⟩ := h.resumes hw
  have ho := ContentLog.openAt_spec hw.sound hc
  have hfile := ho.log.reaches.unique (.inl hname)
  rw [← hfile] at hres
  have hcur := ho.cursor_eq hres
  have hlog := ho.cursor_le
  have hk' := ho.log.keeps_below hres
  -- from the end of the last session to its beginning of the next
  have hsame : (w'.disk.image c.log.file).read l.offset l.size = bs := by
    rw [hk'.read_eq hlow (by omega), hfile, hk.read_eq (Nat.zero_le _) hfits, hread]
  unfold ContentLog.get
  rw [if_neg (by omega)]
  have hcheck : c.checkReadable l = .ok () := by
    unfold ContentLog.checkReadable ContentLog.lastBefore
    rw [if_neg (by omega), ho.pending]
    rfl
  rw [hcheck, Log.read_ok (by omega), hsame]

end Persists

end Traffic

namespace ContentLog

variable {path : String} {s : Traffic} {v : Volume}

theorem Used.persists (h : Used path s v) : s.Persists path headSize v := by
  induction h with
  | first sound reaches new opened => exact .opened sound opened
  | goes before later ih => exact (Traffic.Persists.goes (fun _ => Nat.le_refl _) ih (.inl (Nat.le_refl _)) later).1
  | again before closes change opened ih => exact .opened change.sound opened

/-- A commit always succeeds, however others reserve and release during it. -/
theorem commits (h : s.Persists path headSize v) {others : List Move} (hq : ∀ m ∈ others, m.quiet) :
    ∃ d, s.stores (s.run others) = .ok d ∧
      (d.image s.log.log.file).Headed (min s.log.cursor s.log.capacity) := by
  obtain ⟨first, ht⟩ := h.tiled
  have hbase := ht.base_le
  have hcursor := ht.base_le_cursor
  have hhead := ht.head_le
  have hfits := ht.cursor_le
  obtain ⟨hm, -, -⟩ := Log.flush_spec ht.mounted
  obtain ⟨d, hd, -, -, hh, -⟩ := Log.storeCursor_spec hm (c := min s.log.cursor s.log.capacity) (by omega)
  rw [Traffic.stores_quiet hq]
  exact ⟨d, hd, hh (by omega)⟩

/-- A content log over all the sessions of its file, at any moment:
    - the header is zero or lies within the file, whose length is the capacity;
    - no opening finds the file damaged, and one that there is room for succeeds and goes on
      from the header;
    - a commit succeeds and stores no less than the end of what was returned before it began;
      unless it is rolled back, each session that follows reads that back. -/
theorem header_covers (h : Used path s v) :
    let im := v.disk.image s.log.log.file
    (im.length = s.log.capacity ∧ (im.rawCursor = 0 ∨ headSize ≤ im.rawCursor ∧ im.rawCursor ≤ s.log.capacity)) ∧
    (∀ closes w, (s.log.left v closes).Spares path w → ∀ capacity bufferSize,
      (∀ damage, (openAt w path capacity bufferSize).1 ≠ .error (.corruption damage)) ∧
      (0 < bufferSize → Log.Room w path capacity →
        ∃ c w', openAt w path capacity bufferSize = (.ok c, w') ∧ im.Headed c.cursor)) ∧
    ∀ others, (∀ m ∈ others, m.quiet) → ∃ d, s.stores (s.run others) = .ok d ∧
      (d.image s.log.log.file).Headed (min s.log.cursor s.log.capacity) ∧
      ∀ i l bs, s.Returned i l bs → 0 < l.size → l.finish ≤ min s.log.cursor s.log.capacity ∧
        ∀ t w, Goes path (· ≠ .rollback) { s.run others with disk := d } { v with disk := d } t w →
        ∀ closes x, (t.log.left w closes).Spares path x → ∀ capacity bufferSize,
          (0 < bufferSize → Log.Room x path capacity →
            ∃ c x', openAt x path capacity bufferSize = (.ok c, x')) ∧
          ∀ c x', openAt x path capacity bufferSize = (.ok c, x') →
            l.finish ≤ c.cursor ∧ c.get x'.disk l = .ok bs := by
  have hp := h.persists
  obtain ⟨first, ht⟩ := hp.tiled
  intro im
  have him : s.disk.image s.log.log.file = im := by rw [hp.disk]
  refine ⟨⟨him ▸ ht.mounted.length_eq, ?_⟩, ?_, ?_⟩
  · obtain ⟨p, hh, -, hle⟩ := hp.headed
    rw [him] at hh
    rcases hh with ⟨h0, -⟩ | ⟨hraw, hlow⟩
    · exact .inl h0
    · right
      omega
  · intro closes w hw capacity bufferSize
    obtain ⟨hnot, hopens, hfound⟩ := hp.reopens hw capacity bufferSize
    refine ⟨hnot, ?_⟩
    intro hb hroom
    obtain ⟨c, w', hc⟩ := hopens hb hroom
    exact ⟨c, w', hc, him ▸ (hfound c w' hc).1⟩
  · intro others hq
    obtain ⟨d, hd, hh⟩ := commits hp hq
    refine ⟨d, hd, hh, ?_⟩
    intro i l bs hr hpos
    have hs : s.Anchored l.finish := .inr ⟨i, l, bs, hr, hpos, rfl⟩
    have hle := hs.le ht
    refine ⟨by omega, ?_⟩
    intro t w hg closes x hx capacity bufferSize
    obtain ⟨hcovers, hframe⟩ := hp.committed hs hq hd hh
    obtain ⟨hafter, -, hreturned⟩ := hcovers.goes (fun hm => absurd rfl hm) (hs.frame hframe) hg
    obtain ⟨-, hopens, hfound⟩ := hafter.reopens hx capacity bufferSize
    refine ⟨hopens, fun c x' hc => ⟨(hfound c x' hc).2, ?_⟩⟩
    exact hafter.reads_back (hreturned i l bs (hframe.returned i l bs hr)) hpos hx hc

theorem goes_run {may : Move → Prop} (hs : s.disk = v.disk) {moves : List Move} (hm : ∀ m ∈ moves, may m) :
    Goes path may s v (s.run moves) { v with disk := (s.run moves).disk } := by
  have key {t : Traffic} {w : Volume} (hg : Goes path may s v t w) (hd : t.disk = w.disk) :
      Goes path may s v (t.run moves) { w with disk := (t.run moves).disk } := by
    induction moves generalizing t w with
    | nil =>
      have hw : ({ w with disk := t.disk } : Volume) = w := by rw [hd]
      exact hw.symm ▸ hg
    | cons m moves ih =>
      have hnext := ih (fun n hn => hm n (List.mem_cons_of_mem m hn)) (hg.moved m (hm m List.mem_cons_self)) rfl
      exact hnext
  exact key .here hs

/-- Three appends reserve in a log of 16 bytes, and the second one finds no room when the
    third has reserved behind it: the cursor stays at 53. The commit stores 16, and the
    first one is read back by the next session. -/
theorem stuck_cursor_is_cut : ∃ s v, Used "store.bin" s v ∧ s.log.capacity = 16 ∧ s.log.cursor = 53 ∧
    ∃ d, s.stores (s.run [.release 2]) = .ok d ∧ (d.image s.log.log.file).Headed 16 ∧
      ∃ c x, openAt { v with disk := d } "store.bin" 0 1 = (.ok c, x) ∧
        c.get x.disk ⟨3, 8, Checksum.of [7, 8, 9]⟩ = .ok [7, 8, 9] := by
  have hvac : (Volume.empty 4096).Vacant "store.bin" 1 "store.bin" := by rfl
  have hfirst := Used.first (Volume.sound_empty 4096) (.inr ⟨rfl, 1, "store.bin", hvac⟩) (by rfl) shortLog_opens
  have hused := hfirst.goes (goes_run rfl fun (m : Move) (_ : m ∈ [.reserve 3, .reserve 40, .reserve 2,
    .room 0 fun _ => .ok 40, .room 1 fun _ => .ok 40, .feed 0 (.ok [7, 8, 9]), .feed 0 (.ok [9]),
    .release 0, .release 1, .room 2 fun _ => .ok 40]) => trivial)
  obtain ⟨-, -, hcommit⟩ := header_covers hused
  obtain ⟨d, hd, hh, hreads⟩ := hcommit [.release 2] (by decide)
  obtain ⟨-, hsessions⟩ := hreads 0 ⟨3, 8, Checksum.of [7, 8, 9]⟩ [7, 8, 9]
    ⟨⟨8, 3, .returned ⟨3, 8, Checksum.of [7, 8, 9]⟩, [7, 8, 9]⟩, by rfl, rfl, rfl⟩ (by decide)
  have hstored := (hused.goes (.committed .here [.release 2] (by decide) hd)).persists
  obtain ⟨first, ht⟩ := hstored.tiled
  obtain ⟨shortLog_openss, hfound⟩ := hsessions _ _ .here false _ (.refl hstored.sound _) 0 1
  have hroom : Log.Room { nodes := #[.folder 0 [("work", 1)], .folder 0 [("store.bin", 2)], .file 0]
                          disk := d, available := 4096 } "store.bin" 0 := by
    refine ⟨by decide, 4096, by rfl, by decide, ?_⟩
    intro n hn
    cases hstored.names.length.symm.trans hn
    rw [ht.mounted.length_eq]
    exact (by decide : 16 ≤ 4096)
  obtain ⟨c, x, hc⟩ := shortLog_openss (by decide) hroom
  exact ⟨_, _, hused, by decide +kernel, by decide +kernel, d, hd, hh, c, x, hc, (hfound c x hc).2⟩

end ContentLog

end TwinLog
