/-
  TwinLog.Proofs.Log.Cursor — the cursor of a log: what is stored is what is loaded.

  A cursor is stored as a signed word in the first 8 bytes, and loading reads it back, but what
  loading answers is a matter of the log that loads: zero is the end of the header, and a
  cursor has to lie between the header and the capacity (`loadCursor_eq`). The capacity is
  that of the moment. A cursor past the end is damage until the log has grown over it, and is
  good from then on, also for the next log that is opened on the file.

  A call is `Behind` the header if it stores no cursor and writes nothing into the first 8
  bytes. The file of a log is a memory (`TwinLog.Proofs.Log.Lifetime`), so whatever else such
  calls do, those bytes are the ones that were last written there (`Holds.head_run`):
  growth, writes, dropping the log and opening it again all keep the cursor.

  - `cursor_round_trip`: which cursors can be stored, what storing changes, what is loaded
    later, and what any 8 bytes are loaded as.
-/

import TwinLog.Proofs.Log.Lifetime

namespace TwinLog.Log

variable {path : String} {f : FileId} {first : Image} {floor : Nat} {s : Life} {l : Log} {d : Disk} {v : Volume}

/-! ## Loading -/

theorem loadCursor_eq (h : headSize ≤ l.capacity) (d : Disk) : l.loadCursor d =
    if (d.image l.file).rawCursor = 0 then .ok headSize
    else if (d.image l.file).rawCursor < 0 then
      .error (.corruption (.negativeCursor (d.image l.file).rawCursor l.path))
    else if headSize ≤ (d.image l.file).rawCursor.toNat ∧ (d.image l.file).rawCursor.toNat ≤ l.capacity then
      .ok (d.image l.file).rawCursor.toNat
    else .error (.corruption (.cursorOutside (d.image l.file).rawCursor.toNat l.capacity l.path)) := by
  have hread : l.read d 0 headSize = .ok ((d.image l.file).read 0 headSize) := read_ok (by omega)
  unfold loadCursor
  rw [hread]
  dsimp only
  rw [← Image.rawCursor.eq_1]
  by_cases hin : headSize ≤ (d.image l.file).rawCursor.toNat ∧ (d.image l.file).rawCursor.toNat ≤ l.capacity
  · rw [if_pos hin, if_neg (by omega : ¬ (_ < headSize ∨ l.capacity < _))]
  · rw [if_neg hin, if_pos (by omega : _ < headSize ∨ l.capacity < _)]

def recalled (l : Log) (cursor : Nat) : Except Fault Nat :=
  if cursor = 0 then .ok headSize
  else if headSize ≤ cursor ∧ cursor ≤ l.capacity then .ok cursor
  else .error (.corruption (.cursorOutside cursor l.capacity l.path))

theorem loadCursor_recalled (h : headSize ≤ l.capacity) {cursor : Nat}
    (hraw : (d.image l.file).rawCursor = cursor) : l.loadCursor d = l.recalled cursor := by
  rw [loadCursor_eq h, hraw, recalled, if_neg (by omega : ¬ (cursor : Int) < 0)]
  simp only [Int.toNat_natCast, Int.natCast_eq_zero]

/-- Whatever the header holds, it is damaged or says a cursor between the header and the end. -/
theorem loadCursor_cases (h : headSize ≤ l.capacity) (d : Disk) :
    (∃ what, l.loadCursor d = .error (.corruption what)) ∨
      ∃ cursor, l.loadCursor d = .ok cursor ∧ headSize ≤ cursor ∧ cursor ≤ l.capacity ∧
        ((d.image l.file).rawCursor = 0 ∧ cursor = headSize ∨ (d.image l.file).rawCursor = cursor) := by
  rw [loadCursor_eq h]
  split
  · rename_i hzero
    exact .inr ⟨_, rfl, Nat.le_refl _, h, .inl ⟨hzero, rfl⟩⟩
  · split
    · exact .inl ⟨_, rfl⟩
    · split
      · rename_i hin
        exact .inr ⟨_, rfl, hin.1, hin.2, .inr (by omega)⟩
      · exact .inl ⟨_, rfl⟩

/-! ## Calls that keep the header -/

/-- The call stores no cursor and writes nothing into the header. -/
def Call.Behind : Call → Prop
  | .use (.write offset _) => headSize ≤ offset
  | .use (.storeCursor _) => False
  | _ => True

theorem step_use (hl : s.log = some l) (u : Use) : s.step path (.use u) = s.use l u := by
  simp only [Life.step, hl]

/-- What such a call writes, if it writes, lies behind the header. -/
theorem written_step (path : String) (s : Life) {c : Call} (hc : c.Behind) :
    (s.step path c).2.written = s.written ∨
      ∃ offset bs, headSize ≤ offset ∧ (s.step path c).2.written = (offset, bs) :: s.written := by
  cases c with
  | openAt requested =>
    simp only [Life.step]
    split <;> exact .inl rfl
  | drop => exact .inl rfl
  | free available => exact .inl rfl
  | use u =>
    cases hl : s.log with
    | none => exact .inl (by simp only [Life.step, hl])
    | some l =>
      rw [step_use hl]
      cases u with
      | write offset bs =>
        simp only [Life.use]
        split
        · exact .inl rfl
        · exact .inr ⟨offset, bs, hc, rfl⟩
      | storeCursor cursor => cases hc
      | flush => exact .inl rfl
      | _ =>
        simp only [Life.use]
        split <;> exact .inl rfl

theorem remembered_step (s : Life) {c : Call} (hc : c.Behind) {i : Nat} (hi : i < headSize) :
    remembered first (s.step path c).2.written i = remembered first s.written i := by
  rcases written_step path s hc with heq | ⟨offset, bs, hoffset, heq⟩
  · rw [heq]
  · rw [heq, remembered_cons, if_neg (by omega)]

theorem remembered_run (s : Life) {calls : List Call} (hc : ∀ c ∈ calls, c.Behind) {i : Nat} (hi : i < headSize) :
    remembered first (s.run path calls).written i = remembered first s.written i := by
  induction calls generalizing s with
  | nil => rfl
  | cons c rest ih =>
    have hlater := ih (s.step path c).2 fun c' hc' => hc c' (List.mem_cons_of_mem _ hc')
    exact hlater.trans (remembered_step s (hc c List.mem_cons_self) hi)

namespace Holds

/-- Through all of them the file keeps its header. -/
theorem head_run (h : Holds path f first floor s) {calls : List Call} (hc : ∀ c ∈ calls, c.Fits)
    (hb : ∀ c ∈ calls, c.Behind) (hhead : headSize ≤ (s.volume.disk.image f).length) :
    Image.Keeps 0 headSize (s.volume.disk.image f) ((s.run path calls).volume.disk.image f) := by
  have hle := h.length_le_run hc
  intro i _ hi
  rw [(h.run hc).bytes i (by omega), h.bytes i (by omega), remembered_run s hb hi]

/-- What a log, this one or a later one, loads after such calls. -/
theorem loads_run (h : Holds path f first floor s) {calls : List Call} (hc : ∀ c ∈ calls, c.Fits)
    (hb : ∀ c ∈ calls, c.Behind) (hhead : headSize ≤ (s.volume.disk.image f).length) {cursor : Nat}
    (hraw : (s.volume.disk.image f).rawCursor = cursor) {l' : Log} (hl' : (s.run path calls).log = some l') :
    l'.loadCursor (s.run path calls).volume.disk = l'.recalled cursor := by
  obtain ⟨hf, hm⟩ := (h.run hc).mounted l' hl'
  refine loadCursor_recalled hm.head_le ?_
  rw [hf, Image.rawCursor_eq (h.head_run hc hb hhead), hraw]

end Holds

/-! ## Storing -/

theorem storeCursor_refused {cursor : Nat} (h : maxSigned < cursor) :
    l.storeCursor d cursor = .error (.invalidArgument (.cursorTooLarge cursor)) := by
  rw [storeCursor, if_pos h]

/-- The header holds what was stored. -/
theorem read_storeCursor (hm : l.Mounted d) {d' : Disk} {cursor : Nat} (h : l.storeCursor d cursor = .ok d') :
    (d'.image l.file).read 0 headSize = int64Bytes (Int64.ofNat cursor) := by
  have hcap := hm.head_le
  have hlen : (int64Bytes (Int64.ofNat cursor)).length = headSize := length_int64Bytes _
  obtain ⟨-, -, rfl⟩ := storeCursor_iff.mp h
  have hm' : l.Mounted (d.update l.file (·.write 0 (int64Bytes (Int64.ofNat cursor)))) := mounted_write hm
  have hflush : Image.Keeps 0 headSize ((d.image l.file).write 0 (int64Bytes (Int64.ofNat cursor)))
      (((d.image l.file).write 0 (int64Bytes (Int64.ofNat cursor))).flush headSize) := by
    intro i _ hi
    rw [Image.get_flush_of_lt (by rw [Image.length_write, hm.length_eq]; omega)]
  rw [hm'.image_update, hm.image_update, hflush.read_eq (Nat.le_refl _) (by omega), ← hlen]
  exact Image.read_write ..

/-! ## The round trip -/

def reported : Except Fault Nat → Reply
  | .error e => .refused e
  | .ok cursor => .cursor cursor

theorem load_reported (hl : s.log = some l) : s.step path (.use .loadCursor) = (reported (l.loadCursor s.volume.disk), s) := by
  rw [step_use hl, Life.use]
  cases l.loadCursor s.volume.disk <;> rfl

/-- For a log in any state, after any calls on a file that may be absent or hold anything:
    - a cursor that does not fit a signed word is refused, and nothing changes;
    - any other is stored, which changes the first 8 bytes of the file and nothing else;
    - after that, and after any calls that spare the header, every log that is open loads the end of the header
      if it was zero, the cursor if it lies between the header and the capacity of that log, and damage otherwise;
    - whatever 8 bytes the header is given, they are loaded as damage or as a cursor between the header and the
      capacity, which is the signed number they stand for unless that is zero. -/
theorem cursor_round_trip (hv : v.Sound) (hr : v.Reaches path f) (hl : (v.disk.image f).length ≤ maxUnsigned)
    (before : List Call) (hc : ∀ c ∈ before, c.Fits) (l : Log) (hlog : ((Life.begin v).run path before).log = some l) :
    let s := (Life.begin v).run path before
    (∀ cursor, maxSigned < cursor →
      s.step path (.use (.storeCursor cursor)) = (.refused (.invalidArgument (.cursorTooLarge cursor)), s)) ∧
    (∀ cursor, cursor ≤ maxSigned →
      ∃ t, s.step path (.use (.storeCursor cursor)) = (.done, t) ∧
        (t.log = some l ∧ t.volume = { s.volume with disk := t.volume.disk } ∧
          s.volume.disk.OnlyAt f t.volume.disk ∧ (t.volume.disk.image f).length = (s.volume.disk.image f).length ∧
          Image.Keeps headSize (s.volume.disk.image f).length (s.volume.disk.image f) (t.volume.disk.image f) ∧
          (t.volume.disk.image f).read 0 headSize = int64Bytes (Int64.ofNat cursor)) ∧
        ∀ after : List Call, (∀ c ∈ after, c.Fits ∧ c.Behind) → ∀ l', (t.run path after).log = some l' →
          (t.run path after).step path (.use .loadCursor) = (reported (l'.recalled cursor), t.run path after)) ∧
    ∀ head : List UInt8, head.length = headSize →
      ∃ t, s.step path (.use (.write 0 head)) = (.done, t) ∧ (t.volume.disk.image f).read 0 headSize = head ∧
        ((∃ what, t.step path (.use .loadCursor) = (.refused (.corruption what), t)) ∨
          ∃ cursor, t.step path (.use .loadCursor) = (.cursor cursor, t) ∧ headSize ≤ cursor ∧ cursor ≤ l.capacity ∧
            ((int64OfBytes head).toInt = 0 ∧ cursor = headSize ∨ (int64OfBytes head).toInt = cursor)) := by
  intro s
  have hs : Holds path f (v.disk.image f) 0 s := (Holds.begin hv hr hl).run hc
  obtain ⟨rfl, hm⟩ := hs.mounted l hlog
  have hcap := hm.head_le
  have hlen := hm.length_eq
  refine ⟨?_, ?_, ?_⟩
  · intro cursor hlarge
    rw [step_use hlog, Life.use, storeCursor_refused hlarge]
  · intro cursor hfits
    obtain ⟨d, hstore, hmd, honly, -, hkeep⟩ := storeCursor_spec hm hfits
    have hstep : s.step path (.use (.storeCursor cursor)) =
        (.done, (s.left l d).wrote 0 (int64Bytes (Int64.ofNat cursor))) := by
      rw [step_use hlog, Life.use, hstore]
    have ht := hs.step (.use (.storeCursor cursor)) trivial
    rw [hstep] at ht
    have hread := read_storeCursor hm hstore
    refine ⟨_, hstep, ⟨rfl, rfl, honly, hmd.length_eq.trans hlen.symm, hlen ▸ hkeep, hread⟩, ?_⟩
    intro after hafter l' hl'
    have hraw : (d.image l.file).rawCursor = cursor := by
      rw [Image.rawCursor, hread, int64_round_trip, toInt_ofNat hfits]
    have hhead : headSize ≤ (d.image l.file).length := hmd.length_eq ▸ hcap
    rw [load_reported hl', ht.loads_run (fun c h => (hafter c h).1) (fun c h => (hafter c h).2) hhead hraw hl']
  · intro head hhead
    obtain ⟨d, hwrite, hmd, -, himage⟩ := write_spec hm 0 head (by omega)
    have hread : (d.image l.file).read 0 headSize = head := by
      rw [himage, ← hhead]
      exact Image.read_write ..
    have hraw : (d.image l.file).rawCursor = (int64OfBytes head).toInt := by rw [Image.rawCursor, hread]
    refine ⟨(s.left l d).wrote 0 head, by rw [step_use hlog, Life.use, hwrite], hread, ?_⟩
    have hload : ((s.left l d).wrote 0 head).step path (.use .loadCursor) =
        (reported (l.loadCursor d), (s.left l d).wrote 0 head) := load_reported rfl
    rw [hload, ← hraw]
    rcases loadCursor_cases hcap d with ⟨what, heq⟩ | ⟨cursor, heq, hrest⟩
    · exact .inl ⟨what, by rw [heq]; rfl⟩
    · exact .inr ⟨cursor, by rw [heq]; rfl, hrest⟩

/-- A log of 32 bytes in which the cursor 40 is stored; it grows, and is opened again with no more room than it has. -/
def outgrown : List Call :=
  [.use (.grow (fun _ => .ok 100) 33), .use (.write 30 [1, 2]), .drop, .openAt 0]

/-- The cursor is damage at first, and good once the log has grown over it. -/
theorem outgrown_cursor_loads :
    let s := (Life.begin (.empty 4096)).run "a.log" [.openAt 24]
    ∃ t l', s.step "a.log" (.use (.storeCursor 40)) = (.done, t) ∧
      (t.step "a.log" (.use .loadCursor)).1 = .refused (.corruption (.cursorOutside 40 32 "a.log")) ∧
      (t.run "a.log" outgrown).log = some l' ∧ l'.capacity = 64 ∧
      ((t.run "a.log" outgrown).step "a.log" (.use .loadCursor)).1 = .cursor 40 := by
  intro s
  have hvac : (Volume.empty 4096).Vacant "a.log" 1 "a.log" := by rfl
  have hlog : s.log = some ⟨"a.log", 0, 32⟩ := by decide +kernel
  obtain ⟨-, hstored, -⟩ := cursor_round_trip (Volume.sound_empty 4096) (.inr ⟨rfl, 1, "a.log", hvac⟩) (by decide)
    [.openAt 24] (by simp [Call.Fits]) _ hlog
  obtain ⟨t, hstep, ⟨ht, -⟩, hload⟩ := hstored 40 (by decide)
  have hnow := hload [] (by simp) _ ht
  have hgrown : ((s.step "a.log" (.use (.storeCursor 40))).2.run "a.log" outgrown).log = some ⟨"a.log", 0, 64⟩ := by
    decide +kernel
  rw [hstep] at hgrown
  have hlater := hload outgrown (by simp [outgrown, Call.Fits, Call.Behind, maxUnsigned, headSize]) _ hgrown
  have hdamage : reported (recalled ⟨"a.log", 0, 32⟩ 40) =
      .refused (.corruption (.cursorOutside 40 32 "a.log")) := by decide
  have hgood : reported (recalled ⟨"a.log", 0, 64⟩ 40) = .cursor 40 := by decide
  exact ⟨t, _, hstep, (congrArg Prod.fst hnow).trans hdamage, hgrown, rfl, (congrArg Prod.fst hlater).trans hgood⟩

end TwinLog.Log
