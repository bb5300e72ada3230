/-
  TwinLog.Proofs.KeyLog.Upkeep — an open index and what opening it again would read.

  `Stored im dir stop cursor` says that a file holds the directory `dir`. `Steady` relates
  an open index to its file: the records of the opening are there, those of the session
  lie behind the checkpoint, and the header says how many of them a replay will read
  (`saved`). Adding keeps what is saved, a commit saves the whole directory and a
  rollback what there was at the opening; none of them touches another file.
-/

import TwinLog.Proofs.KeyLog.Outcome
import TwinLog.Proofs.Log.Opening

namespace TwinLog

namespace KeyLog

/-- A file that opens with the directory `dir`, whose records end at `stop`. -/
structure Stored (im : Image) (dir : Directory) (stop cursor : Nat) : Prop where
  resumes : im.Resumes cursor
  laid : Laid im headSize dir stop
  stops : stop = cursor ∨ Ends im stop cursor
  distinct : dir.Distinct

variable {im im' : Image} {dir opening saved : Directory} {stop cursor : Nat} {k : KeyLog} {d d' : Disk}

theorem Stored.stop_le (h : Stored im dir stop cursor) : stop ≤ cursor := by
  rcases h.stops with rfl | he
  · exact Nat.le_refl _
  · exact Nat.le_trans (Nat.le_add_right ..) he.1

/-- A file that is not there, or empty, has no records. -/
theorem stored_empty (h : im.length = 0) : Stored im [] headSize headSize :=
  ⟨.inl ⟨h, rfl⟩, rfl, .inl rfl, .nil⟩

theorem Stored.keep (h : Stored im dir stop cursor) (hr : im'.Resumes cursor)
    (hk : Image.Keeps headSize cursor im im') :
    Stored im' dir stop cursor :=
  ⟨hr, h.laid.keep (hk.mono (Nat.le_refl _) h.stop_le),
    h.stops.imp_right fun he => he.keep (hk.mono h.laid.le (Nat.le_refl _)), h.distinct⟩

/-- An open index whose file holds the directory of the opening and then that of the session. -/
structure Steady (opening : Directory) (stop : Nat) (saved : Directory) (k : KeyLog) (d : Disk) : Prop where
  mounted : k.log.Mounted d
  opened : Laid (d.image k.log.file) headSize opening stop
  stops : stop = k.checkpoint ∨ Ends (d.image k.log.file) stop k.checkpoint
  distinct : k.directory.Distinct
  cursor_le : k.cursor ≤ k.capacity
  checkpoint_le : k.checkpoint ≤ maxSigned
  /-- The session's records: those that the header covers, and the rest. -/
  rows : ∃ kept rest middle, k.directory = opening ++ kept ++ rest ∧ saved = opening ++ kept ∧
    Laid (d.image k.log.file) k.checkpoint kept middle ∧ Laid (d.image k.log.file) middle rest k.cursor ∧
    (d.image k.log.file).Headed middle

namespace Steady

theorem stop_le (h : Steady opening stop saved k d) : stop ≤ k.checkpoint := by
  rcases h.stops with rfl | he
  · exact Nat.le_refl _
  · exact Nat.le_trans (Nat.le_add_right ..) he.1

theorem head_le (h : Steady opening stop saved k d) : headSize ≤ k.checkpoint :=
  Nat.le_trans h.opened.le h.stop_le

theorem checkpoint_le_cursor (h : Steady opening stop saved k d) : k.checkpoint ≤ k.cursor := by
  obtain ⟨kept, rest, middle, -, -, hkept, hrest, -⟩ := h.rows
  exact Nat.le_trans hkept.le hrest.le

/-- The records of the session, kept or not. -/
theorem added (h : Steady opening stop saved k d) :
    ∃ added, k.directory = opening ++ added ∧ Laid (d.image k.log.file) k.checkpoint added k.cursor := by
  obtain ⟨kept, rest, middle, hdir, -, hkept, hrest, -⟩ := h.rows
  exact ⟨kept ++ rest, by rw [hdir, List.append_assoc], hkept.append hrest⟩

/-- The records that the header covers end where the header says. -/
theorem kept_rows (h : Steady opening stop saved k d) :
    ∃ kept middle, saved = opening ++ kept ∧ Laid (d.image k.log.file) k.checkpoint kept middle ∧
      (d.image k.log.file).Resumes middle ∧ saved.Distinct := by
  obtain ⟨kept, rest, middle, hdir, hsaved, hkept, hrest, hh⟩ := h.rows
  have hle := hrest.le
  have hcap := h.cursor_le
  have hlen : (d.image k.log.file).length = k.capacity := h.mounted.length_eq
  have hd := h.distinct
  rw [hdir, ← hsaved] at hd
  exact ⟨kept, middle, hsaved, hkept, .inr ⟨hh, by omega⟩, hd.left⟩

/-- What opening the file again reads, if no end mark stands in the way. -/
theorem stored (h : Steady opening stop saved k d) (hs : stop = k.checkpoint) :
    ∃ middle, Stored (d.image k.log.file) saved middle middle := by
  obtain ⟨kept, middle, rfl, hkept, hresumes, hd⟩ := h.kept_rows
  subst hs
  exact ⟨middle, hresumes, h.opened.append hkept, .inl rfl, hd⟩

/-- With an end mark in the way, opening it again reads no more than before. -/
theorem stored_ended (h : Steady opening stop saved k d) (he : Ends (d.image k.log.file) stop k.checkpoint) :
    ∃ middle, Stored (d.image k.log.file) opening stop middle := by
  obtain ⟨kept, middle, rfl, hkept, hresumes, hd⟩ := h.kept_rows
  exact ⟨middle, hresumes, h.opened, .inr (he.mono hkept.le), hd.left⟩

/-- The file of every index stores what was there at the opening or what is saved. -/
theorem stored_or (h : Steady opening stop saved k d) :
    ∃ dir stop' middle, Stored (d.image k.log.file) dir stop' middle ∧ (dir = saved ∨ dir = opening) := by
  rcases h.stops with hs | he
  · obtain ⟨middle, hstored⟩ := h.stored hs
    exact ⟨saved, middle, middle, hstored, .inl rfl⟩
  · obtain ⟨middle, hstored⟩ := h.stored_ended he
    exact ⟨opening, stop, middle, hstored, .inr rfl⟩

/-! ## What keeps an index steady -/

theorem keep (h : Steady opening stop saved k d) (log : Log) (hm : log.Mounted d')
    (hcap : k.capacity ≤ log.capacity) (hk : Image.Keeps 0 k.cursor (d.image k.log.file) (d'.image log.file)) :
    Steady opening stop saved { k with log } d' := by
  have hlo := h.checkpoint_le_cursor
  have hhead := h.head_le
  have hstop := h.stop_le
  have hopen := h.opened.le
  obtain ⟨kept, rest, middle, hdir, hsaved, hkept, hrest, hh⟩ := h.rows
  have hmid := hkept.le
  have hfin := hrest.le
  have hkept' := hkept.keep (hk.mono (Nat.zero_le _) hfin)
  have hrest' := hrest.keep (hk.mono (Nat.zero_le _) (Nat.le_refl _))
  have hh' := hh.congr (hk.mono (Nat.le_refl _) (by omega))
  exact { h with
    mounted := hm
    opened := h.opened.keep (hk.mono (Nat.zero_le _) (by omega))
    stops := h.stops.imp_right fun he => he.keep (hk.mono (Nat.zero_le _) hlo)
    cursor_le := Nat.le_trans h.cursor_le hcap
    rows := ⟨kept, rest, middle, hdir, hsaved, hkept', hrest', hh'⟩ }

/-- A change to another file. -/
theorem elsewhere {f : FileId} (h : Steady opening stop saved k d) (ho : d.OnlyAt f d')
    (hf : k.log.file ≠ f) : Steady opening stop saved k d' :=
  h.keep k.log (h.mounted.elsewhere ho hf) (Nat.le_refl _) (by rw [ho.others _ hf]; exact .refl)

theorem headed (h : Steady opening stop saved k d) (hm : k.log.Mounted d')
    (hk : Image.Keeps headSize k.capacity (d.image k.log.file) (d'.image k.log.file))
    (kept rest : Directory) {middle : Nat} (hdir : k.directory = opening ++ kept ++ rest)
    (hkept : Laid (d.image k.log.file) k.checkpoint kept middle)
    (hrest : Laid (d.image k.log.file) middle rest k.cursor) (hh : (d'.image k.log.file).Headed middle) :
    Steady opening stop (opening ++ kept) k d' := by
  have hlo := h.checkpoint_le_cursor
  have hhead := h.head_le
  have hstop := h.stop_le
  have hopen := h.opened.le
  have hcur := h.cursor_le
  have hmid := hkept.le
  have hfin := hrest.le
  have hkept' := hkept.keep (hk.mono hhead (by omega))
  have hrest' := hrest.keep (hk.mono (by omega) hcur)
  exact { h with
    mounted := hm
    opened := h.opened.keep (hk.mono (Nat.le_refl _) (by omega))
    stops := h.stops.imp_right fun he => he.keep (hk.mono hopen (by omega))
    rows := ⟨kept, rest, middle, hdir, rfl, hkept', hrest', hh⟩ }

theorem commit (h : Steady opening stop saved k d) (hc : k.commit d = .ok d') :
    Steady opening stop k.directory k d' ∧ d.OnlyAt k.log.file d' := by
  obtain ⟨hmf, hof, hkf⟩ := Log.flush_spec h.mounted
  obtain ⟨hm, ho, hh, hk⟩ := Log.storeCursor_ok hmf hc
  obtain ⟨added, hdir, hadded⟩ := h.added
  have hlo := h.checkpoint_le_cursor
  have hhead := h.head_le
  refine ⟨?_, hof.trans ho⟩
  have hkeep := (hkf.mono (Nat.zero_le headSize) (Nat.le_refl _)).trans hk
  have hrow : k.directory = opening ++ added ++ [] := by rw [List.append_nil, hdir]
  have := h.headed hm hkeep added [] hrow hadded rfl (hh (by omega))
  rw [hdir]
  exact this

/-- A commit succeeds if the cursor fits its word. -/
theorem commit_ok (h : Steady opening stop saved k d) (hc : k.cursor ≤ maxSigned) :
    ∃ d', k.commit d = .ok d' := by
  obtain ⟨d', hd, -⟩ := Log.storeCursor_spec (Log.flush_spec h.mounted).1 hc
  exact ⟨d', hd⟩

/-- A rollback saves what there was at the opening. -/
theorem rollback (h : Steady opening stop saved k d) (hr : k.rollback d = .ok d') :
    Steady opening stop opening k d' ∧ d.OnlyAt k.log.file d' := by
  obtain ⟨hm, ho, hh, hk⟩ := Log.storeCursor_ok h.mounted hr
  obtain ⟨added, hdir, hadded⟩ := h.added
  refine ⟨?_, ho⟩
  have := h.headed hm hk [] added (by rw [List.append_nil]; exact hdir) rfl hadded (hh h.head_le)
  rwa [List.append_nil] at this

theorem rollback_ok (h : Steady opening stop saved k d) : ∃ d', k.rollback d = .ok d' := by
  obtain ⟨d', hd, -⟩ := Log.storeCursor_spec h.mounted h.checkpoint_le
  exact ⟨d', hd⟩

end Steady

/-! ## Adding -/

theorem headerFor_ok {e : Entry} {header : Header} (hkey : e.keySize ≤ maxKeySize)
    (h : headerFor e.keyOffset e.keySize e.location = .ok header) : e.Fits ∧ header = e.header := by
  have fits {n : Nat} {x : Int64} (hn : toSigned n = .ok x) : n ≤ maxSigned ∧ x = Int64.ofNat n := by
    unfold toSigned at hn
    split at hn
    · rename_i hle; cases hn; exact ⟨hle, rfl⟩
    · cases hn
  unfold headerFor at h
  split at h
  · rename_i a b c ha hb hc
    cases h
    obtain ⟨hoffset, rfl⟩ := fits ha
    obtain ⟨hsize, rfl⟩ := fits hb
    obtain ⟨hcontent, rfl⟩ := fits hc
    exact ⟨⟨hkey, hoffset, hsize, hcontent⟩, rfl⟩
  · cases h
  · cases h
  · cases h

structure Grown (k : KeyLog) (d : Disk) (k' : KeyLog) (d' : Disk) : Prop where
  file : k'.log.file = k.log.file
  checkpoint : k'.checkpoint = k.checkpoint
  capacity_le : k.capacity ≤ k'.capacity
  only : d.OnlyAt k.log.file d'

theorem Steady.write (h : Steady opening stop saved k d) {e : Entry} (hfits : e.Fits)
    (ho : e.keyOffset = k.cursor + Header.width) (hcap : e.finish ≤ k.capacity) (hnew : e.key ∉ k.directory.keys)
    (hw : k.log.write d k.cursor e.bytes = .ok d') :
    Steady opening stop saved { k with cursor := e.finish, directory := k.directory ++ [e] } d' ∧
      d.OnlyAt k.log.file d' := by
  have hfin : e.finish = k.cursor + e.bytes.length := by
    rw [Entry.finish, ho, Entry.length_bytes, Nat.add_assoc]
  obtain ⟨d'', hw', hm, honly, him⟩ := Log.write_spec h.mounted k.cursor e.bytes
    (by show _ ≤ k.capacity; omega)
  cases hw.symm.trans hw'
  have hk : Image.Keeps 0 k.cursor (d.image k.log.file) (d'.image k.log.file) := by
    rw [him]; exact Image.keeps_write_below (Nat.le_refl _)
  have hat : e.At (d'.image k.log.file) k.cursor := by
    refine ⟨hfits, ho, ?_⟩
    rw [him, ← Entry.length_bytes]
    exact Image.read_write ..
  have hkept := h.keep k.log hm (Nat.le_refl _) hk
  obtain ⟨kept, rest, middle, hdir, hsaved, hrow, hrest, hh⟩ := hkept.rows
  have hdir' : k.directory ++ [e] = opening ++ kept ++ (rest ++ [e]) := by
    rw [show k.directory = _ from hdir, List.append_assoc]
  refine ⟨?_, honly⟩
  exact { hkept with
    distinct := Directory.distinct_snoc.mpr ⟨h.distinct, hnew⟩
    cursor_le := hcap
    rows := ⟨kept, rest ++ [e], middle, hdir', hsaved, hrow, hrest.append ⟨hat, rfl⟩, hh⟩ }

/-- An add either records its key at the cursor or leaves the directory as it is. -/
theorem Steady.add (h : Steady opening stop saved k d) {space : Volume.Space} {key : String} {l : Location}
    {r : Except Fault Unit} {k' : KeyLog} (ha : k.add space d key l = (r, k', d')) :
    Steady opening stop saved k' d' ∧ Grown k d k' d' ∧
      (r = .ok () ∧ key ≠ "" ∧ key ∉ k.directory.keys ∧
          k'.directory = k.directory ++ [⟨key, k.cursor + Header.width, l⟩] ∨
        (∃ e, r = .error e) ∧ k'.directory = k.directory) := by
  have still : Grown k d k d := ⟨rfl, rfl, Nat.le_refl _, .refl⟩
  have longer {grew : Bool} {log : Log} {dg : Disk} (room : k.log.grow space d (k.recordEnd key) = .ok (grew, log, dg)) :
      Steady opening stop saved { k with log } dg ∧ Grown k d { k with log } dg := by
    obtain ⟨hfile, -, hcap, -, hm, honly, hk⟩ := Log.grow_spec h.mounted room
    exact ⟨h.keep log hm hcap (by rw [hfile]; exact hk.mono (Nat.le_refl _) h.cursor_le), hfile, rfl, hcap, honly⟩
  cases add_cases ha with
  | nameless | duplicate | tooLong | noRoom => exact ⟨h, still, .inr ⟨⟨_, rfl⟩, rfl⟩⟩
  | tooFar unknown short room unfit =>
    obtain ⟨hs, hgrown⟩ := longer room
    exact ⟨hs, hgrown, .inr ⟨⟨_, rfl⟩, rfl⟩⟩
  | @recorded grew log dg dw header named unknown short room fits written =>
    obtain ⟨hs, hgrown⟩ := longer room
    have hnew : key ∉ k.directory.keys := Directory.contains_eq_false.mp unknown
    let e : Entry := ⟨key, k.cursor + Header.width, l⟩
    obtain ⟨hfits, rfl⟩ := headerFor_ok (e := e) short fits
    obtain ⟨hs', honly⟩ := hs.write (e := e) hfits rfl (Log.grow_fits room) hnew written
    exact ⟨hs', ⟨hgrown.file, rfl, hgrown.capacity_le, hgrown.only.trans (hgrown.file ▸ honly)⟩, .inl ⟨rfl, named, hnew, rfl⟩⟩

/-! ## Opening -/

variable {v v' : Volume} {path : String} {capacity : Nat}

structure Opened (v : Volume) (path : String) (capacity : Nat) (k : KeyLog) (v' : Volume) : Prop where
  log : Log.Opened v path capacity k.log v'
  cursor : k.cursor = k.checkpoint
  cursor_le : k.cursor ≤ k.capacity
  stored : ∃ stop, Stored (v'.disk.image k.log.file) k.directory stop k.cursor

theorem openAt_spec (hv : v.Sound) (h : openAt v path capacity = (.ok k, v')) :
    Opened v path capacity k v' := by
  unfold openAt at h
  split at h
  · cases h
  rename_i log w hopen
  have ho := Log.openAt_spec hv hopen
  split at h
  · cases h
  rename_i cursor hcursor
  obtain ⟨hh, hle⟩ := (Log.loadCursor_iff ho.mounted).mp hcursor
  split at h
  · cases h
  rename_i directory hreplay
  cases h
  obtain ⟨stop, hlaid, hstop, hdistinct⟩ := (replay_iff hle hh.head_le).mp hreplay
  exact ⟨ho, rfl, hle, stop, .inr ⟨hh, ho.mounted.length_eq ▸ hle⟩, hlaid, hstop, hdistinct⟩

theorem Opened.headed (h : Opened v path capacity k v') : (v'.disk.image k.log.file).Headed k.cursor := by
  obtain ⟨stop, hs⟩ := h.stored
  rcases hs.resumes with ⟨h0, -⟩ | ⟨hh, -⟩
  · have hlen := h.log.mounted.length_eq
    have hcap := h.log.mounted.head_le
    have head : 0 < headSize := by decide
    omega
  · exact hh

theorem Opened.steady (h : Opened v path capacity k v')
    (hs : Stored (v'.disk.image k.log.file) k.directory stop k.cursor) :
    Steady k.directory stop k.directory k v'.disk := by
  have hh := h.headed
  exact {
    mounted := h.log.mounted
    opened := hs.laid
    stops := h.cursor ▸ hs.stops
    distinct := hs.distinct
    cursor_le := h.cursor_le
    checkpoint_le := h.cursor ▸ hh.le_maxSigned
    rows := ⟨[], [], k.cursor, by simp, by simp, h.cursor.symm, rfl, hh⟩ }

theorem log_of_openAt (h : openAt v path capacity = (.ok k, v')) :
    Log.openAt v path capacity = .ok (k.log, v') := by
  unfold openAt at h
  split at h
  · cases h
  rename_i log w hopen
  split at h
  · cases h
  split at h
  · cases h
  cases h
  exact hopen

theorem openAt_stored (hv : v.Sound) {log : Log} (h : Log.openAt v path capacity = .ok (log, v'))
    (hs : Stored (v.disk.image log.file) dir stop cursor) :
    openAt v path capacity = (.ok ⟨log, cursor, cursor, dir⟩, v') ∧
      Stored (v'.disk.image log.file) dir stop cursor := by
  have ho := Log.openAt_spec hv h
  obtain ⟨hh, hle⟩ := ho.resumes hs.resumes
  have hstored : Stored (v'.disk.image log.file) dir stop cursor :=
    hs.keep (ho.resumes_again hs.resumes) (ho.keeps_below hs.resumes)
  have hreplay : replay log v'.disk cursor = .ok dir :=
    (replay_iff hle hh.head_le).mpr ⟨stop, hstored.laid, hstored.stops, hstored.distinct⟩
  refine ⟨?_, hstored⟩
  unfold openAt
  rw [h]
  dsimp only
  rw [(Log.loadCursor_iff ho.mounted).mpr ⟨hh, hle⟩]
  dsimp only
  rw [hreplay]

end KeyLog

end TwinLog
