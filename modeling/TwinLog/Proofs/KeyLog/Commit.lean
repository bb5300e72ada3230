/-
  TwinLog.Proofs.KeyLog.Commit — which of the keys that an index commits are found again.

  An index writes its records at the cursor it has found in the header, and a replay reads
  from behind the header up to the cursor or to an end mark before it. In a file that only
  indexes have written there is no end mark below the cursor, and the two meet. But a file
  that opens may have one there, since a replay stops at it without a word: the cursor then
  stands somewhere behind the records that were read. What such a session adds lies behind
  the end mark too, and a commit stores a cursor behind that, so nothing is refused; but the
  next replay stops at the same end mark, and the keys are gone.

  `found_again_iff` says for every file that opens which of the two it is, by comparing where
  the records of the opening end with the cursor.
-/

import Mathlib.Control.Monad.Basic
import TwinLog.Proofs.KeyLog.History

namespace TwinLog

namespace Directory

def finish (dir : Directory) : Nat := (dir.getLast?.map Entry.finish).getD headSize

def pairs (dir : Directory) : List (String × Location) := dir.map fun e => (e.key, e.location)

/-- The first part of a directory has every entry only if there is no other part. -/
theorem Distinct.subset_iff {dir more : Directory} (h : Distinct (dir ++ more)) :
    (∀ e ∈ dir ++ more, e ∈ dir) ↔ more = [] := by
  constructor
  · intro hsub
    cases more with
    | nil => rfl
    | cons e more =>
      have hmem := hsub e (List.mem_append_right dir List.mem_cons_self)
      unfold Distinct keys at h
      rw [List.map_append, List.nodup_append] at h
      exact absurd rfl (h.2.2 e.key (List.mem_map_of_mem hmem) e.key (List.mem_map_of_mem List.mem_cons_self))
  · rintro rfl e he
    rwa [List.append_nil] at he

end Directory

namespace KeyLog

inductive Adds : KeyLog → Disk → List (String × Location) → KeyLog → Disk → Prop
  | none (k : KeyLog) (d : Disk) : Adds k d [] k d
  | one {k k' k'' : KeyLog} {d d' d'' : Disk} {key : String} {l : Location} {rows : List (String × Location)}
      (space : Volume.Space) (added : k.add space d key l = (.ok (), k', d'))
      (more : Adds k' d' rows k'' d'') : Adds k d ((key, l) :: rows) k'' d''

variable {im : Image} {path : String} {k k₁ : KeyLog} {v v' w : Volume} {d d₁ d₂ : Disk}
  {dir opening saved : Directory} {pos stop capacity : Nat} {rows : List (String × Location)}

theorem Adds.of_fst {key : String} {l : Location} (space : Volume.Space) (h : (k.add space d key l).1 = .ok ())
    (more : Adds (k.add space d key l).2.1 (k.add space d key l).2.2 rows k₁ d₁) :
    Adds k d ((key, l) :: rows) k₁ d₁ :=
  .one space (Prod.ext h rfl) more

theorem Laid.finish_eq (h : Laid im pos dir stop) : (dir.getLast?.map Entry.finish).getD pos = stop := by
  induction dir generalizing pos with
  | nil => exact h
  | cons e dir ih =>
    rw [List.getLast?_cons, ← ih h.2]
    cases dir.getLast? <;> rfl

theorem Adds.steady (h : Adds k d rows k₁ d₁) (hs : Steady opening stop saved k d) :
    Steady opening stop saved k₁ d₁ ∧ k₁.checkpoint = k.checkpoint ∧ k₁.log.file = k.log.file ∧
      d₁.files.size = d.files.size ∧ k₁.directory.pairs = k.directory.pairs ++ rows ∧ ∀ row ∈ rows, row.1 ≠ "" := by
  induction h with
  | none k d => exact ⟨hs, rfl, rfl, rfl, (List.append_nil _).symm, fun row hrow => nomatch hrow⟩
  | one space added more ih =>
    obtain ⟨hs', hg, hdir⟩ := hs.add added
    obtain ⟨hs'', hcheck, hfile, hsize, hrows, hnamed⟩ := ih hs'
    rcases hdir with ⟨-, hne, -, hdir⟩ | ⟨⟨e, he⟩, -⟩
    · refine ⟨hs'', hcheck.trans hg.checkpoint, hfile.trans hg.file, hsize.trans hg.only.size, ?_, ?_⟩
      · rw [hrows, hdir, Directory.pairs, List.map_append, List.append_assoc]
        rfl
      · intro row hrow
        rcases List.mem_cons.mp hrow with rfl | hrow
        · exact hne
        · exact hnamed row hrow
    · cases he

/-- An entry is looked up by its key, and its key is not added again. -/
theorem known_of_mem {e : Entry} (hd : k.directory.Distinct) (he : e ∈ k.directory) (hne : e.key ≠ "") :
    k.get e.key = .ok e.location ∧
      ∀ space d l, k.add space d e.key l = (.error (.duplicateKey e.key), k, d) := by
  have hcontains : k.directory.contains e.key = true := List.any_eq_true.mpr ⟨e, he, beq_self_eq_true e.key⟩
  refine ⟨?_, ?_⟩
  · rw [KeyLog.get, if_neg hne, hd.find? he]
  · intro space d l
    rw [KeyLog.add, if_neg hne, if_pos hcontains]

/-- What opening the file of an index again reads: the records of the opening, and those that
    are saved if there is no end mark before them. -/
theorem Steady.remains (h : Steady opening stop saved k d) : ∃ stop' cursor,
    Stored (d.image k.log.file) (if opening.finish = k.checkpoint then saved else opening) stop' cursor := by
  have hfin : opening.finish = stop := h.opened.finish_eq
  rcases h.stops with hs | he
  · obtain ⟨middle, hstored⟩ := h.stored hs
    rw [if_pos (hfin.trans hs)]
    exact ⟨middle, middle, hstored⟩
  · obtain ⟨middle, hstored⟩ := h.stored_ended he
    have hlt := he.1
    rw [Header.width] at hlt
    rw [if_neg (by omega)]
    exact ⟨stop, middle, hstored⟩

structure Remains (v : Volume) (path : String) (f : FileId) (dir : Directory) : Prop where
  sound : v.Sound
  names : v.Names path f
  stored : ∃ stop cursor, Stored (v.disk.image f) dir stop cursor

theorem Remains.spares {f : FileId} (h : Remains v path f dir) (hw : v.Spares path w) : Remains w path f dir := by
  obtain ⟨hname, himage⟩ := hw.kept f h.names
  exact ⟨hw.sound, hname, himage ▸ h.stored⟩

section Committed

variable (hv : v.Sound) (hopen : openAt v path capacity = (.ok k, v')) (hadds : Adds k v'.disk rows k₁ d₁)

include hv hopen hadds

theorem steady_of_adds : ∃ stop, Steady k.directory stop k.directory k₁ d₁ ∧ k₁.checkpoint = k.cursor ∧
    k₁.log.file = k.log.file ∧ d₁.files.size = v'.disk.files.size ∧
    k₁.directory.pairs = k.directory.pairs ++ rows ∧ ∀ row ∈ rows, row.1 ≠ "" := by
  have ho := openAt_spec hv hopen
  obtain ⟨stop, hstored⟩ := ho.stored
  rw [ho.cursor]
  exact ⟨stop, hadds.steady (ho.steady hstored)⟩

/-- What is left of it by a commit and a close. -/
theorem remains_of_commit (hc : k₁.commit d₁ = .ok d₂) : Remains { v' with disk := k₁.close d₂ } path k.log.file
    (if k.directory.finish = k.cursor then k₁.directory else k.directory) := by
  have ho := openAt_spec hv hopen
  obtain ⟨stop, hs₁, hcheck, hfile, hsize, -⟩ := steady_of_adds hv hopen hadds
  obtain ⟨hs₂, honly⟩ := hs₁.commit hc
  obtain ⟨hm, hflush, hk⟩ := Log.flush_spec hs₂.mounted
  have hs := hs₂.keep k₁.log hm (Nat.le_refl _) (hk.mono (Nat.le_refl _) hs₂.cursor_le)
  have hsizes : (k₁.close d₂).files.size = v'.disk.files.size := hflush.size.trans (honly.size.trans hsize)
  refine ⟨ho.log.sound.of_nodes rfl (Nat.le_of_eq hsizes.symm), ho.log.names.grown ho.log.sound (.of_nodes rfl), ?_⟩
  rw [← hcheck, ← hfile]
  exact Steady.remains hs

theorem room_of_commit (hc : k₁.commit d₁ = .ok d₂) (available capacity' : Nat)
    (hspace : v'.space path = .ok available) (hlong : k₁.capacity ≤ available)
    (hfits : capacity' + headSize ≤ maxUnsigned) (hwanted : capacity' + headSize ≤ available) :
    Log.Room { v' with disk := k₁.close d₂ } path capacity' := by
  have hremains := remains_of_commit hv hopen hadds hc
  obtain ⟨stop, hs₁, -, hfile, -⟩ := steady_of_adds hv hopen hadds
  have hlength : ((k₁.close d₂).image k₁.log.file).length = k₁.capacity :=
    (Log.flush_spec (hs₁.commit hc).1.mounted).1.length_eq
  have hsound := (openAt_spec hv hopen).log.sound
  have hgrows : v'.Grows { v' with disk := k₁.close d₂ } := .of_nodes rfl
  have hspace' := Volume.space_grown hsound hgrows rfl hspace
  refine ⟨hfits, available, hspace', hwanted, ?_⟩
  intro n hn
  cases hremains.names.length.symm.trans hn
  rw [← hfile, hlength]
  exact hlong

/-- After adds, a commit and a close, on whatever file the index was opened: it is not
    refused as corruption, and opens if there is room. The records of the session are found
    again if, and only if, those of the opening reached to the cursor, or there are none. -/
theorem found_again_iff (hc : k₁.commit d₁ = .ok d₂) (hw : Volume.Spares { v' with disk := k₁.close d₂ } path w)
    (capacity' : Nat) :
    (∀ damage, (openAt w path capacity').1 ≠ .error (.corruption damage)) ∧
      (Log.Room w path capacity' → ∃ k₂ w', openAt w path capacity' = (.ok k₂, w')) ∧
    ∀ k₂ w', openAt w path capacity' = (.ok k₂, w') →
      k₂.directory = (if k.directory.finish = k.cursor then k₁.directory else k.directory) ∧
      ((∀ e ∈ k₁.directory, e ∈ k₂.directory) ↔ k.directory.finish = k.cursor ∨ rows = []) ∧
      (k.directory.finish = k.cursor → ∀ key l, (key, l) ∈ rows → k₂.get key = .ok l ∧
        ∀ space d l', k₂.add space d key l' = (.error (.duplicateKey key), k₂, d)) := by
  obtain ⟨stop, hs₁, -, -, -, hpairs, hnamed⟩ := steady_of_adds hv hopen hadds
  have hremains := (remains_of_commit hv hopen hadds hc).spares hw
  obtain ⟨stop', cursor, hstored⟩ := hremains.stored
  obtain ⟨hsafe, hfound, hopens⟩ := openAt_of_stored hw.sound hremains.names hstored capacity'
  refine ⟨hsafe, hopens, ?_⟩
  intro k₂ w' hopen'
  obtain ⟨hdir, -⟩ := hfound k₂ w' hopen'
  refine ⟨hdir, ?_, ?_⟩
  · by_cases hreach : k.directory.finish = k.cursor
    · rw [if_pos hreach] at hdir
      simp only [hdir, hreach, true_or, iff_true]
      exact fun e he => he
    · rw [if_neg hreach] at hdir
      obtain ⟨added, hadd, -⟩ := hs₁.added
      have hrows : added.pairs = rows := by
        rw [hadd, Directory.pairs, List.map_append] at hpairs
        exact List.append_cancel_left hpairs
      have hd := hs₁.distinct
      rw [hadd] at hd
      simp only [hdir, hreach, false_or, hadd, hd.subset_iff, ← hrows]
      exact List.map_eq_nil_iff.symm
  · intro hreach key l hrow
    rw [if_pos hreach] at hdir
    have hmem : (key, l) ∈ k₂.directory.pairs := by
      rw [hdir, hpairs]
      exact List.mem_append_right _ hrow
    obtain ⟨e, he, heq⟩ := List.mem_map.mp hmem
    obtain ⟨rfl, rfl⟩ := Prod.mk.inj heq
    exact known_of_mem (hdir ▸ hs₁.distinct) he (hnamed _ hrow)

end Committed

/-- In a new file two keys are found again. -/
theorem new_keys_found_again : ∃ k₁ d₁ d₂ k₂ w, Adds newIndex newVolume.disk
      [("a", ⟨3, 8, Checksum.of []⟩), ("bb", ⟨5, 11, Checksum.of []⟩)] k₁ d₁ ∧ k₁.commit d₁ = .ok d₂ ∧
    openAt { newVolume with disk := k₁.close d₂ } "index.bin" 0 = (.ok k₂, w) ∧
    k₂.get "bb" = .ok ⟨5, 11, Checksum.of []⟩ := by
  have hv := Volume.sound_empty 4096
  have hadds : Adds newIndex newVolume.disk [("a", ⟨3, 8, Checksum.of []⟩), ("bb", ⟨5, 11, Checksum.of []⟩)] _ _ :=
    .of_fst (fun _ => .ok 4096) (by decide +kernel)
      (.of_fst (fun _ => .ok 4096) (by decide +kernel) (.none ..))
  obtain ⟨stop, hs, -⟩ := steady_of_adds hv new_opens hadds
  obtain ⟨d₂, hc⟩ := hs.commit_ok (by decide +kernel)
  have hremains := remains_of_commit hv new_opens hadds hc
  have hroom := room_of_commit hv new_opens hadds hc 4096 0 (by decide +kernel) (by decide +kernel) (by decide)
    (by decide)
  obtain ⟨-, hopens, hfound⟩ := found_again_iff hv new_opens hadds hc (.refl hremains.sound _) 0
  obtain ⟨k₂, w, hopen⟩ := hopens hroom
  exact ⟨_, _, d₂, k₂, w, hadds, hc, hopen, ((hfound k₂ w hopen).2.2 rfl _ _ (by simp)).1⟩

/-- A file whose cursor stands behind an end mark. -/
def marked : Volume :=
  { (Volume.empty 4096).withFile 1 "index.bin" with disk := ⟨#[.ofList (int64Bytes 52 ++ List.replicate 44 0)]⟩ }

def markedIndex : KeyLog := ⟨⟨"index.bin", 0, 52⟩, 52, 52, []⟩

/-- It opens, a key is recorded and committed, and the next opening does not know the key. -/
theorem lost_behind_end_mark : ∃ k v k₁ d₁ d₂ k₂ w, openAt marked "index.bin" 0 = (.ok k, v) ∧
    Adds k v.disk [("a", ⟨3, 8, Checksum.of []⟩)] k₁ d₁ ∧ k₁.commit d₁ = .ok d₂ ∧
    openAt { v with disk := k₁.close d₂ } "index.bin" 0 = (.ok k₂, w) ∧
    k₁.get "a" = .ok ⟨3, 8, Checksum.of []⟩ ∧ k₂.get "a" = .error (.keyNotFound "a") := by
  have hmade : ((Volume.empty 4096).withFile 1 "index.bin").Sound := Volume.sound_withFile (Volume.sound_empty 4096)
  have hv : marked.Sound := hmade.of_nodes rfl (by decide +kernel)
  have hindex : (openAt marked "index.bin" 0).1 = .ok markedIndex := by decide +kernel
  have hopen : openAt marked "index.bin" 0 = (.ok markedIndex, (openAt marked "index.bin" 0).2) := by rw [← hindex]
  have hadds : Adds markedIndex (openAt marked "index.bin" 0).2.disk [("a", ⟨3, 8, Checksum.of []⟩)] _ _ :=
    .of_fst (fun _ => .ok 4096) (by decide +kernel) (.none ..)
  obtain ⟨stop, hs, -⟩ := steady_of_adds hv hopen hadds
  obtain ⟨d₂, hc⟩ := hs.commit_ok (by decide +kernel)
  have hremains := remains_of_commit hv hopen hadds hc
  have hroom := room_of_commit hv hopen hadds hc 4096 0 (by decide +kernel) (by decide +kernel) (by decide)
    (by decide)
  obtain ⟨stop', cursor, hstored⟩ := hremains.stored
  obtain ⟨-, hfound, hopens⟩ := openAt_of_stored hremains.sound hremains.names hstored 0
  obtain ⟨k₂, w, hopen₂⟩ := hopens hroom
  refine ⟨_, _, _, _, d₂, k₂, w, hopen, hadds, hc, hopen₂, by decide +kernel, ?_⟩
  rw [KeyLog.get, (hfound k₂ w hopen₂).1]
  decide +kernel

end KeyLog

end TwinLog
