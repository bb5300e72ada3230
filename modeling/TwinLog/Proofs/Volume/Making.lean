/-
  TwinLog.Proofs.Volume.Making — what making folders and files can lead to.

  `Made v w`: `w` comes from `v` by making folders and files and by changing the bytes of
  files. Two paths are `Apart` in a volume if in none that comes from it they name one
  file, and `Fresh` if what they name of it is absent or empty besides; on a volume without
  links two paths with two places are apart (`Tree.apart`). `Finds v path P`: whatever is
  made, the file that the path names then has `P`.

  `Twin v w`: two volumes with one tree and as many files, whatever the files hold. They
  answer alike and stay twins when folders are made and files opened.
-/

import TwinLog.Proofs.Volume.Places

namespace TwinLog

namespace Volume

variable {v w w' v' : Volume} {path storage index : String} {f : FileId} {purpose : Purpose}

/-! ## What can come of a volume -/

inductive Made : Volume → Volume → Prop
  | refl (v : Volume) : Made v v
  | folders {v w w' : Volume} {path : String} {r : Except IoFault Unit} (before : Made v w)
      (made : w.makeFolders path = (r, w')) : Made v w'
  | file {v w w' : Volume} {path : String} {f : FileId} (before : Made v w)
      (made : w.openToWrite path = .ok (f, w')) : Made v w'
  | bytes {v w w' : Volume} (before : Made v w) (nodes : w'.nodes = w.nodes)
      (size : w'.disk.files.size = w.disk.files.size) : Made v w'

theorem openToWrite_grows (hv : v.Sound) (h : v.openToWrite path = .ok (f, w)) : v.Grows w ∧ w.Sound := by
  rcases openToWrite_cases h with ⟨-, rfl⟩ | ⟨folder, name, -, -, rfl⟩
  · exact ⟨.refl _, hv⟩
  · exact ⟨grows_withFile .., sound_withFile hv⟩

namespace Made

theorem trans (h : v.Made w) (h' : w.Made w') : v.Made w' := by
  induction h' with
  | refl => exact h
  | folders _ made ih => exact .folders ih made
  | file _ made ih => exact .file ih made
  | bytes _ nodes size ih => exact .bytes ih nodes size

theorem grows (hv : v.Sound) (h : v.Made w) : v.Grows w ∧ w.Sound := by
  induction h with
  | refl => exact ⟨.refl _, hv⟩
  | folders before made ih =>
    obtain ⟨hg, hs⟩ := ih
    have hu := makeFolders_furnished hs made
    exact ⟨hg.trans hu.grows, hu.sound⟩
  | file before made ih =>
    obtain ⟨hg, hs⟩ := ih
    obtain ⟨hg', hs'⟩ := openToWrite_grows hs made
    exact ⟨hg.trans hg', hs'⟩
  | bytes before nodes size ih =>
    obtain ⟨hg, hs⟩ := ih
    exact ⟨hg.trans (.of_nodes nodes), hs.of_nodes nodes (Nat.le_of_eq size.symm)⟩

theorem tree {cwd : List String} (ht : v.Tree cwd) (h : v.Made w) : w.Tree cwd := by
  induction h with
  | refl => exact ht
  | folders before made ih => exact ih.makeFoldersWithin made
  | file before made ih =>
    rcases openToWrite_cases made with ⟨-, rfl⟩ | ⟨folder, name, -, -, rfl⟩
    · exact ih
    · exact ih.withFile
  | bytes before nodes size ih => exact ih.of_nodes (ih.sound.of_nodes nodes (Nat.le_of_eq size.symm)) nodes

theorem of_log {requested : Nat} {l : Log} (h : Log.openAt v path requested = .ok (l, w)) : v.Made w := by
  unfold Log.openAt at h
  split at h
  · cases h
  dsimp only at h
  split at h
  · cases h
  split at h
  · cases h
  · rename_i g u hu
    cases h
    exact .bytes (.file (.refl v) hu) rfl (Disk.size_update ..)

end Made

/-- Whatever is made, the two paths never name one file. -/
def Apart (v : Volume) (storage index : String) : Prop := ∀ w, v.Made w → ∀ f, w.Names storage f → ¬ w.Names index f

theorem Apart.made (h : v.Apart storage index) (hw : v.Made w) : w.Apart storage index :=
  fun u hu => h u (hw.trans hu)

theorem Apart.symm (h : v.Apart storage index) : v.Apart index storage :=
  fun w hw f hi hs => h w hw f hs hi

/-- The files of the two paths are absent or empty, and never one file. -/
structure Fresh (v : Volume) (storage index : String) : Prop where
  sound : v.Sound
  apart : v.Apart storage index
  empty : ∀ w, v.Made w → ∀ f, f < v.disk.files.size → w.Names storage f ∨ w.Names index f →
    (v.disk.image f).length = 0

/-- A file of either path, there or still to be made, has nothing in it. -/
theorem Fresh.length_eq_zero (h : v.Fresh storage index) (hw : v.Made w) {f : FileId}
    (hf : w.Names storage f ∨ w.Names index f) : (v.disk.image f).length = 0 := by
  by_cases hlt : f < v.disk.files.size
  · exact h.empty w hw f hlt hf
  · rw [v.disk.image_of_size_le (Nat.le_of_not_lt hlt)]

/-- On a tree without links, paths with two places are apart. -/
theorem Tree.apart {cwd : List String} (ht : v.Tree cwd)
    (h : Path.resolve cwd storage ≠ Path.resolve cwd index) : v.Apart storage index :=
  fun _ hw _ hs hi => h (((hw.tree ht).names_eq_iff hs hi).mp rfl)

theorem fresh_empty (available : Nat) (h : Path.resolve ["work"] storage ≠ Path.resolve ["work"] index) :
    (empty available).Fresh storage index where
  sound := sound_empty available
  apart := (tree_empty available).apart h
  empty := fun _ _ _ hf => absurd hf (Nat.not_lt_zero _)

/-- Whatever is made, what the path then names has `P` as it is now. -/
def Finds (v : Volume) (path : String) (P : Image → Prop) : Prop :=
  ∀ w, v.Made w → ∀ f, w.Names path f → P (v.disk.image f)

namespace Finds

variable {P : Image → Prop}

theorem made (h : v.Finds path P) (hw : v.Made w) (hd : ∀ f, w.disk.image f = v.disk.image f) : w.Finds path P :=
  fun u hu f hf => hd f ▸ h u (hw.trans hu) f hf

theorem imp {Q : Image → Prop} (h : v.Finds path P) (hpq : ∀ im, P im → Q im) : v.Finds path Q :=
  fun w hw f hf => hpq _ (h w hw f hf)

theorem of_names (hv : v.Sound) (hn : v.Names path f) (h : P (v.disk.image f)) : v.Finds path P := by
  intro w hw g hg
  cases (hn.grown hv (hw.grows hv).1).unique hg
  exact h

/-- A change to what another path names. -/
theorem other {path' : String} (h : v.Finds path' P) (hw : v.Made w) (hs : w.Sound) (ha : w.Apart path path')
    (hn : w.Names path f) (hd : ∀ g, g ≠ f → w.disk.image g = v.disk.image g) : w.Finds path' P := by
  intro u hu g hg
  have hne : g ≠ f := fun he => ha u hu f (hn.grown hs (hu.grows hs).1) (he ▸ hg)
  rw [hd g hne]
  exact h u (hw.trans hu) g hg

theorem opened (h : v.Finds path P) (ho : v.openToWrite path = .ok (f, w)) (hv : v.Sound) : P (v.disk.image f) := by
  refine h w (.file (.refl v) ho) f ?_
  rcases openToWrite_cases ho with ⟨hn, rfl⟩ | ⟨folder, name, hvac, rfl, rfl⟩
  · exact hn
  · exact hvac.names hv

end Finds

/-! ## Volumes with one tree -/

structure Twin (v w : Volume) : Prop where
  nodes : w.nodes = v.nodes
  size : w.disk.files.size = v.disk.files.size

namespace Twin

variable (h : Twin v w)
include h

theorem node (n : Nat) : w.node n = v.node n := by rw [Volume.node, Volume.node, h.nodes]

theorem lookup (path : String) : w.lookup path = v.lookup path := by
  simp only [Volume.lookup, nodeAt, walkFrom_congr h.nodes]

theorem names_iff (path : String) (f : FileId) : w.Names path f ↔ v.Names path f := by
  simp only [Names, walkFrom_congr h.nodes, h.node]

theorem isFolder (path : String) : w.isFolder path = v.isFolder path := by
  simp only [Volume.isFolder, openToRead, h.lookup, h.node]

theorem freeName (path : String) : w.freeName path = v.freeName path := by
  have hlast : w.lastName path = v.lastName path := by simp only [lastName, nodeAt, walkFrom_congr h.nodes]
  have hentries (n : Nat) : w.entriesOf n = v.entriesOf n := by rw [entriesOf, entriesOf, h.node]
  simp only [Volume.freeName, hlast, hentries]

theorem attach (folder : Nat) (name : String) (made : Node) :
    Twin (v.attach folder name made) (w.attach folder name made) :=
  ⟨by simp only [Volume.attach, h.nodes], h.size⟩

theorem space (path : String) :
    w.space path = (v.space path).map fun _ => w.available := by
  simp only [Volume.space, h.lookup]
  split
  · rfl
  · cases v.lookup (folderOf path) <;> rfl

theorem openToWrite (path : String) :
    (∃ e, v.openToWrite path = .error e ∧ w.openToWrite path = .error e) ∨
      ∃ f v' w', v.openToWrite path = .ok (f, v') ∧ w.openToWrite path = .ok (f, w') ∧ Twin v' w' := by
  unfold Volume.openToWrite
  rw [walkFrom_congr h.nodes]
  cases v.walkFrom .make path (Path.steps path) with
  | error e => exact .inl ⟨e, rfl, rfl⟩
  | ok spot =>
    cases spot with
    | found n =>
      simp only [h.node]
      cases v.node n with
      | file f => exact .inr ⟨f, v, w, rfl, rfl, h⟩
      | folder _ _ => exact .inl ⟨_, rfl, rfl⟩
      | link _ => exact .inl ⟨_, rfl, rfl⟩
    | absent folder name =>
      refine .inr ⟨v.disk.files.size, v.withFile folder name, w.withFile folder name, rfl, ?_, ⟨?_, ?_⟩⟩
      · exact congrArg (fun n => Except.ok (n, w.withFile folder name)) h.size
      · simp only [withFile, withSpare, Volume.attach, h.nodes, h.size]
      · rw [size_files_withFile, size_files_withFile, h.size]

omit h in
theorem refl (v : Volume) : Twin v v := ⟨rfl, rfl⟩

omit h in
theorem trans {u : Volume} (h : Twin v w) (h' : Twin w u) : Twin v u :=
  ⟨h'.nodes.trans h.nodes, h'.size.trans h.size⟩

theorem made : v.Made w := .bytes (.refl v) h.nodes h.size

theorem sound (hv : v.Sound) : w.Sound := hv.of_nodes h.nodes (Nat.le_of_eq h.size.symm)

theorem makeFolder (path : String) :
    (∃ e, v.makeFolder path = .error e ∧ w.makeFolder path = .error e) ∨
      ∃ v' w', v.makeFolder path = .ok v' ∧ w.makeFolder path = .ok w' ∧ Twin v' w' := by
  unfold Volume.makeFolder
  rw [h.freeName]
  cases v.freeName path with
  | error e => exact .inl ⟨e, rfl, rfl⟩
  | ok place => exact .inr ⟨_, _, rfl, rfl, h.attach ..⟩

end Twin

theorem Twin.makeFoldersWithin (h : Twin v w) (depth : Nat) (path : String) :
    (makeFoldersWithin depth path w).1 = (makeFoldersWithin depth path v).1 ∧
      Twin (Volume.makeFoldersWithin depth path v).2 (Volume.makeFoldersWithin depth path w).2 := by
  induction depth generalizing path v w with
  | zero => exact ⟨rfl, h⟩
  | succ depth ih =>
    unfold Volume.makeFoldersWithin
    by_cases hpath : path = ""
    · simp only [hpath, if_true]
      exact ⟨trivial, h⟩
    simp only [hpath, if_false]
    rcases h.makeFolder path with ⟨e, hv, hw⟩ | ⟨v', w', hv, hw, h'⟩
    · simp only [hv, hw, h.isFolder]
      split
      · rename_i hok
        cases hok
      · cases Path.parent path with
        | none => exact ⟨rfl, h⟩
        | some above =>
          obtain ⟨heq, h'⟩ := ih h above
          dsimp only
          cases hv' : Volume.makeFoldersWithin depth above v with
          | mk r v' =>
            cases hw' : Volume.makeFoldersWithin depth above w with
            | mk r' w' =>
              rw [hv', hw'] at heq h'
              cases heq
              cases r with
              | error e => exact ⟨rfl, h'⟩
              | ok _ =>
                rcases h'.makeFolder path with ⟨e, hv'', hw''⟩ | ⟨v'', w'', hv'', hw'', h''⟩
                · simp only [hv'', hw'', h'.isFolder]
                  split <;> exact ⟨rfl, h'⟩
                · simp only [hv'', hw'']
                  exact ⟨trivial, h''⟩
      · split <;> exact ⟨rfl, h⟩
    · simp only [hv, hw]
      exact ⟨trivial, h'⟩

end Volume

end TwinLog
