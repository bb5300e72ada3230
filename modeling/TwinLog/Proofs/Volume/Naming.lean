/-
  TwinLog.Proofs.Volume.Naming — which file a path names, and opening it.

  `Names v path f` says that opening `path` to write opens file `f`; `Vacant v path …` that
  it makes a new file in a place of its own. A path that names a file names it in every
  volume grown from this one, whatever happens to the bytes of files.
-/

import TwinLog.Proofs.Log.Memory
import TwinLog.Proofs.Volume.Walk

namespace TwinLog

namespace Volume

variable {v v' : Volume} {path : String} {f : FileId} {purpose : Purpose}

/-! ## The bytes of files do not matter for a walk -/

theorem stroll_congr (h : v'.nodes = v.nodes) (here : Nat) (steps : List String) :
    v'.stroll purpose here steps = v.stroll purpose here steps := by
  have hn (n : Nat) : v'.node n = v.node n := by rw [node, node, h]
  induction steps generalizing here with
  | nil => rfl
  | cons name rest ih => simp only [stroll, hn, ih]

theorem walk_congr (h : v'.nodes = v.nodes) (links here : Nat) (steps : List String) :
    v'.walk purpose links here steps = v.walk purpose links here steps := by
  induction links generalizing here steps with
  | zero => unfold walk; rw [stroll_congr h]
  | succ links ih => unfold walk; rw [stroll_congr h]; simp only [ih]

theorem walkFrom_congr (h : v'.nodes = v.nodes) (path : String) (steps : List String) :
    v'.walkFrom purpose path steps = v.walkFrom purpose path steps := by
  simp only [walkFrom, walk_congr h]

theorem Grows.of_nodes (h : v'.nodes = v.nodes) : v.Grows v' := by
  refine ⟨Nat.le_of_eq (by rw [h]), ?_⟩
  intro n _
  have hn : v'.node n = v.node n := by rw [Volume.node, Volume.node, h]
  rw [hn]
  exact .refl _

theorem Sound.of_nodes (hv : v.Sound) (h : v'.nodes = v.nodes) (hd : v.disk.files.size ≤ v'.disk.files.size) :
    v'.Sound := by
  refine ⟨h ▸ hv.current, ?_⟩
  intro n hn
  have hnode : v'.node n = v.node n := by rw [node, node, h]
  rw [hnode, h]
  exact (hv.within n (h ▸ hn)).mono (Nat.le_refl _) hd

/-! ## Walks of whole paths -/

theorem startOf_lt (hv : v.Sound) (path : String) : startOf path < v.nodes.size := by
  unfold startOf
  split
  · exact hv.root
  · exact hv.current

theorem walkFrom_iff {steps : List String} {spot : Spot} : v.walkFrom purpose path steps = .ok spot ↔
    refusePath path = none ∧ v.Walks purpose maxLinks (startOf path) steps spot := by
  unfold walkFrom
  rw [← walks_iff]
  cases refusePath path with
  | some e => simp
  | none =>
    cases v.walk purpose maxLinks (startOf path) steps with
    | error e => exact ⟨fun h => (nomatch h), fun h => (nomatch h.2)⟩
    | ok found =>
      constructor
      · intro h
        cases h
        exact ⟨rfl, rfl⟩
      · rintro ⟨-, h⟩
        cases h
        rfl

/-- Looking up a path that was found finds it again. -/
theorem lookup_grown (hv : v.Sound) (hg : v.Grows v') {n : Nat} (h : v.lookup path = .ok n) :
    v'.lookup path = .ok n := by
  unfold lookup nodeAt at h ⊢
  split at h
  · rename_i hw
    cases h
    obtain ⟨hp, hw⟩ := walkFrom_iff.mp hw
    rw [walkFrom_iff.mpr ⟨hp, hw.grown hv hg (startOf_lt hv path)⟩]
  · cases h
  · cases h

theorem space_grown (hv : v.Sound) (hg : v.Grows v') (ha : v'.available = v.available) {available : Nat}
    (h : v.space path = .ok available) : v'.space path = .ok available := by
  unfold space at h ⊢
  split at h
  · cases h
  · rename_i hnul
    rw [if_neg hnul]
    cases hl : v.lookup (folderOf path) with
    | error e => rw [hl] at h; cases h
    | ok n =>
      rw [hl] at h
      rw [lookup_grown hv hg hl, ha]
      exact h

/-- Opening `path` to write opens file `f`. -/
def Names (v : Volume) (path : String) (f : FileId) : Prop :=
  ∃ n, v.walkFrom .make path (Path.steps path) = .ok (.found n) ∧ v.node n = .file f

/-- Opening `path` to write makes a file named `name` in `folder`. -/
def Vacant (v : Volume) (path : String) (folder : Nat) (name : String) : Prop :=
  v.walkFrom .make path (Path.steps path) = .ok (.absent folder name)

theorem Vacant.of_nodes {folder : Nat} {name : String} (hw : v.Vacant path folder name)
    (h : v'.nodes = v.nodes) :
    v'.Vacant path folder name := (walkFrom_congr h ..).trans hw

theorem Names.unique {g : FileId} (h : v.Names path f) (h' : v.Names path g) : f = g := by
  obtain ⟨n, hn, hf⟩ := h
  obtain ⟨m, hm, hg⟩ := h'
  cases hn.symm.trans hm
  cases hf.symm.trans hg
  rfl

theorem Names.grown (hv : v.Sound) (hg : v.Grows v') (h : v.Names path f) : v'.Names path f := by
  obtain ⟨n, hw, hn⟩ := h
  obtain ⟨hp, hw⟩ := walkFrom_iff.mp hw
  have hs := startOf_lt hv path
  have hnode := hg.node n (hw.within hv hs)
  rw [hn] at hnode
  exact ⟨n, walkFrom_iff.mpr ⟨hp, hw.grown hv hg hs⟩, hnode⟩

theorem Names.file_lt (hv : v.Sound) (h : v.Names path f) : f < v.disk.files.size := by
  obtain ⟨n, hw, hn⟩ := h
  have hwithin := hv.within n ((walkFrom_iff.mp hw).2.within hv (startOf_lt hv path))
  rw [hn] at hwithin
  exact hwithin

theorem walkFrom_look {spot : Spot} {steps : List String} (h : v.walkFrom .make path steps = .ok spot) :
    v.walkFrom .look path steps = .ok spot := by
  obtain ⟨hp, hw⟩ := walkFrom_iff.mp h
  exact walkFrom_iff.mpr ⟨hp, hw.look⟩

theorem Names.length (h : v.Names path f) : v.length path = .ok (v.disk.image f).length := by
  obtain ⟨n, hw, hn⟩ := h
  simp only [Volume.length, openToRead, lookup, nodeAt, walkFrom_look hw, hn, Except.map, lengthOf]

theorem Vacant.length {folder : Nat} {name : String} (h : v.Vacant path folder name) :
    v.length path = .error (.system .noEntry) := by
  simp only [Volume.length, openToRead, lookup, nodeAt, walkFrom_look h, Except.map]

/-! ## Opening to write -/

theorem Names.openToWrite (h : v.Names path f) : v.openToWrite path = .ok (f, v) := by
  obtain ⟨n, hw, hn⟩ := h
  simp only [Volume.openToWrite, hw, hn]

def withSpare (v : Volume) : Volume := { v with disk := (v.disk.add {}).2 }

def withFile (v : Volume) (folder : Nat) (name : String) : Volume :=
  v.withSpare.attach folder name (.file v.disk.files.size)

theorem Vacant.openToWrite {folder : Nat} {name : String} (h : v.Vacant path folder name) :
    v.openToWrite path = .ok (v.disk.files.size, v.withFile folder name) := by
  unfold Vacant at h
  simp only [Volume.openToWrite, h]
  rfl

theorem image_add_empty (d : Disk) (g : FileId) : (d.add {}).2.image g = d.image g := by
  simp only [Disk.add, Disk.image, Array.getElem?_push]
  split
  · rename_i hg
    rw [Array.getElem?_eq_none (Nat.le_of_eq hg.symm)]
    rfl
  · rfl

@[simp] theorem size_add (d : Disk) (im : Image) : (d.add im).2.files.size = d.files.size + 1 :=
  Array.size_push ..

section WithFile

variable (v : Volume) (folder : Nat) (name : String)

@[simp] theorem size_files_withFile : (v.withFile folder name).disk.files.size = v.disk.files.size + 1 :=
  size_add ..

theorem image_withFile (g : FileId) : (v.withFile folder name).disk.image g = v.disk.image g := image_add_empty ..

theorem grows_withFile : v.Grows (v.withFile folder name) := by
  have hspare : v.Grows v.withSpare := .of_nodes rfl
  exact hspare.trans (grows_attach ..)

end WithFile

variable {folder : Nat} {name : String}

theorem sound_withSpare (hv : v.Sound) : v.withSpare.Sound :=
  hv.of_nodes rfl (by show _ ≤ (v.disk.add {}).2.files.size; rw [size_add]; exact Nat.le_succ _)

theorem sound_withFile (hv : v.Sound) : (v.withFile folder name).Sound :=
  sound_attach (sound_withSpare hv) (by
    show v.disk.files.size < (v.disk.add {}).2.files.size
    rw [size_add]
    exact Nat.lt_succ_self _)

theorem Vacant.names (hv : v.Sound) (h : v.Vacant path folder name) :
    (v.withFile folder name).Names path v.disk.files.size := by
  have hspare : v.withSpare.Vacant path folder name := h.of_nodes rfl
  obtain ⟨hp, hw⟩ := walkFrom_iff.mp hspare
  have hv' := sound_withSpare hv
  exact ⟨v.nodes.size, walkFrom_iff.mpr ⟨hp, hw.attached hv' (startOf_lt hv' path) fun _ => Node.noConfusion⟩,
    node_attach_self ..⟩

/-- Another vacant path stays vacant. -/
theorem Vacant.withFile_ne {path' : String} {folder' : Nat} {name' : String} (hv : v.Sound)
    (h : v.Vacant path' folder' name') (hne : folder' = folder → name' ≠ name) :
    (v.withFile folder name).Vacant path' folder' name' := by
  have hspare : v.withSpare.Vacant path' folder' name' := h.of_nodes rfl
  obtain ⟨hp, hw⟩ := walkFrom_iff.mp hspare
  have hv' := sound_withSpare hv
  exact walkFrom_iff.mpr ⟨hp, hw.attach_ne hv' (startOf_lt hv' path') hne⟩

/-- A path that can be opened to write names a file or is vacant. -/
theorem openToWrite_cases {w : Volume} (h : v.openToWrite path = .ok (f, w)) :
    v.Names path f ∧ w = v ∨
      ∃ folder name, v.Vacant path folder name ∧ f = v.disk.files.size ∧ w = v.withFile folder name := by
  unfold openToWrite at h
  split at h
  · cases h
  · rename_i n hw
    split at h
    · rename_i hn
      cases h
      exact .inl ⟨⟨n, hw, hn⟩, rfl⟩
    · cases h
  · rename_i folder name hw
    cases h
    exact .inr ⟨folder, name, hw, rfl, rfl⟩

/-! ## Making folders -/

/-- The volume has at most more folders. -/
structure Furnished (v v' : Volume) : Prop where
  sound : v'.Sound
  grows : v.Grows v'
  disk : v'.disk = v.disk
  available : v'.available = v.available

theorem Furnished.refl (hv : v.Sound) : v.Furnished v := ⟨hv, .refl v, rfl, rfl⟩

theorem Furnished.trans {v'' : Volume} (h : v.Furnished v') (h' : v'.Furnished v'') : v.Furnished v'' :=
  ⟨h'.sound, h.grows.trans h'.grows, h'.disk.trans h.disk, h'.available.trans h.available⟩

theorem nodeAt_lt (hv : v.Sound) {steps : List String} {n : Nat} (h : v.nodeAt path steps = .ok n) :
    n < v.nodes.size := by
  unfold nodeAt at h
  split at h
  · rename_i hw
    cases h
    exact (walkFrom_iff.mp hw).2.within hv (startOf_lt hv path)
  · cases h
  · cases h

theorem freeName_lt (hv : v.Sound) (h : v.freeName path = .ok (folder, name)) : folder < v.nodes.size := by
  unfold freeName at h
  split at h
  · cases h
  · cases h
  · rename_i n last hlast
    unfold lastName at hlast
    dsimp only at hlast
    cases hn : v.nodeAt path ((Path.names path).dropLast ++ ["."]) with
    | error e => rw [hn] at hlast; cases hlast
    | ok m =>
      rw [hn] at hlast
      have hm : m = n := congrArg Prod.fst (Except.ok.inj hlast)
      split at h
      · cases h
      split at h
      · cases h
      · cases h
        exact hm ▸ nodeAt_lt hv hn

theorem makeFolder_furnished (hv : v.Sound) (h : v.makeFolder path = .ok v') : v.Furnished v' := by
  unfold makeFolder at h
  cases hf : v.freeName path with
  | error e => rw [hf] at h; cases h
  | ok place =>
    obtain ⟨folder, name⟩ := place
    rw [hf] at h
    cases h
    have hlt := freeName_lt hv hf
    exact ⟨sound_attach hv ⟨by omega, fun e he => nomatch he⟩, grows_attach .., rfl, rfl⟩

/-- What each new folder keeps is kept by all of them. -/
theorem makeFoldersWithin_keeps {P : Volume → Prop}
    (hmake : ∀ {v w : Volume} {path : String}, P v → v.makeFolder path = .ok w → P w) (hv : P v) {depth : Nat}
    {r : Except IoFault Unit} (h : makeFoldersWithin depth path v = (r, v')) : P v' := by
  induction depth generalizing path v r v' with
  | zero => cases h; exact hv
  | succ depth ih =>
    unfold makeFoldersWithin at h
    split at h
    · cases h; exact hv
    split at h
    · rename_i w hw
      cases h
      exact hmake hv hw
    · split at h
      · cases h; exact hv
      · rename_i above _
        split at h
        · rename_i e w hw
          cases h
          exact ih hv hw
        · rename_i w hw
          have habove := ih hv hw
          split at h
          · rename_i w' hw'
            cases h
            exact hmake habove hw'
          · split at h <;> (cases h; exact habove)
    · split at h <;> (cases h; exact hv)

theorem makeFolders_furnished (hv : v.Sound) {r : Except IoFault Unit} (h : v.makeFolders path = (r, v')) :
    v.Furnished v' :=
  makeFoldersWithin_keeps (P := v.Furnished) (fun h hw => h.trans (makeFolder_furnished h.sound hw)) (.refl hv) h

end Volume

end TwinLog
