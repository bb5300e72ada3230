/-
  TwinLog.Proofs.Bulk.Collected — the files below a folder, each once and in order.

  `Lists v path n out` is the order: the files of the folder, ascending, and then what is below
  its folders, descending, in the same order. `Lists.mem_iff` and `Lists.nodup`: these are the
  files below the folder, each one once; `Lists.block`: what is below a folder further down is
  one stretch of the list.

  A walk of a `Branch` comes to its end, since no place is deeper than there are nodes, and what
  it finds is listed so (`files_exact`). The loop that keeps a stack of folders finds what the
  recursion finds, on every volume on which that ends well (`ends_files`).
-/

import TwinLog.Bulk.Walk
import TwinLog.Proofs.Volume.Branch

namespace TwinLog

open Volume

namespace Walk

variable {v : Volume} {path folder : String} {n depth : Nat} {pending found out paths : List String}
  {r r' : Except IoFault (List String)} {t : Trail}

/-! ## The loop -/

theorem not_isFile (h : v.isFolder path = true) : v.isFile path = false := by
  unfold isFolder at h
  unfold isFile
  split at h
  · rename_i hopen
    rw [hopen]
  · cases h

theorem foldl_meet (v : Volume) (paths pending found : List String) : paths.foldl (Trail.meet v) ⟨pending, found⟩ =
    ⟨(paths.filter v.isFolder).reverse ++ pending, found ++ paths.filter v.isFile⟩ := by
  induction paths generalizing pending found with
  | nil => simp
  | cons path paths ih =>
    rw [List.foldl_cons, Trail.meet]
    by_cases hfolder : v.isFolder path = true
    · rw [if_pos hfolder, ih]
      simp [hfolder, not_isFile hfolder]
    · rw [if_neg hfolder]
      by_cases hfile : v.isFile path = true
      · rw [if_pos hfile, ih]
        simp [hfolder, hfile]
      · rw [if_neg hfile, ih]
        simp [hfolder, hfile]

theorem mapM_eq_ok_iff {α β ε : Type} {f : α → Except ε β} {as : List α} {bs : List β} :
    as.mapM f = .ok bs ↔ List.Forall₂ (fun a b => f a = .ok b) as bs := by
  induction as generalizing bs with
  | nil => simp [pure, Except.pure, eq_comm]
  | cons a as ih =>
    rw [List.mapM_cons, List.forall₂_cons_left_iff]
    cases hf : f a with
    | error e => simp [bind, Except.bind]
    | ok b =>
      simp only [bind, Except.bind, pure, Except.pure]
      cases hs : as.mapM f with
      | error e => simp [← ih, hs]
      | ok bs' => simp [← ih, hs, eq_comm]

theorem ends_of_forall {P : String → List String → Prop} {folders : List String} {below : List (List String)}
    (hone : ∀ folder inside pending found, P folder inside → Ends v ⟨pending, found ++ inside⟩ r →
      Ends v ⟨folder :: pending, found⟩ r)
    (hall : List.Forall₂ P folders below) (hrest : Ends v ⟨pending, found ++ below.flatten⟩ r) :
    Ends v ⟨folders ++ pending, found⟩ r := by
  induction hall generalizing found with
  | nil => simpa using hrest
  | @cons folder inside folders below hinside hbelow ih =>
    rw [List.flatten_cons, ← List.append_assoc] at hrest
    exact hone folder inside _ found hinside (ih hrest)

/-- What the recursion finds below a folder, the loop finds before it goes on with the stack. -/
theorem ends_of_filesWithin (h : filesWithin v depth folder = .ok out) (hrest : Ends v ⟨pending, found ++ out⟩ r) :
    Ends v ⟨folder :: pending, found⟩ r := by
  induction depth generalizing folder out pending found with
  | zero => cases h
  | succ depth ih =>
    unfold filesWithin at h
    split at h
    · cases h
    · rename_i paths hpaths
      dsimp only at h
      cases hbelow : ((paths.filter v.isFolder).reverse).mapM (filesWithin v depth) with
      | error e =>
        rw [hbelow] at h
        cases h
      | ok below =>
        rw [hbelow] at h
        cases h
        refine .looks hpaths ?_
        rw [foldl_meet]
        rw [← List.append_assoc] at hrest
        exact ends_of_forall (fun _ _ _ _ => ih) (mapM_eq_ok_iff.mp hbelow) hrest

theorem Ends.unique (h : Ends v t r) (h' : Ends v t r') : r = r' := by
  induction h with
  | done =>
    cases h'
    rfl
  | fails refused =>
    cases h' with
    | fails refused' => exact congrArg Except.error (Except.error.inj (refused.symm.trans refused'))
    | looks listed => cases refused.symm.trans listed
  | looks listed _ ih =>
    cases h' with
    | fails refused => cases refused.symm.trans listed
    | looks listed' go =>
      cases listed.symm.trans listed'
      exact ih go

theorem ends_files (h : files v path = .ok out) : Ends v ⟨[path], []⟩ r ↔ r = .ok out := by
  have hends : Ends v ⟨[path], []⟩ (.ok out) := ends_of_filesWithin h (.done out)
  constructor
  · intro hr
    exact hr.unique hends
  · rintro rfl
    exact hends

/-! ## What is listed -/

/-- A file below a node, and its path if the node has this one. -/
def HasFile (v : Volume) (path : String) (n : Nat) (file : String) : Prop :=
  ∃ names m id, v.descend n names = some m ∧ v.node m = .file id ∧ file = names.foldl Path.join path

/-- The files of a folder in ascending order, then what is below its folders in descending order,
    listed in the same way. -/
inductive Lists (v : Volume) : String → Nat → List String → Prop
  | folder {path : String} {n parent : Nat} {entries : List (String × Nat)} {files folders : List String}
      {inside : String → List String} (isFolder : v.node n = .folder parent entries)
      (ascending : files.Pairwise (· < ·))
      (isFile : ∀ name, name ∈ files ↔ ∃ m id, (name, m) ∈ entries ∧ v.node m = .file id)
      (descending : folders.Pairwise (· > ·))
      (isSub : ∀ name, name ∈ folders ↔ ∃ m up sub, (name, m) ∈ entries ∧ v.node m = .folder up sub)
      (below : ∀ name m, name ∈ folders → (name, m) ∈ entries → Lists v (Path.join path name) m (inside name)) :
      Lists v path n (files.map (Path.join path) ++ folders.flatMap inside)

namespace Lists

variable {file : String}

theorem mem_iff (hb : v.Branch path n) (h : Lists v path n out) : file ∈ out ↔ HasFile v path n file := by
  induction h generalizing file with
  | @folder path n parent entries files folders inside isFolder ascending isFile descending isSub below ih =>
    rw [List.mem_append, List.mem_map, List.mem_flatMap]
    constructor
    · rintro (⟨name, hname, rfl⟩ | ⟨name, hname, hfile⟩)
      · obtain ⟨m, id, hmem, hm⟩ := (isFile name).mp hname
        exact ⟨[name], m, id, (hb.descend_cons isFolder).mpr ⟨m, hmem, rfl⟩, hm, rfl⟩
      · obtain ⟨next, up, sub, hmem, -⟩ := (isSub name).mp hname
        obtain ⟨names, m, id, hd, hm, rfl⟩ := (ih name next hname hmem (hb.inside_of_mem isFolder hmem)).mp hfile
        exact ⟨name :: names, m, id, (hb.descend_cons isFolder).mpr ⟨next, hmem, hd⟩, hm, rfl⟩
    · rintro ⟨names, m, id, hd, hm, rfl⟩
      cases names with
      | nil =>
        cases hd
        cases isFolder.symm.trans hm
      | cons name rest =>
        obtain ⟨next, hmem, hrest⟩ := (hb.descend_cons isFolder).mp hd
        cases rest with
        | nil =>
          cases hrest
          exact .inl ⟨name, (isFile name).mpr ⟨m, id, hmem, hm⟩, rfl⟩
        | cons name' rest =>
          obtain ⟨up, sub, hsub⟩ := folder_of_descend hrest
          have hname := (isSub name).mpr ⟨next, up, sub, hmem, hsub⟩
          have hbranch := hb.inside_of_mem isFolder hmem
          exact .inr ⟨name, hname, (ih name next hname hmem hbranch).mpr ⟨_, m, id, hrest, hm, rfl⟩⟩

theorem nodup (hb : v.Branch path n) (h : Lists v path n out) : out.Nodup := by
  induction h with
  | @folder path n parent entries files folders inside isFolder ascending isFile descending isSub below ih =>
    -- where the files of the folder are, and those further down
    have hfile {name : String} (hname : name ∈ files) : ∃ m id, v.descend n [name] = some m ∧ v.node m = .file id := by
      obtain ⟨m, id, hmem, hm⟩ := (isFile name).mp hname
      exact ⟨m, id, (hb.descend_cons isFolder).mpr ⟨m, hmem, rfl⟩, hm⟩
    have hinside {name file : String} (hname : name ∈ folders) (hfile : file ∈ inside name) :
        ∃ names m, v.descend n (name :: names) = some m ∧ names ≠ [] ∧ file = (name :: names).foldl Path.join path := by
      obtain ⟨next, up, sub, hmem, hsub⟩ := (isSub name).mp hname
      obtain ⟨names, m, id, hd, hm, rfl⟩ :=
        ((below name next hname hmem).mem_iff (hb.inside_of_mem isFolder hmem)).mp hfile
      refine ⟨names, m, (hb.descend_cons isFolder).mpr ⟨next, hmem, hd⟩, ?_, rfl⟩
      rintro rfl
      cases hd
      cases hsub.symm.trans hm
    refine List.nodup_append.mpr ⟨?_, List.nodup_flatMap.mpr ⟨?_, ?_⟩, ?_⟩
    · refine List.Nodup.map_on ?_ ascending.nodup
      intro name hname name' hname' heq
      obtain ⟨m, id, hd, -⟩ := hfile hname
      obtain ⟨m', id', hd', -⟩ := hfile hname'
      exact (List.cons.inj (hb.place_unique hd hd' heq)).1
    · intro name hname
      obtain ⟨next, up, sub, hmem, -⟩ := (isSub name).mp hname
      exact ih name next hname hmem (hb.inside_of_mem isFolder hmem)
    · refine descending.imp_of_mem ?_
      intro name name' hname hname' hgt file hin hin'
      obtain ⟨names, m, hd, -, hpath⟩ := hinside hname hin
      obtain ⟨names', m', hd', -, hpath'⟩ := hinside hname' hin'
      cases hb.place_unique hd hd' (hpath.symm.trans hpath')
      exact String.lt_irrefl _ hgt
    · intro file hmem file' hmem' heq
      obtain ⟨name, hname, rfl⟩ := List.mem_map.mp hmem
      obtain ⟨name', hname', hin⟩ := List.mem_flatMap.mp hmem'
      obtain ⟨m, id, hd, -⟩ := hfile hname
      obtain ⟨names, m', hd', hne, hpath⟩ := hinside hname' hin
      cases hb.place_unique hd hd' (heq.trans hpath)
      exact hne rfl

/-- The order leaves no choice. -/
theorem unique (hb : v.Branch path n) (h : Lists v path n out) {out' : List String} (h' : Lists v path n out') :
    out = out' := by
  induction h generalizing out' with
  | @folder path n parent entries files folders inside isFolder ascending isFile descending isSub below ih =>
    cases h' with
    | @folder _ _ _ _ files' folders' inside' isFolder' ascending' isFile' descending' isSub' below' =>
    cases isFolder.symm.trans isFolder'
    have hfiles : files = files' :=
      ascending.eq_of_mem_iff ascending' fun name => (isFile name).trans (isFile' name).symm
    have hfolders : folders = folders' :=
      descending.eq_of_mem_iff descending' fun name => (isSub name).trans (isSub' name).symm
    subst hfiles hfolders
    rw [List.flatMap_congr]
    intro name hname
    obtain ⟨m, -, -, hmem, -⟩ := (isSub name).mp hname
    exact ih name m hname hmem (hb.inside_of_mem isFolder hmem) (below' name m hname hmem)

/-- What is below a folder further down is listed in one stretch. -/
theorem block (hb : v.Branch path n) (h : Lists v path n out) {names : List String} {m up : Nat}
    {sub : List (String × Nat)} (hd : v.descend n names = some m) (hm : v.node m = .folder up sub) :
    ∃ before part after, out = before ++ part ++ after ∧ Lists v (names.foldl Path.join path) m part := by
  induction h generalizing names with
  | @folder path n parent entries files folders inside isFolder ascending isFile descending isSub below ih =>
    cases names with
    | nil =>
      cases hd
      exact ⟨[], _, [], by simp, .folder isFolder ascending isFile descending isSub below⟩
    | cons name rest =>
      obtain ⟨next, hmem, hrest⟩ := (hb.descend_cons isFolder).mp hd
      have hsub : ∃ up sub, v.node next = .folder up sub := by
        cases rest with
        | nil =>
          cases hrest
          exact ⟨up, sub, hm⟩
        | cons => exact folder_of_descend hrest
      obtain ⟨up', sub', hsub⟩ := hsub
      have hname := (isSub name).mpr ⟨next, up', sub', hmem, hsub⟩
      obtain ⟨before, part, after, hinside, hlists⟩ := ih name next hname hmem (hb.inside_of_mem isFolder hmem) hrest
      obtain ⟨early, late, rfl⟩ := List.append_of_mem hname
      refine ⟨files.map (Path.join path) ++ early.flatMap inside ++ before, part, after ++ late.flatMap inside, ?_, hlists⟩
      rw [List.flatMap_append, List.flatMap_cons, hinside]
      simp only [List.append_assoc]

end Lists

/-! ## A walk of a branch -/

def sorted (entries : List (String × Nat)) : List String := (entries.map (·.1)).mergeSort fun a b => decide (a ≤ b)

theorem mem_sorted {entries : List (String × Nat)} {name : String} : name ∈ sorted entries ↔ ∃ m, (name, m) ∈ entries := by
  simp [sorted, List.mem_mergeSort]

theorem sorted_ascending {entries : List (String × Nat)} (hdistinct : (entries.map Prod.fst).Nodup) :
    (sorted entries).Pairwise (· < ·) := by
  have hle : (sorted entries).Pairwise fun a b => decide (a ≤ b) = true := by
    refine List.pairwise_mergeSort ?_ ?_ _
    · intro a b c hab hbc
      exact decide_eq_true (String.le_trans (of_decide_eq_true hab) (of_decide_eq_true hbc))
    · intro a b
      simpa using String.le_total a b
  have hne : (sorted entries).Nodup := (List.mergeSort_perm _ _).nodup_iff.mpr hdistinct
  refine hle.imp₂ ?_ hne
  intro a b hle hne
  exact String.not_le.mp fun hge => hne (String.le_antisymm (of_decide_eq_true hle) hge)

def fileNames (v : Volume) (path : String) (entries : List (String × Nat)) : List String :=
  (sorted entries).filter (v.isFile ∘ Path.join path)

def folderNames (v : Volume) (path : String) (entries : List (String × Nat)) : List String :=
  ((sorted entries).filter (v.isFolder ∘ Path.join path)).reverse

section Folder

variable {name : String} {m parent : Nat} {entries : List (String × Nat)} (hpath : v.lookup path = .ok n)
  (hfolder : v.node n = .folder parent entries)
include hpath hfolder

theorem filesWithin_folder {inside : String → List String}
    (hinside : ∀ name ∈ folderNames v path entries, filesWithin v depth (Path.join path name) = .ok (inside name)) :
    filesWithin v (depth + 1) path = .ok ((fileNames v path entries).map (Path.join path) ++
      (folderNames v path entries).flatMap inside) := by
  have hchildren : children v path = .ok ((sorted entries).map (Path.join path)) := by
    rw [children, childNames_eq hpath hfolder]
    rfl
  have hbelow : ((folderNames v path entries).map (Path.join path)).mapM (filesWithin v depth) =
      .ok ((folderNames v path entries).map inside) := by
    rw [mapM_eq_ok_iff, List.forall₂_map_left_iff, List.forall₂_map_right_iff, List.forall₂_same]
    exact hinside
  rw [filesWithin, hchildren]
  dsimp only
  rw [List.filter_map, List.filter_map, ← List.map_reverse]
  show (((folderNames v path entries).map (Path.join path)).mapM (filesWithin v depth)).map _ = _
  rw [hbelow, List.flatMap_def]
  rfl

variable (hb : v.Branch path n)
include hb

theorem lookup_entry (hmem : (name, m) ∈ entries) : v.lookup (Path.join path name) = .ok m :=
  hb.lookup_entry hpath ((hb.mem_iff hfolder).mp hmem)

theorem mem_fileNames : name ∈ fileNames v path entries ↔ ∃ m id, (name, m) ∈ entries ∧ v.node m = .file id := by
  rw [fileNames, List.mem_filter, mem_sorted]
  constructor
  · rintro ⟨⟨m, hmem⟩, hfile⟩
    obtain ⟨id, hm⟩ := (isFile_iff (lookup_entry hpath hfolder hb hmem)).mp hfile
    exact ⟨m, id, hmem, hm⟩
  · rintro ⟨m, id, hmem, hm⟩
    exact ⟨⟨m, hmem⟩, (isFile_iff (lookup_entry hpath hfolder hb hmem)).mpr ⟨id, hm⟩⟩

theorem mem_folderNames : name ∈ folderNames v path entries ↔
    ∃ m up sub, (name, m) ∈ entries ∧ v.node m = .folder up sub := by
  rw [folderNames, List.mem_reverse, List.mem_filter, mem_sorted]
  have hiff {m : Nat} (hmem : (name, m) ∈ entries) :
      v.isFolder (Path.join path name) = true ↔ ∃ up sub, v.node m = .folder up sub :=
    isFolder_iff (lookup_entry hpath hfolder hb hmem) (hb.inside_of_mem hfolder hmem).not_link
  constructor
  · rintro ⟨⟨m, hmem⟩, hsub⟩
    obtain ⟨up, sub, hm⟩ := (hiff hmem).mp hsub
    exact ⟨m, up, sub, hmem, hm⟩
  · rintro ⟨m, up, sub, hmem, hm⟩
    exact ⟨⟨m, hmem⟩, (hiff hmem).mpr ⟨up, sub, hm⟩⟩

end Folder

def within (v : Volume) (depth : Nat) (path : String) : List String := (filesWithin v depth path).toOption.getD []

/-- A walk that is allowed to go as deep as the branch goes lists what is there. -/
theorem filesWithin_lists (hb : v.Branch path n) (hpath : v.lookup path = .ok n) {parent : Nat}
    {entries : List (String × Nat)} (hfolder : v.node n = .folder parent entries)
    (hdepth : ∀ names m, v.descend n names = some m → names.length < depth) :
    filesWithin v depth path = .ok (within v depth path) ∧ Lists v path n (within v depth path) := by
  induction depth generalizing path n parent entries with
  | zero => exact absurd (hdepth [] n rfl) (Nat.not_lt_zero 0)
  | succ depth ih =>
    have hinside {name : String} {m up : Nat} {sub : List (String × Nat)} (hmem : (name, m) ∈ entries)
        (hm : v.node m = .folder up sub) :
        filesWithin v depth (Path.join path name) = .ok (within v depth (Path.join path name)) ∧
          Lists v (Path.join path name) m (within v depth (Path.join path name)) := by
      refine ih (hb.inside_of_mem hfolder hmem) (lookup_entry hpath hfolder hb hmem) hm ?_
      intro names k hd
      exact Nat.lt_of_succ_lt_succ (hdepth (name :: names) k ((hb.descend_cons hfolder).mpr ⟨m, hmem, hd⟩))
    have hwalk := filesWithin_folder hpath hfolder fun name hname => by
      obtain ⟨m, up, sub, hmem, hm⟩ := (mem_folderNames hpath hfolder hb).mp hname
      exact (hinside hmem hm).1
    rw [show within v (depth + 1) path = _ by rw [within, hwalk, Except.toOption, Option.getD_some]]
    have hascending := sorted_ascending (hb.distinct hfolder)
    refine ⟨hwalk, .folder hfolder (hascending.filter _) (fun _ => mem_fileNames hpath hfolder hb)
      (List.pairwise_reverse.mpr (hascending.filter _)) (fun _ => mem_folderNames hpath hfolder hb) ?_⟩
    intro name m hname hmem
    obtain ⟨m', up, sub, hmem', hm⟩ := (mem_folderNames hpath hfolder hb).mp hname
    cases Option.some.inj (((hb.mem_iff hfolder).mp hmem).symm.trans ((hb.mem_iff hfolder).mp hmem'))
    exact (hinside hmem hm).2

/-- **A tree is enumerated exactly**: for every folder whose tree is a branch, the walk ends well,
    and so does the loop, with one list. The branch may be of any size and depth; all it takes is
    that each of its names, in UTF-8, has at most 255 bytes and each joined path less than 4096
    (`Askable`), which is what being readable during the walk comes to.

    The list has the path of each file below the folder once and nothing else, and no two places
    have one path. First come the files of the folder, ascending, and then what is below its
    folders, descending; and what is below any folder further down is one stretch of the list,
    in this order again. -/
theorem files_exact {root : String} {top parent : Nat} {entries : List (String × Nat)}
    (hroot : v.lookup root = .ok top) (hfolder : v.node top = .folder parent entries) (hb : v.Branch root top) :
    ∃ out, files v root = .ok out ∧ (∀ r, Ends v ⟨[root], []⟩ r ↔ r = .ok out) ∧
      out.Nodup ∧ (∀ file, file ∈ out ↔ HasFile v root top file) ∧
      (∀ names names' m m', v.descend top names = some m → v.descend top names' = some m' →
        names.foldl Path.join root = names'.foldl Path.join root → names = names') ∧
      (∀ out', Lists v root top out' ↔ out' = out) ∧
      ∀ names m up sub, v.descend top names = some m → v.node m = .folder up sub →
        ∃ before part after, out = before ++ part ++ after ∧ Lists v (names.foldl Path.join root) m part ∧
          ∀ file, file ∈ part ↔ HasFile v (names.foldl Path.join root) m file := by
  have hdepth (names : List String) (m : Nat) (hd : v.descend top names = some m) : names.length < maxDepth v := by
    have hle := hb.depth_le hd
    have hmax : v.nodes.size + 1 ≤ maxDepth v := Nat.le_mul_of_pos_left _ (Nat.succ_pos _)
    omega
  obtain ⟨hfiles, hlists⟩ := filesWithin_lists hb hroot hfolder hdepth
  refine ⟨_, hfiles, fun r => ends_files hfiles, hlists.nodup hb, fun file => hlists.mem_iff hb, ?_, ?_, ?_⟩
  · intro names names' m m' hd hd' heq
    exact hb.place_unique hd hd' heq
  · intro out'
    exact ⟨fun h => h.unique hb hlists, fun h => h ▸ hlists⟩
  · intro names m up sub hd hm
    obtain ⟨before, part, after, hout, hpart⟩ := hlists.block hb hd hm
    exact ⟨before, part, after, hout, hpart, fun file => hpart.mem_iff (hb.descend hd)⟩

def orchard : Volume where
  nodes := #[.folder 0 [("work", 1)], .folder 0 [("t", 2)], .folder 1 [("b", 3), ("d", 4), ("a", 5), ("c", 6)], .file 0,
    .folder 2 [("x", 7)], .file 1, .folder 2 [("y", 8)], .file 2, .file 3]
  disk := {}
  available := 0

theorem orchard_branch : orchard.Branch "t/" 2 := by
  have hd : orchard.Branch (Path.join "t/" "d") 4 := .folder rfl (by decide) (by decide) (by simpa using .file rfl)
  have hc : orchard.Branch (Path.join "t/" "c") 6 := .folder rfl (by decide) (by decide) (by simpa using .file rfl)
  refine .folder rfl (by decide) (by decide) ?_
  simp only [List.forall_mem_cons]
  exact ⟨.file rfl, hd, .file rfl, hc, nofun⟩

theorem orchard_lists : Lists orchard "t/" 2 ["t/a", "t/b", "t/d/x", "t/c/y"] := by
  have hfolder : orchard.node 4 = .folder 2 [("x", 7)] ∧ orchard.node 6 = .folder 2 [("y", 8)] := ⟨rfl, rfl⟩
  have hfile : orchard.node 3 = .file 0 ∧ orchard.node 5 = .file 1 ∧ orchard.node 7 = .file 2 ∧ orchard.node 8 = .file 3 :=
    ⟨rfl, rfl, rfl, rfl⟩
  have hd : Lists orchard (Path.join "t/" "d") 4 (["x"].map (Path.join "t/d") ++ [].flatMap fun _ => []) :=
    .folder rfl (by simp) (by simp [hfile]) (by simp) (by simp [hfile]) (by simp)
  have hc : Lists orchard (Path.join "t/" "c") 6 (["y"].map (Path.join "t/c") ++ [].flatMap fun _ => []) :=
    .folder rfl (by simp) (by simp [hfile]) (by simp) (by simp [hfile]) (by simp)
  show Lists orchard "t/" 2 (["a", "b"].map (Path.join "t/") ++
    ["d", "c"].flatMap fun name => if name = "d" then ["t/d/x"] else ["t/c/y"])
  refine .folder rfl (by decide) ?_ (by decide) ?_ ?_
  · intro name
    simp [or_and_right, exists_or, and_assoc, hfile, hfolder, or_comm]
  · intro name
    simp [or_and_right, exists_or, and_assoc, hfile, hfolder]
  · intro name m hname hmem
    rw [List.mem_pair] at hname
    obtain rfl | rfl := hname
    · obtain rfl : m = 4 := by simpa using hmem
      exact hd
    · obtain rfl : m = 6 := by simpa using hmem
      exact hc

/-- The list of that tree. -/
theorem orchard_enumerated : files orchard "t/" = .ok ["t/a", "t/b", "t/d/x", "t/c/y"] ∧
    Ends orchard ⟨["t/"], []⟩ (.ok ["t/a", "t/b", "t/d/x", "t/c/y"]) ∧
    ∀ file, file ∈ ["t/a", "t/b", "t/d/x", "t/c/y"] ↔ HasFile orchard "t/" 2 file := by
  have hroot : orchard.lookup "t/" = .ok 2 := by rfl
  have hfolder : orchard.node 2 = .folder 1 [("b", 3), ("d", 4), ("a", 5), ("c", 6)] := by rfl
  obtain ⟨out, hfiles, hends, -, hmem, -, hlists, -⟩ := files_exact hroot hfolder orchard_branch
  have hout := (hlists _).mp orchard_lists
  rw [hout]
  exact ⟨hfiles, (hends _).mpr rfl, hmem⟩

end Walk

end TwinLog
