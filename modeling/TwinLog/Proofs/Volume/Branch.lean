/-
  TwinLog.Proofs.Volume.Branch — a tree of folders and files without links.

  `Branch v path n`: node `n`, which is found under `path`, is a file, or a folder whose entries
  have different names and are such trees again. That it is finite is part of what it is: no
  node is below itself (`Branch.acyclic`), so no place is deeper than there are nodes
  (`Branch.depth_le`). Each place has its own path (`Branch.place_unique`).

  A walk asks for each node by the path that leads to it, and the system refuses a name of
  more than 255 bytes and a path of 4096 or more. So a branch is readable only as far as this
  goes: each of its names is UTF-8 and fits, and so does each joined path (`Askable`).
-/

import Mathlib.Data.Fintype.Pigeonhole
import TwinLog.Proofs.Volume.Inside

namespace TwinLog.Volume

variable {v : Volume} {path name : String} {n m parent : Nat} {entries : List (String × Nat)}
  {names places : List String}

/-- A tree without links, each place of which can be asked for by its path: no name has more
    than 255 bytes in UTF-8, no joined path 4096 or more. -/
inductive Branch (v : Volume) : String → Nat → Prop
  | file {path : String} {n : Nat} {id : FileId} (isFile : v.node n = .file id) : Branch v path n
  | folder {path : String} {n parent : Nat} {entries : List (String × Nat)}
      (isFolder : v.node n = .folder parent entries) (distinct : (entries.map Prod.fst).Nodup)
      (askable : ∀ e ∈ entries, Askable path e.1) (inside : ∀ e ∈ entries, Branch v (Path.join path e.1) e.2) :
      Branch v path n

theorem Branch.not_link (h : Branch v path n) : ∀ target, v.node n ≠ .link target := by
  intro target hlink
  cases h with
  | file isFile => cases isFile.symm.trans hlink
  | folder isFolder => cases isFolder.symm.trans hlink

theorem lookup_of_mem (hdistinct : (entries.map Prod.fst).Nodup) (h : (name, m) ∈ entries) :
    entries.lookup name = some m := by
  obtain ⟨before, after, rfl⟩ := List.append_of_mem h
  rw [List.map_append, List.map_cons] at hdistinct
  refine List.lookup_eq_some_iff.mpr ⟨before, after, rfl, ?_⟩
  intro e he
  have hne := (List.nodup_append.mp hdistinct).2.2 e.1 (List.mem_map_of_mem he) name List.mem_cons_self
  simpa using hne.symm

theorem folder_of_lookup (h : (v.entriesOf n).lookup name = some m) :
    ∃ parent entries, v.node n = .folder parent entries ∧ entries.lookup name = some m := by
  unfold entriesOf at h
  split at h
  · rename_i parent entries hfolder
    exact ⟨parent, entries, hfolder, h⟩
  · cases h

/-- What has something below it is a folder. -/
theorem folder_of_descend (h : v.descend n (name :: names) = some m) : ∃ parent entries, v.node n = .folder parent entries := by
  obtain ⟨next, hentry, -⟩ := Option.bind_eq_some_iff.mp h
  obtain ⟨parent, entries, hfolder, -⟩ := folder_of_lookup hentry
  exact ⟨parent, entries, hfolder⟩

namespace Branch

theorem distinct (h : Branch v path n) (hfolder : v.node n = .folder parent entries) : (entries.map Prod.fst).Nodup := by
  cases h with
  | file isFile => cases isFile.symm.trans hfolder
  | folder isFolder distinct =>
    cases isFolder.symm.trans hfolder
    exact distinct

theorem mem_iff (h : Branch v path n) (hfolder : v.node n = .folder parent entries) :
    (name, m) ∈ entries ↔ (v.entriesOf n).lookup name = some m := by
  rw [entriesOf_folder hfolder]
  exact ⟨lookup_of_mem (h.distinct hfolder), mem_of_lookup⟩

theorem descend_cons (h : Branch v path n) (hfolder : v.node n = .folder parent entries) :
    v.descend n (name :: names) = some m ↔ ∃ next, (name, next) ∈ entries ∧ v.descend next names = some m := by
  simp only [h.mem_iff hfolder]
  exact Option.bind_eq_some_iff

theorem entry (h : Branch v path n) (hentry : (v.entriesOf n).lookup name = some m) :
    Askable path name ∧ Branch v (Path.join path name) m := by
  obtain ⟨parent, entries, hfolder, hentry⟩ := folder_of_lookup hentry
  cases h with
  | file isFile => cases isFile.symm.trans hfolder
  | folder isFolder distinct askable inside =>
    cases isFolder.symm.trans hfolder
    exact ⟨askable _ (mem_of_lookup hentry), inside _ (mem_of_lookup hentry)⟩

theorem lookup_entry (h : Branch v path n) (hpath : v.lookup path = .ok n)
    (hentry : (v.entriesOf n).lookup name = some m) : v.lookup (Path.join path name) = .ok m := by
  obtain ⟨parent, entries, hfolder, hmem⟩ := folder_of_lookup hentry
  obtain ⟨haskable, hbranch⟩ := h.entry hentry
  exact lookup_join hpath hfolder hmem hbranch.not_link haskable

theorem inside_of_mem (h : Branch v path n) (hfolder : v.node n = .folder parent entries)
    (hmem : (name, m) ∈ entries) : Branch v (Path.join path name) m :=
  (h.entry ((h.mem_iff hfolder).mp hmem)).2

theorem descend (h : Branch v path n) (hd : v.descend n names = some m) : Branch v (names.foldl Path.join path) m := by
  induction names generalizing path n with
  | nil => cases hd; exact h
  | cons name rest ih =>
    obtain ⟨next, hentry, hrest⟩ := Option.bind_eq_some_iff.mp hd
    exact ih (h.entry hentry).2 hrest

/-- The path of a place ends with the names that lead to it. -/
theorem names_foldl (h : Branch v path n) (hd : v.descend n names = some m) :
    Path.names (names.foldl Path.join path) = Path.names path ++ names := by
  induction names generalizing path n with
  | nil => simp
  | cons name rest ih =>
    obtain ⟨next, hentry, hrest⟩ := Option.bind_eq_some_iff.mp hd
    obtain ⟨haskable, hbranch⟩ := h.entry hentry
    rw [List.foldl_cons, ih hbranch hrest, haskable.plain.names_join, List.append_assoc]
    rfl

theorem place_unique (h : Branch v path n) {m' : Nat} (hd : v.descend n names = some m)
    (hd' : v.descend n places = some m') (heq : names.foldl Path.join path = places.foldl Path.join path) :
    names = places := by
  have hnames := h.names_foldl hd
  rw [heq, h.names_foldl hd'] at hnames
  exact (List.append_cancel_left hnames).symm

/-- No node is below itself. -/
theorem acyclic (h : Branch v path n) (hne : names ≠ []) : v.descend n names ≠ some n := by
  induction h generalizing names with
  | @file path n id isFile =>
    obtain ⟨name, rest, rfl⟩ := List.exists_cons_of_ne_nil hne
    intro hd
    obtain ⟨parent, entries, hfolder⟩ := folder_of_descend hd
    cases isFile.symm.trans hfolder
  | @folder path n parent entries isFolder distinct askable inside ih =>
    obtain ⟨name, rest, rfl⟩ := List.exists_cons_of_ne_nil hne
    intro hd
    obtain ⟨next, hentry, hrest⟩ := Option.bind_eq_some_iff.mp hd
    have hmem := mem_of_lookup (entriesOf_folder isFolder ▸ hentry)
    -- the way back to the folder and the step into the entry make a cycle at the entry
    have hcycle : v.descend next (rest ++ [name]) = some next := descend_snoc.mpr ⟨n, hrest, hentry⟩
    exact ih _ hmem (by simp) hcycle

theorem descend_take (hd : v.descend n names = some m) {i : Nat} (hi : i < names.length) :
    ∃ k < v.nodes.size, v.descend n (names.take i) = some k := by
  rw [← List.take_append_drop i names, descend_append, List.drop_eq_getElem_cons hi] at hd
  obtain ⟨k, hk, hrest⟩ := Option.bind_eq_some_iff.mp hd
  obtain ⟨next, hentry, -⟩ := Option.bind_eq_some_iff.mp hrest
  refine ⟨k, ?_, hk⟩
  by_contra hge
  have hnode : v.node k = .folder rootNode [] := by
    rw [node, Array.getElem?_eq_none (Nat.le_of_not_lt hge)]
    rfl
  rw [entriesOf_folder hnode] at hentry
  cases hentry

theorem depth_le (h : Branch v path n) (hd : v.descend n names = some m) : names.length ≤ v.nodes.size := by
  by_contra hlt
  have htake (i : Fin names.length) := descend_take hd i.2
  choose node hnode hleads using htake
  -- two of the folders on the way are the same
  obtain ⟨i, j, hij, heq⟩ : ∃ i j, i < j ∧ node i = node j := by
    obtain ⟨i, j, hne, heq⟩ := Fintype.exists_ne_map_eq_of_card_lt
      (fun i => (⟨node i, hnode i⟩ : Fin v.nodes.size)) (by simpa using Nat.lt_of_not_le hlt)
    rcases lt_or_gt_of_ne hne with hij | hji
    · exact ⟨i, j, hij, congrArg Fin.val heq⟩
    · exact ⟨j, i, hji, congrArg Fin.val heq.symm⟩
  have hsplit : names.take j = names.take i ++ (names.take j).drop i := by
    have hprefix : (names.take j).take i = names.take i := by
      rw [List.take_take, Nat.min_eq_left (Nat.le_of_lt hij)]
    rw [← hprefix, List.take_append_drop]
  have hback := hleads j
  rw [hsplit, descend_append, hleads i, Option.bind_some, ← heq] at hback
  refine (h.descend (hleads i)).acyclic ?_ hback
  intro hnil
  have hlength := congrArg List.length hnil
  rw [List.length_drop, List.length_take, List.length_nil] at hlength
  have hlast := j.2
  rw [Fin.lt_def] at hij
  omega

end Branch

end TwinLog.Volume
