/-
  TwinLog.Proofs.Bulk.Agreement — a load stores all files or none, and a check finds them.

  The vault holds what earlier sessions have left (`Inherited`). A load that answers well adds
  one blob for each listed file to its book, with the bytes of that file; after one that fails
  the book is as it was (`load_all_or_nothing`). This holds for any order of the workers' moves,
  and so for `Load.load`. Whoever opens the vault later finds that book, as long as both files
  are left alone, and a check of the same list answers well, as long as the listed files are.
  On any volume on which a vault opens, a check answers well exactly if every listed file
  matches what is stored under its path.
-/

import TwinLog.Proofs.Bulk.Checking
import TwinLog.Proofs.Bulk.Serial

namespace TwinLog

/-! ## What an opening leaves alone -/

namespace Volume

variable {v v' : Volume} {path : String} {f : FileId}

theorem openToRead_grown (hv : v.Sound) (hg : v.Grows v') (h : v.openToRead path = .ok (.file f)) :
    v'.openToRead path = .ok (.file f) := by
  unfold openToRead at h ⊢
  split at h
  · cases h
  rename_i n hn
  rw [lookup_grown hv hg hn]
  have hnode : v.node n = .file f := by
    split at h
    · rename_i hf
      cases h
      exact hf
    · cases h
  have hlt : n < v.nodes.size := by
    by_contra hge
    unfold node at hnode
    rw [Array.getElem?_eq_none (Nat.le_of_not_lt hge)] at hnode
    cases hnode
  have hgrown := hg.node n hlt
  rw [hnode] at hgrown
  have hgrown : v'.node n = .file f := hgrown
  simp only [hgrown]

end Volume

namespace Vault

variable {v w u x y z : Volume} {s : Settings} {c : ContentLog} {k : KeyLog}

theorem Parts.grows (hv : v.Sound) (h : Parts v s u c x k w) : v.Grows w := by
  have hu := Volume.makeFolders_furnished hv h.folders
  have hc := ContentLog.openAt_spec hu.sound h.content
  exact (hu.grows.trans hc.log.grows).trans (KeyLog.openAt_spec hc.log.sound h.index).log.grows

/-- An opening changes no file but the two. -/
theorem Parts.others (hv : v.Sound) (h : Parts v s u c x k w) {f : FileId} (hc : f ≠ c.log.file) (hk : f ≠ k.log.file) :
    w.disk.image f = v.disk.image f := by
  have hu := Volume.makeFolders_furnished hv h.folders
  have ho := ContentLog.openAt_spec hu.sound h.content
  rw [(KeyLog.openAt_spec ho.log.sound h.index).log.others f hk, ho.log.others f hc, hu.disk]

theorem Parts.untouched {paths : List String} (hx : x.Sound) (h : Parts x s u c y k z) (hv : v.Untouched paths x)
    (hfiles : ∀ path ∈ paths, ∀ f, v.openToRead path = .ok (.file f) → f ≠ c.log.file ∧ f ≠ k.log.file) :
    v.Untouched paths z := by
  intro path hpath f hf
  obtain ⟨hopen, himage⟩ := hv path hpath f hf
  obtain ⟨hc, hk⟩ := hfiles path hpath f hf
  exact ⟨Volume.openToRead_grown hx (h.grows hx) hopen, (h.others hx hc hk).trans himage⟩

end Vault

/-- A file put beside the two leaves them alone. -/
theorem Volume.Undisturbed.beside {v : Volume} {storage index : String} (hv : v.Sound) (folder : Nat) (name : String)
    (change : Image → Image) :
    v.Undisturbed storage index ((v.withFile folder name).updateFile v.disk.files.size change) := by
  have hnodes : ((v.withFile folder name).updateFile v.disk.files.size change).nodes =
      (v.withFile folder name).nodes := rfl
  have hsize : (v.withFile folder name).disk.files.size ≤
      ((v.withFile folder name).updateFile v.disk.files.size change).disk.files.size :=
    Nat.le_of_eq (Disk.size_update ..).symm
  have names {path : String} {f : FileId} (hf : v.Names path f) :
      ((v.withFile folder name).updateFile v.disk.files.size change).Names path f ∧
        ((v.withFile folder name).updateFile v.disk.files.size change).disk.image f = v.disk.image f := by
    refine ⟨hf.grown hv ((Volume.grows_withFile ..).trans (.of_nodes hnodes)), ?_⟩
    show ((v.withFile folder name).disk.update _ change).image f = _
    rw [Disk.image_update_ne _ (Nat.ne_of_gt (hf.file_lt hv)), Volume.image_withFile]
  exact ⟨(Volume.sound_withFile hv).of_nodes hnodes hsize, fun _ => names, fun _ => names⟩

/-! ## What is found later -/

/-- Whoever opens the two files finds the book, and it can be opened if the system grants it. -/
structure Volume.Recalls (v : Volume) (storage index : String) (book : Book) : Prop where
  reopens : v.Reopens storage index book
  shows : ∀ s vault y, s.storagePath = storage → s.indexPath = index → Vault.openAt v s = (.ok vault, y) →
    vault.Shows y.disk book

theorem Stocked.recalls {storage index : String} {book : Book} {v : Volume} {fc fi : FileId}
    (h : Stocked storage index book v) (hc : v.Names storage fc) (hi : v.Names index fi) :
    v.Recalls storage index book where
  reopens := Vault.reopens_stocked h hc hi
  shows := by
    rintro s vault y rfl rfl hopen
    obtain ⟨u, c, x, k, hparts, rfl⟩ := Vault.openAt_iff.mp hopen
    exact (h.opens hparts).shows h.sound hparts

namespace Vault

variable {v v' w x y : Volume} {s : Settings} {vault : Vault} {paths : List String} {book : Book} {threads : Nat}
  {r : Except Fault Unit}

/-- After a load that has answered well: one blob for each listed file, with its bytes. Whoever
    opens the vault later finds them with all blobs that were there before and no others, and a
    check of the list answers well while the listed files are untouched. -/
structure Taken (w : Volume) (s : Settings) (paths : List String) (book : Book) (v' : Volume) (new : Book) : Prop where
  keys : ∀ path, path ∈ paths ↔ path ∈ new.map (·.key)
  bytes : ∀ b ∈ new, w.readPart b.key 0 none = .ok b.bytes
  untouched : w.Untouched paths v'
  recalls : ∀ x, v'.Undisturbed s.storagePath s.indexPath x → x.Recalls s.storagePath s.indexPath (book ++ new)
  checks : ∀ x, v'.Undisturbed s.storagePath s.indexPath x → w.Untouched paths x →
    ∀ s' vault' y, s'.storagePath = s.storagePath → s'.indexPath = s.indexPath → openAt x s' = (.ok vault', y) →
      ∀ threads r y', Verifies vault' y paths threads r y' → r = .ok ()

theorem Shows.matches {vault : Vault} {y : Volume} (h : vault.Shows y.disk book) {b : Blob} (hb : b ∈ book)
    (hchecksum : b.location.checksum = Checksum.of b.bytes) (hread : y.readPart b.key 0 none = .ok b.bytes) :
    vault.Matches y b.key :=
  ⟨b.location, b.bytes, b.bytes, h.locate b hb, h.get b hb, hread, rfl, rfl, hchecksum.symm⟩

theorem checks_stocked {new : Book} {y' : Volume} (h : Stocked s.storagePath s.indexPath (book ++ new) x)
    (hopen : openAt x s = (.ok vault, y)) (hkeys : ∀ path ∈ paths, path ∈ new.map (·.key))
    (hbytes : ∀ b ∈ new, y.readPart b.key 0 none = .ok b.bytes) (hcheck : Verifies vault y paths threads r y') :
    r = .ok () := by
  obtain ⟨u, c, z, k, hparts, rfl⟩ := openAt_iff.mp hopen
  have hstarts := h.opens hparts
  refine (hcheck.ok_iff rfl rfl).mpr ?_
  intro path hpath
  obtain ⟨b, hb, rfl⟩ := List.mem_map.mp (hkeys path hpath)
  have hmem := List.mem_append_right book hb
  exact (hstarts.shows h.sound hparts).matches hmem (hstarts.filed b hmem).2.checksum (hbytes b hb)

theorem Loaded.taken (h : Loaded w s paths book (.ok ()) v') (hspared : Spared w s paths) :
    ∃ new, Taken w s paths book v' new := by
  obtain ⟨fc, fi, hwc, hwi, hc, hi⟩ := h.names
  obtain ⟨new, hkeys, hbytes, hstock⟩ := h.stores rfl
  refine ⟨new, hkeys, hbytes, h.untouched, ?_, ?_⟩
  · intro x hx
    exact (hstock.undisturbed hc hi hx).recalls (hx.storage fc hc).1 (hx.index fi hi).1
  · intro x hx hfiles s' vault' y hstorage hindex hopen threads r y' hcheck
    have hstock' := hstock.undisturbed hc hi hx
    rw [← hstorage, ← hindex] at hstock'
    refine checks_stocked hstock' hopen (fun path => (hkeys path).mp) ?_ hcheck
    -- the two logs are the files that they were
    obtain ⟨u, c, z, k, hparts, rfl⟩ := openAt_iff.mp hopen
    have hnames := hparts.leaves hx.sound (hstock'.opens hparts).apart
    have hgrows := hparts.grows hx.sound
    have hcf : c.log.file = fc :=
      hnames.storage.unique (hstorage ▸ (hx.storage fc hc).1.grown hx.sound hgrows)
    have hkf : k.log.file = fi :=
      hnames.index_names.unique (hindex ▸ (hx.index fi hi).1.grown hx.sound hgrows)
    have huntouched := hparts.untouched hx.sound hfiles (by
      intro path hpath f hf
      obtain ⟨hnot, hnot'⟩ := hspared path hpath f hf
      exact ⟨fun he => hnot (by rw [he, hcf]; exact hwc), fun he => hnot' (by rw [he, hkf]; exact hwi)⟩)
    exact fun b hb => huntouched.readPart ((hkeys b.key).mpr (List.mem_map_of_mem hb)) (hbytes b hb)

/-- A load is all or nothing, and a check agrees with it. -/
theorem load_all_or_nothing (hv : Inherited s.storagePath s.indexPath v) (hopen : openAt v s = (.ok vault, w))
    (hspared : Spared w s paths) :
    (∀ threads attempts, Loads vault w paths threads attempts (Load.load v s paths threads attempts).1
      (Load.load v s paths threads attempts).2) ∧
    (∃ book, vault.Shows w.disk book ∧ ∀ threads attempts r v', Loads vault w paths threads attempts r v' →
      Inherited s.storagePath s.indexPath v' ∧
      (r = .ok () → ∃ new, Taken w s paths book v' new) ∧
      ∀ e, r = .error e → ∀ x, v'.Undisturbed s.storagePath s.indexPath x →
        x.Recalls s.storagePath s.indexPath book) ∧
    ∀ x s' vault' y list threads, openAt x s' = (.ok vault', y) →
      Verifies vault' y list threads (Load.verify x s' list threads).1 (Load.verify x s' list threads).2 ∧
        ∀ r y', Verifies vault' y list threads r y' → (r = .ok () ↔ ∀ path ∈ list, vault'.Matches y path) := by
  refine ⟨loads_load hopen paths, ?_, ?_⟩
  · obtain ⟨book, hstock⟩ := stocked_of_inherited hv
    refine ⟨book, ?_, ?_⟩
    · obtain ⟨u, c, x, k, hparts, rfl⟩ := openAt_iff.mp hopen
      exact (hstock.opens hparts).shows hstock.sound hparts
    · intro threads attempts r v' hload
      have hloaded := loads_leave hstock hopen hspared hload
      refine ⟨inherited_load hv hopen hspared hload, ?_, ?_⟩
      · rintro rfl
        exact hloaded.taken hspared
      · intro e he x hx
        obtain ⟨fc, fi, -, -, hc, hi⟩ := hloaded.names
        exact ((hloaded.keeps e he).undisturbed hc hi hx).recalls (hx.storage fc hc).1 (hx.index fi hi).1
  · intro x s' vault' y list threads hopen'
    refine ⟨verifies_verify hopen' list threads, fun r y' hcheck => ?_⟩
    obtain ⟨u, c, z, k, -, rfl⟩ := openAt_iff.mp hopen'
    exact hcheck.ok_iff rfl rfl

/-! A vault with one key, and a file beside it. -/

def kept : Volume := ((Service.ofLogs smallLogs smallVolume.disk).run committed).twin.leave smallVolume true

def laden : Volume :=
  (kept.withFile Volume.currentNode "b").updateFile kept.disk.files.size fun _ => .ofList [5, 6]

theorem kept_inherited : Inherited small.storagePath small.indexPath kept := by
  refine .session (.fresh (Volume.fresh_empty 4096 (by decide))) rfl rfl small_opens rfl ?_ ?_ true
  · simp [committed, Turn.Timely, Part.Timely]
  · exact Service.settled_of_quiet (by decide +kernel) (by decide +kernel)

theorem kept_names : kept.Sound ∧ kept.Names small.storagePath 0 ∧ kept.Names small.indexPath 1 := by
  obtain ⟨book, hstock⟩ := stocked_of_inherited kept_inherited
  obtain ⟨u, c, x, k, hparts, hlogs⟩ := openAt_iff.mp small_opens
  cases hlogs
  have hleaves := hparts.leaves (Volume.sound_empty 4096) (by decide)
  have hsound := hparts.sound (Volume.sound_empty 4096)
  have hgrows : smallVolume.Grows kept := .of_nodes rfl
  exact ⟨hstock.sound, hleaves.storage.grown hsound hgrows, hleaves.index_names.grown hsound hgrows⟩

theorem laden_inherited : Inherited small.storagePath small.indexPath laden :=
  .meanwhile kept_inherited kept_names.2.1 kept_names.2.2 (.beside kept_names.1 _ _ _)

theorem laden_opens : (openAt laden small).1.map (fun vault => vault.logs.map (·.index.index.directory.keys)) =
    .ok (some ["a"]) := by decide +kernel

theorem laden_spares (h : openAt laden small = (.ok vault, w)) : Spared w small ["b"] := by
  have hopen : (openAt laden small).2.openToRead "b" = .ok (.file 2) := by decide +kernel
  have hladen : kept.Undisturbed small.storagePath small.indexPath laden := .beside kept_names.1 _ _ _
  obtain ⟨u, c, x, k, hparts, -⟩ := openAt_iff.mp h
  have hgrows := hparts.grows hladen.sound
  have hc := (hladen.storage 0 kept_names.2.1).1.grown hladen.sound hgrows
  have hi := (hladen.index 1 kept_names.2.2).1.grown hladen.sound hgrows
  intro path hpath f hf
  cases List.mem_singleton.mp hpath
  rw [h] at hopen
  cases hopen.symm.trans hf
  exact ⟨fun hn => absurd (hc.unique hn) (by decide), fun hn => absurd (hi.unique hn) (by decide)⟩

/-- Storing "b" leaves "a" alone or "a" and "b", with the bytes of the file. -/
theorem laden_takes_all_or_nothing : ∃ vault w book, openAt laden small = (.ok vault, w) ∧ book.map (·.key) = ["a"] ∧
    Loads vault w ["b"] 2 3 (Load.load laden small ["b"] 2 3).1 (Load.load laden small ["b"] 2 3).2 ∧
    ∀ r v', Loads vault w ["b"] 2 3 r v' →
      (r = .ok () ∧ ∃ new : Book, "b" ∈ new.map (·.key) ∧ (∀ b ∈ new, b.key = "b" ∧ b.bytes = [5, 6]) ∧
        v'.Recalls small.storagePath small.indexPath (book ++ new)) ∨
      ∃ e, r = .error e ∧ v'.Recalls small.storagePath small.indexPath book := by
  obtain ⟨vault, hvault⟩ : ∃ vault, (openAt laden small).1 = .ok vault := by
    cases h : (openAt laden small).1 with
    | ok vault => exact ⟨vault, rfl⟩
    | error e =>
      have hkeys := laden_opens
      rw [h] at hkeys
      cases hkeys
  have hopen : openAt laden small = (.ok vault, (openAt laden small).2) := Prod.ext hvault rfl
  obtain ⟨hloads, ⟨book, hshows, hload⟩, -⟩ := load_all_or_nothing laden_inherited hopen (laden_spares hopen)
  refine ⟨vault, _, book, hopen, ?_, hloads 2 3, ?_⟩
  · obtain ⟨l, hl, hlists⟩ := hshows.directory
    have hkeys := laden_opens
    rw [hvault] at hkeys
    have hkeys : vault.logs.map (·.index.index.directory.keys) = some ["a"] := Except.ok.inj hkeys
    rw [hl] at hkeys
    rw [← hlists.keys]
    exact Option.some.inj hkeys
  · intro r v' hr
    obtain ⟨hinherited, htakes, hkeeps⟩ := hload 2 3 r v' hr
    obtain ⟨_, hstock⟩ := stocked_of_inherited hinherited
    have hsame : v'.Undisturbed small.storagePath small.indexPath v' :=
      ⟨hstock.sound, fun _ hf => ⟨hf, rfl⟩, fun _ hf => ⟨hf, rfl⟩⟩
    cases r with
    | error e => exact .inr ⟨e, rfl, hkeeps e rfl v' hsame⟩
    | ok u =>
      obtain ⟨new, hnew⟩ := htakes rfl
      refine .inl ⟨rfl, new, (hnew.keys "b").mp List.mem_cons_self, ?_, hnew.recalls v' hsame⟩
      intro b hb
      have hkey : b.key = "b" := List.mem_singleton.mp ((hnew.keys b.key).mpr (List.mem_map_of_mem hb))
      have hread : (openAt laden small).2.readPart "b" 0 none = .ok [5, 6] := by decide +kernel
      have hbytes := hnew.bytes b hb
      rw [hkey, hread] at hbytes
      exact ⟨hkey, (Except.ok.inj hbytes).symm⟩

end Vault

end TwinLog
