/-
  TwinLog.Proofs.Vault.Apart — when the two logs of a vault are one file.

  Settings are accepted as soon as the two file names differ as text. The logs lie at the
  two names joined to the working folder, and `same_file_iff` says when these are one file:
  on a volume without links, exactly if both paths lead to one place. Two plain names in
  one folder never do. Other names that differ as text can (`dotted_name_shares_file`): the
  index is then opened on the content log's own file.
-/

import TwinLog.Proofs.Vault.Opening
import TwinLog.Proofs.Volume.Places

namespace TwinLog

open Volume (tree_empty)

namespace Settings

variable {s : Settings} {cwd : List String}

theorem names_ne (h : s.check = .ok ()) : s.indexFileName ≠ s.storageFileName := by
  intro heq
  simp only [check, heq, if_true] at h
  split at h
  · cases h
  · cases h

/-- Plain names that are accepted lead to two places. -/
theorem plain_resolve_ne (h : s.check = .ok ()) (hs : Path.Plain s.storageFileName) (hi : Path.Plain s.indexFileName)
    (cwd : List String) : Path.resolve cwd s.storagePath ≠ Path.resolve cwd s.indexPath := by
  rw [storagePath, indexPath, hs.resolve_join, hi.resolve_join]
  intro heq
  have hlast := (List.append_inj' heq rfl).2
  exact names_ne h (List.cons.inj hlast).1.symm

end Settings

namespace Vault

variable {v v' : Volume} {s : Settings} {vault : Vault} {l : Logs} {cwd : List String}

/-- After an opening each log's path names its file, and the volume is a tree still. -/
theorem openAt_names (ht : v.Tree cwd) (h : openAt v s = (.ok vault, v')) (hl : vault.logs = some l) :
    v'.Tree cwd ∧ v'.Names s.storagePath l.content.log.file ∧ v'.Names s.indexPath l.index.index.log.file := by
  obtain ⟨u, c, w, k, hparts, rfl⟩ := openAt_iff.mp h
  cases hl
  have hu := ht.makeFoldersWithin hparts.folders
  have hc := (ContentLog.openAt_spec hu.sound hparts.content).log
  have hw := hu.openLog (ContentLog.log_of_openAt hparts.content)
  have hk := (KeyLog.openAt_spec hw.sound hparts.index).log
  exact ⟨hw.openLog (KeyLog.log_of_openAt hparts.index), hc.names.grown hw.sound hk.grows, hk.names⟩

/-- On a tree without links, the logs of a vault are one file exactly if their paths lead to one
    place. Paths that compare equal do; plain names that are accepted do not, in any folder. -/
theorem same_file_iff (hc : s.check = .ok ()) (ht : v.Tree cwd) :
    (∀ vault v' l, openAt v s = (.ok vault, v') → vault.logs = some l →
      (l.content.log.file = l.index.index.log.file ↔
        Path.resolve cwd s.storagePath = Path.resolve cwd s.indexPath)) ∧
    (Path.components s.storagePath = Path.components s.indexPath →
      Path.resolve cwd s.storagePath = Path.resolve cwd s.indexPath) ∧
    (Path.Plain s.storageFileName → Path.Plain s.indexFileName →
      Path.components s.storagePath ≠ Path.components s.indexPath ∧
        Path.resolve cwd s.storagePath ≠ Path.resolve cwd s.indexPath) := by
  refine ⟨?_, Path.resolve_of_components cwd, ?_⟩
  · intro vault v' l hopen hl
    obtain ⟨ht', hstorage, hindex⟩ := openAt_names ht hopen hl
    exact ht'.names_eq_iff hstorage hindex
  · intro hs hi
    have hne := Settings.plain_resolve_ne hc hs hi cwd
    exact ⟨fun heq => hne (Path.resolve_of_components cwd heq), hne⟩

theorem exists_logs (h : ((openAt v s).1.toOption.bind (·.logs)).isSome) :
    ∃ vault v' l, openAt v s = (.ok vault, v') ∧ vault.logs = some l := by
  cases hr : openAt v s with
  | mk r v' =>
    rw [hr] at h
    cases r with
    | error e => cases h
    | ok vault =>
      obtain ⟨l, hl⟩ := Option.isSome_iff_exists.mp h
      exact ⟨vault, v', l, rfl, hl⟩

def usualNames : Settings where
  indexCapacity := 64
  storageCapacity := 64

/-- The usual names open two files. -/
theorem usual_names_apart : usualNames.check = .ok () ∧ (Volume.empty 4096).Tree ["work"] ∧
    Path.resolve ["work"] usualNames.storagePath ≠ Path.resolve ["work"] usualNames.indexPath ∧
    ∃ vault v' l, openAt (Volume.empty 4096) usualNames = (.ok vault, v') ∧ vault.logs = some l ∧
      l.content.log.file ≠ l.index.index.log.file := by
  have hiff := same_file_iff (show usualNames.check = .ok () from rfl) (tree_empty 4096)
  have hplain := hiff.2.2 ⟨by decide, by decide, by decide, by decide⟩
    ⟨by decide, by decide, by decide, by decide⟩
  have hsome : ((openAt (Volume.empty 4096) usualNames).1.toOption.bind (·.logs)).isSome := by decide +kernel
  obtain ⟨vault, v', l, hopen, hl⟩ := exists_logs hsome
  exact ⟨rfl, tree_empty 4096, hplain.2, vault, v', l, hopen, hl, fun h => hplain.2 ((hiff.1 _ _ _ hopen hl).mp h)⟩

/-- A name and the same name behind a dot. -/
def dottedNames : Settings where
  workingFolder := "w"
  indexFileName := "a"
  storageFileName := "./a"
  indexCapacity := 64
  storageCapacity := 64

/-- They are accepted, compare equal as paths once joined to the folder, and the vault opens with
    one file for both logs. -/
theorem dotted_name_shares_file : dottedNames.check = .ok () ∧ (Volume.empty 4096).Tree ["work"] ∧
    Path.components dottedNames.storagePath = Path.components dottedNames.indexPath ∧
    Path.resolve ["work"] dottedNames.storagePath = Path.resolve ["work"] dottedNames.indexPath ∧
    ∃ vault v' l, openAt (Volume.empty 4096) dottedNames = (.ok vault, v') ∧ vault.logs = some l ∧
      l.content.log.file = l.index.index.log.file := by
  have hplace : Path.resolve ["work"] dottedNames.storagePath = Path.resolve ["work"] dottedNames.indexPath := by decide
  have hsome : ((openAt (Volume.empty 4096) dottedNames).1.toOption.bind (·.logs)).isSome := by decide +kernel
  obtain ⟨vault, v', l, hopen, hl⟩ := exists_logs hsome
  obtain ⟨ht, hstorage, hindex⟩ := openAt_names (tree_empty 4096) hopen hl
  exact ⟨rfl, tree_empty 4096, by decide, hplace, vault, v', l, hopen, hl,
    (ht.names_eq_iff hstorage hindex).mpr hplace⟩

end Vault

end TwinLog
