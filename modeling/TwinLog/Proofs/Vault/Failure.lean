/-
  TwinLog.Proofs.Vault.Failure — an add that fails.

  An add can die while its content is appended or while its key is recorded;
  `Logs.Fails` lists the steps with their answers, and an add answers what its failing
  step answers. By then ranges may be reserved, files longer, chunks or the whole content
  written. None of that shows: every look is answered as before, both headers hold the
  checkpoints of the session, and a commit later in the session saves all that the
  directory lists (`failed_add_leaves_no_trace`).
-/

import TwinLog.Proofs.Vault.World

namespace TwinLog

namespace Logs

inductive Fails (l : Logs) (space : Volume.Space) (d : Disk) (key : String) (src : Source) : Fault → Prop
  | content {e : Fault} (fails : l.content.Fails space d src e) : Fails l space d key src e
  | index {location : Location} {e : Fault} (appended : (l.content.append space d src).result = .ok location)
      (way : l.index.index.Way space key location (.error e)) : Fails l space d key src e

theorem Follows.add_fails {berth : Berth} {g : Ledger} {l l' : Logs} {d d' : Disk} (h : l.Follows berth g d)
    {space : Volume.Space} {key : String} {src : Source} {e : Fault} (hkey : key ≠ "")
    (ha : l.add space d key src = (.error e, l', d')) : l.Fails space d key src e := by
  obtain ⟨r, _, _, ha', hr, -⟩ := h.add space key src
  cases ha.symm.trans ha'
  have happ := h.appended space src
  cases hresult : (l.content.append space d src).result with
  | error e' =>
    rw [hresult] at hr
    cases hr
    exact .content (ContentLog.append_fails h.standing.content hresult)
  | ok location =>
    rw [hresult] at hr
    cases hk : l.index.index.add space (l.content.append space d src).disk key location with
    | mk ri rest =>
      obtain ⟨k', di⟩ := rest
      have hway := KeyLog.add_way hkey hk
      dsimp only at hr
      rw [hk] at hr
      cases ri with
      | ok u => cases hr
      | error e' =>
        cases hr
        exact .index hresult hway

end Logs

/-! ## What is found again -/

/-- Whoever opens the two files again, and is granted it, finds the book. -/
def Volume.Reopens (v : Volume) (storage index : String) (book : Book) : Prop :=
  ∀ s u, s.storagePath = storage → s.indexPath = index → Vault.Granted v s u →
    ∃ vault v', Vault.openAt v s = (.ok vault, v') ∧ vault.Shows v'.disk book

theorem Vault.Kept.reopens {v : Volume} {storage index : String} {book : Book} (h : Kept storage index v book) :
    v.Reopens storage index book := by
  rintro s u rfl rfl hg
  obtain ⟨fc, fi, p, m, dir, hc, hi, hne, hp, hstored, -⟩ := h.files
  obtain ⟨c, w, k, v', hparts, -⟩ := reopen h.sound hg hc hi hne hp hstored
  exact ⟨_, v', openAt_iff.mpr ⟨_, c, w, k, hparts, rfl⟩, shows_of_standing rfl ((h.begun hparts).standing hparts)⟩

theorem Volume.Hosts.reopens {v : Volume} {berth : Berth} {g : Ledger} {l : Logs} (h : v.Hosts berth)
    (hf : l.Follows berth g v.disk) : v.Reopens berth.storagePath berth.indexPath g.saved :=
  Vault.Kept.reopens (Vault.kept_of_standing h.sound h.size h.storage h.index hf.standing)

namespace Vault

def performs (vault : Vault) (d : Disk) (calls : List Call) : Vault × Disk :=
  calls.foldl (fun s c => (s.1.perform s.2 c).2) (vault, d)

def Alike (vault : Vault) (d : Disk) (vault' : Vault) (d' : Disk) : Prop :=
  ∀ key, (vault'.contains d' key).1 = (vault.contains d key).1 ∧ (vault'.locate d' key).1 = (vault.locate d key).1 ∧
    (vault'.get d' key).1 = (vault.get d key).1

/-- A commit now succeeds if the index's cursor fits its word, and one that succeeds saves every key
    of the directory, whether the vault is closed then or not. -/
def CommitSaves (vault : Vault) (v : Volume) (storage index : String) : Prop :=
  ∃ l book r vault' d', vault.logs = some l ∧ vault.Shows v.disk book ∧ vault.commit v.disk = (r, vault', d') ∧
    (l.index.index.cursor ≤ maxSigned → r = .ok ()) ∧
    (r = .ok () → Volume.Reopens { v with disk := d' } storage index book ∧
      Volume.Reopens { v with disk := (vault'.close d').2 } storage index book)

end Vault

namespace Logs.Follows

variable {berth : Berth} {g : Ledger} {l : Logs} {d : Disk} {settings : Settings}

theorem performs (h : l.Follows berth g d) (settings : Settings) (calls : List Call) : ∃ g' l' d',
    (Vault.mk settings (some l)).performs d calls = (⟨settings, some l'⟩, d') ∧ l'.Follows berth g' d' ∧
      g.current <+: g'.current := by
  induction calls generalizing g l d with
  | nil => exact ⟨g, l, d, rfl, h, List.prefix_rfl⟩
  | cons c calls ih =>
    obtain ⟨answer, g', l', d', heq, h', hmore⟩ := h.perform settings c
    obtain ⟨g'', l'', d'', heq', h'', hmore'⟩ := ih h'
    refine ⟨g'', l'', d'', ?_, h'', hmore.trans hmore'⟩
    rw [Vault.performs, List.foldl_cons, heq]
    exact heq'

theorem alike {g' : Ledger} {l' : Logs} {d' : Disk} {settings' : Settings} (h : l.Follows berth g d)
    (h' : l'.Follows berth g' d') (hg : g'.current = g.current) :
    (Vault.mk settings (some l)).Alike d ⟨settings', some l'⟩ d' := by
  intro key
  have hs := h.standing
  have hs' := h'.standing
  rw [hg] at hs'
  refine ⟨?_, ?_, ?_⟩
  · rw [hs.look_contains rfl, hs'.look_contains rfl]
  · rw [hs.look_locate rfl, hs'.look_locate rfl]
  · rw [hs.look_get rfl, hs'.look_get rfl]

theorem commitSaves {v : Volume} (h : l.Follows berth g v.disk) (hv : v.Hosts berth) :
    (Vault.mk settings (some l)).CommitSaves v berth.storagePath berth.indexPath := by
  obtain ⟨l', d', hcommit, h'⟩ := h.commit
  have hv' := hv.onDisk h'
  refine ⟨l, g.current, g.commit.1, ⟨settings, some l'⟩, d', rfl, Vault.shows_of_standing rfl h.standing, ?_, ?_, ?_⟩
  · simp only [Vault.commit, Vault.withLogs, hcommit]
  · rw [h.standing.index_cursor]
    intro hle
    rw [Ledger.commit, if_neg (Nat.not_lt.mpr hle)]
  · intro hr
    have hsaved : g.commit.2.saved = g.current := by
      unfold Ledger.commit at hr ⊢
      split at hr
      · cases hr
      · rename_i hle
        rw [if_neg hle]
    rw [← hsaved]
    exact ⟨hv'.reopens h', (hv'.onDisk h'.close).reopens h'.close⟩

end Logs.Follows

namespace Vault

/-- Any actions, starting where the two files are new or empty and never one file: an add that
    fails answers what its failing step answers. Every look is answered as before, both headers hold the
    checkpoints of the session, and at any later point of the session what was stored before is still there
    and a commit saves every key of the directory. -/
theorem failed_add_leaves_no_trace {v : Volume} {storage index : String} (hv : v.Fresh storage index)
    {actions : List Action} (hat : ∀ action ∈ actions, action.At storage index) {vault : Vault} {l : Logs} :
    let w := (World.mk none v).run actions
    w.vault = some vault → vault.logs = some l → ∀ space key src e vault' d', key ≠ "" →
    vault.add space w.volume.disk key src = (.error e, vault', d') →
    l.Fails space w.volume.disk key src e ∧ vault.Alike w.volume.disk vault' d' ∧
      (d'.image l.content.log.file).rawCursor = l.content.checkpoint ∧
      (d'.image l.index.index.log.file).rawCursor = l.index.index.checkpoint ∧
      ∀ calls, let later := vault'.performs d' calls
        (∀ key bs, (vault.get w.volume.disk key).1 = .ok bs → (later.1.get later.2 key).1 = .ok bs) ∧
        later.1.CommitSaves { w.volume with disk := later.2 } storage index := by
  intro w hvault hl space key src e vault' d' hkey hadd
  obtain ⟨condition, hstands⟩ := (World.stands_of_fresh hv).run hat
  replace hstands : World.Stands storage index condition w := hstands
  generalize w = w at hstands hvault hadd ⊢
  cases hstands with
  | idle => cases hvault
  | closed => cases hvault; cases hl
  | @busy berth g settings l0 u hstorage hindex hosts follows =>
    cases hvault
    cases hl
    subst hstorage hindex
    obtain ⟨r, l', d'', hadd', -, -, hbad⟩ := follows.add space key src
    have heq : (Vault.mk settings (some l)).add space u.disk key src = (r, ⟨settings, some l'⟩, d'') := by
      simp only [Vault.add, withKey, if_neg hkey, withLogs, hadd']
    cases hadd.symm.trans heq
    have hback := hbad e rfl
    have hs := follows.standing
    have hs' := hback.standing
    refine ⟨follows.add_fails hkey hadd', follows.alike hback rfl, ?_, ?_, ?_⟩
    · rw [hs.content_file, ← hs'.content_file, hback.content_head, follows.checkpoint]
      rfl
    · rw [hs.index_file, ← hs'.index_file, hback.index_head, hs.index_checkpoint]
      rfl
    · intro calls
      obtain ⟨g', l'', d''', hperforms, h', hmore⟩ := hback.performs settings calls
      dsimp only
      rw [hperforms]
      refine ⟨fun key bs hget => ?_, ?_⟩
      · rw [hs.look_get rfl] at hget
        rw [h'.standing.look_get rfl]
        exact Book.get_of_prefix hmore hget
      · exact Logs.Follows.commitSaves (v := { u with disk := d''' }) h' (hosts.onDisk h')

def twoStored : List Action :=
  let space : Volume.Space := fun _ => .ok 4096
  [.start { storageCapacity := 64, indexCapacity := 64, readBufferSize := 1 },
    .call (.add space "a" (.ofBytes [7, 8, 9] 0)), .call .commit, .call (.add space "b" (.ofBytes [1] 0))]

def brokenOff : Source := .script [] [.data [5, 6], .fail (.reported .other "gone")] (.ok 3)

def storedWorld : World := (World.mk none (.empty 4096)).run twoStored

theorem storedWorld_open : storedWorld.vault.isSome = true := by decide +kernel

theorem storedWorld_logs : ((storedWorld.vault.get storedWorld_open).logs).isSome = true := by decide +kernel

/-- The source fails after its first two chunks. -/
theorem brokenOff_leaves_no_trace : ∃ vault l vault' d', storedWorld.vault = some vault ∧ vault.logs = some l ∧
    vault.add (fun _ => .ok 4096) storedWorld.volume.disk "c" brokenOff =
      (.error (.io (.reported .other "gone")), vault', d') ∧
    l.Fails (fun _ => .ok 4096) storedWorld.volume.disk "c" brokenOff (.io (.reported .other "gone")) ∧
    vault.Alike storedWorld.volume.disk vault' d' ∧ (d'.image l.content.log.file).rawCursor = l.content.checkpoint ∧
    (d'.image l.index.index.log.file).rawCursor = l.index.index.checkpoint ∧
    ∀ calls, let later := vault'.performs d' calls
      (∀ key bs, (vault.get storedWorld.volume.disk key).1 = .ok bs → (later.1.get later.2 key).1 = .ok bs) ∧
      later.1.CommitSaves { storedWorld.volume with disk := later.2 }
        "./binstore_data/storage.bin" "./binstore_data/index.bin" := by
  have hfresh : (Volume.empty 4096).Fresh "./binstore_data/storage.bin" "./binstore_data/index.bin" :=
    Volume.fresh_empty 4096 (by decide)
  have hat : ∀ action ∈ twoStored, action.At "./binstore_data/storage.bin" "./binstore_data/index.bin" := by
    simp only [twoStored, List.forall_mem_cons, Action.At]
    exact ⟨⟨rfl, rfl⟩, trivial, trivial, trivial, fun _ h => nomatch h⟩
  have hvault := (Option.some_get storedWorld_open).symm
  have hlogs := (Option.some_get storedWorld_logs).symm
  obtain ⟨vault', d', hadd⟩ : ∃ vault' d', (storedWorld.vault.get storedWorld_open).add (fun _ => .ok 4096)
      storedWorld.volume.disk "c" brokenOff = (.error (.io (.reported .other "gone")), vault', d') :=
    ⟨_, _, Prod.ext (by decide +kernel) rfl⟩
  exact ⟨_, _, vault', d', hvault, hlogs, hadd,
    failed_add_leaves_no_trace hfresh hat hvault hlogs _ "c" brokenOff _ _ _ (by decide) hadd⟩

end Vault

end TwinLog
