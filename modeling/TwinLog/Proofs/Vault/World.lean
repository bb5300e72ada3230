/-
  TwinLog.Proofs.Vault.World — a volume and the vault in use on it, action by action.

  An action opens a vault, calls it, closes it, drops it or stops without closing, or changes
  how much is free. `Stands condition` says how a world stands whose actions use two paths: no
  vault is open and the files are shelved, or one is and it follows its ledger. Every action
  leads from such a world to such a world (`Stands.step`, `Stands.run`), whatever fails on
  the way; so does every run that starts on new or empty files (`stands_of_fresh`).
-/

import Mathlib.Control.Monad.Basic
import TwinLog.Proofs.Vault.Shelf

namespace TwinLog

inductive Answer where
  /-- There is nobody to ask, or nothing to say. -/
  | nothing
  | done (r : Except Fault Unit)
  | location (r : Except Fault Location)
  | bytes (r : Except Fault (List UInt8))
  | flag (r : Except Fault Bool)
  deriving DecidableEq

namespace Answer

def fault? : Answer → Option Fault
  | done (.error e) | location (.error e) | bytes (.error e) | flag (.error e) => some e
  | _ => none

end Answer

def Vault.perform (vault : Vault) (d : Disk) : Call → Answer × Vault × Disk
  | .add space key src => let (r, vault, d) := vault.add space d key src; (.location r, vault, d)
  | .get key => let (r, vault, d) := vault.get d key; (.bytes r, vault, d)
  | .locate key => let (r, vault, d) := vault.locate d key; (.location r, vault, d)
  | .contains key => let (r, vault, d) := vault.contains d key; (.flag r, vault, d)
  | .commit => let (r, vault, d) := vault.commit d; (.done r, vault, d)
  | .rollback => let (r, vault, d) := vault.rollback d; (.done r, vault, d)

def Vault.refusal (key : String) : Fault := if key = "" then .invalidArgument .emptyKey else .closed

def Call.refused : Call → Answer
  | .add _ key _ | .locate key => .location (.error (Vault.refusal key))
  | .get key => .bytes (.error (Vault.refusal key))
  | .contains key => .flag (.error (Vault.refusal key))
  | .commit | .rollback => .done (.error .closed)

structure World where
  vault : Option Vault
  volume : Volume

inductive Action where
  | start (s : Settings)
  | call (c : Call)
  /-- The vault is still there, and refuses what it is asked. -/
  | close
  | drop
  /-- The vault is gone, and nobody has closed it. -/
  | stop
  | free (available : Nat)

namespace World

/-- Do one thing. There is one vault at a time. -/
def step (w : World) : Action → Answer × World
  | .start s =>
    match w.vault with
    | some _ => (.nothing, w)
    | none => match Vault.openAt w.volume s with
      | (.error e, v) => (.done (.error e), ⟨none, v⟩)
      | (.ok vault, v) => (.done (.ok ()), ⟨some vault, v⟩)
  | .call c =>
    match w.vault with
    | none => (.nothing, w)
    | some vault =>
      let (answer, vault, disk) := vault.perform w.volume.disk c
      (answer, ⟨some vault, { w.volume with disk }⟩)
  | .close =>
    match w.vault with
    | none => (.nothing, w)
    | some vault =>
      let (vault, disk) := vault.close w.volume.disk
      (.done (.ok ()), ⟨some vault, { w.volume with disk }⟩)
  | .drop =>
    match w.vault with
    | none => (.nothing, w)
    | some vault => (.nothing, ⟨none, { w.volume with disk := (vault.close w.volume.disk).2 }⟩)
  | .stop => (.nothing, { w with vault := none })
  | .free available => (.nothing, { w with volume := { w.volume with available } })

def run (w : World) (actions : List Action) : World := actions.foldl (fun w action => (w.step action).2) w

end World

/-! ## Calls -/

def Ledger.look? (g : Ledger) : Call → Option Answer
  | .get key => some (.bytes (g.current.get key))
  | .locate key => some (.location (g.current.locate key))
  | .contains key => some (.flag (g.current.contains key))
  | _ => none

namespace Logs.Follows

variable {berth : Berth} {g : Ledger} {l : Logs} {d : Disk} (h : l.Follows berth g d) (settings : Settings)
include h

/-- A call that goes in and out of the index and changes nothing. -/
theorem look {key : String} {α : Type} {f : Logs → Disk → Except Fault α × Logs × Disk} {r : Except Fault α}
    (hf : (f l d).2 = ({ l with index := l.index.passed l.index.index }, d))
    (hr : ((Vault.mk settings (some l)).withKey d key f).1 = r) :
    ∃ l', (Vault.mk settings (some l)).withKey d key f = (r, ⟨settings, some l'⟩, d) ∧ l'.Follows berth g d := by
  subst hr
  unfold Vault.withKey
  split
  · exact ⟨l, rfl, h⟩
  · refine ⟨{ l with index := l.index.passed l.index.index }, ?_, h.passed⟩
    simp only [Vault.withLogs, hf]

/-- A look is answered from what is stored. -/
theorem perform_look {c : Call} {answer : Answer} (hc : g.look? c = some answer) :
    ∃ l', (Vault.mk settings (some l)).perform d c = (answer, ⟨settings, some l'⟩, d) ∧ l'.Follows berth g d := by
  have hs := h.standing
  cases c with
  | get key =>
    cases hc
    obtain ⟨l', heq, h'⟩ := h.look settings (by dsimp only; rw [Gate.get, Gate.call_look hs.free]) (hs.look_get rfl key)
    exact ⟨l', by simp only [Vault.perform, Vault.get, heq], h'⟩
  | locate key =>
    cases hc
    obtain ⟨l', heq, h'⟩ := h.look settings (by dsimp only; rw [Gate.get, Gate.call_look hs.free])
      (hs.look_locate rfl key)
    exact ⟨l', by simp only [Vault.perform, Vault.locate, heq], h'⟩
  | contains key =>
    cases hc
    obtain ⟨l', heq, h'⟩ := h.look settings (by dsimp only; rw [Gate.contains, Gate.call_look hs.free])
      (hs.look_contains rfl key)
    exact ⟨l', by simp only [Vault.perform, Vault.contains, heq], h'⟩
  | _ => cases hc

theorem perform_commit : ∃ l' d', (Vault.mk settings (some l)).perform d .commit =
    (.done g.commit.1, ⟨settings, some l'⟩, d') ∧ l'.Follows berth g.commit.2 d' := by
  obtain ⟨l', d', heq, h'⟩ := h.commit
  exact ⟨l', d', by simp only [Vault.perform, Vault.commit, Vault.withLogs, heq], h'⟩

theorem perform_rollback : ∃ l' d', (Vault.mk settings (some l)).perform d .rollback =
    (.done (.ok ()), ⟨settings, some l'⟩, d') ∧ l'.Follows berth g.undo d' := by
  obtain ⟨l', d', heq, h'⟩ := h.rollback
  exact ⟨l', d', by simp only [Vault.perform, Vault.rollback, Vault.withLogs, heq], h'⟩

omit h in
theorem perform_add {space : Volume.Space} {key : String} {src : Source} (hkey : key ≠ "")
    {r : Except Fault Location} {l' : Logs} {d' : Disk} (ha : l.add space d key src = (r, l', d')) :
    (Vault.mk settings (some l)).perform d (.add space key src) = (.location r, ⟨settings, some l'⟩, d') := by
  simp only [Vault.perform, Vault.add, Vault.withKey, if_neg hkey, Vault.withLogs, ha]

omit h in
theorem perform_add_empty (space : Volume.Space) (src : Source) (logs : Option Logs) :
    (Vault.mk settings logs).perform d (.add space "" src) =
      (.location (.error (.invalidArgument .emptyKey)), ⟨settings, logs⟩, d) := rfl

/-- Whatever is called, and whatever fails, the vault stays open and follows a ledger; nothing that is
    stored is forgotten. -/
theorem perform (c : Call) : ∃ answer g' l' d', (Vault.mk settings (some l)).perform d c =
    (answer, ⟨settings, some l'⟩, d') ∧ l'.Follows berth g' d' ∧ g.current <+: g'.current := by
  cases hlook : g.look? c with
  | some answer =>
    obtain ⟨l', heq, h'⟩ := h.perform_look settings hlook
    exact ⟨answer, g, l', d, heq, h', List.prefix_rfl⟩
  | none =>
    cases c with
    | add space key src =>
      by_cases hkey : key = ""
      · subst hkey
        exact ⟨_, g, l, d, perform_add_empty .., h, List.prefix_rfl⟩
      · obtain ⟨r, l', d', hadd, -, hgood, hbad⟩ := h.add space key src
        have heq := perform_add settings hkey hadd
        cases r with
        | ok loc => exact ⟨_, _, l', d', heq, hgood loc rfl, List.prefix_append ..⟩
        | error e => exact ⟨_, _, l', d', heq, hbad e rfl, List.prefix_rfl⟩
    | commit =>
      obtain ⟨l', d', heq, h'⟩ := h.perform_commit settings
      exact ⟨_, _, l', d', heq, h', by simp⟩
    | rollback =>
      obtain ⟨l', d', heq, h'⟩ := h.perform_rollback settings
      exact ⟨_, g.undo, l', d', heq, h', List.prefix_rfl⟩
    | _ => cases hlook

omit settings

theorem close : l.Follows berth g (l.close d) := by
  have hs := h.standing
  obtain ⟨hmc, hoc, hkc⟩ := Log.flush_spec hs.content.mounted
  have hmi := h.index_mounted.elsewhere hoc (Ne.symm hs.apart)
  obtain ⟨-, hoi, hki⟩ := Log.flush_spec hmi
  refine { h with
    standing := hs.close
    size := hoi.size.trans (hoc.size.trans h.size)
    content_head := ?_
    index_head := ?_ }
  · show ((l.index.index.log.flush (l.content.log.flush d)).image l.content.log.file).rawCursor = _
    rw [hoi.others _ hs.apart, Image.rawCursor_eq (hkc.mono (Nat.le_refl _) hs.content.mounted.head_le)]
    exact h.content_head
  · show ((l.index.index.log.flush (l.content.log.flush d)).image l.index.index.log.file).rawCursor = _
    rw [Image.rawCursor_eq (hki.mono (Nat.le_refl _) hmi.head_le), hoc.others _ (Ne.symm hs.apart)]
    exact h.index_head

end Logs.Follows

/-! ## Worlds -/

inductive Condition where
  | idle (s : Shelf)
  | busy (g : Ledger)
  /-- The vault is closed, and still there. -/
  | closed (s : Shelf)

/-- How a world stands whose vaults lie at the two paths. -/
inductive World.Stands (storage index : String) : Condition → World → Prop
  | idle {s : Shelf} {v : Volume} (shelved : Shelved storage index s v) : Stands storage index (.idle s) ⟨none, v⟩
  | busy {berth : Berth} {g : Ledger} {settings : Settings} {l : Logs} {v : Volume}
      (storagePath : berth.storagePath = storage) (indexPath : berth.indexPath = index) (hosts : v.Hosts berth)
      (follows : l.Follows berth g v.disk) : Stands storage index (.busy g) ⟨some ⟨settings, some l⟩, v⟩
  | closed {s : Shelf} {settings : Settings} {v : Volume} (shelved : Shelved storage index s v) :
      Stands storage index (.closed s) ⟨some ⟨settings, none⟩, v⟩

def Action.At (storage index : String) : Action → Prop
  | .start s => s.storagePath = storage ∧ s.indexPath = index
  | _ => True

theorem Vault.perform_closed (settings : Settings) (d : Disk) (c : Call) :
    (Vault.mk settings none).perform d c = (c.refused, ⟨settings, none⟩, d) := by
  cases c with
  | commit => rfl
  | rollback => rfl
  | _ =>
    simp only [perform, add, get, locate, contains, withKey, withLogs, Call.refused, refusal]
    split <;> rfl

namespace World

variable {storage index : String} {condition : Condition} {w : World}

theorem stands_of_fresh {v : Volume} (h : v.Fresh storage index) :
    Stands storage index (.idle ⟨[], none, none⟩) ⟨none, v⟩ :=
  .idle h.shelved

/-- The free bytes have no part in how a world stands. -/
theorem Stands.freed (h : Stands storage index condition w) (available : Nat) :
    Stands storage index condition { w with volume := { w.volume with available } } := by
  have htwin : w.volume.Twin { w.volume with available } := ⟨rfl, rfl⟩
  cases h with
  | idle shelved => exact .idle (shelved.made htwin.made fun _ => rfl)
  | busy storagePath indexPath hosts follows => exact .busy storagePath indexPath (hosts.twin htwin) follows
  | closed shelved => exact .closed (shelved.made htwin.made fun _ => rfl)

theorem Stands.step (h : Stands storage index condition w) {action : Action} (hat : action.At storage index) :
    ∃ condition', Stands storage index condition' (w.step action).2 := by
  cases action with
  | free available => exact ⟨condition, h.freed available⟩
  | start s =>
    cases h with
    | idle shelved =>
      obtain ⟨rfl, rfl⟩ := hat
      have hopens := shelved.opens s (.refl _)
      simp only [World.step]
      generalize Vault.openAt _ s = opened at hopens
      cases hopens with
      | refused shelved' => exact ⟨_, .idle shelved'⟩
      | opened hstorage hindex hosts follows => exact ⟨_, .busy hstorage hindex hosts follows⟩
    | busy storagePath indexPath hosts follows => exact ⟨_, .busy storagePath indexPath hosts follows⟩
    | closed shelved => exact ⟨_, .closed shelved⟩
  | call c =>
    cases h with
    | idle shelved => exact ⟨_, .idle shelved⟩
    | @busy berth g settings l v storagePath indexPath hosts follows =>
      obtain ⟨answer, g', l', d', heq, h', -⟩ := follows.perform settings c
      simp only [World.step, heq]
      exact ⟨_, .busy storagePath indexPath (hosts.onDisk h') h'⟩
    | closed shelved =>
      simp only [World.step, Vault.perform_closed]
      exact ⟨_, .closed shelved⟩
  | close =>
    cases h with
    | idle shelved => exact ⟨_, .idle shelved⟩
    | busy storagePath indexPath hosts follows =>
      subst storagePath indexPath
      exact ⟨_, .closed ((hosts.onDisk follows.close).shelved follows.close)⟩
    | closed shelved => exact ⟨_, .closed shelved⟩
  | drop =>
    cases h with
    | idle shelved => exact ⟨_, .idle shelved⟩
    | busy storagePath indexPath hosts follows =>
      subst storagePath indexPath
      exact ⟨_, .idle ((hosts.onDisk follows.close).shelved follows.close)⟩
    | closed shelved => exact ⟨_, .idle shelved⟩
  | stop =>
    cases h with
    | idle shelved => exact ⟨_, .idle shelved⟩
    | busy storagePath indexPath hosts follows =>
      subst storagePath indexPath
      exact ⟨_, .idle (hosts.shelved follows)⟩
    | closed shelved => exact ⟨_, .idle shelved⟩

theorem Stands.run (h : Stands storage index condition w) {actions : List Action}
    (hat : ∀ action ∈ actions, action.At storage index) :
    ∃ condition', Stands storage index condition' (w.run actions) := by
  -- on the actions, for every condition: each of them may change it
  induction actions generalizing condition w with
  | nil => exact ⟨condition, h⟩
  | cons action actions ih =>
    obtain ⟨condition', h'⟩ := h.step (hat action (List.mem_cons_self ..))
    exact ih h' fun action' haction => hat action' (List.mem_cons_of_mem _ haction)

end World

end TwinLog
