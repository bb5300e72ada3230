/-
  TwinLog.Proofs.Bulk.Checking — a check whose workers move in any order.

  To check a file a worker asks for the place of its blob, reads the blob, asks for the place
  once more and compares. Nothing is written meanwhile, so what one worker has learnt stays
  true while others work (`Check.Knows`). A check answers well if and only if every listed file
  matches what is stored under its path (`Verifies.ok_iff`), whatever the order, and
  `Load.verify` is one of the checks (`verifies_verify`).
-/

import TwinLog.Bulk.Load
import TwinLog.Proofs.Bulk.Intake

namespace TwinLog

/-! ## Reading a file for its checksum -/

namespace Source

theorem readAll_file (d : Disk) (step : Nat) (f : FileId) (n : Nat) :
    (Source.file f n).readAll d step = .ok ((d.image f).read n ((d.image f).length - n)) := by
  induction hleft : (d.image f).length - n using Nat.strongRecOn generalizing n with | _ left ih
  subst hleft
  have hread : (Source.file f n).read d (step + 1) = (.ok ((d.image f).readUpTo n (step + 1)),
      .file f (n + ((d.image f).readUpTo n (step + 1)).length)) := rfl
  have hlength : ((d.image f).readUpTo n (step + 1)).length = min (step + 1) ((d.image f).length - n) := by
    rw [Image.readUpTo, Image.length_read]
  rw [readAll]
  split
  · rename_i rest heq
    rw [hread] at heq
    have hnil : (d.image f).readUpTo n (step + 1) = [] := Except.ok.inj (congrArg Prod.fst heq)
    rw [hnil, List.length_nil] at hlength
    have hend : (d.image f).length - n = 0 := by omega
    rw [hend]
    exact congrArg Except.ok (List.eq_nil_of_length_eq_zero (Image.length_read ..)).symm
  · rename_i b bs rest heq
    rw [hread] at heq
    have hfirst : (d.image f).readUpTo n (step + 1) = b :: bs := Except.ok.inj (congrArg Prod.fst heq)
    have hrest : rest = .file f (n + (b :: bs).length) := by rw [← hfirst]; exact (congrArg Prod.snd heq).symm
    rw [hfirst, List.length_cons] at hlength
    have hless : (d.image f).length - (n + (b :: bs).length) < (d.image f).length - n := by
      rw [List.length_cons]
      omega
    rw [hrest, ih _ hless _ rfl, ← hfirst]
    refine congrArg Except.ok ?_
    have hall : (d.image f).length - n = ((d.image f).readUpTo n (step + 1)).length +
        ((d.image f).length - (n + ((d.image f).readUpTo n (step + 1)).length)) := by
      rw [hfirst, List.length_cons]
      omega
    conv_rhs => rw [hall, Image.read_add]
    rw [Image.readUpTo, Image.length_read]
  · rename_i e rest heq
    rw [hread] at heq
    cases heq

theorem readAll_folder (d : Disk) (step : Nat) : Source.folder.readAll d step = .error (.system .isFolder) := by
  rw [readAll]
  rfl

end Source

namespace Load

variable {v : Volume} {path : String} {f : FileId} {stored : List UInt8} {l : Location}

theorem fileChecksum_file (h : v.openToRead path = .ok (.file f)) :
    fileChecksum v path = .ok (Checksum.of (v.bytesOf f)) := by
  unfold fileChecksum
  rw [Source.openAt_start, h]
  show Checksum.ofSource v.disk (.file f 0) = _
  rw [Checksum.ofSource, Source.readAll_file]
  rfl

theorem fileChecksum_folder (h : v.openToRead path = .ok .folder) :
    fileChecksum v path = .error (.system .isFolder) := by
  unfold fileChecksum
  rw [Source.openAt_start, h]
  show Checksum.ofSource v.disk .folder = _
  rw [Checksum.ofSource, Source.readAll_folder]
  rfl

/-- A file matches when it has the length and the checksum of what is stored, and that is the
    checksum on record too. -/
theorem compareFile_ok_iff : compareFile v path stored l = .ok () ↔ ∃ bs, v.readPart path 0 none = .ok bs ∧
    bs.length = stored.length ∧ Checksum.of bs = Checksum.of stored ∧ Checksum.of bs = l.checksum := by
  unfold compareFile Volume.length
  cases hopen : v.openToRead path with
  | error e =>
    have hread : v.readPart path 0 none = .error e := by simp only [Volume.readPart, hopen]
    simp [hread, Except.map]
  | ok opened =>
    cases opened with
    | folder =>
      have hread : v.readPart path 0 none = .error (.system .isFolder) := by simp only [Volume.readPart, hopen]
      rw [hread, fileChecksum_folder hopen]
      dsimp only [Except.map]
      split <;> simp
    | file f =>
      have hlength : v.lengthOf (.file f) = (v.bytesOf f).length := (Image.length_read ..).symm
      rw [Volume.readPart_whole hopen, fileChecksum_file hopen]
      dsimp only [Except.map]
      rw [hlength]
      simp only [Except.ok.injEq, exists_eq_left']
      split
      · rename_i hne
        simp [hne]
      · rename_i heq
        split
        · rename_i hne
          simp only [reduceCtorEq, false_iff]
          exact fun hsame => hne.elim (· hsame.2.1) (· hsame.2.2)
        · rename_i hsame
          obtain ⟨hstored, hrecord⟩ := not_or.mp hsame
          exact iff_of_true rfl ⟨not_not.mp heq, not_not.mp hstored, not_not.mp hrecord⟩

end Load

/-! ## The trade -/

inductive Check where
  | asking
  | reading (l : Location)
  | locating (stored : List UInt8)
  | comparing (stored : List UInt8) (l : Location)

namespace Load

def readAt (s : Site) (l : Location) : Except Fault (List UInt8) :=
  match s.1.logs with
  | none => .error .closed
  | some logs => logs.content.get s.2.disk l

def checking : Trade String Check Fault Site Unit where
  begin _ := .asking
  step _ path
    | .asking, s => match onDisk s fun vault d => vault.locate d path with
      | (.error e, s) => (.ended (.error e), s)
      | (.ok l, s) => (.more (.reading l), s)
    | .reading l, s => match readAt s l with
      | .error e => (.ended (.error e), s)
      | .ok stored => (.more (.locating stored), s)
    | .locating stored, s => match onDisk s fun vault d => vault.locate d path with
      | (.error e, s) => (.ended (.error e), s)
      | (.ok l, s) => (.more (.comparing stored l), s)
    | .comparing stored l, s => (.ended (compareFile s.2 path stored l), s)

def checkers (vault : Vault) (y : Volume) (paths : List String) (threads : Nat) (moves : List (Nat × Unit)) :
    Crew String Check Fault Site :=
  (Crew.start threads paths (vault, y)).run checking moves

end Load

inductive Verifies (vault : Vault) (y : Volume) (paths : List String) (threads : Nat) :
    Except Fault Unit → Volume → Prop
  | done (moves : List (Nat × Unit)) (finished : (Load.checkers vault y paths threads moves).AllDone) :
      Verifies vault y paths threads (Load.checkers vault y paths threads moves).outcome
        (Load.leave (Load.checkers vault y paths threads moves).shared)

/-- What is stored under the path of a file, and the file, have one length and one checksum,
    and it is the checksum on record. -/
def Vault.Matches (vault : Vault) (y : Volume) (path : String) : Prop :=
  ∃ (l : Location) (stored bs : List UInt8), (vault.locate y.disk path).1 = .ok l ∧
    (vault.get y.disk path).1 = .ok stored ∧ y.readPart path 0 none = .ok bs ∧ bs.length = stored.length ∧
    Checksum.of bs = Checksum.of stored ∧ Checksum.of bs = l.checksum

/-! ## What a check knows -/

namespace Vault

variable {vault : Vault} {l : Logs} {key : String}

def asked (vault : Vault) (l : Logs) : Vault :=
  { vault with logs := some ⟨l.content, l.index.passed l.index.index⟩ }

theorem locate_free (hl : vault.logs = some l) (hfree : l.index.held = none) (hkey : key ≠ "") (d : Disk) :
    vault.locate d key = (l.index.index.get key, vault.asked l, d) := by
  simp only [locate, withKey, if_neg hkey, withLogs, hl, Gate.get, Gate.call_look hfree, asked]

theorem get_free (hl : vault.logs = some l) (hfree : l.index.held = none) (hkey : key ≠ "") (d : Disk) :
    vault.get d key = ((l.index.index.get key).bind (l.content.get d), vault.asked l, d) := by
  simp only [get, withKey, if_neg hkey, withLogs, hl, Gate.get, Gate.call_look hfree, asked]

end Vault

/-- A vault in which nobody writes: it may only have been asked for keys. -/
structure Load.Rests (l : Logs) (y : Volume) (s : Load.Site) : Prop where
  volume : s.2 = y
  logs : ∃ g, s.1.logs = some ⟨l.content, g⟩ ∧ g.index = l.index.index ∧ g.held = none

def Check.Knows (vault : Vault) (y : Volume) (path : String) : Check → Prop
  | .asking => True
  | .reading l => (vault.locate y.disk path).1 = .ok l
  | .locating stored => (vault.get y.disk path).1 = .ok stored
  | .comparing stored l => (vault.get y.disk path).1 = .ok stored ∧ (vault.locate y.disk path).1 = .ok l

namespace Load

section Rests

variable {vault : Vault} {l : Logs} {y : Volume} {s : Site} {path : String}

theorem Rests.start (hl : vault.logs = some l) (hfree : l.index.held = none) : Rests l y (vault, y) :=
  ⟨rfl, l.index, hl, rfl, hfree⟩

variable (h : Rests l y s) (hl : vault.logs = some l) (hfree : l.index.held = none)
include h hl hfree

/-- Asking for a key changes nothing but the count of calls. -/
theorem Rests.asks (path : String) :
    (onDisk s fun vault d => vault.locate d path).1 = (vault.locate y.disk path).1 ∧
      Rests l y (onDisk s fun vault d => vault.locate d path).2 := by
  obtain ⟨vault', y'⟩ := s
  obtain ⟨rfl, g, hs, hindex, hheld⟩ := h
  have hs : vault'.logs = some ⟨l.content, g⟩ := hs
  by_cases hkey : path = ""
  · subst hkey
    exact ⟨rfl, rfl, g, hs, hindex, hheld⟩
  · simp only [onDisk, Vault.locate_free hs hheld hkey, Vault.locate_free hl hfree hkey, hindex]
    exact ⟨trivial, rfl, _, rfl, hindex, hheld⟩

theorem Rests.reads {loc : Location} (hloc : (vault.locate y.disk path).1 = .ok loc) :
    readAt s loc = (vault.get y.disk path).1 := by
  obtain ⟨vault', y'⟩ := s
  obtain ⟨rfl, g, hs, hindex, hheld⟩ := h
  have hs : vault'.logs = some ⟨l.content, g⟩ := hs
  have hkey : path ≠ "" := by
    rintro rfl
    cases hloc
  rw [Vault.locate_free hl hfree hkey] at hloc
  rw [Vault.get_free hl hfree hkey]
  dsimp only at hloc ⊢
  rw [hloc]
  unfold readAt
  rw [hs]
  rfl

end Rests

section Law

variable {vault : Vault} {l : Logs} {y : Volume} {s : Site} {path : String} {task : Check}

inductive Learns (vault : Vault) (y : Volume) (path : String) : Check → Piece Check Fault → Prop
  | refused {task : Check} {e : Fault} (unmatched : ¬vault.Matches y path) : Learns vault y path task (.ended (.error e))
  | learnt {task task' : Check} (known : task'.Knows vault y path) : Learns vault y path task (.more task')
  | matched {task : Check} (all : vault.Matches y path) : Learns vault y path task (.ended (.ok ()))

theorem learns (h : Rests l y s) (hl : vault.logs = some l) (hfree : l.index.held = none)
    (hk : task.Knows vault y path) :
    Learns vault y path task (checking.step () path task s).1 ∧ Rests l y (checking.step () path task s).2 := by
  cases task with
  | asking =>
    obtain ⟨hask, hrests⟩ := h.asks hl hfree path
    dsimp only [checking]
    split
    · rename_i e s' heq
      rw [heq] at hask hrests
      refine ⟨.refused ?_, hrests⟩
      rintro ⟨loc, stored, bs, hloc, -⟩
      cases hask.trans hloc
    · rename_i loc s' heq
      rw [heq] at hask hrests
      exact ⟨.learnt hask.symm, hrests⟩
  | reading loc =>
    have hread := h.reads hl hfree hk
    dsimp only [checking]
    split
    · rename_i e heq
      refine ⟨.refused ?_, h⟩
      rintro ⟨loc, stored, bs, -, hget, -⟩
      cases (heq.symm.trans hread).trans hget
    · rename_i stored heq
      exact ⟨.learnt (hread.symm.trans heq), h⟩
  | locating stored =>
    obtain ⟨hask, hrests⟩ := h.asks hl hfree path
    dsimp only [checking]
    split
    · rename_i e s' heq
      rw [heq] at hask hrests
      refine ⟨.refused ?_, hrests⟩
      rintro ⟨loc, stored, bs, hloc, -⟩
      cases hask.trans hloc
    · rename_i loc s' heq
      rw [heq] at hask hrests
      exact ⟨.learnt ⟨hk, hask.symm⟩, hrests⟩
  | comparing stored loc =>
    obtain ⟨hget, hloc⟩ := hk
    refine ⟨?_, h⟩
    dsimp only [checking]
    rw [h.volume]
    cases hc : compareFile y path stored loc with
    | ok u => exact .matched ⟨loc, stored, (compareFile_ok_iff.mp hc).imp fun _ hbs => ⟨hloc, hget, hbs⟩⟩
    | error e =>
      refine .refused ?_
      rintro ⟨loc', stored', bs, hloc', hget', hsame⟩
      cases hloc.symm.trans hloc'
      cases hget.symm.trans hget'
      cases hc.symm.trans (compareFile_ok_iff.mpr ⟨bs, hsame⟩)

def checkingLaw (hl : vault.logs = some l) (hfree : l.index.held = none) (y : Volume) : checking.Law Empty where
  meant _ := True
  good := Rests l y
  busy path task _ := task.Knows vault y path
  finished path _ := vault.Matches y path
  wrong path _ := ¬vault.Matches y path
  opens _ := Empty.elim
  holds _ := Empty.elim
  begins := fun _ _ => trivial
  stays_good := fun hs hk => (learns hs hl hfree hk).2
  stays_busy := fun _ _ hk => hk
  stays_finished := fun _ _ hf => hf
  more := fun hs hk hp => by
    have hlearns := (learns hs hl hfree hk).1
    rw [hp] at hlearns
    cases hlearns
    assumption
  ends := fun hs hk hp => by
    have hlearns := (learns hs hl hfree hk).1
    rw [hp] at hlearns
    cases hlearns
    assumption
  fails := fun hs hk hp => by
    have hlearns := (learns hs hl hfree hk).1
    rw [hp] at hlearns
    cases hlearns
    assumption
  settles := fun {_ _ _ _ j} => j.elim

end Law

end Load

/-- A check answers well if and only if all files match, whatever the order of its moves. -/
theorem Verifies.ok_iff {vault : Vault} {l : Logs} {y v' : Volume} {paths : List String} {threads : Nat}
    {r : Except Fault Unit} (hl : vault.logs = some l) (hfree : l.index.held = none)
    (h : Verifies vault y paths threads r v') : r = .ok () ↔ ∀ path ∈ paths, vault.Matches y path := by
  obtain ⟨moves, hdone⟩ := h
  have hstart : Crew.Accounts (Load.checkingLaw hl hfree y) paths (Crew.start threads paths (vault, y)) :=
    Crew.accounts_start (fun _ _ => trivial) (Load.Rests.start hl hfree) (fun j => j.elim) threads
  have hne := Crew.hands_ne_nil Load.checking threads paths (vault, y) moves
  obtain ⟨-, -, hall, hwrong⟩ := (Crew.accounts_run hstart moves).ends hdone hne
  refine ⟨hall, fun hmatch => ?_⟩
  cases ho : (Load.checkers vault y paths threads moves).outcome with
  | ok u => rfl
  | error e =>
    obtain ⟨path, hpath, hnot⟩ := hwrong e ho
    exact absurd (hmatch path hpath) hnot

/-! ## One file after the other -/

namespace Load

theorem fetches (s : Site) (path : String) :
    (onDisk s fun vault d => vault.get d path) = ((onDisk s fun vault d => vault.locate d path).1.bind
      (readAt (onDisk s fun vault d => vault.locate d path).2), (onDisk s fun vault d => vault.locate d path).2) := by
  obtain ⟨⟨settings, logs⟩, v⟩ := s
  unfold onDisk Vault.get Vault.locate Vault.withKey
  by_cases hkey : path = ""
  · simp only [if_pos hkey]
    rfl
  · simp only [if_neg hkey]
    cases logs with
    | none => rfl
    | some l => rfl

/-- Checking a file is all pieces of its check. -/
theorem verifyFile_does (path : String) (s : Site) :
    checking.Does path .asking s (verifyFile path s).1 (verifyFile path s).2 := by
  unfold verifyFile
  rw [fetches]
  cases hask : onDisk s fun vault d => vault.locate d path with
  | mk r s₁ =>
    cases r with
    | error e =>
      have hpiece : checking.step () path .asking s = (.ended (.error e), s₁) := by simp only [checking, hask]
      exact .last () hpiece
    | ok loc =>
      have hpiece : checking.step () path .asking s = (.more (.reading loc), s₁) := by simp only [checking, hask]
      refine .more () hpiece ?_
      dsimp only [Except.bind]
      cases hread : readAt s₁ loc with
      | error e =>
        have hpiece : checking.step () path (.reading loc) s₁ = (.ended (.error e), s₁) := by
          simp only [checking, hread]
        exact .last () hpiece
      | ok stored =>
        have hpiece : checking.step () path (.reading loc) s₁ = (.more (.locating stored), s₁) := by
          simp only [checking, hread]
        refine .more () hpiece ?_
        dsimp only
        cases hagain : onDisk s₁ fun vault d => vault.locate d path with
        | mk r s₂ =>
          cases r with
          | error e =>
            have hpiece : checking.step () path (.locating stored) s₁ = (.ended (.error e), s₂) := by
              simp only [checking, hagain]
            exact .last () hpiece
          | ok loc' =>
            have hpiece : checking.step () path (.locating stored) s₁ = (.more (.comparing stored loc'), s₂) := by
              simp only [checking, hagain]
            exact .more () hpiece (.last () rfl)

end Load

/-- Checking one file after the other is a check like any other. -/
theorem verifies_verify {x y : Volume} {s : Settings} {vault : Vault} (hopen : Vault.openAt x s = (.ok vault, y))
    (paths : List String) (threads : Nat) :
    Verifies vault y paths threads (Load.verify x s paths threads).1 (Load.verify x s paths threads).2 := by
  have hstart : Crew.Mirrors Load.checking Eq (Pool.start threads paths (vault, y))
      (Crew.start threads paths (vault, y)) :=
    Crew.mirrors_start threads paths rfl
  obtain ⟨moves, hmirrors, hdone, houtcome⟩ := hstart.run Load.verifyFile
    (fun path s t h => h ▸ ⟨_, Load.verifyFile_does path s, rfl⟩) ()
  have hverify : Load.verify x s paths threads =
      (((Pool.start threads paths (vault, y)).run Load.verifyFile).outcome,
        Load.leave ((Pool.start threads paths (vault, y)).run Load.verifyFile).shared) := by
    unfold Load.verify Load.pooled
    rw [hopen]
  rw [hverify, ← houtcome, hmirrors.shared]
  exact .done moves hdone

end TwinLog
