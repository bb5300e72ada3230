/-
  TwinLog.Proofs.Vault.Ledger — what decides the answers of an open vault.

  A look is answered from the book of what is stored, and from nothing else
  (`Standing.look_locate` and the like). A `Ledger` has that book, the books of the opening
  and of what is saved, the cursor and the checkpoint of the content log, and the two
  numbers that the headers hold; the index's cursors follow from the books, since records
  lie end to end. `Logs.Follows` says that both logs and their files are as the ledger
  says. Adds, commits and rollbacks change the ledger as `Ledger.commit`, `Ledger.undo` and
  `Follows.add` say, and no answer of theirs depends on a capacity, short of there being
  no room.
-/

import Mathlib.Control.Monad.Basic
import TwinLog.Proofs.ContentLog.Scripts
import TwinLog.Proofs.KeyLog.Outcome
import TwinLog.Proofs.Vault.Standing

namespace TwinLog

/-! ## Books -/

namespace Book

def find? (book : Book) (key : String) : Option Blob := List.find? (·.key == key) book

def width : Book → Nat
  | [] => 0
  | b :: rest => Header.width + b.key.utf8ByteSize + width rest

/-- Where the records of a book end in the index. -/
def finish (book : Book) : Nat := headSize + book.width

def locate (book : Book) (key : String) : Except Fault Location :=
  if key = "" then .error (.invalidArgument .emptyKey)
  else match book.find? key with
    | some b => .ok b.location
    | none => .error (.keyNotFound key)

def get (book : Book) (key : String) : Except Fault (List UInt8) :=
  if key = "" then .error (.invalidArgument .emptyKey)
  else match book.find? key with
    | some b => .ok b.bytes
    | none => .error (.keyNotFound key)

def contains (book : Book) (key : String) : Except Fault Bool :=
  if key = "" then .error (.invalidArgument .emptyKey) else .ok (book.find? key).isSome

theorem get_of_prefix {book later : Book} (h : book <+: later) {key : String} {bs : List UInt8}
    (hget : book.get key = .ok bs) : later.get key = .ok bs := by
  obtain ⟨more, rfl⟩ := h
  unfold get at hget ⊢
  split at hget
  · cases hget
  · rename_i hkey
    rw [if_neg hkey]
    cases hfind : book.find? key with
    | none =>
      rw [hfind] at hget
      cases hget
    | some b =>
      rw [hfind] at hget
      have hmore : Book.find? (book ++ more) key = some b := by
        unfold find? at hfind ⊢
        rw [List.find?_append, hfind, Option.some_or]
      rw [hmore]
      exact hget

/-- An entry of the directory is found exactly where a blob of the book is. -/
theorem Lists.find?_eq {book : Book} {dir : Directory} (h : book.Lists dir) (key : String) :
    (dir.find? key).map (·.location) = (book.find? key).map (·.location) := by
  induction dir generalizing book with
  | nil => rw [List.map_eq_nil_iff.mp h.symm]; rfl
  | cons e dir ih =>
    cases book with
    | nil => cases h
    | cons b book =>
      obtain ⟨hhead, htail⟩ := List.cons.inj h
      obtain ⟨hkey, hlocation⟩ := Prod.mk.inj hhead
      by_cases hb : b.key = key
      · simp [Directory.find?, Book.find?, hkey, hb, hlocation]
      · have := ih htail
        simpa [Directory.find?, Book.find?, hkey, hb] using this

theorem Lists.contains_eq {book : Book} {dir : Directory} (h : book.Lists dir) (key : String) :
    dir.contains key = (book.find? key).isSome := by
  have hfind := congrArg Option.isSome (h.find?_eq key)
  rw [Option.isSome_map, Option.isSome_map] at hfind
  rw [← hfind, Directory.contains, Directory.find?, List.isSome_find?]

theorem Lists.laid_finish {book : Book} {dir : Directory} (h : book.Lists dir) {im : Image} {pos fin : Nat}
    (hl : KeyLog.Laid im pos dir fin) : fin = pos + book.width := by
  induction dir generalizing book pos with
  | nil => rw [List.map_eq_nil_iff.mp h.symm]; exact hl.symm
  | cons e dir ih =>
    cases book with
    | nil => cases h
    | cons b book =>
      obtain ⟨hhead, htail⟩ := List.cons.inj h
      have hkey : e.key = b.key := (Prod.mk.inj hhead).1
      have hfin := hl.1.finish_eq
      rw [ih htail hl.2, hfin, Entry.keySize, hkey, width]
      omega

end Book

namespace Logs.Standing

variable {place : Place} {opening saved current : Book} {l : Logs} {d : Disk}
  (h : l.Standing place opening saved current d)
include h

theorem index_checkpoint : l.index.index.checkpoint = opening.finish := by
  obtain ⟨dir, kept, hsteady, hopening, -⟩ := h.index
  exact hopening.laid_finish hsteady.opened

theorem index_cursor : l.index.index.cursor = current.finish := by
  obtain ⟨dir, kept, hsteady, -⟩ := h.index
  obtain ⟨added, hdir, hadded⟩ := hsteady.added
  have hlaid := hsteady.opened.append hadded
  rw [← hdir] at hlaid
  exact h.directory.laid_finish hlaid

/-! ### Looks -/

theorem index_get {key : String} (hk : key ≠ "") : l.index.index.get key = current.locate key := by
  have hfind := h.directory.find?_eq key
  unfold KeyLog.get Book.locate
  rw [if_neg hk, if_neg hk]
  cases hd : l.index.index.directory.find? key with
  | none =>
    rw [hd] at hfind
    cases hb : current.find? key with
    | none => rfl
    | some b => rw [hb] at hfind; cases hfind
  | some e =>
    rw [hd] at hfind
    cases hb : current.find? key with
    | none => rw [hb] at hfind; cases hfind
    | some b =>
      rw [hb] at hfind
      exact congrArg Except.ok (Option.some.inj hfind)

theorem content_get {key : String} : (current.locate key).bind (l.content.get d) = current.get key := by
  unfold Book.locate Book.get
  split
  · rfl
  · cases hb : current.find? key with
    | none => rfl
    | some b => exact h.get (List.mem_of_find?_eq_some hb)

variable {vault : Vault} (hl : vault.logs = some l) (key : String)
include hl

theorem look_locate : (vault.locate d key).1 = current.locate key := by
  by_cases hk : key = ""
  · simp [Vault.locate, Vault.withKey, Book.locate, hk]
  · simp only [Vault.locate, Vault.withKey, if_neg hk, Vault.withLogs, hl, Gate.get, Gate.call_look h.free]
    exact h.index_get hk

theorem look_get : (vault.get d key).1 = current.get key := by
  by_cases hk : key = ""
  · simp [Vault.get, Vault.withKey, Book.get, hk]
  · simp only [Vault.get, Vault.withKey, if_neg hk, Vault.withLogs, hl, Gate.get, Gate.call_look h.free]
    rw [h.index_get hk]
    exact h.content_get

theorem look_contains : (vault.contains d key).1 = current.contains key := by
  by_cases hk : key = ""
  · simp [Vault.contains, Vault.withKey, Book.contains, hk]
  · simp only [Vault.contains, Vault.withKey, if_neg hk, Vault.withLogs, hl, Gate.contains, Gate.call_look h.free]
    rw [KeyLog.contains, h.directory.contains_eq, Book.contains, if_neg hk]

end Logs.Standing

/-! ## Headers -/

theorem Log.storeCursor_raw {l : Log} {d d' : Disk} (hm : l.Mounted d) {c : Nat} (h : l.storeCursor d c = .ok d') :
    (d'.image l.file).rawCursor = c := by
  have hcap := hm.head_le
  unfold storeCursor at h
  split at h
  · cases h
  rename_i hc
  have hl : (int64Bytes (Int64.ofNat c)).length = headSize := length_int64Bytes _
  obtain ⟨dw, hw, hm', -, hi⟩ := write_spec hm 0 (int64Bytes (Int64.ofNat c)) (by omega)
  rw [hw] at h
  cases h
  have hlen : (dw.image l.file).length = l.capacity := hm'.length_eq
  have hkeep : Image.Keeps 0 headSize (dw.image l.file) ((dw.image l.file).flush headSize) :=
    fun i _ hi => Image.get_flush_of_lt (by omega) _
  have hread := Image.read_write (d.image l.file) 0 (int64Bytes (Int64.ofNat c))
  rw [hl] at hread
  have himage : (dw.update l.file (·.flush headSize)).image l.file = (dw.image l.file).flush headSize :=
    hm'.image_update _
  rw [himage, Image.rawCursor_eq hkeep, Image.rawCursor, hi, hread, int64_round_trip, toInt_ofNat (by omega)]

/-! ## The ledger of an open vault -/

structure Ledger where
  /-- What was stored when the session began. -/
  opening : Book
  /-- What opening both files now would find. -/
  saved : Book
  current : Book
  /-- Of the content log. -/
  checkpoint : Nat
  cursor : Nat
  /-- What the headers hold. -/
  contentHead : Int
  indexHead : Int

namespace Ledger

def undo (g : Ledger) : Ledger :=
  { g with saved := g.opening, contentHead := g.checkpoint, indexHead := g.opening.finish }

/-- The content log's header is stored, and the index's if the number fits. -/
def commit (g : Ledger) : Except Fault Unit × Ledger :=
  if maxSigned < g.current.finish then
    (.error (.invalidArgument (.cursorTooLarge g.current.finish)), { g with contentHead := g.cursor })
  else (.ok (), { g with saved := g.current, contentHead := g.cursor, indexHead := g.current.finish })

@[simp] theorem current_commit (g : Ledger) : g.commit.2.current = g.current := by
  unfold commit
  split <;> rfl

/-- Why a key is not recorded although there is room. -/
def refuse (g : Ledger) (key : String) (location : Location) : Option Fault :=
  if (g.current.find? key).isSome then some (.duplicateKey key)
  else if maxKeySize < key.utf8ByteSize then some (.invalidArgument (.keyTooLong key.utf8ByteSize))
  else match KeyLog.headerFor (g.current.finish + Header.width) key.utf8ByteSize location with
    | .error e => some e
    | .ok _ => none

def add (g : Ledger) (key : String) (events : List Event) (declared : Except IoFault Nat) :
    Except Fault Location × Ledger :=
  let (got, cursor) := ContentLog.scripted g.cursor events declared
  match got with
  | .error e => (.error e, undo { g with cursor })
  | .ok bs =>
    let location : Location := ⟨bs.length, g.cursor, Checksum.of bs⟩
    match g.refuse key location with
    | some e => (.error e, undo { g with cursor })
    | none => (.ok location, { g with cursor, current := g.current ++ [⟨key, location, bs⟩] })

end Ledger

structure Berth extends Place where
  storagePath : String
  indexPath : String

namespace Logs

/-- Both logs and their files are as the ledger says. -/
structure Follows (berth : Berth) (g : Ledger) (l : Logs) (d : Disk) : Prop where
  standing : l.Standing berth.toPlace g.opening g.saved g.current d
  size : d.files.size = berth.files
  cursor : l.content.cursor = g.cursor
  checkpoint : l.content.checkpoint = g.checkpoint
  content_head : (d.image l.content.log.file).rawCursor = g.contentHead
  index_head : (d.image l.index.index.log.file).rawCursor = g.indexHead
  content_path : l.content.log.path = berth.storagePath
  index_path : l.index.index.log.path = berth.indexPath

namespace Follows

variable {berth : Berth} {g : Ledger} {l : Logs} {d : Disk} (h : l.Follows berth g d)
include h

theorem index_mounted : l.index.index.log.Mounted d := by
  obtain ⟨dir, kept, hsteady, -⟩ := h.standing.index
  exact hsteady.mounted

/-- Going in and out of the index changes nothing. -/
theorem passed : Follows berth g { l with index := l.index.passed l.index.index } d :=
  { h with standing := h.standing.congr rfl rfl h.standing.free }

theorem commit : ∃ l' d', l.commit d = (g.commit.1, l', d') ∧ Follows berth g.commit.2 l' d' := by
  have hs := h.standing
  have hmc := hs.content.mounted
  obtain ⟨dc, hdc, -⟩ := hs.headContent
  obtain ⟨hmc', hoc, -, -⟩ := ContentLog.commit_ok hmc hdc
  have hmin : min l.content.cursor l.content.capacity = g.cursor := by
    rw [Nat.min_eq_left hs.content.cursor_le, h.cursor]
  have hraw : (dc.image l.content.log.file).rawCursor = g.cursor := by
    rw [← hmin]
    exact Log.storeCursor_raw (Log.flush_spec hmc).1 hdc
  have hmi : l.index.index.log.Mounted dc := h.index_mounted.elsewhere hoc (Ne.symm hs.apart)
  obtain ⟨r, l', d', hcommit, hgood, hbad⟩ := hs.commit
  have hindex : l.index.index.commit dc =
      l.index.index.log.storeCursor (l.index.index.log.flush dc) g.current.finish := by
    rw [KeyLog.commit, hs.index_cursor]
  have hmf := (Log.flush_spec hmi).1
  by_cases hlong : maxSigned < g.current.finish
  · have hindex' : l.index.index.commit dc = .error (.invalidArgument (.cursorTooLarge g.current.finish)) := by
      rw [hindex, Log.storeCursor, if_pos hlong]
    have heq : l.commit d = _ := Deed.commit.logs_stuck hs.free hdc hindex'
    cases hcommit.symm.trans heq
    have hstand := (hbad _ rfl).2
    rw [heq, Ledger.commit, if_pos hlong]
    refine ⟨_, _, rfl, { h with
      standing := hstand
      size := hoc.size.trans h.size
      content_head := hraw
      index_head := ?_ }⟩
    show (dc.image l.index.index.log.file).rawCursor = g.indexHead
    rw [hoc.others _ (Ne.symm hs.apart)]
    exact h.index_head
  · obtain ⟨di, hdi, -, hoi, -⟩ := Log.storeCursor_spec hmf (Nat.not_lt.mp hlong)
    have heq : l.commit d = _ := Deed.commit.logs_stored hs.free hdc (hindex.trans hdi)
    cases hcommit.symm.trans heq
    have hof := (Log.flush_spec hmi).2.1
    rw [heq, Ledger.commit, if_neg hlong]
    have honly := hof.trans hoi
    refine ⟨_, _, rfl, { h with
      standing := hgood rfl
      size := honly.size.trans (hoc.size.trans h.size)
      content_head := ?_
      index_head := Log.storeCursor_raw hmf hdi }⟩
    show (d'.image l.content.log.file).rawCursor = g.cursor
    rw [honly.others _ hs.apart]
    exact hraw

theorem rollback : ∃ l' d', l.rollback d = (.ok (), l', d') ∧ Follows berth g.undo l' d' := by
  have hs := h.standing
  have hmc := hs.content.mounted
  obtain ⟨dc, hdc, -, hoc, -⟩ := hs.content.rollback hs.head_le hs.checkpoint_le
  have hmi : l.index.index.log.Mounted dc := h.index_mounted.elsewhere hoc (Ne.symm hs.apart)
  obtain ⟨l', d', hrollback, hstand⟩ := hs.rollback
  have hindex : l.index.index.rollback dc = l.index.index.log.storeCursor dc g.opening.finish := by
    rw [KeyLog.rollback, hs.index_checkpoint]
  cases hdi : l.index.index.log.storeCursor dc g.opening.finish with
  | error e =>
    cases hrollback.symm.trans (Deed.rollback.logs_stuck hs.free hdc (hindex.trans hdi))
  | ok di =>
    have heq : l.rollback d = _ := Deed.rollback.logs_stored hs.free hdc (hindex.trans hdi)
    cases hrollback.symm.trans heq
    have hoi := (Log.storeCursor_ok hmi hdi).2.1
    refine ⟨_, _, heq, { h with
      standing := hstand
      size := hoi.size.trans (hoc.size.trans h.size)
      content_head := ?_
      index_head := Log.storeCursor_raw hmi hdi }⟩
    show (d'.image l.content.log.file).rawCursor = (g.checkpoint : Int)
    rw [hoi.others _ hs.apart, ← h.checkpoint]
    exact Log.storeCursor_raw hmc hdc

/-- After an append the cursor alone may be another. -/
theorem appended (space : Volume.Space) (src : Source) :
    Follows berth { g with cursor := (l.content.append space d src).log.cursor }
      { l with content := (l.content.append space d src).log } (l.content.append space d src).disk := by
  have hs := h.standing
  have hleft := ContentLog.append_left hs.content space src
  refine { h with
    standing := hs.appended space src
    size := hleft.only.size.trans h.size
    cursor := rfl
    checkpoint := hleft.checkpoint.trans h.checkpoint
    content_head := ?_
    index_head := ?_
    content_path := (ContentLog.append_path hs.content space src).trans h.content_path }
  · show ((l.content.append space d src).disk.image (l.content.append space d src).log.log.file).rawCursor = _
    rw [hleft.file, Image.rawCursor_eq (hleft.keeps.mono (Nat.le_refl _) hs.content.head_le)]
    exact h.content_head
  · show ((l.content.append space d src).disk.image l.index.index.log.file).rawCursor = _
    rw [hleft.only.others _ (Ne.symm hs.apart)]
    exact h.index_head

theorem recorded (space : Volume.Space) {key : String} {loc : Location} {bs : List UInt8}
    (hlies : (Blob.mk key loc bs).Lies (d.image l.content.log.file) l.content.cursor) :
    ∃ r k' d', l.index.index.add space d key loc = (r, k', d') ∧
      l.index.add space d key loc = (r, l.index.passed k', d') ∧
      (r = .ok () →
        Follows berth { g with current := g.current ++ [⟨key, loc, bs⟩] } { l with index := l.index.passed k' } d') ∧
      (∀ e, r = .error e → Follows berth g { l with index := l.index.passed k' } d') := by
  have hs := h.standing
  cases hk : l.index.index.add space d key loc with
  | mk r rest =>
    obtain ⟨k', d'⟩ := rest
    have hadd : l.index.add space d key loc = (r, l.index.passed k', d') := by
      rw [Gate.add, Gate.call_free hs.free, hk]
    obtain ⟨hgood, hbad⟩ := hs.recorded hadd hlies
    obtain ⟨dir, kept, hsteady, -⟩ := hs.index
    obtain ⟨-, hgrown, -⟩ := hsteady.add hk
    have hcontent : (d'.image l.content.log.file).rawCursor = g.contentHead := by
      rw [hgrown.only.others _ hs.apart]
      exact h.content_head
    obtain ⟨hpath, hraw⟩ :=
      KeyLog.add_keeps hsteady.mounted (Nat.le_trans hsteady.head_le hsteady.checkpoint_le_cursor) hk
    have hindex := hraw.trans h.index_head
    have hsize := hgrown.only.size.trans h.size
    have hpath' := hpath.trans h.index_path
    exact ⟨r, k', d', rfl, hadd,
      fun hr => ⟨hgood hr, hsize, h.cursor, h.checkpoint, hcontent, hindex, h.content_path, hpath'⟩,
      fun e hr => ⟨hbad e hr, hsize, h.cursor, h.checkpoint, hcontent, hindex, h.content_path, hpath'⟩⟩

/-- An add answers what its first failing step answers. One that fails puts both headers back and
    leaves at most a gap; one that succeeds puts its blob behind the others. -/
theorem add (space : Volume.Space) (key : String) (src : Source) : ∃ r l' d', l.add space d key src = (r, l', d') ∧
    (r = match (l.content.append space d src).result with
      | .error e => .error e
      | .ok loc => ((l.index.index.add space (l.content.append space d src).disk key loc).1).map fun _ => loc) ∧
    (∀ loc, r = .ok loc → Follows berth { g with
      current := g.current ++ [⟨key, loc, l.content.taken space d src⟩]
      cursor := (l.content.append space d src).log.cursor } l' d') ∧
    (∀ e, r = .error e →
      Follows berth (Ledger.undo { g with cursor := (l.content.append space d src).log.cursor }) l' d') := by
  have happ := h.appended space src
  cases hr : (l.content.append space d src).result with
  | error e =>
    obtain ⟨l', d', hback, hfollows⟩ := happ.rollback
    refine ⟨.error e, l', d', ?_, rfl, fun _ hloc => (nomatch hloc), fun _ _ => hfollows⟩
    simp only [Logs.add, hr, hback]
  | ok loc =>
    obtain ⟨r, k', d', hk, hadd, hgood, hbad⟩ := happ.recorded space (h.standing.appended_lies hr key)
    have hk' : l.index.index.add space (l.content.append space d src).disk key loc = (r, k', d') := hk
    have hadd' : l.index.add space (l.content.append space d src).disk key loc = (r, l.index.passed k', d') := hadd
    cases r with
    | ok u =>
      refine ⟨.ok loc, { l with content := (l.content.append space d src).log, index := l.index.passed k' }, d', ?_,
        by dsimp only; rw [hk']; rfl, ?_, fun _ he => (nomatch he)⟩
      · simp only [Logs.add, hr, hadd']
      · intro _ hloc
        cases hloc
        exact hgood rfl
    | error e =>
      obtain ⟨l', d'', hback, hfollows⟩ := (hbad e rfl).rollback
      have hback' : Logs.rollback ⟨(l.content.append space d src).log, l.index.passed k'⟩ d' = (.ok (), l', d'') :=
        hback
      refine ⟨.error e, l', d'', ?_, by dsimp only; rw [hk']; rfl, fun _ hloc => (nomatch hloc), fun _ _ => hfollows⟩
      simp only [Logs.add, hr, hadd', hback']

/-- What the index answers is no answer for want of room, or what the ledger decides. -/
theorem index_answer {space : Volume.Space} {key : String} (hkey : key ≠ "") {loc : Location} {r : Except Fault Unit}
    {k' : KeyLog} {d' : Disk} (hk : l.index.index.add space d key loc = (r, k', d')) :
    (∃ required e, Log.checkSpace space berth.indexPath required = .error e ∧ r = .error e) ∨
      (∀ e, g.refuse key loc = some e → r = .error e) ∧ (g.refuse key loc = none → r = .ok ()) := by
  have hknown := h.standing.directory.contains_eq key
  have hcursor := h.standing.index_cursor
  have hway := KeyLog.add_way hkey hk
  unfold Ledger.refuse
  rw [← hknown, ← hcursor]
  cases hway with
  | duplicate known =>
    rw [if_pos known]
    exact .inr ⟨fun e he => congrArg _ (Option.some.inj he), fun he => nomatch he⟩
  | tooLong unknown long =>
    rw [unknown, if_neg Bool.false_ne_true, if_pos long]
    exact .inr ⟨fun e he => congrArg _ (Option.some.inj he), fun he => nomatch he⟩
  | noRoom unknown short past refused =>
    rw [h.index_path] at refused
    exact .inl ⟨_, _, refused, rfl⟩
  | tooFar unknown short unfit =>
    rw [unknown, if_neg Bool.false_ne_true, if_neg (Nat.not_lt.mpr short), unfit]
    exact .inr ⟨fun e he => congrArg _ (Option.some.inj he), fun he => nomatch he⟩
  | recorded unknown short fits =>
    rw [unknown, if_neg Bool.false_ne_true, if_neg (Nat.not_lt.mpr short), fits]
    exact .inr ⟨fun e he => (nomatch he), fun _ => rfl⟩

/-- An add from a script finds no room, or does what the ledger decides. -/
theorem add_scripted (space : Volume.Space) {key : String} (hkey : key ≠ "") {events : List Event}
    (hs : Event.Settled events) (declared : Except IoFault Nat) {r : Except Fault Location} {l' : Logs} {d' : Disk}
    (ha : l.add space d key (.script [] events declared) = (r, l', d')) :
    (∃ path required e, (path = berth.storagePath ∨ path = berth.indexPath) ∧
        Log.checkSpace space path required = .error e ∧ r = .error e) ∨
      r = (g.add key events declared).1 ∧ Follows berth (g.add key events declared).2 l' d' := by
  obtain ⟨_, _, _, ha', hr, hgood, hbad⟩ := h.add space key (.script [] events declared)
  cases ha.symm.trans ha'
  have happ := h.appended space (.script [] events declared)
  rcases ContentLog.append_scripted h.standing.content space hs declared with
    ⟨required, e, hrefused, hresult⟩ | ⟨hresult, hcursor, htaken⟩
  · rw [h.content_path] at hrefused
    rw [hresult] at hr
    exact .inl ⟨_, _, e, .inl rfl, hrefused, hr⟩
  rw [h.cursor] at hresult hcursor htaken
  unfold Ledger.add
  generalize ContentLog.scripted g.cursor events declared = got at hresult hcursor htaken ⊢
  obtain ⟨got, cursor⟩ := got
  dsimp only at hresult hcursor htaken ⊢
  rw [hcursor] at hgood hbad happ
  cases got with
  | error e =>
    rw [hresult] at hr
    exact .inr ⟨hr, hbad e hr⟩
  | ok bs =>
    rw [hresult] at hr
    rw [htaken bs rfl] at hgood
    dsimp only [Except.map] at hr ⊢
    cases hk : l.index.index.add space (l.content.append space d (.script [] events declared)).disk key
        ⟨bs.length, g.cursor, Checksum.of bs⟩ with
    | mk ri rest =>
      obtain ⟨k', di⟩ := rest
      rw [hk] at hr
      rcases happ.index_answer hkey hk with ⟨required, e, hrefused, rfl⟩ | ⟨hrefuse, hrecord⟩
      · exact .inl ⟨_, _, e, .inr rfl, hrefused, hr⟩
      · right
        cases hg : g.refuse key ⟨bs.length, g.cursor, Checksum.of bs⟩ with
        | some e =>
          rw [hrefuse e hg] at hr
          exact ⟨hr, hbad e hr⟩
        | none =>
          rw [hrecord hg] at hr
          exact ⟨hr, hgood _ hr⟩

end Follows

end Logs

end TwinLog
