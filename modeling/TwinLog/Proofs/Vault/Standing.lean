/-
  TwinLog.Proofs.Vault.Standing — what an open vault has stored, and what of it is saved.

  A `Book` lists keys with where their contents lie and what they are. `Logs.Standing place
  opening saved current` says that the directory in memory is `current`, that opening both
  files now would find `saved`, that it was `opening` when this session began, and that
  all these contents are in the file. An add that succeeds adds to `current` alone; a
  commit makes `saved` what is `current`, a rollback and a failed add make it `opening`
  again. None of them needs a case of its own for what came before it in the session.

  A `Deed` is a commit or a rollback; what either does to both logs is said once for both.
-/

import TwinLog.Proofs.ContentLog.Whole
import TwinLog.Proofs.KeyLog.Upkeep
import TwinLog.Vault.Basic

namespace TwinLog

structure Blob where
  key : String
  location : Location
  bytes : List UInt8

abbrev Book : Type := List Blob

structure Blob.Lies (b : Blob) (im : Image) (bound : Nat) : Prop where
  offset_le : headSize ≤ b.location.offset
  finish_le : b.location.finish ≤ bound
  read_eq : im.read b.location.offset b.location.size = b.bytes

theorem Blob.Lies.keep {b : Blob} {im im' : Image} {bound bound' : Nat} (h : b.Lies im bound)
    (hk : Image.Keeps headSize bound im im') (hb : bound ≤ bound') : b.Lies im' bound' :=
  ⟨h.offset_le, Nat.le_trans h.finish_le hb, (hk.read_eq h.offset_le h.finish_le).trans h.read_eq⟩

/-- The directory has the keys and locations of the book, in its order. -/
def Book.Lists (book : Book) (dir : Directory) : Prop :=
  dir.map (fun e => (e.key, e.location)) = book.map fun b => (b.key, b.location)

theorem Book.Lists.snoc {book : Book} {dir : Directory} (h : book.Lists dir) {e : Entry} {b : Blob}
    (hk : e.key = b.key) (hl : e.location = b.location) : Book.Lists (book ++ [b]) (dir ++ [e]) := by
  unfold Lists at h ⊢
  rw [List.map_append, List.map_append, h, List.map_singleton, List.map_singleton, hk, hl]

theorem Book.Lists.entry {book : Book} {dir : Directory} (h : book.Lists dir) {b : Blob} (hb : b ∈ book) :
    ∃ e ∈ dir, e.key = b.key ∧ e.location = b.location := by
  have hmem : (b.key, b.location) ∈ dir.map fun e => (e.key, e.location) := by
    rw [h]
    exact List.mem_map_of_mem hb
  obtain ⟨e, he, heq⟩ := List.mem_map.mp hmem
  exact ⟨e, he, (Prod.mk.inj heq).1, (Prod.mk.inj heq).2⟩

theorem Book.Lists.find? {book : Book} {dir : Directory} (h : book.Lists dir) (hd : dir.Distinct) {b : Blob}
    (hb : b ∈ book) : ∃ e, dir.find? b.key = some e ∧ e.location = b.location := by
  obtain ⟨e, he, hkey, hlocation⟩ := h.entry hb
  exact ⟨e, hkey ▸ hd.find? he, hlocation⟩

/-! ## A content log at rest -/

namespace ContentLog

variable {c : ContentLog} {d : Disk}

theorem Resting.elsewhere (h : Resting c d) {f : FileId} {d' : Disk} (ho : d.OnlyAt f d')
    (hne : c.log.file ≠ f) : Resting c d' := { h with mounted := h.mounted.elsewhere ho hne }

/-- Content below the cursor of a resting log can be read. -/
theorem Resting.get (h : Resting c d) {b : Blob} (hb : b.Lies (d.image c.log.file) c.cursor) :
    c.get d b.location = .ok b.bytes := by
  have hcap : b.location.finish ≤ c.log.capacity := Nat.le_trans hb.finish_le h.cursor_le
  unfold ContentLog.get
  split
  · rename_i h0
    rw [← hb.read_eq, h0]
    rfl
  · have hlo := hb.offset_le
    have hhi := hb.finish_le
    have hread : c.checkReadable b.location = .ok () := by
      unfold checkReadable lastBefore
      rw [if_neg (by omega), h.pending]
      rfl
    rw [hread]
    exact (Log.read_ok hcap).trans (by rw [hb.read_eq])

theorem Resting.commit (h : Resting c d) :
    ∃ d', c.commit d = .ok d' ∧ Resting c d' ∧ d.OnlyAt c.log.file d' ∧ (d'.image c.log.file).Headed c.cursor ∧
      Image.Keeps headSize c.capacity (d.image c.log.file) (d'.image c.log.file) := by
  have hmin : min c.cursor c.capacity = c.cursor := Nat.min_eq_left h.cursor_le
  obtain ⟨d', hd, -⟩ := Log.storeCursor_spec (Log.flush_spec h.mounted).1 h.fits
  have hc : c.commit d = .ok d' := by rw [ContentLog.commit, hmin]; exact hd
  obtain ⟨hm, ho, hh, hk⟩ := commit_ok h.mounted hc
  rw [hmin] at hh
  exact ⟨d', hc, ⟨hm, h.head_le, h.cursor_le, h.fits, h.pending⟩, ho, hh h.head_le, hk⟩

theorem Resting.rollback (h : Resting c d) (hlo : headSize ≤ c.checkpoint) (hhi : c.checkpoint ≤ c.cursor) :
    ∃ d', c.rollback d = .ok d' ∧ Resting c d' ∧ d.OnlyAt c.log.file d' ∧
      (d'.image c.log.file).Headed c.checkpoint ∧
      Image.Keeps headSize c.capacity (d.image c.log.file) (d'.image c.log.file) := by
  obtain ⟨d', hd, hm, ho, hh, hk⟩ := Log.storeCursor_spec h.mounted (Nat.le_trans hhi h.fits)
  exact ⟨d', hd, ⟨hm, h.head_le, h.cursor_le, h.fits, h.pending⟩, ho, hh hlo, hk⟩

end ContentLog

/-! ## Both logs -/

namespace Gate

variable {g : Gate} {d d' : Disk}

def passed (g : Gate) (index : KeyLog) : Gate := { g with index, entered := g.entered + 1 }

theorem call_free (h : g.held = none) {α : Type} (d : Disk)
    (f : KeyLog → Disk → Except Fault α × KeyLog × Disk) :
    g.call d f = ((f g.index d).1, g.passed (f g.index d).2.1, (f g.index d).2.2) := by
  obtain ⟨index, timeout, held, entered⟩ := g
  cases h
  rfl

/-- A look into the index changes nothing but the count of calls. -/
theorem call_look (h : g.held = none) {α : Type} (d : Disk) (f : KeyLog → Except Fault α) :
    g.call d (fun k d => (f k, k, d)) = (f g.index, g.passed g.index, d) := call_free h d _

theorem storing_ok {store : KeyLog → Disk → Except Fault Disk} (h : g.held = none)
    (hd : store g.index d = .ok d') : g.call d (storing store) = (.ok (), g.passed g.index, d') := by
  rw [call_free h, storing, hd]

end Gate

inductive Deed where
  | commit
  | rollback
  deriving DecidableEq

namespace Deed

def content : Deed → ContentLog → Disk → Except Fault Disk
  | .commit => ContentLog.commit
  | .rollback => ContentLog.rollback

def index : Deed → KeyLog → Disk → Except Fault Disk
  | .commit => KeyLog.commit
  | .rollback => KeyLog.rollback

def logs : Deed → Logs → Disk → Except Fault Unit × Logs × Disk
  | .commit => Logs.commit
  | .rollback => Logs.rollback

variable (deed : Deed) {l : Logs} {d dc di : Disk} {e : Fault}

theorem logs_refused (h : deed.content l.content d = .error e) : deed.logs l d = (.error e, l, d) := by
  cases deed with
  | commit =>
    show Logs.commit l d = _
    rw [Logs.commit, show l.content.commit d = .error e from h]
  | rollback =>
    show Logs.rollback l d = _
    rw [Logs.rollback, show l.content.rollback d = .error e from h]

theorem logs_headed (h : deed.content l.content d = .ok dc) :
    deed.logs l d = ((l.index.call dc (Gate.storing deed.index)).1,
      { l with index := (l.index.call dc (Gate.storing deed.index)).2.1 },
      (l.index.call dc (Gate.storing deed.index)).2.2) := by
  cases deed with
  | commit =>
    show Logs.commit l d = _
    rw [Logs.commit, show l.content.commit d = .ok dc from h]
    rfl
  | rollback =>
    show Logs.rollback l d = _
    rw [Logs.rollback, show l.content.rollback d = .ok dc from h]
    rfl

/-- Both headers are written. -/
theorem logs_stored (hf : l.index.held = none) (h : deed.content l.content d = .ok dc)
    (hi : deed.index l.index.index dc = .ok di) :
    deed.logs l d = (.ok (), { l with index := l.index.passed l.index.index }, di) := by
  rw [deed.logs_headed h, Gate.storing_ok hf hi]

/-- The content log's header is written, and the index refuses its own. -/
theorem logs_stuck (hf : l.index.held = none) (h : deed.content l.content d = .ok dc)
    (hi : deed.index l.index.index dc = .error e) :
    deed.logs l d = (.error e, { l with index := l.index.passed l.index.index }, dc) := by
  rw [deed.logs_headed h, Gate.call_free hf, Gate.storing, hi]

end Deed

structure Place where
  content : FileId
  index : FileId
  files : Nat

namespace Logs

/-- A session that began with `opening`, has `current` in memory and would leave `saved`. -/
structure Standing (place : Place) (opening saved current : Book) (l : Logs) (d : Disk) : Prop where
  apart : l.content.log.file ≠ l.index.index.log.file
  content_file : l.content.log.file = place.content
  index_file : l.index.index.log.file = place.index
  size_le : place.files ≤ d.files.size
  free : l.index.held = none
  content : l.content.Resting d
  checkpoint_le : l.content.checkpoint ≤ l.content.cursor
  head_le : headSize ≤ l.content.checkpoint
  index : ∃ dir kept, l.index.index.Steady dir l.index.index.checkpoint kept d ∧ opening.Lists dir ∧
    saved.Lists kept
  directory : current.Lists l.index.index.directory
  header : ∃ p, (d.image l.content.log.file).Headed p ∧ p ≤ l.content.cursor ∧
    ∀ b ∈ saved, b.location.finish ≤ p
  opening_le : ∀ b ∈ opening, b.location.finish ≤ l.content.checkpoint
  opening_mem : ∀ b ∈ opening, b ∈ current
  saved_mem : ∀ b ∈ saved, b ∈ current
  lies : ∀ b ∈ current, b.key ≠ "" ∧ b.Lies (d.image l.content.log.file) l.content.cursor

variable {place : Place} {opening saved current : Book} {l l' : Logs} {d d' : Disk}

namespace Standing

/-- Only the logs themselves matter, not who has been inside the index. -/
theorem congr (h : Standing place opening saved current l d) (hc : l'.content = l.content)
    (hi : l'.index.index = l.index.index) (hf : l'.index.held = none) :
    Standing place opening saved current l' d := by
  obtain ⟨content, ⟨index, timeout, held, entered⟩⟩ := l
  obtain ⟨content', ⟨index', timeout', held', entered'⟩⟩ := l'
  cases hc
  cases hi
  exact { h with free := hf }

/-! ### Looking -/

theorem locate (h : Standing place opening saved current l d) {b : Blob} (hb : b ∈ current) :
    l.index.index.get b.key = .ok b.location := by
  obtain ⟨dir, kept, hsteady, -⟩ := h.index
  obtain ⟨e, he, hl⟩ := h.directory.find? hsteady.distinct hb
  unfold KeyLog.get
  rw [if_neg (h.lies b hb).1, he, ← hl]

theorem get (h : Standing place opening saved current l d) {b : Blob} (hb : b ∈ current) :
    l.content.get d b.location = .ok b.bytes := h.content.get (h.lies b hb).2

/-! ### Headers -/

theorem headContent (h : Standing place opening saved current l d) : ∃ d', l.content.commit d = .ok d' ∧
    Standing place opening saved current l d' ∧ (d'.image l.content.log.file).Headed l.content.cursor := by
  obtain ⟨d', hd, hrest, honly, hhead, hkeep⟩ := h.content.commit
  obtain ⟨dir, kept, hsteady, hopening, hsaved⟩ := h.index
  refine ⟨d', hd, ?_, hhead⟩
  have hbelow := hkeep.mono (Nat.le_refl _) h.content.cursor_le
  exact { h with
    size_le := honly.size ▸ h.size_le
    content := hrest
    index := ⟨dir, kept, hsteady.elsewhere honly (Ne.symm h.apart), hopening, hsaved⟩
    header := ⟨l.content.cursor, hhead, Nat.le_refl _, fun b hb => (h.lies b (h.saved_mem b hb)).2.finish_le⟩
    lies := by
      intro b hb
      obtain ⟨hne, hlies⟩ := h.lies b hb
      exact ⟨hne, hlies.keep hbelow (Nat.le_refl _)⟩ }

/-- A commit saves all that is stored. One that fails saves nothing new, and it fails only
    where the index has outgrown a signed word. -/
theorem commit (h : Standing place opening saved current l d) :
    ∃ r l' d', l.commit d = (r, l', d') ∧ (r = .ok () → Standing place opening current current l' d') ∧
      (∀ e, r = .error e → maxSigned < l.index.index.cursor ∧ Standing place opening saved current l' d') := by
  obtain ⟨dc, hdc, hstand, hhead⟩ := h.headContent
  obtain ⟨dir, kept, hsteady, hopening, hsaved⟩ := hstand.index
  cases hdi : l.index.index.commit dc with
  | error e =>
    have hlong : maxSigned < l.index.index.cursor := by
      apply Nat.lt_of_not_le
      intro hle
      obtain ⟨di, hok⟩ := hsteady.commit_ok hle
      cases hok.symm.trans hdi
    exact ⟨_, _, _, Deed.commit.logs_stuck h.free hdc hdi, fun hr => (nomatch hr),
      fun _ _ => ⟨hlong, hstand.congr rfl rfl h.free⟩⟩
  | ok di =>
    refine ⟨_, _, _, Deed.commit.logs_stored h.free hdc hdi, ?_, fun _ hr => (nomatch hr)⟩
    intro _
    obtain ⟨hall, honly⟩ := hsteady.commit hdi
    have himage := honly.others _ h.apart
    exact { h with
      size_le := honly.size ▸ hstand.size_le
      content := hstand.content.elsewhere honly h.apart
      index := ⟨dir, _, hall, hopening, h.directory⟩
      header := ⟨l.content.cursor, himage ▸ hhead, Nat.le_refl _, fun b hb => (h.lies b hb).2.finish_le⟩
      saved_mem := fun _ hb => hb
      lies := himage ▸ hstand.lies }

theorem rollback (h : Standing place opening saved current l d) :
    ∃ l' d', l.rollback d = (.ok (), l', d') ∧ Standing place opening opening current l' d' := by
  obtain ⟨dc, hdc, hrest, honly, hhead, hkeep⟩ := h.content.rollback h.head_le h.checkpoint_le
  obtain ⟨dir, kept, hsteady, hopening, hsaved⟩ := h.index
  have hsteady' := hsteady.elsewhere honly (Ne.symm h.apart)
  obtain ⟨di, hdi⟩ := hsteady'.rollback_ok
  obtain ⟨hall, honly'⟩ := hsteady'.rollback hdi
  have himage := honly'.others _ h.apart
  have hbelow := hkeep.mono (Nat.le_refl _) h.content.cursor_le
  exact ⟨_, di, Deed.rollback.logs_stored h.free hdc hdi, { h with
    size_le := honly'.size ▸ honly.size ▸ h.size_le
    content := hrest.elsewhere honly' h.apart
    index := ⟨dir, _, hall, hopening, hopening⟩
    header := ⟨l.content.checkpoint, himage ▸ hhead, h.checkpoint_le, h.opening_le⟩
    saved_mem := h.opening_mem
    lies := by
      intro b hb
      obtain ⟨hne, hlies⟩ := h.lies b hb
      exact ⟨hne, himage ▸ hlies.keep hbelow (Nat.le_refl _)⟩ }⟩

/-! ### Adding -/

/-- The log after an append; whether it has succeeded does not matter yet. -/
theorem appended (h : Standing place opening saved current l d) (space : Volume.Space) (src : Source) :
    Standing place opening saved current { l with content := (l.content.append space d src).log }
      (l.content.append space d src).disk := by
  have hleft := ContentLog.append_left h.content space src
  generalize l.content.append space d src = r at hleft ⊢
  obtain ⟨dir, kept, hsteady, hopening, hsaved⟩ := h.index
  obtain ⟨p, hp, hple, hfin⟩ := h.header
  have hcur := hleft.cursor_le
  have hhead := hp.congr (hleft.keeps.mono (Nat.le_refl _) h.content.head_le)
  have hbelow := hleft.keeps.mono (Nat.zero_le headSize) (Nat.le_refl _)
  exact { h with
    apart := hleft.file ▸ h.apart
    content_file := hleft.file.trans h.content_file
    size_le := hleft.only.size ▸ h.size_le
    content := hleft.resting
    checkpoint_le := hleft.checkpoint ▸ Nat.le_trans h.checkpoint_le hcur
    head_le := hleft.checkpoint ▸ h.head_le
    index := ⟨dir, kept, hsteady.elsewhere hleft.only (Ne.symm h.apart), hopening, hsaved⟩
    header := ⟨p, hleft.file ▸ hhead, Nat.le_trans hple hcur, hfin⟩
    opening_le := hleft.checkpoint ▸ h.opening_le
    lies := by
      intro b hb
      obtain ⟨hne, hlies⟩ := h.lies b hb
      exact ⟨hne, hleft.file ▸ hlies.keep hbelow hcur⟩ }

theorem appended_lies (h : Standing place opening saved current l d) {space : Volume.Space} {src : Source}
    {loc : Location} (hr : (l.content.append space d src).result = .ok loc) (key : String) :
    (Blob.mk key loc (l.content.taken space d src)).Lies
      ((l.content.append space d src).disk.image (l.content.append space d src).log.log.file)
      (l.content.append space d src).log.cursor := by
  have hleft := ContentLog.append_left h.content space src
  obtain ⟨hloc, -, hfin, hread⟩ := hleft.returned loc hr
  rw [← hleft.file] at hread
  exact ⟨by rw [hloc]; exact h.content.head_le, hfin, hread⟩

theorem recorded (h : Standing place opening saved current l d) {space : Volume.Space} {key : String}
    {loc : Location} {r : Except Fault Unit} {g : Gate} (ha : l.index.add space d key loc = (r, g, d'))
    {bs : List UInt8} (hlies : (Blob.mk key loc bs).Lies (d.image l.content.log.file) l.content.cursor) :
    (r = .ok () → Standing place opening saved (current ++ [⟨key, loc, bs⟩]) { l with index := g } d') ∧
      (∀ e, r = .error e → Standing place opening saved current { l with index := g } d') := by
  rw [Gate.add, Gate.call_free h.free] at ha
  cases hk : l.index.index.add space d key loc with
  | mk r' rest =>
    obtain ⟨k', d''⟩ := rest
    rw [hk] at ha
    cases ha
    obtain ⟨dir, kept, hsteady, hopening, hsaved⟩ := h.index
    obtain ⟨hsteady', hgrown, hcases⟩ := hsteady.add hk
    have himage : d''.image l.content.log.file = d.image l.content.log.file := hgrown.only.others _ h.apart
    -- all but the directory
    have hrest : ∀ now : Book, now.Lists k'.directory → (∀ b ∈ current, b ∈ now) →
        (∀ b ∈ now, b.key ≠ "" ∧ b.Lies (d.image l.content.log.file) l.content.cursor) →
        Standing place opening saved now { l with index := l.index.passed k' } d'' := by
      intro now hnow hsub hall
      exact { h with
        apart := hgrown.file ▸ h.apart
        index_file := hgrown.file.trans h.index_file
        size_le := hgrown.only.size ▸ h.size_le
        content := h.content.elsewhere hgrown.only h.apart
        index := ⟨dir, kept, hgrown.checkpoint ▸ hsteady', hopening, hsaved⟩
        directory := hnow
        header := himage ▸ h.header
        opening_mem := fun b hb => hsub b (h.opening_mem b hb)
        saved_mem := fun b hb => hsub b (h.saved_mem b hb)
        lies := himage ▸ hall }
    rcases hcases with ⟨rfl, hne, -, hdir⟩ | ⟨⟨e, rfl⟩, hdir⟩
    · refine ⟨fun _ => hrest _ ?_ ?_ ?_, fun _ he => (nomatch he)⟩
      · rw [hdir]
        exact h.directory.snoc rfl rfl
      · intro b hb
        exact List.mem_append_left _ hb
      · intro b hb
        rcases List.mem_append.mp hb with hb | hb
        · exact h.lies b hb
        · rw [List.mem_singleton.mp hb]
          exact ⟨hne, hlies⟩
    · exact ⟨fun hok => (nomatch hok), fun _ _ => hrest current (hdir ▸ h.directory) (fun _ hb => hb) h.lies⟩

/-- An add puts its blob behind the others, or puts both headers back. -/
theorem add (h : Standing place opening saved current l d) (space : Volume.Space) (key : String)
    (src : Source) : ∃ r l' d', l.add space d key src = (r, l', d') ∧
      (∀ loc, r = .ok loc →
        Standing place opening saved (current ++ [⟨key, loc, l.content.taken space d src⟩]) l' d') ∧
      (∀ e, r = .error e → Standing place opening opening current l' d') := by
  have happ := h.appended space src
  unfold Logs.add
  dsimp only
  cases hr : (l.content.append space d src).result with
  | error e =>
    obtain ⟨l', d', hback, hstand⟩ := happ.rollback
    dsimp only
    rw [hback]
    exact ⟨.error e, l', d', rfl, fun _ hloc => (nomatch hloc), fun _ _ => hstand⟩
  | ok loc =>
    dsimp only
    cases ha : l.index.add space (l.content.append space d src).disk key loc with
    | mk r rest =>
      obtain ⟨g, d'⟩ := rest
      obtain ⟨hgood, hbad⟩ := happ.recorded ha (h.appended_lies hr key)
      cases r with
      | ok u => exact ⟨.ok loc, _, d', rfl, fun _ hloc => by cases hloc; exact hgood rfl,
        fun _ he => (nomatch he)⟩
      | error e =>
        obtain ⟨l', d'', hback, hstand⟩ := (hbad e rfl).rollback
        dsimp only at hback ⊢
        rw [hback]
        exact ⟨.error e, l', d'', rfl, fun _ hloc => (nomatch hloc), fun _ _ => hstand⟩

/-! ### Closing -/

theorem close (h : Standing place opening saved current l d) :
    Standing place opening saved current l (l.close d) := by
  obtain ⟨hmc, hoc, hkc⟩ := Log.flush_spec h.content.mounted
  obtain ⟨dir, kept, hsteady, hlists⟩ := h.index
  have hsteady' := hsteady.elsewhere hoc (Ne.symm h.apart)
  obtain ⟨hmi, hoi, hki⟩ := Log.flush_spec hsteady'.mounted
  have himage : (l.close d).image l.content.log.file = (l.content.close d).image l.content.log.file :=
    hoi.others _ h.apart
  have hcap := h.content.cursor_le
  obtain ⟨p, hp, hple, hfin⟩ := h.header
  have hkept := hsteady'.keep _ hmi (Nat.le_refl _) (hki.mono (Nat.le_refl _) hsteady'.cursor_le)
  have hhead := hp.congr (hkc.mono (Nat.le_refl _) h.content.mounted.head_le)
  have hbelow := hkc.mono (Nat.zero_le headSize) hcap
  have hrest : l.content.Resting (l.content.close d) := { h.content with mounted := hmc }
  exact { h with
    size_le := hoi.size ▸ hoc.size ▸ h.size_le
    content := hrest.elsewhere hoi h.apart
    index := ⟨dir, kept, hkept, hlists⟩
    header := ⟨p, himage ▸ hhead, hple, hfin⟩
    lies := by
      intro b hb
      obtain ⟨hne, hlies⟩ := h.lies b hb
      exact ⟨hne, himage ▸ hlies.keep hbelow (Nat.le_refl _)⟩ }

end Standing

end Logs

end TwinLog
