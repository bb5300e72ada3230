/-
  TwinLog.Proofs.Bulk.Conclusion — what a load leaves behind.

  When the workers of a load are done it writes both headers: it commits, or puts back what
  there was at the opening. `Sound.heads` says what the two headers cover then, also where one
  of the two writes fails. A load that answers well has saved the whole directory, which is the
  book of the opening and one blob for each listed path, with the bytes of that file. After a
  load that fails the files hold the book of the opening (`loads_leave`), whichever step has
  failed: an add, the commit, or the rollback itself.
-/

import TwinLog.Bulk.Load
import TwinLog.Proofs.Bulk.Loading
import TwinLog.Proofs.Vault.Rollback

namespace TwinLog

/-! ## Both headers -/

/-- What an index's header covers stands in its file. -/
theorem KeyLog.Steady.saved_unique {opening saved saved' : Directory} {stop : Nat} {k : KeyLog} {d : Disk}
    (h : Steady opening stop saved k d) (h' : Steady opening stop saved' k d) (hs : stop = k.checkpoint) :
    saved = saved' := by
  obtain ⟨m, hm, hreplay⟩ := h.replays hs
  obtain ⟨m', hm', hreplay'⟩ := h'.replays hs
  cases hm.symm.trans hm'
  exact Except.ok.inj (hreplay.symm.trans hreplay')

namespace Twin

variable {g : Ground} {p : Nat} {saved : Directory} {t t' : Twin} {deed : Deed}

/-- What is saved after both header writes: what the deed saves if both succeed, and otherwise what
    was saved before. -/
structure Heads (g : Ground) (saved : Directory) (t : Twin) (deed : Deed) (t' : Twin) (p' : Nat) (saved' : Directory) :
    Prop where
  logs : t'.logs = (deed.logs t.logs.1 t.logs.2).2
  sound : t'.Sound g p' saved'
  appends : t'.traffic.appends = t.traffic.appends
  index : t'.index.index = t.index.index
  covered : saved'.Covered p'
  beside : t.traffic.disk.Beside g.storage g.index t'.traffic.disk
  succeeds : (deed.logs t.logs.1 t.logs.2).1 = .ok () → saved' = deed.saves g.opening t.index.index
  fails : ∀ e, (deed.logs t.logs.1 t.logs.2).1 = .error e → saved' = saved

/-- The index's header covers what the deed saves if it is written, and else what it covered before. -/
theorem Sound.headIndex_saves (h : t.Sound g p saved) (hg : g.stop = g.mark) {saved' : Directory}
    (hs : (t.headIndex deed true).Sound g p saved') :
    (∀ d, deed.index t.index.index t.traffic.disk = .ok d → saved' = deed.saves g.opening t.index.index) ∧
      ∀ e, deed.index t.index.index t.traffic.disk = .error e → saved' = saved := by
  have hstop : g.stop = t.index.index.checkpoint := hg.trans h.mark.symm
  have hsteady := hs.index
  constructor
  · intro d hd
    have hwritten : t.headIndex deed true =
        { t.put (t.index.passed t.index.index) d with indexDeeds := deed :: t.indexDeeds } := by
      simp only [Twin.headIndex, Gate.ask, if_true, Gate.call_free h.free, Gate.storing, hd]
    rw [hwritten] at hsteady
    exact hsteady.saved_unique (Deed.index_ok h.index hd).1 hstop
  · intro e he
    have hleft : t.headIndex deed true = t.put (t.index.passed t.index.index) t.traffic.disk := by
      simp only [Twin.headIndex, Gate.ask, if_true, Gate.call_free h.free, Gate.storing, he]
    rw [hleft] at hsteady
    exact hsteady.saved_unique h.index hstop

/-- The second of the two writes, after a first one that has succeeded. -/
theorem Sound.heads_index (h : t.Sound g p saved) (hg : g.stop = g.mark) {t₁ : Twin} {p₁ : Nat}
    (h₁ : t₁.Sound g p₁ saved) (ht : t.headContent deed = some t₁) (hindex : t₁.index = t.index)
    (happends : t₁.traffic.appends = t.traffic.appends)
    (hready : deed = .commit → t₁.contentDeeds.head? = some .commit ∧ t₁.index.index.directory.Covered p₁) :
    ∃ p' saved', Heads g saved t deed (t₁.headIndex deed true) p' saved' := by
  obtain ⟨saved', hsound, happends', hindex'⟩ := h₁.headIndex deed true hready
  have hboth := logs_headed ht
  have hanswer := congrArg Prod.fst hboth
  rw [Gate.call_free h₁.free, Gate.storing] at hanswer
  obtain ⟨hstored, hkept⟩ := h₁.headIndex_saves hg hsound
  -- the answer says whether the index's header was written
  have hsaved : ((deed.logs t.logs.1 t.logs.2).1 = .ok () → saved' = deed.saves g.opening t.index.index) ∧
      ∀ e, (deed.logs t.logs.1 t.logs.2).1 = .error e → saved' = saved := by
    cases hd : deed.index t₁.index.index t₁.traffic.disk with
    | error e =>
      rw [hd] at hanswer
      refine ⟨fun hok => ?_, fun _ _ => hkept e hd⟩
      cases hanswer.symm.trans hok
    | ok d =>
      rw [hd] at hanswer
      refine ⟨fun _ => hindex ▸ hstored d hd, fun _ herror => ?_⟩
      cases hanswer.symm.trans herror
  have hcovered : saved'.Covered p₁ := by
    cases deed with
    | commit =>
      cases hr : (Deed.logs .commit t.logs.1 t.logs.2).1 with
      | ok u =>
        rw [hsaved.1 hr, Deed.saves, ← hindex]
        exact (hready rfl).2
      | error e =>
        rw [hsaved.2 e hr]
        exact h₁.committed (hready rfl).1
    | rollback =>
      have hlast : (t₁.headIndex .rollback true).indexDeeds.head? ≠ some .commit := by
        rw [h₁.headIndex_rollback]
        intro hc
        cases hc
      rw [hsound.kept hlast]
      exact hsound.old.mono hsound.base_le
  refine ⟨p₁, saved', ?_⟩
  exact {
    logs := (congrArg Prod.snd hboth).symm
    sound := hsound
    appends := happends'.trans happends
    index := hindex'.trans (congrArg Gate.index hindex)
    covered := hcovered
    beside := (h.headContent_beside ht).trans (h₁.headIndex_beside ..)
    succeeds := hsaved.1
    fails := hsaved.2 }

theorem Sound.heads (h : t.Sound g p saved) (hg : g.stop = g.mark) (hsaved : saved.Covered p)
    (hall : t.index.index.directory.Covered (min t.traffic.log.cursor t.traffic.log.capacity)) (deed : Deed) :
    ∃ t' p' saved', Heads g saved t deed t' p' saved' := by
  cases ht : t.headContent deed with
  | none =>
    obtain ⟨e, hrefused⟩ := logs_refused ht
    refine ⟨t, p, saved, ?_⟩
    exact {
      logs := (congrArg Prod.snd hrefused).symm
      sound := h
      appends := rfl
      index := rfl
      covered := hsaved
      beside := .refl
      succeeds := fun hok => (nomatch (congrArg Prod.fst hrefused).symm.trans hok)
      fails := fun _ _ => rfl }
  | some t₁ =>
    obtain ⟨h₁, happends, hindex, hdeeds⟩ := h.headContent ht hall
    obtain ⟨p', saved', hheads⟩ := h.heads_index hg h₁ ht hindex happends (by
      rintro rfl
      rw [hdeeds, hindex]
      exact ⟨rfl, hall⟩)
    exact ⟨_, p', saved', hheads⟩

end Twin

/-! ## The end of a load -/

def Intake.site (s : Intake) (vault : Vault) (w : Volume) : Load.Site :=
  ({ vault with logs := some s.service.twin.logs.1 }, { w with disk := s.service.twin.logs.2 })

namespace Load

def conclude : Except Fault Unit → Site → Except Fault Unit × Volume
  | .ok (), s => ((onDisk s Vault.commit).1, leave (onDisk s Vault.commit).2)
  | .error e, s => ((onDisk s Vault.rollback).1.bind fun _ => .error e, leave (onDisk s Vault.rollback).2)

def deed : Except Fault Unit → Deed
  | .ok () => .commit
  | .error _ => .rollback

def crew (w : Volume) (l : Logs) (paths : List String) (threads attempts : Nat) (moves : List (Nat × Volume.Space)) :
    Crew String Errand Fault Intake :=
  (Crew.start threads paths (.ofLogs l w.disk)).run (trade w attempts) moves

end Load

inductive Loads (vault : Vault) (w : Volume) (paths : List String) (threads attempts : Nat) :
    Except Fault Unit → Volume → Prop
  | done {l : Logs} (opened : vault.logs = some l) (moves : List (Nat × Volume.Space))
      (finished : (Load.crew w l paths threads attempts moves).AllDone) :
      Loads vault w paths threads attempts
        (Load.conclude (Load.crew w l paths threads attempts moves).outcome
          ((Load.crew w l paths threads attempts moves).shared.site vault w)).1
        (Load.conclude (Load.crew w l paths threads attempts moves).outcome
          ((Load.crew w l paths threads attempts moves).shared.site vault w)).2

namespace Load

variable {w : Volume} {vault : Vault} {s : Intake} {r : Except Fault Unit}

theorem conclude_volume (r : Except Fault Unit) (s : Intake) (vault : Vault) (w : Volume) {t' : Twin}
    (ht : t'.logs = ((deed r).logs s.service.twin.logs.1 s.service.twin.logs.2).2) :
    (conclude r (s.site vault w)).2 = t'.leave w true := by
  unfold Twin.leave
  rw [ht]
  cases r <;> rfl

theorem conclude_ok (h : (conclude r (s.site vault w)).1 = .ok ()) :
    r = .ok () ∧ ((deed r).logs s.service.twin.logs.1 s.service.twin.logs.2).1 = .ok () := by
  cases r with
  | ok u => exact ⟨rfl, h⟩
  | error e =>
    have hbind : ((onDisk (s.site vault w) Vault.rollback).1.bind fun _ => Except.error e) = .ok () := h
    cases hr : (onDisk (s.site vault w) Vault.rollback).1 with
    | ok u =>
      rw [hr] at hbind
      cases hbind
    | error e' =>
      rw [hr] at hbind
      cases hbind

theorem conclude_error {e : Fault} (h : (conclude r (s.site vault w)).1 = .error e) :
    deed r = .rollback ∨ ∃ e', ((deed r).logs s.service.twin.logs.1 s.service.twin.logs.2).1 = .error e' := by
  cases r with
  | ok u => exact .inr ⟨e, h⟩
  | error e' => exact .inl rfl

end Load

/-! ## From the opening on -/

namespace Service

variable {s : Service} {deed : Deed}

/-- A vault in which no call is under way. -/
theorem settled_of_quiet (hx : s.exclusive = none) (hq : s.adds.any (·.phase.active) = false) : ¬s.Wavers := by
  rintro (hrollback | ⟨i, key, e, hi⟩)
  · cases hx.symm.trans hrollback
  · cases (List.any_eq_false.mp hq) _ (List.mem_of_getElem? hi) rfl

/-- Both header writes of a deed leave nobody between the two. -/
theorem heads_settled (hx : s.exclusive = none) (hq : s.adds.any (·.phase.active) = false) (deed : Deed) :
    ¬(s.run [.headContent deed, .headIndex true]).Wavers := by
  rcases s.run_heads_cases hx hq deed with ⟨-, hrun⟩ | ⟨t, -, hrun⟩
  · rw [hrun]
    exact settled_of_quiet hx hq
  · rw [hrun]
    exact settled_of_quiet hx hq

end Service

namespace Vault.Starts

variable {book : Book} {v w u x : Volume} {s : Settings} {c : ContentLog} {k : KeyLog}

theorem begins (h : Starts book c k w) (hv : v.Sound) (hp : Parts v s u c x k w) :
    (Service.ofLogs ⟨c, Gate.ofIndex k s.indexTimeout⟩ w.disk).Begins (ground c k w) where
  stands := ⟨_, _, h.stands hv hp⟩
  contest := Service.contest_opened hv hp h.apart s.indexTimeout
  named := fun _ _ hi => nomatch hi
  whole := fun htorn => nomatch htorn.1

end Vault.Starts

namespace Load

variable {w : Volume} {l : Logs} {g : Ground} {paths : List String} {threads attempts : Nat}
  {moves : List (Nat × Volume.Space)}

/-- The workers of a load are done: no add is under way, and if nobody has failed every file is recorded. -/
theorem crew_ends (hb : (Service.ofLogs l w.disk).Begins g)
    (hfiles : ∀ path ∈ paths, ∀ f, w.openToRead path = .ok (.file f) → f ≠ g.storage ∧ f ≠ g.index)
    (hdone : (crew w l paths threads attempts moves).AllDone) :
    (crew w l paths threads attempts moves).shared.Sound w l g paths ∧
      (crew w l paths threads attempts moves).shared.service.adds.any (·.phase.active) = false ∧
      ((crew w l paths threads attempts moves).outcome = .ok () →
        ∀ path ∈ paths, (crew w l paths threads attempts moves).shared.Has path) := by
  have hstart : Crew.Accounts (law hb hfiles attempts) paths (Crew.start threads paths (.ofLogs l w.disk)) :=
    Crew.accounts_start (fun _ h => h) (Intake.Sound.start w l g paths) (by rintro i ⟨a, hi, -⟩; cases hi) threads
  have hne := Crew.hands_ne_nil (trade w attempts) threads paths (.ofLogs l w.disk) moves
  obtain ⟨hgood, hquiet, hall, -⟩ := (Crew.accounts_run hstart moves).ends hdone hne
  refine ⟨hgood, ?_, hall⟩
  refine List.any_eq_false.mpr ?_
  intro a ha hactive
  obtain ⟨i, hi⟩ := List.getElem?_of_mem ha
  exact hquiet i ⟨a, hi, hactive⟩

end Load

namespace Intake.Sound

variable {w : Volume} {l : Logs} {g : Ground} {paths : List String} {s : Intake} {p : Nat} {saved : Directory}
  {book : Book}

theorem concluded (hs : s.service.Stands g p saved) {deed : Deed} {t' : Twin} {p' : Nat} {saved' : Directory}
    (hh : Twin.Heads g saved s.service.twin deed t' p' saved') :
    Service.Stands g p' saved' ⟨t', s.service.adds, none⟩ := by
  refine ⟨hh.sound, ?_, nofun, nofun⟩
  intro e he
  refine (hs.listed e (hh.index ▸ he)).imp_right ?_
  rintro ⟨bs, i, slot, hi, hr⟩
  exact ⟨bs, i, slot, hi, hr.congr hh.appends⟩

/-- Whatever an add has recorded is a listed file, with its bytes. -/
theorem recorded (h : s.Sound w l g paths) (hb : (Service.ofLogs l w.disk).Begins g) {b : Blob}
    (hr : s.service.Recorded b) : b.key ∈ paths ∧ w.readPart b.key 0 none = .ok b.bytes := by
  have ⟨i, slot, hi, _⟩ := hr
  obtain ⟨bs, hread, hr'⟩ := h.fed.recorded hi
  have hsame := (h.contest hb).unique hr hr' rfl
  refine ⟨h.listed i _ hi, ?_⟩
  rw [hread, hsame]

/-- A listed file that is recorded has its blob among the new ones. -/
theorem found (h : s.Sound w l g paths) (hb : (Service.ofLogs l w.disk).Begins g) (hbook : book.Lists g.opening)
    {new : Book} (hlists : (book ++ new).Lists s.service.twin.index.index.directory) {path : String}
    (hhas : s.Has path) : path ∈ new.map (·.key) := by
  obtain ⟨i, slot, loc, hi⟩ := hhas
  obtain ⟨hnew, hmem, -⟩ := (h.contest hb).recorded i path slot loc hi
  obtain ⟨e, he, rfl⟩ := List.mem_map.mp hmem
  obtain ⟨b, hmem, hkey, -⟩ := hlists.blob he
  rcases List.mem_append.mp hmem with hold | hmem
  · obtain ⟨e', he', hkey', -⟩ := hbook.entry hold
    exact absurd (List.mem_map.mpr ⟨e', he', hkey'.trans hkey⟩) hnew
  · exact List.mem_map.mpr ⟨b, hmem, hkey⟩

end Intake.Sound

/-! ## What is left -/

namespace Volume

/-- The listed files are where they were, as they were. -/
def Untouched (v : Volume) (paths : List String) (w : Volume) : Prop :=
  ∀ path ∈ paths, ∀ f, v.openToRead path = .ok (.file f) →
    w.openToRead path = .ok (.file f) ∧ w.disk.image f = v.disk.image f

theorem Untouched.readPart {v w : Volume} {paths : List String} {path : String} {bs : List UInt8}
    (h : v.Untouched paths w) (hpath : path ∈ paths) (hread : v.readPart path 0 none = .ok bs) :
    w.readPart path 0 none = .ok bs := by
  unfold Volume.readPart at hread
  split at hread
  · cases hread
  · cases hread
  · rename_i f hf
    obtain ⟨hopen, himage⟩ := h path hpath f hf
    rw [← hread]
    simp only [Volume.readPart, hopen, himage]

end Volume

/-- No listed path leads to one of the two logs. -/
def Vault.Spared (w : Volume) (s : Settings) (paths : List String) : Prop :=
  ∀ path ∈ paths, ∀ f, w.openToRead path = .ok (.file f) → ¬w.Names s.storagePath f ∧ ¬w.Names s.indexPath f

structure Vault.Ended (v w : Volume) (s : Settings) (paths : List String) (book : Book) (c : ContentLog) (k : KeyLog)
    (outcome : Except Fault Unit) (site : Intake) : Prop where
  parts : ∃ u x, Parts v s u c x k w
  starts : Starts book c k w
  begins : (Service.ofLogs ⟨c, Gate.ofIndex k s.indexTimeout⟩ w.disk).Begins (ground c k w)
  sound : site.Sound w ⟨c, Gate.ofIndex k s.indexTimeout⟩ (ground c k w) paths
  quiet : site.service.adds.any (·.phase.active) = false
  all : outcome = .ok () → ∀ path ∈ paths, site.Has path

theorem Loads.ended {v v' w : Volume} {s : Settings} {vault : Vault} {paths : List String} {threads attempts : Nat}
    {r : Except Fault Unit} {book : Book} (h : Loads vault w paths threads attempts r v')
    (hv : Stocked s.storagePath s.indexPath book v) (hopen : Vault.openAt v s = (.ok vault, w))
    (hspared : Vault.Spared w s paths) :
    ∃ c k outcome site, Vault.Ended v w s paths book c k outcome site ∧ vault = Vault.ofLogs s c k ∧
      r = (Load.conclude outcome (site.site vault w)).1 ∧ v' = (Load.conclude outcome (site.site vault w)).2 := by
  obtain ⟨u, c, x, k, hparts, rfl⟩ := Vault.openAt_iff.mp hopen
  obtain ⟨hl, moves, hdone⟩ := h
  cases hl
  have hstarts := hv.opens hparts
  have hleaves := hparts.leaves hv.sound hstarts.apart
  have hb := hstarts.begins hv.sound hparts
  have hfiles : ∀ path ∈ paths, ∀ f, w.openToRead path = .ok (.file f) → f ≠ c.log.file ∧ f ≠ k.log.file := by
    intro path hpath f hf
    obtain ⟨hnot, hnot'⟩ := hspared path hpath f hf
    exact ⟨fun he => hnot (he ▸ hleaves.storage), fun he => hnot' (he ▸ hleaves.index_names)⟩
  obtain ⟨hgood, hquiet, hall⟩ := Load.crew_ends hb hfiles hdone
  exact ⟨c, k, _, _, ⟨⟨u, x, hparts⟩, hstarts, hb, hgood, hquiet, hall⟩, rfl, rfl, rfl⟩

namespace Vault

variable {v v' w : Volume} {s : Settings} {vault : Vault} {paths : List String} {threads attempts : Nat}
  {r : Except Fault Unit} {book : Book}

/-- What a load leaves of a book: all listed files with it, or the book as it was. -/
structure Loaded (w : Volume) (s : Settings) (paths : List String) (book : Book) (r : Except Fault Unit) (v' : Volume) :
    Prop where
  names : ∃ fc fi, w.Names s.storagePath fc ∧ w.Names s.indexPath fi ∧
    v'.Names s.storagePath fc ∧ v'.Names s.indexPath fi
  untouched : w.Untouched paths v'
  stores : r = .ok () → ∃ new : Book, (∀ path, path ∈ paths ↔ path ∈ new.map (·.key)) ∧
    (∀ b ∈ new, w.readPart b.key 0 none = .ok b.bytes) ∧ Stocked s.storagePath s.indexPath (book ++ new) v'
  keeps : ∀ e, r = .error e → Stocked s.storagePath s.indexPath book v'

theorem loads_leave (hv : Stocked s.storagePath s.indexPath book v) (hopen : openAt v s = (.ok vault, w))
    (hspared : Spared w s paths) (h : Loads vault w paths threads attempts r v') : Loaded w s paths book r v' := by
  obtain ⟨c, k, outcome, site, hended, rfl, rfl, rfl⟩ := h.ended hv hopen hspared
  obtain ⟨u, x, hparts⟩ := hended.parts
  have hb := hended.begins
  have hgood := hended.sound
  obtain ⟨p, saved, hstands⟩ := hgood.stands hb
  have hsaved : saved = k.directory := hstands.twin.kept fun hlast => hgood.undoes.2 (List.mem_of_head? hlast)
  have hcovered := hstands.twin.covered fun htorn => hgood.undoes.2 (List.mem_of_head? htorn.2)
  obtain ⟨t', p', saved', hh⟩ := hstands.twin.heads rfl hcovered hstands.covered (Load.deed outcome)
  have hstands' := Intake.Sound.concluded hstands hh
  have hbeside := (hgood.beside hb).trans hh.beside
  have leaves {new : Book} (hnew : ∀ b ∈ new, Service.Recorded ⟨t', site.service.adds, none⟩ b)
      (hlists : (book ++ new).Lists saved') :=
    hended.starts.leaves hv.sound hparts hstands' hbeside hh.covered (hgood.named hb) hnew hlists true
  have hnames := hparts.leaves hv.sound hended.starts.apart
  rw [Load.conclude_volume outcome site (ofLogs s c k) w hh.logs]
  refine ⟨?_, ?_, ?_, ?_⟩
  · obtain ⟨new, hlists, hnew⟩ := hstands'.saves hended.starts.lists
    obtain ⟨-, hc, hi⟩ := leaves hnew hlists
    exact ⟨_, _, hnames.storage, hnames.index_names, hc, hi⟩
  · intro path hpath f hf
    obtain ⟨hnot, hnot'⟩ := hspared path hpath f hf
    have hnodes : (t'.leave w true).nodes = w.nodes := rfl
    refine ⟨(Volume.openToRead_congr hnodes path).trans hf, ?_⟩
    exact (hbeside.trans hh.sound.close_beside).others f (fun he => hnot (he ▸ hnames.storage))
      fun he => hnot' (he ▸ hnames.index_names)
  · intro hok
    obtain ⟨houtcome, hlogs⟩ := Load.conclude_ok hok
    have hdirectory : saved' = site.service.twin.index.index.directory := by
      have hsaves := hh.succeeds hlogs
      rw [houtcome] at hsaves
      exact hsaves
    obtain ⟨new, hlists, hnew⟩ := hstands'.saves hended.starts.lists
    have hrecorded : ∀ b ∈ new, site.service.Recorded b := by
      intro b hb'
      obtain ⟨i, slot, hi, hr⟩ := hnew b hb'
      exact ⟨i, slot, hi, hr.congr hh.appends.symm⟩
    refine ⟨new, ?_, fun b hb' => (hgood.recorded hb (hrecorded b hb')).2, (leaves hnew hlists).1⟩
    intro path
    constructor
    · intro hpath
      exact hgood.found hb hended.starts.lists (hdirectory ▸ hlists) (hended.all houtcome path hpath)
    · intro hpath
      obtain ⟨b, hb', rfl⟩ := List.mem_map.mp hpath
      exact (hgood.recorded hb (hrecorded b hb')).1
  · intro e he
    have hopening : saved' = k.directory := by
      cases hr : ((Load.deed outcome).logs site.service.twin.logs.1 site.service.twin.logs.2).1 with
      | error e' => exact (hh.fails e' hr).trans hsaved
      | ok u =>
        rcases Load.conclude_error he with hdeed | ⟨e', he'⟩
        · have hback := hh.succeeds hr
          rw [hdeed] at hback
          exact hback
        · cases hr.symm.trans he'
    have hlists : Book.Lists (book ++ []) saved' := by
      rw [List.append_nil, hopening]
      exact hended.starts.lists
    have hnone : ∀ b ∈ ([] : Book), Service.Recorded ⟨t', site.service.adds, none⟩ b := nofun
    have hleft := (leaves hnone hlists).1
    rw [List.append_nil] at hleft
    exact hleft

/-- A load is one of the sessions. -/
theorem inherited_load (hv : Inherited s.storagePath s.indexPath v) (hopen : openAt v s = (.ok vault, w))
    (hspared : Spared w s paths) (h : Loads vault w paths threads attempts r v') :
    Inherited s.storagePath s.indexPath v' := by
  obtain ⟨book, hstock⟩ := stocked_of_inherited hv
  obtain ⟨c, k, outcome, site, hended, rfl, rfl, rfl⟩ := h.ended hstock hopen hspared
  have hgood := hended.sound
  have hquiet := hended.quiet
  obtain ⟨turns, htimely, hrun⟩ := hgood.run
  have hheads := Service.run_heads _ hgood.shared hquiet (Load.deed outcome)
  have hsettled := Service.heads_settled hgood.shared hquiet (Load.deed outcome)
  rw [Load.conclude_volume outcome site (ofLogs s c k) w hheads]
  rw [hrun, ← Service.run_append] at hsettled ⊢
  refine .session hv rfl rfl hopen rfl ?_ hsettled true
  intro turn hturn
  rcases List.mem_append.mp hturn with hturn | hturn
  · exact htimely turn hturn
  · rcases List.mem_cons.mp hturn with rfl | hturn
    · trivial
    · cases List.mem_singleton.mp hturn
      exact rfl

end Vault

end TwinLog
