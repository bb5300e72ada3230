/-
  TwinLog.Proofs.Vault.Readers — lookups in the midst of everything else.

  Looking a key up takes no lock of the vault. A get goes to the index, where it may be
  refused its turn, then lets the content log check the location it was given, and later copies
  the bytes; between these steps adds write, give ranges back and fail, and headers are
  written. `Hall` is a service with its readers, and an `Act` is one step of anybody. Readers
  that nobody disturbs answer what the calls of the vault answer (`look_alone`).

  A reader is on its way to an answer (`Look.Leads`) from the moment it has been in the index:
  the location it holds is that of an append that has returned, which passes the check and
  keeps its bytes at any later time. So what a get answers is decided by what was recorded when
  it looked its key up, and by nothing that comes after.
-/

import TwinLog.Proofs.Vault.Crash
import TwinLog.Proofs.Vault.Rivals

namespace TwinLog

inductive Query where
  | get
  | locate
  | contains

inductive Reply where
  | bytes (bs : List UInt8)
  | location (l : Location)
  | known (yes : Bool)

inductive Look where
  | asking
  /-- The index has named this location. -/
  | located (l : Location)
  /-- The location may be read. -/
  | cleared (l : Location)
  | answered (r : Except Fault Reply)

structure Reader where
  query : Query
  key : String
  look : Look

/-- An open vault with all calls under way in it. -/
structure Hall where
  service : Service
  readers : List Reader

inductive Act where
  | serve (turn : Turn)
  | enter (query : Query) (key : String)
  | ask (j : Nat) (granted : Bool)
  | clear (j : Nat)
  | read (j : Nat)

namespace Query

def look (key : String) (k : KeyLog) : Query → Except Fault Look
  | .get => (k.get key).map .located
  | .locate => (k.get key).map fun l => .answered (.ok (.location l))
  | .contains => .ok (.answered (.ok (.known (k.contains key))))

def call (vault : Vault) (d : Disk) (key : String) : Query → Except Fault Reply
  | .get => (vault.get d key).1.map .bytes
  | .locate => (vault.locate d key).1.map .location
  | .contains => (vault.contains d key).1.map .known

def reply (key : String) (found : Option Blob) : Query → Except Fault Reply
  | .get => match found with
    | some b => .ok (.bytes b.bytes)
    | none => .error (.keyNotFound key)
  | .locate => match found with
    | some b => .ok (.location b.location)
    | none => .error (.keyNotFound key)
  | .contains => .ok (.known found.isSome)

end Query

namespace Look

def given : Except Fault Look → Look
  | .error e => .answered (.error e)
  | .ok look => look

def clear (c : ContentLog) : Look → Look
  | .located l =>
    if l.size = 0 then .answered (.ok (.bytes []))
    else match c.checkReadable l with
      | .error e => .answered (.error e)
      | .ok () => .cleared l
  | look => look

def read (c : ContentLog) (d : Disk) : Look → Look
  | .cleared l => .answered ((c.log.read d l.offset l.size).map .bytes)
  | look => look

/-- Past the index and on the way to the answer `r`. -/
def Leads (s : Service) (r : Except Fault Reply) : Look → Prop
  | .asking => False
  | .located l | .cleared l => ∃ b, s.Recorded b ∧ l = b.location ∧ r = .ok (.bytes b.bytes)
  | .answered r' => r' = r

end Look

namespace Hall

def ofLogs (l : Logs) (d : Disk) : Hall := ⟨.ofLogs l d, []⟩

def content (h : Hall) : ContentLog := h.service.twin.traffic.log

def disk (h : Hall) : Disk := h.service.twin.traffic.disk

def look (h : Hall) (j : Nat) (f : Look → Look) : Hall :=
  match h.readers[j]? with
  | none => h
  | some r => { h with readers := h.readers.set j { r with look := f r.look } }

def step (h : Hall) : Act → Hall
  | .serve turn => { h with service := h.service.step turn }
  | .enter query key =>
    let look := if key = "" then .answered (.error (.invalidArgument .emptyKey)) else .asking
    { h with readers := h.readers ++ [⟨query, key, look⟩] }
  | .ask j granted => match h.readers[j]? with
    | some ⟨query, key, .asking⟩ =>
      let (r, index, disk) := h.service.twin.index.ask granted h.disk fun k d => (query.look key k, k, d)
      ⟨{ h.service with twin := h.service.twin.put index disk }, h.readers.set j ⟨query, key, .given r⟩⟩
    | _ => h
  | .clear j => h.look j (.clear h.content)
  | .read j => h.look j (.read h.content h.disk)

def run (h : Hall) (acts : List Act) : Hall := acts.foldl step h

/-- Whatever happens, add `j` of `key` fails as `e`, at the latest once it has put the headers
    back. -/
def Fails (h : Hall) (j : Nat) (key : String) (e : Fault) : Prop :=
  ∀ more, ∃ phase, (h.run more).service.adds[j]? = some ⟨key, phase⟩ ∧ phase.fault? = some e ∧
    ∀ granted, ((h.run more).run [.serve (.add j .unwindContent), .serve (.add j (.unwindIndex granted))]).service.adds[j]? =
      some ⟨key, .failed e⟩

/-- Whatever happens, reader `j` answers `r`, at the latest once it has checked its location
    and copied the bytes. -/
def Answers (h : Hall) (j : Nat) (query : Query) (key : String) (r : Except Fault Reply) : Prop :=
  ∀ more, ∃ look, (h.run more).readers[j]? = some ⟨query, key, look⟩ ∧ (∀ r', look = .answered r' → r' = r) ∧
    ((h.run more).run [.clear j, .read j]).readers[j]? = some ⟨query, key, .answered r⟩

end Hall

theorem Gate.ask_look {g : Gate} (h : g.held = none) {α : Type} (granted : Bool) (d : Disk)
    (f : KeyLog → Except Fault α) :
    ∃ g', g.ask granted d (fun k d => (f k, k, d)) =
        (if granted then f g.index else .error (.timedOut g.timeout), g', d) ∧
      g'.index = g.index ∧ g'.held = none := by
  cases granted with
  | false => exact ⟨g, rfl, rfl, h⟩
  | true => exact ⟨g.passed g.index, call_look h d f, rfl, h⟩

/-! ## Nobody else about -/

/-- The check and the copy are the content log's `get`. -/
theorem Look.read_clear (c : ContentLog) (d : Disk) (l : Location) :
    ((Look.located l).clear c).read c d = .answered ((c.get d l).map .bytes) := by
  dsimp only [clear]
  unfold ContentLog.get
  by_cases h0 : l.size = 0
  · rw [if_pos h0, if_pos h0]
    rfl
  · rw [if_neg h0, if_neg h0]
    cases c.checkReadable l <;> rfl

/-- Whether somebody is inside the index or not, a look leaves the disk as it is. -/
theorem Gate.call_looks (g : Gate) (d : Disk) : ∃ g', ∀ {α : Type} (f : KeyLog → Except Fault α),
    g.call d (fun k d => (f k, k, d)) =
      (if g.held.isNone then f g.index else .error (.timedOut g.timeout), g', d) := by
  cases hheld : g.held with
  | none => exact ⟨_, call_look hheld d⟩
  | some held => exact ⟨g, fun f => by rw [call, hheld]; rfl⟩

/-- A reader that makes its steps one after the other answers as the call does. -/
theorem look_alone (settings : Settings) (l : Logs) (d : Disk) (query : Query) (key : String) :
    ((Hall.ofLogs l d).run [.enter query key, .ask 0 true, .clear 0, .read 0]).readers =
      [⟨query, key, .answered (query.call ⟨settings, some l⟩ d key)⟩] := by
  by_cases hkey : key = ""
  · subst hkey
    cases query <;> rfl
  obtain ⟨g, hcall⟩ := l.index.call_looks d
  have hentered : (Hall.ofLogs l d).step (.enter query key) = ⟨.ofLogs l d, [⟨query, key, .asking⟩]⟩ := by
    simp only [Hall.step, if_neg hkey]
    rfl
  have hasked : (Hall.mk (.ofLogs l d) [⟨query, key, .asking⟩]).step (.ask 0 true) =
      ⟨.ofLogs { l with index := g } d, [⟨query, key, .given (if l.index.held.isNone then
        query.look key l.index.index else .error (.timedOut l.index.timeout))⟩]⟩ := by
    have hask : l.index.ask true d (fun k d => (query.look key k, k, d)) = _ := hcall (query.look key)
    dsimp only [Hall.step, Hall.disk, Service.ofLogs, Traffic.idle, List.getElem?_cons_zero]
    rw [hask]
    rfl
  have hlook : ((Hall.ofLogs l d).run [.enter query key, .ask 0 true, .clear 0, .read 0]).readers =
      [⟨query, key, ((Look.given (if l.index.held.isNone then query.look key l.index.index
        else .error (.timedOut l.index.timeout))).clear l.content).read l.content d⟩] := by
    show ((((Hall.ofLogs l d).step (.enter query key)).step (.ask 0 true)).run _).readers = _
    rw [hentered, hasked]
    rfl
  rw [hlook]
  unfold Query.call Vault.get Vault.locate Vault.contains Vault.withKey Vault.withLogs Gate.get Gate.contains
  simp only [if_neg hkey, hcall]
  cases l.index.held.isNone with
  | false => cases query <;> rfl
  | true =>
    cases query with
    | get =>
      unfold Query.look
      cases l.index.index.get key with
      | error e => rfl
      | ok loc => exact congrArg (fun look => [Reader.mk .get key look]) (Look.read_clear l.content d loc)
    | locate =>
      unfold Query.look
      cases l.index.index.get key <;> rfl
    | contains => rfl

/-! ## On the way to an answer -/

theorem KeyLog.get_of_found {k : KeyLog} {key : String} {found : Option Location} (hkey : key ≠ "")
    (hfound : (k.directory.find? key).map (·.location) = found) :
    k.get key = found.elim (.error (.keyNotFound key)) .ok := by
  subst hfound
  unfold get
  rw [if_neg hkey]
  cases k.directory.find? key <;> rfl

theorem KeyLog.contains_of_found {k : KeyLog} {key : String} {found : Option Location}
    (hfound : (k.directory.find? key).map (·.location) = found) : k.contains key = found.isSome := by
  subst hfound
  rw [Option.isSome_map]
  exact List.isSome_find?.symm

namespace Query

variable {s : Service} {k : KeyLog} {key : String} {found : Option Blob}

theorem look_leads (query : Query) (hkey : key ≠ "")
    (hfound : (k.directory.find? key).map (·.location) = found.map (·.location))
    (hrecorded : ∀ b, found = some b → s.Recorded b) :
    (Look.given (query.look key k)).Leads s (query.reply key found) := by
  have hget := KeyLog.get_of_found hkey hfound
  have hcontains := KeyLog.contains_of_found hfound
  unfold look
  cases query with
  | get =>
    rw [hget]
    cases found with
    | none => rfl
    | some b => exact ⟨b, hrecorded b rfl, rfl, rfl⟩
  | locate =>
    rw [hget]
    cases found <;> rfl
  | contains =>
    rw [hcontains]
    cases found <;> rfl

end Query

namespace Look

variable {opening : Directory} {base : Nat} {first : Image} {s s' : Service} {look : Look} {r : Except Fault Reply}

theorem Leads.mono (h : look.Leads s r) (hk : s.Keeps s') : look.Leads s' r := by
  have held {l : Location} : (∃ b, s.Recorded b ∧ l = b.location ∧ r = .ok (.bytes b.bytes)) →
      ∃ b, s'.Recorded b ∧ l = b.location ∧ r = .ok (.bytes b.bytes) := by
    rintro ⟨b, hb, hrest⟩
    exact ⟨b, hk.blob hb, hrest⟩
  cases look with
  | asking => exact h
  | located l => exact held h
  | cleared l => exact held h
  | answered r' => exact h

/-- The check lets every location through that an add has returned. -/
theorem Leads.clear (h : look.Leads s r) (hc : s.Contest opening base first) :
    (look.clear s.twin.traffic.log).Leads s r := by
  cases look with
  | located l =>
    obtain ⟨b, hb, rfl, rfl⟩ := h
    obtain ⟨i, slot, hi, hret⟩ := hb
    have hcontent := hc.twin.content
    dsimp only [Look.clear]
    split
    · rename_i h0
      have hlen := congrArg Location.size (Traffic.returned_spec hcontent hret).1
      have hempty : b.bytes = [] := List.length_eq_zero_iff.mp (hlen.symm.trans h0)
      rw [hempty]
      rfl
    · rename_i h0
      rw [Traffic.readable_returned hcontent hret (Nat.pos_of_ne_zero h0)]
      exact ⟨b, ⟨i, slot, hi, hret⟩, rfl, rfl⟩
  | _ => exact h

theorem Leads.read (h : look.Leads s r) (hc : s.Contest opening base first) :
    (look.read s.twin.traffic.log s.twin.traffic.disk).Leads s r := by
  cases look with
  | cleared l =>
    obtain ⟨b, ⟨i, slot, -, hret⟩, rfl, rfl⟩ := h
    dsimp only [Look.read]
    rw [Traffic.read_returned hc.twin.content hret]
    rfl
  | _ => exact h

theorem clear_passed (c : ContentLog) (look : Look) (l : Location) : look.clear c ≠ .located l := by
  cases look with
  | located l' =>
    dsimp only [clear]
    split
    · nofun
    · split <;> nofun
  | _ => nofun

/-- After both steps there is an answer. -/
theorem Leads.done (h : look.Leads s r) (hc : s.Contest opening base first) :
    (look.clear s.twin.traffic.log).read s.twin.traffic.log s.twin.traffic.disk = .answered r := by
  have hclear := h.clear hc
  have hread := hclear.read hc
  cases hp : look.clear s.twin.traffic.log with
  | asking =>
    rw [hp] at hclear
    exact hclear.elim
  | located l => exact absurd hp (clear_passed _ look l)
  | cleared l =>
    rw [hp] at hread
    exact congrArg Look.answered hread
  | answered r' =>
    rw [hp] at hclear
    exact congrArg Look.answered hclear

end Look

/-! ## Everybody at once -/

namespace Hall

variable {opening : Directory} {base : Nat} {first : Image} {h : Hall} {i j : Nat} {query : Query} {key : String}
  {look : Look} {r : Except Fault Reply} {found : Option Blob}

theorem look_service (h : Hall) (i : Nat) (f : Look → Look) : (h.look i f).service = h.service := by
  unfold Hall.look
  split <;> rfl

theorem look_self (hj : h.readers[j]? = some ⟨query, key, look⟩) (f : Look → Look) :
    (h.look j f).readers[j]? = some ⟨query, key, f look⟩ := by
  unfold Hall.look
  rw [hj]
  exact List.getElem?_set_self (List.getElem?_eq_some_iff.mp hj).1

theorem look_other (hij : i ≠ j) (f : Look → Look) : (h.look i f).readers[j]? = h.readers[j]? := by
  unfold Hall.look
  split
  · rfl
  · exact List.getElem?_set_ne hij

/-- What adds have settled stays so, whoever acts. -/
theorem contest_step (hc : h.service.Contest opening base first) (act : Act) :
    (h.step act).service.Contest opening base first ∧ h.service.Keeps (h.step act).service := by
  cases act with
  | serve turn => exact Service.contest_step hc turn
  | enter query key => exact ⟨hc, .refl _⟩
  | ask i granted =>
    dsimp only [Hall.step]
    split
    · rename_i query key _
      obtain ⟨g, hask, hindex, hfree⟩ := Gate.ask_look hc.twin.free granted h.disk (query.look key)
      rw [hask]
      obtain ⟨stop, saved, hsteady⟩ := hc.twin.index
      have hruns : (h.service.twin.put g h.disk).Runs opening base first :=
        hc.twin.touch .refl rfl (by rw [Twin.put, hindex]) hfree (by rw [Twin.put, hindex]; exact hsteady)
      exact hc.onTwin hruns (fun _ _ _ hr => hr) (Nat.le_refl _) (by rw [Twin.put, hindex]) _
    · exact ⟨hc, .refl _⟩
  | clear i =>
    dsimp only [Hall.step]
    rw [look_service]
    exact ⟨hc, .refl _⟩
  | read i =>
    dsimp only [Hall.step]
    rw [look_service]
    exact ⟨hc, .refl _⟩

theorem contest_run (hc : h.service.Contest opening base first) (acts : List Act) :
    (h.run acts).service.Contest opening base first ∧ h.service.Keeps (h.run acts).service := by
  induction acts generalizing h with
  | nil => exact ⟨hc, .refl _⟩
  | cons act acts ih =>
    obtain ⟨hc', hk⟩ := contest_step hc act
    obtain ⟨hc'', hk'⟩ := ih hc'
    exact ⟨hc'', hk.trans hk'⟩

/-- A reader that has been in the index goes on to the same answer. -/
theorem leads_step (hc : h.service.Contest opening base first) (hj : h.readers[j]? = some ⟨query, key, look⟩)
    (hl : look.Leads h.service r) (act : Act) :
    ∃ look', (h.step act).readers[j]? = some ⟨query, key, look'⟩ ∧ look'.Leads (h.step act).service r := by
  have hk := (contest_step hc act).2
  -- its own next step
  have goes (i : Nat) (f : Look → Look) (hf : (f look).Leads h.service r) :
      ∃ look', (h.look i f).readers[j]? = some ⟨query, key, look'⟩ ∧ look'.Leads (h.look i f).service r := by
    rw [look_service]
    by_cases hij : i = j
    · subst hij
      exact ⟨f look, look_self hj f, hf⟩
    · exact ⟨look, (look_other hij f).trans hj, hl⟩
  cases act with
  | serve turn => exact ⟨look, hj, hl.mono hk⟩
  | enter query' key' =>
    exact ⟨look, getElem?_snoc_of_some hj, hl⟩
  | ask i granted =>
    refine ⟨look, ?_, hl.mono hk⟩
    dsimp only [Hall.step]
    split
    · rename_i query' key' hi
      have hij : i ≠ j := by
        rintro rfl
        cases hi.symm.trans hj
        exact hl
      exact (List.getElem?_set_ne hij).trans hj
    · exact hj
  | clear i => exact goes i _ (hl.clear hc)
  | read i => exact goes i _ (hl.read hc)

theorem leads_run (hc : h.service.Contest opening base first) (hj : h.readers[j]? = some ⟨query, key, look⟩)
    (hl : look.Leads h.service r) (acts : List Act) :
    ∃ look', (h.run acts).readers[j]? = some ⟨query, key, look'⟩ ∧ look'.Leads (h.run acts).service r := by
  induction acts generalizing h look with
  | nil => exact ⟨look, hj, hl⟩
  | cons act acts ih =>
    obtain ⟨look', hj', hl'⟩ := leads_step hc hj hl act
    exact ih (contest_step hc act).1 hj' hl'

/-- A look-up that leads to `r` ends with it in two steps. -/
theorem leads_done (hc : h.service.Contest opening base first) (hj : h.readers[j]? = some ⟨query, key, look⟩)
    (hl : look.Leads h.service r) : (h.run [.clear j, .read j]).readers[j]? = some ⟨query, key, .answered r⟩ := by
  show ((h.look j (.clear h.content)).look j (.read (h.look j _).content (h.look j _).disk)).readers[j]? = _
  rw [look_self (look_self hj _), content, disk, look_service]
  exact congrArg (fun look => some (Reader.mk query key look)) (hl.done hc)

theorem answers_of_leads (hc : h.service.Contest opening base first)
    (hj : h.readers[j]? = some ⟨query, key, look⟩) (hl : look.Leads h.service r) : h.Answers j query key r := by
  intro more
  obtain ⟨look', hj', hl'⟩ := leads_run hc hj hl more
  refine ⟨look', hj', ?_, leads_done (contest_run hc more).1 hj' hl'⟩
  rintro r' rfl
  exact hl'

/-- A reader is on its way once it has been in the index, or was refused its turn. -/
theorem answers_ask (hc : h.service.Contest opening base first) (hkey : key ≠ "")
    (hfound : (h.service.twin.index.index.directory.find? key).map (·.location) = found.map (·.location))
    (hrecorded : ∀ b, found = some b → h.service.Recorded b) (hj : h.readers[j]? = some ⟨query, key, .asking⟩)
    (granted : Bool) :
    (h.step (.ask j granted)).Answers j query key
      (if granted then query.reply key found else .error (.timedOut h.service.twin.index.timeout)) := by
  obtain ⟨hc', hk⟩ := contest_step hc (.ask j granted)
  obtain ⟨g, hask, -⟩ := Gate.ask_look hc.twin.free granted h.disk (query.look key)
  have hasked : (h.step (.ask j granted)).readers[j]? = some ⟨query, key, .given
      (if granted then query.look key h.service.twin.index.index
        else .error (.timedOut h.service.twin.index.timeout))⟩ := by
    simp only [Hall.step, hj, hask]
    exact List.getElem?_set_self (List.getElem?_eq_some_iff.mp hj).1
  refine answers_of_leads hc' hasked ?_
  cases granted with
  | false => rfl
  | true => exact (query.look_leads hkey hfound hrecorded).mono hk

theorem fails_of_fault {phase : Phase} {e : Fault} (hc : h.service.Contest opening base first)
    (hj : h.service.adds[j]? = some ⟨key, phase⟩) (he : phase.fault? = some e) : h.Fails j key e := by
  intro more
  obtain ⟨phase', hj', he'⟩ := (contest_run hc more).2.failing j key phase e hj he
  exact ⟨phase', hj', he', Service.run_unwinds hj' he'⟩

end Hall

namespace Vault

variable {v v' : Volume} {s : Settings} {vault : Vault} {l : Logs} {key : String}

/-- A vault opened on two different files, whatever they hold; any acts of any number of
    adds, commits, rollbacks and readers; and a key that was not there at the opening.

    One add at most has recorded the key, from an append that nobody else has, and its blob
    stays recorded. Whoever finishes its append and gets into the index after that fails as a
    duplicate. A reader that gets into the index answers by the blob that is recorded at that
    time, if there is one, and one that is refused its turn has timed out. -/
theorem one_winner_exact_reads (hv : v.Sound) (h : openAt v s = (.ok vault, v')) (hl : vault.logs = some l)
    (hne : l.content.log.file ≠ l.index.index.log.file) (hkey : key ≠ "")
    (hnew : key ∉ l.index.index.directory.keys) (acts : List Act) :
    let h := (Hall.ofLogs l v'.disk).run acts
    let t := h.service
    (∀ (i : Nat) slot loc, t.adds[i]? = some ⟨key, .recorded slot loc⟩ →
      (∃ bs, t.twin.traffic.Returned slot loc bs) ∧
      (∀ (j : Nat) slot' loc', t.adds[j]? = some ⟨key, .recorded slot' loc'⟩ → j = i) ∧
      ∀ (j : Nat) a, t.adds[j]? = some a → a.phase.slot? = some slot → j = i) ∧
    (∀ b, t.Recorded b → b.key = key → (∀ more, (h.run more).service.Recorded b) ∧
      ∀ (j : Nat) slot loc space, t.adds[j]? = some ⟨key, .appending slot⟩ →
        t.twin.traffic.outcome? slot = some (.ok loc) →
        (h.step (.serve (.add j (.finish space true)))).Fails j key (.duplicateKey key)) ∧
    ∀ (j : Nat) query, h.readers[j]? = some ⟨query, key, .asking⟩ →
      ∃ found : Option Blob, (∀ b, found = some b ↔ t.Recorded b ∧ b.key = key) ∧
        (h.step (.ask j true)).Answers j query key (query.reply key found) ∧
        (h.step (.ask j false)).Answers j query key (.error (.timedOut t.twin.index.timeout)) := by
  intro h' t
  obtain ⟨_, c, x, k, hparts, rfl⟩ := openAt_iff.mp h
  cases hl
  have hbegin : (Hall.ofLogs ⟨c, Gate.ofIndex k s.indexTimeout⟩ v'.disk).service.Contest k.directory c.cursor
      (v'.disk.image c.log.file) := Service.contest_opened hv hparts hne s.indexTimeout
  have hc : t.Contest k.directory c.cursor (v'.disk.image c.log.file) := (Hall.contest_run hbegin acts).1
  refine ⟨?_, ?_, ?_⟩
  · intro i slot loc hi
    refine ⟨(hc.recorded i key slot loc hi).2.2, ?_, ?_⟩
    · intro j slot' loc' hj
      exact hc.sole j i key slot' loc' slot loc hj hi
    · intro j a hj ha
      exact hc.own j i a _ slot hj hi ha rfl
  · rintro b hb rfl
    refine ⟨fun more => (Hall.contest_run hc more).2.blob hb, ?_⟩
    intro j slot loc space hj hout
    exact Hall.fails_of_fault (Hall.contest_step hc _).1 (hc.late hb hkey hj hout space) rfl
  · intro j query hj
    obtain ⟨found, hfound, hlocation⟩ := hc.found hnew
    have hanswers := Hall.answers_ask hc hkey hlocation (fun b hb => ((hfound b).mp hb).1) hj
    exact ⟨found, hfound, hanswers true, hanswers false⟩

/-- Two adds bring content for "a". A reader looks the key up before either is through, the
    first is recorded, and a second reader enters. -/
def race : List Act :=
  let space : Volume.Space := fun _ => .ok 4096
  [.enter .get "a", .serve (.begin "a"), .serve (.begin "a"), .serve (.add 0 (.reserve 2)), .serve (.add 1 (.reserve 1)),
    .serve (.add 1 (.room space)), .serve (.add 0 (.room space)), .serve (.add 1 (.feed (.ok [5]))),
    .serve (.add 0 (.feed (.ok [7, 8]))), .ask 0 true, .serve (.add 1 .release), .serve (.add 0 .release),
    .serve (.add 0 (.finish space true)), .enter .get "a"]

def raced : Hall := (Hall.ofLogs smallLogs smallVolume.disk).run race

/-- The first reader has found nothing, the second gets the first add's bytes, and the second
    add is a duplicate. -/
theorem raced_reads_winner : raced.readers[0]? = some ⟨.get, "a", .answered (.error (.keyNotFound "a"))⟩ ∧
    (raced.step (.ask 1 true)).Answers 1 .get "a" (.ok (.bytes [7, 8])) ∧
    (raced.step (.serve (.add 1 (.finish (fun _ => .ok 4096) true)))).Fails 1 "a" (.duplicateKey "a") := by
  have hne : smallLogs.content.log.file ≠ smallLogs.index.index.log.file := by decide
  obtain ⟨-, hlate, hreads⟩ := one_winner_exact_reads (Volume.sound_empty 4096) small_opens rfl hne
    (by decide : "a" ≠ "") (by decide) race
  have hwon : raced.service.Recorded ⟨"a", ⟨2, 8, .of [7, 8]⟩, [7, 8]⟩ :=
    ⟨0, 0, by rfl, _, by rfl, by rfl, by rfl⟩
  obtain ⟨found, hfound, hanswers, -⟩ := hreads 1 .get (by rfl)
  refine ⟨by rfl, ?_, ?_⟩
  · rw [(hfound _).mpr ⟨hwon, rfl⟩] at hanswers
    exact hanswers
  · exact (hlate _ hwon rfl).2 1 1 ⟨1, 10, .of [5]⟩ _ (by rfl) (by rfl)

end Vault

end TwinLog
