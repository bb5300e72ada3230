/-
  TwinLog.Proofs.Vault.Retries — a caller who adds a key again while the index is busy.

  An add that has timed out has appended its content already and puts both headers back, which
  may time out too, while others go on with theirs. None of that shows in the directory: only an
  add that is answered a location lists its key (`Steady.known`), and a duplicate is only answered
  for a key that is listed (`Steady.duplicate`). What the source or the content log answers is
  never a duplicate. So a caller whose attempts have all failed does not stand in his own way
  (`Attempts.duplicate`).

  `atomic_calls` has this beside what `Crowd` says of the calls of one gate.
-/

import TwinLog.Bulk.Retry
import TwinLog.Proofs.KeyLog.Crowd
import TwinLog.Proofs.Vault.Crash
import TwinLog.Proofs.Vault.Rivals

namespace TwinLog

/-! ## The faults of an append -/

def Stage.fault? : Stage → Option Fault
  | .refused e | .ended (.error e) | .abandoned e | .givenBack e => some e
  | _ => none

theorem Stage.fault?_of_over {stage : Stage} {e : Fault} (h : stage.over? = some (.error e)) :
    stage.fault? = some e := by
  unfold over? at h
  split at h
  · cases h
  · cases h
    rfl
  · cases h
    rfl
  · cases h

namespace Transfer

variable {t : Transfer} {log : Log} {d : Disk} {e : Fault}

theorem finishChunk_fault {filling : Array UInt8} (h : (t.finishChunk filling log d).1 = .ended (.error e)) :
    e.OfLog := by
  unfold finishChunk at h
  split at h
  · rename_i hwrite
    cases h
    exact Log.write_fault hwrite
  · dsimp only at h
    split at h <;> cases h

theorem advance_fault {r : Reading} (h : (t.advance r log d).1 = .ended (.error e)) : e.OfLog := by
  unfold advance at h
  split at h
  · split at h
    · cases h
    · cases h
      exact .system _
  · split at h
    · cases h
      exact .system _
    · exact finishChunk_fault h
  · dsimp only at h
    split at h
    · cases h
    · exact finishChunk_fault h

end Transfer

/-- Whatever fails in this append is a fault of the log or of its source. -/
def Append.Plain (a : Append) : Prop := ∀ e, a.stage.fault? = some e → e.OfLog

namespace Append.Plain

variable {a : Append}

theorem room (h : a.Plain) (space : Volume.Space) (c : ContentLog) (d : Disk) : (a.room space c d).1.Plain := by
  unfold Append.room
  split
  · split
    · rename_i e hroom
      intro e' he'
      cases he'
      exact Log.grow_fault (ContentLog.ensure_fails hroom)
    · intro e he
      dsimp only [begun] at he
      split at he <;> cases he
  · exact h

theorem feed (h : a.Plain) (r : Reading) (c : ContentLog) (d : Disk) : (a.feed r c d).1.Plain := by
  unfold Append.feed
  split
  · dsimp only
    split
    · intro e he
      cases he
    · rename_i result d' hadvance
      intro e he
      cases result with
      | error e' =>
        cases he
        exact Transfer.advance_fault (congrArg Prod.fst hadvance)
      | ok l => cases he
  · exact h

theorem release (h : a.Plain) (c : ContentLog) (d : Disk) : (a.release c d).1.Plain := by
  have same {stage : Stage} (hs : ∀ e, stage.fault? = some e → a.stage.fault? = some e) :
      Append.Plain { a with stage } := fun e he => h e (hs e he)
  unfold Append.release
  split
  · exact same nofun
  · rename_i hstage
    exact same fun e he => by rw [hstage]; exact he
  · rename_i hstage
    refine same fun e he => ?_
    rw [hstage]
    split at he <;> exact he
  · exact h

end Append.Plain

def Traffic.Plain (s : Traffic) : Prop := ∀ a ∈ s.appends, a.Plain

namespace Traffic.Plain

variable {s : Traffic}

theorem step (h : s.Plain) (m : Move) : (s.step m).Plain := by
  have acts (i : Nat) {f : Append → ContentLog → Disk → Append × ContentLog × Disk}
      (hf : ∀ a : Append, a.Plain → (f a s.log s.disk).1.Plain) : (s.act i f).Plain := by
    unfold act
    split
    · exact h
    · rename_i a hi
      intro b hb
      rcases List.mem_or_eq_of_mem_set hb with hb | rfl
      · exact h b hb
      · exact hf a (h a (List.mem_of_getElem? hi))
  have heads (store : ContentLog → Disk → Except Fault Disk) : (s.head store).Plain := by
    unfold head
    split <;> exact h
  cases m with
  | reserve size =>
    simp only [Traffic.step]
    split
    · exact h
    · intro b hb
      rcases List.mem_append.mp hb with hb | hb
      · exact h b hb
      · cases List.mem_singleton.mp hb
        intro e he
        cases he
  | room i space => exact acts i fun a ha => ha.room space s.log s.disk
  | feed i r => exact acts i fun a ha => ha.feed r s.log s.disk
  | release i => exact acts i fun a ha => ha.release s.log s.disk
  | commit => exact heads _
  | rollback => exact heads _

theorem outcome (h : s.Plain) {slot : Nat} {e : Fault} (ho : s.outcome? slot = some (.error e)) : e.OfLog := by
  obtain ⟨a, ha, hover⟩ := Option.bind_eq_some_iff.mp ho
  exact h a (List.mem_of_getElem? ha) e (Stage.fault?_of_over hover)

end Traffic.Plain

/-! ## One part of an add -/

/-- A source is refused because the system cannot say how long it is. -/
def Part.Plain : Part → Prop
  | .refuse e => ∃ why, e = .io why
  | _ => True

def Turn.Plain : Turn → Prop
  | .add _ part => part.Plain
  | _ => True

/-- What an add of `key` in `phase` does to itself and to the directory. -/
structure Twin.Proceeds (t : Twin) (key : String) (phase phase' : Phase) (t' : Twin) : Prop where
  plain : t'.traffic.Plain
  final : phase.answer?.isSome → phase' = phase
  /-- A duplicate is listed. -/
  fault : ∀ k, phase'.fault? = some (.duplicateKey k) → phase.fault? = some (.duplicateKey k) ∨
    k = key ∧ key ∈ t.index.index.directory.keys
  directory : t'.index.index.directory = t.index.index.directory ∨ ∃ slot l o, phase' = .recorded slot l ∧
    t'.index.index.directory = t.index.index.directory ++ [⟨key, o, l⟩]

namespace Twin

variable {t t' : Twin} {key : String} {slot : Nat} {l : Location} {phase phase' : Phase}

/-- Nothing is listed, and there is no new reason to fail. -/
theorem Proceeds.goes (hp : t'.traffic.Plain) (hd : t'.index.index.directory = t.index.index.directory)
    (ho : phase.answer? = none) (hf : ∀ k, phase'.fault? = some (.duplicateKey k) →
      phase.fault? = some (.duplicateKey k)) : t.Proceeds key phase phase' t' where
  plain := hp
  final := fun hr => absurd hr (by rw [ho]; exact nofun)
  fault := fun k hk => .inl (hf k hk)
  directory := .inl hd

theorem Proceeds.rests (hp : t.traffic.Plain) : t.Proceeds key phase phase t where
  plain := hp
  final := fun _ => rfl
  fault := fun _ hk => .inl hk
  directory := .inl rfl

theorem reserve_fault {c : ContentLog} {size : Nat} {e : Fault} (h : c.reserve size = .error e) : e.OfLog := by
  unfold ContentLog.reserve at h
  split at h
  · cases h
  · cases h
    exact .argument _

theorem never_duplicate {e : Fault} {k : String} (h : e.OfLog) : some e ≠ some (.duplicateKey k) := by
  intro he
  cases he
  cases h

theorem headIndex_directory (t : Twin) (deed : Deed) (granted : Bool) :
    (t.headIndex deed granted).index.index.directory = t.index.index.directory ∧
      (t.headIndex deed granted).traffic.appends = t.traffic.appends := by
  cases granted with
  | false => exact ⟨rfl, rfl⟩
  | true =>
    unfold headIndex Gate.ask Gate.call
    rw [if_pos rfl]
    cases hh : t.index.held with
    | some x => exact ⟨rfl, rfl⟩
    | none =>
      dsimp only [Gate.storing]
      cases deed.index t.index.index t.traffic.disk <;> exact ⟨rfl, rfl⟩

theorem record_directory (t : Twin) (key : String) (slot : Nat) (l : Location) (space : Volume.Space) (granted : Bool) :
    let r := t.record key slot l space granted
    r.2.traffic.appends = t.traffic.appends ∧
      (r.1 = .recorded slot l ∧ (∃ o, r.2.index.index.directory = t.index.index.directory ++ [⟨key, o, l⟩]) ∨
        (∃ e, r.1 = .failing e ∧ ∀ k, e = .duplicateKey k → k = key ∧ key ∈ t.index.index.directory.keys) ∧
          r.2.index.index.directory = t.index.index.directory) := by
  have late (t' : Twin) (waited : Duration) : (∃ e, Phase.failing (.timedOut waited) = .failing e ∧
      ∀ k, e = .duplicateKey k → k = key ∧ key ∈ t'.index.index.directory.keys) := ⟨_, rfl, nofun⟩
  cases granted with
  | false => exact ⟨rfl, .inr ⟨late t _, rfl⟩⟩
  | true =>
    unfold record Gate.ask Gate.call
    rw [if_pos rfl]
    cases hh : t.index.held with
    | some x => exact ⟨rfl, .inr ⟨late t _, rfl⟩⟩
    | none =>
      dsimp only
      rcases KeyLog.add_directory t.index.index space t.traffic.disk key l with ⟨hok, o, hdir⟩ | ⟨⟨e, he⟩, hdir⟩
      · rcases hadd : t.index.index.add space t.traffic.disk key l with ⟨r, k, d⟩
        rw [hadd] at hok hdir
        cases hok
        exact ⟨rfl, .inl ⟨rfl, o, hdir⟩⟩
      · have hfault := KeyLog.add_fault he
        rcases hadd : t.index.index.add space t.traffic.disk key l with ⟨r, k, d⟩
        rw [hadd] at he hdir
        cases he
        refine ⟨rfl, .inr ⟨⟨e, rfl, ?_⟩, hdir⟩⟩
        rintro k' rfl
        rcases hfault with ⟨hkey, hknown⟩ | hlog
        · cases hkey
          refine ⟨rfl, Classical.not_not.mp fun hnew => ?_⟩
          rw [Directory.contains_eq_false.mpr hnew] at hknown
          cases hknown
        · cases hlog

theorem proceeds_record (h : t.traffic.Plain) (key : String) (slot : Nat) (l : Location) (space : Volume.Space)
    (granted : Bool) :
    t.Proceeds key (.appending slot) (t.record key slot l space granted).1 (t.record key slot l space granted).2 := by
  obtain ⟨happends, hcases⟩ := t.record_directory key slot l space granted
  refine ⟨fun a ha => h a (happends ▸ ha), nofun, ?_, ?_⟩
  · intro k hk
    rcases hcases with ⟨hphase, -⟩ | ⟨⟨e, hphase, he⟩, -⟩
    · rw [hphase] at hk
      cases hk
    · rw [hphase] at hk
      exact .inr (he k (Option.some.inj hk))
  · rcases hcases with ⟨hphase, o, hdir⟩ | ⟨-, hdir⟩
    · exact .inr ⟨slot, l, o, hphase, hdir⟩
    · exact .inl hdir

theorem move_proceeds (h : t.traffic.Plain) (key : String) (phase : Phase) {part : Part} (hpart : part.Plain) :
    t.Proceeds key phase (t.move key phase part).1 (t.move key phase part).2 := by
  have hmove := t.move_moved key phase part
  generalize (t.move key phase part).1 = phase', (t.move key phase part).2 = t' at hmove ⊢
  cases hmove with
  | still => exact .rests h
  | refused e =>
    obtain ⟨why, rfl⟩ := hpart
    exact .goes h rfl rfl nofun
  | full refusal => exact .goes h rfl rfl fun k hk => absurd hk (never_duplicate (reserve_fault refusal))
  | reserved => exact .goes (h.step _) rfl rfl nofun
  | filled => exact .goes (h.step _) rfl rfl nofun
  | broken outcome => exact .goes h rfl rfl fun k hk => absurd hk (never_duplicate (h.outcome outcome))
  | returned => exact proceeds_record h ..
  | stuck => exact .goes h rfl rfl fun _ hk => hk
  | headed head =>
    obtain ⟨htraffic, hindex⟩ := headContent_move head
    exact .goes (htraffic ▸ h.step _) (by rw [hindex]) rfl fun _ hk => hk
  | unwound e granted =>
    obtain ⟨hdir, happends⟩ := t.headIndex_directory .rollback granted
    exact .goes (fun a ha => h a (happends ▸ ha)) hdir rfl fun _ hk => hk

end Twin

/-! ## All adds -/

namespace Service

/-- What the directory and the answers of all adds have to do with each other. -/
structure Steady (opening : Directory) (s : Service) : Prop where
  plain : s.twin.traffic.Plain
  known : ∀ key ∈ s.twin.index.index.directory.keys, key ∈ opening.keys ∨
    ∃ (j slot : Nat) (l : Location), s.adds[j]? = some ⟨key, .recorded slot l⟩
  duplicate : ∀ (i : Nat) (a : Adding) (k : String), s.adds[i]? = some a →
    a.phase.fault? = some (.duplicateKey k) → k = a.key ∧ a.key ∈ s.twin.index.index.directory.keys

def Answers (s s' : Service) : Prop :=
  ∀ (i : Nat) (a : Adding), s.adds[i]? = some a → a.phase.answer?.isSome → s'.adds[i]? = some a

variable {opening : Directory} {s s' : Service}

theorem steady_ofLogs (l : Logs) (d : Disk) : (ofLogs l d).Steady l.index.index.directory where
  plain := nofun
  known := fun _ hk => .inl hk
  duplicate := nofun

/-- The two logs go on, and the directory is left. -/
theorem Steady.elsewhere (h : s.Steady opening) {t : Twin} (ht : t.traffic.Plain)
    (hd : t.index.index.directory = s.twin.index.index.directory) (exclusive : Option Deed) :
    Steady opening ⟨t, s.adds, exclusive⟩ where
  plain := ht
  known := fun key hk => h.known key (hd ▸ hk)
  duplicate := fun i a k hi hk => hd.symm ▸ h.duplicate i a k hi hk

theorem Steady.begin (h : s.Steady opening) (key : String) :
    Steady opening { s with adds := s.adds ++ [⟨key, .starting⟩] } where
  plain := h.plain
  known := fun key hk => (h.known key hk).imp_right fun ⟨j, slot, l, hj⟩ =>
    ⟨j, slot, l, getElem?_snoc_of_some hj⟩
  duplicate := by
    intro i a k hi hk
    rcases getElem?_snoc_cases hi with hi | ⟨-, rfl⟩
    · exact h.duplicate i a k hi hk
    · cases hk

theorem Steady.moved (h : s.Steady opening) {i : Nat} {a : Adding} (hi : s.adds[i]? = some a) {t : Twin} {phase : Phase}
    (hp : s.twin.Proceeds a.key a.phase phase t) :
    Steady opening ⟨t, s.adds.set i { a with phase }, s.exclusive⟩ ∧
      s.Answers ⟨t, s.adds.set i { a with phase }, s.exclusive⟩ := by
  have hlt := (List.getElem?_eq_some_iff.mp hi).1
  have hanswers : s.Answers ⟨t, s.adds.set i { a with phase }, s.exclusive⟩ := by
    intro j b hj hb
    show (s.adds.set i _)[j]? = _
    by_cases hij : i = j
    · subst hij
      cases hi.symm.trans hj
      rw [List.getElem?_set_self hlt, hp.final hb]
    · rw [List.getElem?_set_ne hij, hj]
  have hsub : s.twin.index.index.directory ⊆ t.index.index.directory := by
    rcases hp.directory with hdir | ⟨slot, l, o, -, hdir⟩
    · rw [hdir]
      exact List.Subset.refl _
    · rw [hdir]
      exact List.subset_append_left ..
  refine ⟨⟨hp.plain, ?_, ?_⟩, hanswers⟩
  · intro key hk
    have old (hk : key ∈ s.twin.index.index.directory.keys) : key ∈ opening.keys ∨ ∃ (j slot : Nat) (l : Location),
        (s.adds.set i { a with phase })[j]? = some ⟨key, .recorded slot l⟩ := (h.known key hk).imp_right
      fun ⟨j, slot, l, hj⟩ => ⟨j, slot, l, hanswers j _ hj rfl⟩
    rcases hp.directory with hdir | ⟨slot, l, o, hphase, hdir⟩
    · exact old (hdir ▸ hk)
    · rw [hdir, Directory.keys, List.map_append] at hk
      rcases List.mem_append.mp hk with hk | hk
      · exact old hk
      · cases List.mem_singleton.mp hk
        refine .inr ⟨i, slot, l, ?_⟩
        show (s.adds.set i _)[i]? = _
        rw [List.getElem?_set_self hlt, hphase]
  · intro j b k hj hk
    rcases getElem?_set_cases hj with ⟨rfl, rfl⟩ | ⟨-, hj⟩
    · rcases hp.fault k hk with hk | ⟨rfl, hmem⟩
      · exact (h.duplicate i a k hi hk).imp_right fun hmem => List.map_subset _ hsub hmem
      · exact ⟨rfl, List.map_subset _ hsub hmem⟩
    · exact (h.duplicate j b k hj hk).imp_right fun hmem => List.map_subset _ hsub hmem

theorem steady_step (h : s.Steady opening) {turn : Turn} (ht : turn.Plain) :
    (s.step turn).Steady opening ∧ s.Answers (s.step turn) := by
  have stays : s.Answers s := fun _ _ hi _ => hi
  have hturn := s.step_turned turn
  generalize s.step turn = s' at hturn ⊢
  cases hturn with
  | still => exact ⟨h, stays⟩
  | begun named shared => exact ⟨h.begin _, fun j a hj _ => getElem?_snoc_of_some hj⟩
  | @moved i a add part => exact h.moved add (Twin.move_proceeds h.plain a.key a.phase ht)
  | entered shared quiet head =>
    obtain ⟨htraffic, hindex⟩ := Twin.headContent_move head
    exact ⟨h.elsewhere (htraffic ▸ h.plain.step _) (by rw [hindex]) _, stays⟩
  | @left deed hdeed granted =>
    obtain ⟨hdir, happends⟩ := s.twin.headIndex_directory deed granted
    exact ⟨h.elsewhere (fun a ha => h.plain a (happends ▸ ha)) hdir _, stays⟩

theorem steady_run (h : s.Steady opening) {turns : List Turn} (ht : ∀ turn ∈ turns, turn.Plain) :
    (s.run turns).Steady opening ∧ s.Answers (s.run turns) := by
  induction turns generalizing s with
  | nil => exact ⟨h, fun _ _ hi _ => hi⟩
  | cons turn turns ih =>
    obtain ⟨hnext, hanswers⟩ := steady_step h (ht turn List.mem_cons_self)
    obtain ⟨hend, hrest⟩ := ih hnext fun t hm => ht t (List.mem_cons_of_mem turn hm)
    exact ⟨hend, fun i a hi ha => hrest i a (hanswers i a hi ha) ha⟩

/-! ## One caller -/

/-- An attempt to add `key` while others use the vault, which answers `r`. It may fail before
    it begins: the file cannot be opened, the key is empty, the vault is closed. Otherwise it
    is one of the adds. -/
inductive Tries (key : String) (s : Service) : Option Nat → Except Fault Location → Service → Prop
  | unbegun {turns : List Turn} {e : Fault} (plain : ∀ turn ∈ turns, turn.Plain) (other : ∀ k, e ≠ .duplicateKey k) :
      Tries key s none (.error e) (s.run turns)
  | answered {turns : List Turn} {i : Nat} {phase : Phase} {r : Except Fault Location}
      (plain : ∀ turn ∈ turns, turn.Plain) (later : s.adds.length ≤ i)
      (now : (s.run turns).adds[i]? = some ⟨key, phase⟩) (answer : phase.answer? = some r) :
      Tries key s (some i) r (s.run turns)

/-- `attempt` is a caller's way to add `key`; `own` are the adds that he has begun by it. -/
def Attempts {σ : Type} (key : String) (service : σ → Service) (own : σ → List Nat)
    (attempt : σ → Except Fault Location × σ) : Prop :=
  ∀ x, ∃ i, Tries key (service x) i (attempt x).1 (service (attempt x).2) ∧ own (attempt x).2 = own x ++ i.toList

def AllFailed (s : Service) (own : List Nat) : Prop :=
  ∀ i ∈ own, ∃ key e, s.adds[i]? = some ⟨key, .failed e⟩

theorem AllFailed.answers {own : List Nat} (h : s.AllFailed own) (ha : s.Answers s') : s'.AllFailed own := by
  intro i hi
  obtain ⟨key, e, hfailed⟩ := h i hi
  exact ⟨key, e, ha i _ hfailed rfl⟩

/-- An attempt in which the turns of a script are taken, by the caller or by others; its own add
    is the one it begins. -/
def attempt (key : String) (script : Nat → List Turn) (x : Service × List Nat) :
    Except Fault Location × Service × List Nat :=
  let i := x.1.adds.length
  let s := x.1.run (.begin key :: script i)
  match s.adds[i]?.bind fun a => if a.key = key then a.phase.answer? else none with
  | some r => (r, s, x.2 ++ [i])
  | none => (.error .closed, s, x.2)

theorem attempts_attempt {key : String} {script : Nat → List Turn} (h : ∀ i, ∀ turn ∈ script i, turn.Plain) :
    Attempts key Prod.fst Prod.snd (attempt key script) := by
  intro x
  have hplain : ∀ turn ∈ Turn.begin key :: script x.1.adds.length, turn.Plain := by
    intro turn ht
    rcases List.mem_cons.mp ht with rfl | ht
    · trivial
    · exact h _ turn ht
  unfold attempt
  dsimp only
  split
  · rename_i r hr
    obtain ⟨a, ha, hover⟩ := Option.bind_eq_some_iff.mp hr
    split at hover
    · rename_i hkey
      subst hkey
      exact ⟨some x.1.adds.length, .answered hplain (Nat.le_refl _) ha hover, rfl⟩
    · cases hover
  · exact ⟨none, .unbegun hplain nofun, (List.append_nil _).symm⟩

section Retry

variable {σ : Type} {key : String} {service : σ → Service} {own : σ → List Nat}
  {attempt : σ → Except Fault Location × σ}

theorem phase_failed {phase : Phase} {e : Fault} (h : phase.answer? = some (.error e)) : phase = .failed e := by
  unfold Phase.answer? at h
  split at h
  · cases h
  · cases h
    rfl
  · cases h

/-- An attempt that fails leaves nothing of its own but failed adds, and a duplicate has been
    listed by then. -/
theorem Tries.fails {i : Option Nat} {e : Fault} (h : s.Steady opening) (ht : Tries key s i (.error e) s')
    {own : List Nat} (hown : s.AllFailed own) : s'.Steady opening ∧ s'.AllFailed (own ++ i.toList) ∧
      ∀ k, e = .duplicateKey k → k = key ∧ key ∈ s'.twin.index.index.directory.keys := by
  cases ht with
  | unbegun plain other =>
    obtain ⟨hsteady, hanswers⟩ := steady_run h plain
    refine ⟨hsteady, ?_, fun k hk => absurd hk (other k)⟩
    rw [Option.toList_none, List.append_nil]
    exact hown.answers hanswers
  | answered plain later now answer =>
    cases phase_failed answer
    obtain ⟨hsteady, hanswers⟩ := steady_run h plain
    refine ⟨hsteady, ?_, fun k hk => hsteady.duplicate _ _ k now (congrArg some hk)⟩
    intro j hj
    rcases List.mem_append.mp hj with hj | hj
    · exact hown.answers hanswers j hj
    · cases Option.mem_toList.mp hj
      exact ⟨key, e, now⟩

/-- All attempts but the last have timed out; the answer of the last one is the answer. -/
theorem retryMore_fails (h : Attempts key service own attempt) (more : Nat) {x : σ} {e : Fault}
    (hs : (service x).Steady opening) (hown : (service x).AllFailed (own x))
    (hr : (retryMore attempt more x).1 = .error e) :
    let y := (retryMore attempt more x).2
    (service y).Steady opening ∧ (service y).AllFailed (own y) ∧
      ∀ k, e = .duplicateKey k → k = key ∧ key ∈ (service y).twin.index.index.directory.keys := by
  -- the induction is on the attempts that are left; what is kept is that all of his own have failed
  induction more generalizing x with
  | zero =>
    obtain ⟨i, ht, ho⟩ := h x
    unfold retryMore at hr ⊢
    rw [hr] at ht
    have hend := ht.fails hs hown
    rw [← ho] at hend
    exact hend
  | succ more ih =>
    obtain ⟨i, ht, ho⟩ := h x
    unfold retryMore at hr ⊢
    split at hr
    · rename_i waited y hattempt
      rw [hattempt] at ht ho
      obtain ⟨hsteady, hfailed, -⟩ := ht.fails hs hown
      rw [← ho] at hfailed
      exact ih hsteady hfailed hr
    · rw [hr] at ht
      have hend := ht.fails hs hown
      rw [← ho] at hend
      exact hend

/-- Who adds a key again while the index is busy is refused as a duplicate only if the key was
    there when the vault was opened, or if an add that is not his has recorded it. -/
theorem Attempts.duplicate (h : Attempts key service own attempt) (attempts : Nat) {x : σ} {l : Logs} {d : Disk}
    {turns : List Turn} (ht : ∀ turn ∈ turns, turn.Plain) (hx : service x = (ofLogs l d).run turns) (hown : own x = [])
    {k : String} (hr : (retryTimeouts attempts attempt x).1 = .error (.duplicateKey k)) :
    let y := (retryTimeouts attempts attempt x).2
    k = key ∧ (key ∈ l.index.index.directory.keys ∨ ∃ (j slot : Nat) (loc : Location),
      j ∉ own y ∧ (service y).adds[j]? = some ⟨key, .recorded slot loc⟩) := by
  intro y
  obtain ⟨hsteady, -⟩ := steady_run (steady_ofLogs l d) ht
  rw [← hx] at hsteady
  obtain ⟨hend, hfailed, hdup⟩ := retryMore_fails h (attempts - 1) hsteady (by rw [hown]; exact nofun) hr
  obtain ⟨hk, hmem⟩ := hdup k rfl
  refine ⟨hk, (hend.known key hmem).imp_right ?_⟩
  rintro ⟨j, slot, loc, hj⟩
  refine ⟨j, slot, loc, ?_, hj⟩
  intro hmine
  obtain ⟨key', e, he⟩ := hfailed j hmine
  cases hj.symm.trans he

end Retry

end Service

/-! ## Calls and retries -/

namespace KeyLog

namespace Crowd

theorem timeout_run (s : Crowd) (events : List Event) : (s.run events).timeout = s.timeout := by
  induction events generalizing s with
  | nil => rfl
  | cons event events ih =>
    refine (ih (s.step event)).trans ?_
    cases event with
    | ask i r => simp only [step]; split <;> rfl
    | enter i => simp only [step]; split <;> rfl
    | expire i => simp only [step]; split <;> rfl
    | work => simp only [step]; split <;> rfl
    | leave => simp only [step]; split <;> rfl

/-- A caller gives up: the call answers a timeout, and only he is concerned. -/
theorem step_expire {s : Crowd} {i : Nat} {r : Request} (h : s.callers[i]? = some (.waiting r)) :
    s.step (.expire i) = { s with
      callers := s.callers.set i .away
      returns := s.returns ++ [⟨i, r, r.refuse (.timedOut s.timeout)⟩] } := by
  simp only [step, h]

end Crowd

/-- Any number of callers of one gate, in any order, and a caller who tries again:
    - the calls that have not timed out are answered as they are in a row, in the order in which
      they were inside; the caller who is inside is on his way from where that row ends;
    - a call that times out says so, and leaves the index, its file and all other calls alone;
    - an add that follows only timeouts of its caller is a duplicate only of what was there or
      of what another caller has recorded, at the gate as at the vault;
    - after a last commit the next opening finds what was there and what the adds have recorded. -/
theorem atomic_calls (k : KeyLog) (v : Volume) (timeout : Duration) (callers : Nat) (events : List Event) :
    let s := (Crowd.gather k v.disk timeout callers).run events
    let served := (Gate.ofIndex k timeout).serveAll v.disk (s.kept.map (·.request))
    (served.1 = s.kept.map (·.reply) ∧
      s.entered = s.kept.map (fun ret => (ret.caller, ret.request)) ++
        (s.inside.map fun visit => (visit.caller, visit.request)).toList ∧
      (s.inside = none → served.2.1.index = s.index ∧ served.2.2 = s.disk) ∧
      ∀ visit, s.inside = some visit → ∃ n,
        Body.after n (.begun visit.request, served.2.1.index, served.2.2) = (visit.body, s.index, s.disk)) ∧
    ((∀ i r, s.callers[i]? = some (.waiting r) → s.step (.expire i) = { s with
        callers := s.callers.set i .away
        returns := s.returns ++ [⟨i, r, r.refuse (.timedOut timeout)⟩] }) ∧
      ∀ (g : Gate) x d r, g.held = some x → g.serve d r = (r.refuse (.timedOut g.timeout), g, d)) ∧
    (∀ before after i space key key' l,
      s.returns = before ++ ⟨i, .add space key l, .unit (.error (.duplicateKey key'))⟩ :: after →
      (∀ ret ∈ before, ret.caller = i → ret.Adds key → ret.expired timeout = true) →
      key' = key ∧ (key ∈ k.directory.keys ∨
        ∃ ret ∈ before, ret.caller ≠ i ∧ ret.Adds key ∧ ret.reply = .unit (.ok ()))) ∧
    (∀ (σ : Type) key (service : σ → Service) own attempt, Service.Attempts key service own attempt →
      ∀ attempts x logs d turns, (∀ turn ∈ turns, Turn.Plain turn) →
      service x = (Service.ofLogs logs d).run turns → own x = [] →
      ∀ key', (retryTimeouts attempts attempt x).1 = .error (.duplicateKey key') →
      let y := (retryTimeouts attempts attempt x).2
      key' = key ∧ (key ∈ logs.index.index.directory.keys ∨ ∃ (j slot : Nat) (l : Location),
        j ∉ own y ∧ (service y).adds[j]? = some ⟨key, .recorded slot l⟩)) ∧
    ∀ path, Used path k v → s.inside = none → ∀ before ret, s.kept = before ++ [ret] → ret.request = .commit →
      ret.reply = .unit (.ok ()) → ∀ closes w, (s.index.left { v with disk := s.disk } closes).Spares path w →
      ∀ capacity, (∀ damage, (openAt w path capacity).1 ≠ .error (.corruption damage)) ∧
        (Log.Room w path capacity → ∃ k' w', openAt w path capacity = (.ok k', w')) ∧
        ∀ k' w', openAt w path capacity = (.ok k', w') →
          k'.directory.pairs = k.directory.pairs ++ s.kept.filterMap Return.added? := by
  intro s served
  have hserial : Crowd.Serial k v.disk s := Crowd.serial_run (Crowd.serial_gather k v.disk timeout callers) events
  have htimeout : s.timeout = timeout := Crowd.timeout_run ..
  obtain ⟨hreplies, hindex, hdisk⟩ := Gate.serveAll_free (g := .ofIndex k timeout) rfl v.disk (s.kept.map (·.request))
  refine ⟨⟨hreplies.trans hserial.replies, hserial.order, ?_, ?_⟩, ⟨?_, ?_⟩, ?_, ?_, ?_⟩
  · intro hfree
    obtain ⟨hi, hd⟩ := Prod.mk.inj (hserial.between hfree)
    exact ⟨hindex.trans hi, hdisk.trans hd⟩
  · intro visit hvisit
    obtain ⟨n, hn⟩ := hserial.within visit hvisit
    refine ⟨n, ?_⟩
    rw [hindex, hdisk]
    exact hn
  · intro i r hi
    rw [← htimeout]
    exact Crowd.step_expire hi
  · intro g x d r hx
    exact Gate.serve_held hx d r
  · intro before after i space key key' l hr hown
    rw [← htimeout] at hown
    exact hserial.duplicate hr hown
  · intro σ key service own attempt ha attempts x logs d turns ht hx hown key' hr
    exact ha.duplicate attempts ht hx hown hr
  · intro path hu hfree before ret hk hc hok closes w hw capacity
    exact hserial.reopens hu hfree hk hc hok hw capacity

def ample : Volume.Space := fun _ => .ok 4096

/-- Two callers add one key. The second one gives up while the first one is inside, tries again
    and is late; then the first one commits. -/
def rivalry : Crowd :=
  let add : Request := .add ample "a" ⟨3, 8, Checksum.of []⟩
  (Crowd.gather newIndex newVolume.disk (.ofSeconds 90) 2).run [.ask 0 add, .ask 1 add, .enter 0, .work, .expire 1,
    .work, .work, .work, .work, .work, .leave, .ask 1 add, .enter 1, .work, .leave, .ask 0 .commit, .enter 0, .work,
    .leave]

def byteAdd (i : Nat) (granted : Bool) : List Turn :=
  [.add i (.reserve 1), .add i (.room ample), .add i (.feed (.ok [7])), .add i .release,
    .add i (.finish ample granted), .add i .unwindContent, .add i (.unwindIndex false)]

/-- The first attempt times out, and so does its rollback; somebody else adds the key after that. -/
def rivalAttempt : Service × List Nat → Except Fault Location × Service × List Nat :=
  Service.attempt "a" fun i =>
    if i = 0 then byteAdd 0 false ++ .begin "a" :: byteAdd 1 true else byteAdd i true

theorem rivalAttempt_plain : Service.Attempts "a" Prod.fst Prod.snd rivalAttempt := by
  refine Service.attempts_attempt fun i turn ht => ?_
  have adds (j : Nat) (granted : Bool) : ∀ turn ∈ byteAdd j granted, turn.Plain := by
    simp [byteAdd, Turn.Plain, Part.Plain]
  split at ht
  · rcases List.mem_append.mp ht with ht | ht
    · exact adds _ _ turn ht
    · rcases List.mem_cons.mp ht with rfl | ht
      · trivial
      · exact adds _ _ turn ht
  · exact adds _ _ turn ht

set_option maxRecDepth 20000 in
/-- At the gate and at the vault the second attempt meets what another caller has recorded, and
    the next opening finds the key once. -/
theorem second_attempt_is_late :
    rivalry.returns.map (·.reply) = [.unit (.error (.timedOut (.ofSeconds 90))), .unit (.ok ()),
      .unit (.error (.duplicateKey "a")), .unit (.ok ())] ∧
    (∃ ret ∈ rivalry.returns.take 2, ret.caller ≠ 1 ∧ ret.Adds "a" ∧ ret.reply = .unit (.ok ())) ∧
    (retryTimeouts 3 rivalAttempt (Service.ofLogs Vault.smallLogs Vault.smallVolume.disk, [])).1 =
      .error (.duplicateKey "a") ∧
    (∃ (j slot : Nat) (l : Location), j ∉ [0, 2] ∧ (retryTimeouts 3 rivalAttempt
      (Service.ofLogs Vault.smallLogs Vault.smallVolume.disk, [])).2.1.adds[j]? = some ⟨"a", .recorded slot l⟩) ∧
    ∃ k' w, openAt { newVolume with disk := rivalry.disk } "index.bin" 0 = (.ok k', w) ∧
      k'.directory.pairs = [("a", ⟨3, 8, Checksum.of []⟩)] := by
  have hreturns : rivalry.returns = rivalry.returns.take 2 ++
      ⟨1, .add ample "a" ⟨3, 8, Checksum.of []⟩, .unit (.error (.duplicateKey "a"))⟩ ::
        [⟨0, .commit, .unit (.ok ())⟩] := by rfl
  have hkept : rivalry.kept = rivalry.kept.take 2 ++ [⟨0, .commit, .unit (.ok ())⟩] := by rfl
  have hadded : rivalry.kept.filterMap Return.added? = [("a", ⟨3, 8, Checksum.of []⟩)] := by rfl
  have hown : ∀ ret ∈ rivalry.returns.take 2, ret.caller = 1 → ret.Adds "a" → ret.expired (.ofSeconds 90) = true := by
    have hall : ∀ ret ∈ rivalry.returns.take 2, ret.caller = 1 → ret.expired (.ofSeconds 90) = true := by
      decide +kernel
    exact fun ret hret hi _ => hall ret hret hi
  obtain ⟨-, -, hgate, hvault, hopening⟩ := atomic_calls newIndex newVolume (.ofSeconds 90) 2 _
  have hlate : (retryTimeouts 3 rivalAttempt (Service.ofLogs Vault.smallLogs Vault.smallVolume.disk, [])).1 =
      .error (.duplicateKey "a") := by decide +kernel
  have howned : (retryTimeouts 3 rivalAttempt (Service.ofLogs Vault.smallLogs Vault.smallVolume.disk, [])).2.2 =
      [0, 2] := by decide +kernel
  obtain ⟨-, hknown | hrival⟩ := hgate _ _ _ _ _ _ _ hreturns hown
  · cases hknown
  obtain ⟨-, hthere | hother⟩ := hvault _ _ _ _ _ rivalAttempt_plain 3
    (Service.ofLogs Vault.smallLogs Vault.smallVolume.disk, []) _ _ [] nofun rfl rfl _ hlate
  · cases hthere
  have hvac : (Volume.empty 4096).Vacant "index.bin" 1 "index.bin" := by rfl
  have hused : Used "index.bin" newIndex newVolume := .first (Volume.sound_empty 4096) hvac new_opens
  have hsound : ({ newVolume with disk := rivalry.disk } : Volume).Sound :=
    hused.upheld.sound.of_nodes rfl (by decide +kernel)
  obtain ⟨-, hopens, hfound⟩ := hopening "index.bin" hused rfl _ _ hkept rfl rfl false _ (.refl hsound _) 0
  have hlength : ({ newVolume with disk := rivalry.disk } : Volume).length "index.bin" = .ok 96 := by decide +kernel
  obtain ⟨k', w, hopen⟩ := hopens ⟨by decide, 4096, by rfl, by decide, fun n hn => by
    cases hlength.symm.trans hn
    decide⟩
  refine ⟨by decide +kernel, hrival, hlate, howned ▸ hother, k', w, hopen, ?_⟩
  rw [hfound k' w hopen]
  exact hadded

end KeyLog

end TwinLog
