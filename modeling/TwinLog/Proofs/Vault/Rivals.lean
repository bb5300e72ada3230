/-
  TwinLog.Proofs.Vault.Rivals — adds of one key, one of which at most is recorded.

  Any number of adds may bring content for the same key. Each one fills a range of its own
  and then asks the index, which hears one caller at a time. The first that gets the key
  recorded has won it for good: its append has returned, an entry never leaves the directory,
  and whoever brings the key to the index after that fails as a duplicate, whatever else goes
  on (`Contest.late`). What the two files held when they were opened plays no part in this, as
  long as they are two files.

  `Twin.Advances` is all that one part of an add can do to the add and to both logs, and
  `Contest` is the invariant of a whole run.
-/

import TwinLog.Proofs.Vault.Service

namespace TwinLog

namespace Phase

def slot? : Phase → Option Nat
  | .appending slot | .recorded slot _ => some slot
  | _ => none

def fault? : Phase → Option Fault
  | .failing e | .unwinding e | .failed e => some e
  | _ => none

def answer? : Phase → Option (Except Fault Location)
  | .recorded _ l => some (.ok l)
  | .failed e => some (.error e)
  | _ => none

end Phase

/-- Both logs are sound, in two files; nobody holds the index. -/
structure Twin.Runs (opening : Directory) (base : Nat) (first : Image) (t : Twin) : Prop where
  apart : t.traffic.log.log.file ≠ t.index.index.log.file
  free : t.index.held = none
  content : t.traffic.Tiled headSize base first
  index : ∃ stop saved, t.index.index.Steady opening stop saved t.traffic.disk

/-- An add of `key` in `phase` and both logs `t` go on to `phase'` and `t'`. -/
structure Twin.Advances (opening : Directory) (base : Nat) (first : Image) (t : Twin) (key : String)
    (phase phase' : Phase) (t' : Twin) : Prop where
  runs : t'.Runs opening base first
  returned : ∀ slot l bs, t.traffic.Returned slot l bs → t'.traffic.Returned slot l bs
  appends_le : t.traffic.appends.length ≤ t'.traffic.appends.length
  /-- An append is taken over as it is made, and by nobody else. -/
  slot : ∀ n, phase'.slot? = some n → phase.slot? = some n ∨
    t.traffic.appends.length ≤ n ∧ n < t'.traffic.appends.length
  final : ∀ slot l, phase = .recorded slot l → phase' = phase
  fault : ∀ e, phase.fault? = some e → phase'.fault? = some e
  directory : t'.index.index.directory = t.index.index.directory ∧ (∀ slot l, phase' = .recorded slot l → phase' = phase) ∨
    ∃ slot l bs o, phase' = .recorded slot l ∧ t'.traffic.Returned slot l bs ∧
      key ∉ t.index.index.directory.keys ∧ t'.index.index.directory = t.index.index.directory ++ [⟨key, o, l⟩]

theorem Traffic.appends_length_le (s : Traffic) (m : Move) : s.appends.length ≤ (s.step m).appends.length := by
  have acts (i : Nat) (f : Append → ContentLog → Disk → Append × ContentLog × Disk) :
      s.appends.length ≤ (s.act i f).appends.length := by
    unfold act
    split
    · exact Nat.le_refl _
    · exact Nat.le_of_eq List.length_set.symm
  have heads (store : ContentLog → Disk → Except Fault Disk) : s.appends.length ≤ (s.head store).appends.length := by
    unfold head
    split <;> exact Nat.le_refl _
  cases m with
  | reserve size =>
    simp only [step]
    split
    · exact Nat.le_refl _
    · simp
  | room i space => exact acts i _
  | feed i r => exact acts i _
  | release i => exact acts i _
  | commit => exact heads _
  | rollback => exact heads _

def Deed.move : Deed → Move
  | .commit => .commit
  | .rollback => .rollback

theorem Twin.headContent_move {t t' : Twin} {deed : Deed} (h : t.headContent deed = some t') :
    t'.traffic = t.traffic.step deed.move ∧ t'.index = t.index := by
  unfold headContent at h
  split at h
  · cases h
  · rename_i d hd
    cases h
    cases deed with
    | commit =>
      have hd : t.traffic.log.commit t.traffic.disk = .ok d := hd
      simp only [Deed.move, Traffic.step, Traffic.head, hd]
      exact ⟨rfl, rfl⟩
    | rollback =>
      have hd : t.traffic.log.rollback t.traffic.disk = .ok d := hd
      simp only [Deed.move, Traffic.step, Traffic.head, hd]
      exact ⟨rfl, rfl⟩

/-! ## Both logs -/

namespace Twin.Runs

variable {opening : Directory} {base : Nat} {first : Image} {t t' : Twin} {key : String} {slot : Nat} {l : Location}

theorem work (h : t.Runs opening base first) {m : Move} (ht : t'.traffic = t.traffic.step m)
    (hi : t'.index = t.index) : t'.Runs opening base first ∧ t.traffic.Frame t'.traffic := by
  obtain ⟨traffic, index, contentDeeds, indexDeeds⟩ := t'
  cases ht
  cases hi
  have hframe := Traffic.frame_step h.content m
  obtain ⟨stop, saved, hsteady⟩ := h.index
  have hsteady' := hsteady.elsewhere hframe.only (Ne.symm h.apart)
  exact ⟨⟨hframe.file ▸ h.apart, h.free, Traffic.tiled_step h.content m fun _ => Nat.le_refl _, stop, saved, hsteady'⟩,
    hframe⟩

theorem worked (h : t.Runs opening base first) (m : Move) :
    (t.work m).Runs opening base first ∧ t.traffic.Frame (t.work m).traffic := h.work rfl rfl

/-- A call into the index, which may write its file. -/
theorem touch (h : t.Runs opening base first) {d : Disk} {stop : Nat} {saved : Directory}
    (ho : t.traffic.disk.OnlyAt t.index.index.log.file d) (ht : t'.traffic = { t.traffic with disk := d })
    (hfile : t'.index.index.log.file = t.index.index.log.file) (hfree : t'.index.held = none)
    (hindex : t'.index.index.Steady opening stop saved d) : t'.Runs opening base first := by
  obtain ⟨traffic, index, contentDeeds, indexDeeds⟩ := t'
  cases ht
  have himage : d.image t.traffic.log.log.file = t.traffic.disk.image t.traffic.log.log.file := ho.others _ h.apart
  have hmounted := h.content.mounted.elsewhere ho h.apart
  have hkeep : Image.Keeps headSize t.traffic.log.capacity (t.traffic.disk.image t.traffic.log.log.file)
      (d.image t.traffic.log.log.file) := by
    rw [himage]
    exact .refl
  exact ⟨hfile ▸ h.apart, hfree, h.content.onDisk (Nat.le_refl _) hmounted hkeep, stop, saved, hindex⟩

/-- The directory has all that it had when it was opened. -/
theorem opening_sub (h : t.Runs opening base first) : opening ⊆ t.index.index.directory := by
  obtain ⟨stop, saved, hsteady⟩ := h.index
  exact List.Subset.trans hsteady.opening_sub hsteady.saved_sub

theorem record (h : t.Runs opening base first) (key : String) (slot : Nat) (l : Location) (space : Volume.Space)
    (granted : Bool) : let r := t.record key slot l space granted
    r.2.Runs opening base first ∧ r.2.traffic.appends = t.traffic.appends ∧
      (r.1 = .recorded slot l ∧ key ∉ t.index.index.directory.keys ∧
          (∃ o, r.2.index.index.directory = t.index.index.directory ++ [⟨key, o, l⟩]) ∨
        (∃ e, r.1 = .failing e) ∧ r.2.index.index.directory = t.index.index.directory) := by
  intro r
  obtain ⟨stop, saved, hsteady⟩ := h.index
  obtain ⟨index, d, hr, hfree, hgrown, hsteady', hcases⟩ := record_cases h.free hsteady key slot l space granted
  rw [show r.2 = t.put index d from hr]
  exact ⟨h.touch hgrown.only rfl hgrown.file hfree hsteady', rfl, hcases⟩

/-- A key that is known is a duplicate for whoever gets into the index. -/
theorem record_known (h : t.Runs opening base first) (hkey : key ≠ "") (hknown : key ∈ t.index.index.directory.keys)
    (slot : Nat) (l : Location) (space : Volume.Space) :
    (t.record key slot l space true).1 = .failing (.duplicateKey key) := by
  have hcontains : t.index.index.directory.contains key = true := by
    cases hc : t.index.index.directory.contains key with
    | true => rfl
    | false => exact absurd hknown (Directory.contains_eq_false.mp hc)
  unfold Twin.record Gate.ask
  rw [if_pos rfl, Gate.call_free h.free, KeyLog.add, if_neg hkey, if_pos hcontains]

/-- Writing the index's header, or failing to. -/
theorem headIndex (h : t.Runs opening base first) (deed : Deed) (granted : Bool) :
    (t.headIndex deed granted).Runs opening base first ∧
      (t.headIndex deed granted).traffic.appends = t.traffic.appends ∧
      (t.headIndex deed granted).index.index = t.index.index := by
  obtain ⟨stop, saved, hsteady⟩ := h.index
  obtain ⟨index, d, hfree, hindex, hleft | ⟨hwritten, ho, hsteady'⟩⟩ := headIndex_cases h.free hsteady deed granted
  · rw [hleft]
    exact ⟨h.touch .refl rfl (by rw [Twin.put, hindex]) hfree (hindex ▸ hsteady), rfl, hindex⟩
  · rw [hwritten]
    exact ⟨h.touch ho rfl (by rw [Twin.put, hindex]) hfree (hindex ▸ hsteady'), rfl, hindex⟩

/-! ## One part of an add -/

theorem rests (h : t.Runs opening base first) (key : String) (phase : Phase) :
    t.Advances opening base first key phase phase t where
  runs := h
  returned := fun _ _ _ hr => hr
  appends_le := Nat.le_refl _
  slot := fun _ hn => .inl hn
  final := fun _ _ _ => rfl
  fault := fun _ he => he
  directory := .inl ⟨rfl, fun _ _ _ => rfl⟩

/-- The add goes on with the append it has, or fails, and the directory stays as it is. -/
theorem goes (ht : t'.Runs opening base first)
    (hr : ∀ slot l bs, t.traffic.Returned slot l bs → t'.traffic.Returned slot l bs)
    (hlen : t.traffic.appends.length ≤ t'.traffic.appends.length)
    (hdir : t'.index.index.directory = t.index.index.directory) (key : String) {phase phase' : Phase}
    (hopen : ∀ slot l, phase ≠ .recorded slot l) (hclosed : ∀ slot l, phase' ≠ .recorded slot l)
    (hslot : ∀ n, phase'.slot? = some n → phase.slot? = some n)
    (hfault : ∀ e, phase.fault? = some e → phase'.fault? = some e) :
    t.Advances opening base first key phase phase' t' where
  runs := ht
  returned := hr
  appends_le := hlen
  slot := fun n hn => .inl (hslot n hn)
  final := fun slot l hp => absurd hp (hopen slot l)
  fault := hfault
  directory := .inl ⟨hdir, fun slot l hp => absurd hp (hclosed slot l)⟩

/-- The same where the logs are left alone. -/
theorem stays (h : t.Runs opening base first) (key : String) {phase phase' : Phase}
    (hopen : ∀ slot l, phase ≠ .recorded slot l) (hclosed : ∀ slot l, phase' ≠ .recorded slot l)
    (hslot : ∀ n, phase'.slot? = some n → phase.slot? = some n)
    (hfault : ∀ e, phase.fault? = some e → phase'.fault? = some e) :
    t.Advances opening base first key phase phase' t :=
  goes h (fun _ _ _ hr => hr) (Nat.le_refl _) rfl key hopen hclosed hslot hfault

theorem reserved (h : t.Runs opening base first) (key : String) {size : Nat} {c : Nat × ContentLog}
    (hc : t.traffic.log.reserve size = .ok c) :
    t.Advances opening base first key .starting (.appending t.traffic.appends.length) (t.work (.reserve size)) := by
  obtain ⟨ht, hf⟩ := h.worked (.reserve size)
  have hlen : (t.work (.reserve size)).traffic.appends.length = t.traffic.appends.length + 1 := by
    simp only [Twin.work, Traffic.step, hc, List.length_append, List.length_singleton]
  exact {
    runs := ht
    returned := hf.returned
    appends_le := t.traffic.appends_length_le (.reserve size)
    slot := by
      intro n hn
      cases hn
      exact .inr ⟨Nat.le_refl _, by omega⟩
    final := by
      intro _ _ hp
      cases hp
    fault := by
      intro _ he
      cases he
    directory := by
      refine .inl ⟨rfl, ?_⟩
      intro _ _ hp
      cases hp }

/-- The append is over well, and the key is recorded or the add fails. -/
theorem returned (h : t.Runs opening base first) (key : String) (hout : t.traffic.outcome? slot = some (.ok l))
    (space : Volume.Space) (granted : Bool) :
    t.Advances opening base first key (.appending slot) (t.record key slot l space granted).1
      (t.record key slot l space granted).2 := by
  obtain ⟨bs, hret⟩ := Traffic.returned_of_outcome hout
  obtain ⟨ht, happends, hcases⟩ := h.record key slot l space granted
  have hr : ∀ slot' l' bs', t.traffic.Returned slot' l' bs' →
      (t.record key slot l space granted).2.traffic.Returned slot' l' bs' := fun _ _ _ hr => hr.congr happends
  have hlen := Nat.le_of_eq (congrArg List.length happends).symm
  rcases hcases with ⟨hphase, hnew, o, hdir⟩ | ⟨⟨e, hphase⟩, hdir⟩
  · exact {
      runs := ht
      returned := hr
      appends_le := hlen
      slot := by
        intro n hn
        rw [hphase] at hn
        exact .inl hn
      final := nofun
      fault := nofun
      directory := .inr ⟨slot, l, bs, o, hphase, hr _ _ _ hret, hnew, hdir⟩ }
  · rw [hphase]
    exact goes ht hr hlen hdir key nofun nofun nofun nofun

theorem move (h : t.Runs opening base first) (key : String) (phase : Phase) (part : Part) :
    t.Advances opening base first key phase (t.move key phase part).1 (t.move key phase part).2 := by
  have hmove := t.move_moved key phase part
  generalize (t.move key phase part).1 = phase', (t.move key phase part).2 = t' at hmove ⊢
  cases hmove with
  | still => exact h.rests key _
  | refused => exact h.stays key nofun nofun nofun nofun
  | full => exact h.stays key nofun nofun nofun nofun
  | reserved range => exact h.reserved key range
  | @filled slot m f part acts quiet =>
    obtain ⟨ht, hf⟩ := h.worked m
    exact goes ht hf.returned (t.traffic.appends_length_le m) rfl key nofun nofun (fun _ hn => hn) nofun
  | broken => exact h.stays key nofun nofun nofun nofun
  | returned space granted outcome => exact h.returned key outcome space granted
  | stuck => exact h.stays key nofun nofun nofun fun _ he => he
  | headed head =>
    obtain ⟨htraffic, hindex⟩ := Twin.headContent_move head
    obtain ⟨ht, hf⟩ := h.work htraffic hindex
    have hlen : t.traffic.appends.length ≤ t'.traffic.appends.length := by
      rw [htraffic]
      exact t.traffic.appends_length_le _
    exact goes ht hf.returned hlen (by rw [hindex]) key nofun nofun nofun fun _ he => he
  | unwound e granted =>
    obtain ⟨ht, happends, hindex⟩ := h.headIndex .rollback granted
    exact goes ht (fun _ _ _ hr => hr.congr happends) (Nat.le_of_eq (congrArg List.length happends).symm)
      (by rw [hindex]) key nofun nofun nofun fun _ he => he

end Twin.Runs

/-! ## All adds -/

theorem getElem?_set_cases {α : Type} {l : List α} {i j : Nat} {x y : α} (h : (l.set i x)[j]? = some y) :
    i = j ∧ y = x ∨ i ≠ j ∧ l[j]? = some y := by
  rw [List.getElem?_set] at h
  by_cases hij : i = j
  · rw [if_pos hij] at h
    split at h
    · cases h
      exact .inl ⟨hij, rfl⟩
    · cases h
  · rw [if_neg hij] at h
    exact .inr ⟨hij, h⟩

namespace Service

/-- What is settled in `s` is so in `s'`. -/
structure Keeps (s s' : Service) : Prop where
  returned : ∀ slot l bs, s.twin.traffic.Returned slot l bs → s'.twin.traffic.Returned slot l bs
  recorded : ∀ (i : Nat) key slot l, s.adds[i]? = some ⟨key, .recorded slot l⟩ →
    s'.adds[i]? = some ⟨key, .recorded slot l⟩
  failing : ∀ (i : Nat) key phase e, s.adds[i]? = some ⟨key, phase⟩ → phase.fault? = some e →
    ∃ phase', s'.adds[i]? = some ⟨key, phase'⟩ ∧ phase'.fault? = some e

/-- What is certain of all adds, however they have met. -/
structure Contest (opening : Directory) (base : Nat) (first : Image) (s : Service) : Prop where
  twin : s.twin.Runs opening base first
  listed : ∀ e ∈ s.twin.index.index.directory, e ∈ opening ∨ ∃ bs, s.Recorded ⟨e.key, e.location, bs⟩
  recorded : ∀ (i : Nat) key slot l, s.adds[i]? = some ⟨key, .recorded slot l⟩ → key ∉ opening.keys ∧
    key ∈ s.twin.index.index.directory.keys ∧ ∃ bs, s.twin.traffic.Returned slot l bs
  sole : ∀ (i j : Nat) key slot l slot' l', s.adds[i]? = some ⟨key, .recorded slot l⟩ →
    s.adds[j]? = some ⟨key, .recorded slot' l'⟩ → i = j
  slots : ∀ (i : Nat) a n, s.adds[i]? = some a → a.phase.slot? = some n → n < s.twin.traffic.appends.length
  own : ∀ (i j : Nat) a b n, s.adds[i]? = some a → s.adds[j]? = some b → a.phase.slot? = some n →
    b.phase.slot? = some n → i = j

variable {opening : Directory} {base : Nat} {first : Image} {s s' s'' : Service} {i : Nat} {a : Adding} {t : Twin}
  {phase : Phase} {b : Blob}

namespace Keeps

theorem refl (s : Service) : s.Keeps s :=
  ⟨fun _ _ _ hr => hr, fun _ _ _ _ hi => hi, fun _ _ phase _ hi he => ⟨phase, hi, he⟩⟩

theorem trans (h : s.Keeps s') (h' : s'.Keeps s'') : s.Keeps s'' where
  returned := fun slot l bs hr => h'.returned slot l bs (h.returned slot l bs hr)
  recorded := fun i key slot l hi => h'.recorded i key slot l (h.recorded i key slot l hi)
  failing := by
    intro i key phase e hi he
    obtain ⟨phase', hi', he'⟩ := h.failing i key phase e hi he
    exact h'.failing i key phase' e hi' he'

theorem blob (h : s.Keeps s') (hb : s.Recorded b) : s'.Recorded b := by
  obtain ⟨i, slot, hi, hr⟩ := hb
  exact ⟨i, slot, h.recorded i _ _ _ hi, h.returned _ _ _ hr⟩

theorem of_advances (ha : s.twin.Advances opening base first a.key a.phase phase t) (hi : s.adds[i]? = some a) :
    s.Keeps ⟨t, s.adds.set i { a with phase }, s.exclusive⟩ := by
  have hlt := (List.getElem?_eq_some_iff.mp hi).1
  refine ⟨ha.returned, ?_, ?_⟩
  · intro j key slot l hj
    by_cases hij : i = j
    · subst hij
      cases hi.symm.trans hj
      show (s.adds.set i _)[i]? = _
      rw [List.getElem?_set_self hlt, ha.final slot l rfl]
    · exact (List.getElem?_set_ne hij).trans hj
  · intro j key phase' e hj he
    by_cases hij : i = j
    · subst hij
      cases hi.symm.trans hj
      exact ⟨phase, List.getElem?_set_self hlt, ha.fault e he⟩
    · exact ⟨phase', (List.getElem?_set_ne hij).trans hj, he⟩

end Keeps

namespace Contest

section Advance

variable (h : s.Contest opening base first) (hi : s.adds[i]? = some a)
  (ha : s.twin.Advances opening base first a.key a.phase phase t)

include ha in
theorem advance_sub : s.twin.index.index.directory ⊆ t.index.index.directory := by
  rcases ha.directory with ⟨hdir, -⟩ | ⟨slot, l, bs, o, -, -, -, hdir⟩
  · rw [hdir]
    exact List.Subset.refl _
  · rw [hdir]
    exact List.subset_append_left ..

include hi ha in
/-- The add has recorded nothing but what it had recorded before, or its key is new. -/
theorem advance_new {slot : Nat} {l : Location} (hp : phase = .recorded slot l) :
    s.adds[i]? = some ⟨a.key, .recorded slot l⟩ ∨ a.key ∉ s.twin.index.index.directory.keys ∧
      a.key ∈ t.index.index.directory.keys ∧ ∃ bs, t.traffic.Returned slot l bs := by
  rcases ha.directory with ⟨-, hsame⟩ | ⟨slot', l', bs, o, hp', hr, hnew, hdir⟩
  · left
    rw [hi, ← hp, hsame slot l hp]
  · right
    cases hp.symm.trans hp'
    refine ⟨hnew, ?_, bs, hr⟩
    rw [hdir, Directory.keys, List.map_append]
    exact List.mem_append_right _ List.mem_cons_self

include h hi ha

theorem advance_listed (e : Entry) (he : e ∈ t.index.index.directory) :
    e ∈ opening ∨ ∃ bs, Recorded ⟨t, s.adds.set i { a with phase }, s.exclusive⟩ ⟨e.key, e.location, bs⟩ := by
  have old (he : e ∈ s.twin.index.index.directory) := (h.listed e he).imp_right fun ⟨bs, hb⟩ =>
    (⟨bs, (Keeps.of_advances ha hi).blob hb⟩ : ∃ bs, Recorded _ _)
  rcases ha.directory with ⟨hdir, -⟩ | ⟨slot, l, bs, o, hp, hr, -, hdir⟩
  · exact old (hdir ▸ he)
  · rw [hdir] at he
    rcases List.mem_append.mp he with he | he
    · exact old he
    · cases List.mem_singleton.mp he
      refine .inr ⟨bs, i, slot, ?_, hr⟩
      show (s.adds.set i _)[i]? = _
      rw [List.getElem?_set_self (List.getElem?_eq_some_iff.mp hi).1, hp]

theorem advance_recorded (j : Nat) (key : String) (slot : Nat) (l : Location)
    (hj : (s.adds.set i { a with phase })[j]? = some ⟨key, .recorded slot l⟩) :
    key ∉ opening.keys ∧ key ∈ t.index.index.directory.keys ∧ ∃ bs, t.traffic.Returned slot l bs := by
  have old (hj : s.adds[j]? = some ⟨key, .recorded slot l⟩) : key ∉ opening.keys ∧
      key ∈ t.index.index.directory.keys ∧ ∃ bs, t.traffic.Returned slot l bs := by
    obtain ⟨hnew, hmem, bs, hr⟩ := h.recorded j key slot l hj
    exact ⟨hnew, List.map_subset _ (advance_sub ha) hmem, bs, ha.returned _ _ _ hr⟩
  rcases getElem?_set_cases hj with ⟨rfl, heq⟩ | ⟨-, hj⟩
  · cases heq
    rcases advance_new hi ha rfl with hi' | ⟨hnew, hmem, hr⟩
    · exact old hi'
    · exact ⟨fun ho => hnew (List.map_subset _ h.twin.opening_sub ho), hmem, hr⟩
  · exact old hj

theorem advance_sole (j j' : Nat) (key : String) (slot : Nat) (l : Location) (slot' : Nat) (l' : Location)
    (hj : (s.adds.set i { a with phase })[j]? = some ⟨key, .recorded slot l⟩)
    (hj' : (s.adds.set i { a with phase })[j']? = some ⟨key, .recorded slot' l'⟩) : j = j' := by
  have other {n : Nat} {slot l slot' l'} (hp : phase = .recorded slot l)
      (hn : s.adds[n]? = some ⟨a.key, .recorded slot' l'⟩) : i = n := by
    rcases advance_new hi ha hp with hi' | ⟨hnew, -⟩
    · exact h.sole i n _ _ _ _ _ hi' hn
    · exact absurd (h.recorded n _ _ _ hn).2.1 hnew
  rcases getElem?_set_cases hj with ⟨rfl, heq⟩ | ⟨-, hold⟩
  · rcases getElem?_set_cases hj' with ⟨rfl, -⟩ | ⟨-, hold'⟩
    · rfl
    · cases heq
      exact other rfl hold'
  · rcases getElem?_set_cases hj' with ⟨rfl, heq⟩ | ⟨-, hold'⟩
    · cases heq
      exact (other rfl hold).symm
    · exact h.sole j j' _ _ _ _ _ hold hold'

theorem advance_slots (j : Nat) (c : Adding) (n : Nat) (hj : (s.adds.set i { a with phase })[j]? = some c)
    (hn : c.phase.slot? = some n) : n < t.traffic.appends.length := by
  rcases getElem?_set_cases hj with ⟨rfl, rfl⟩ | ⟨-, hj⟩
  · rcases ha.slot n hn with hn | ⟨-, hn⟩
    · exact Nat.lt_of_lt_of_le (h.slots i a n hi hn) ha.appends_le
    · exact hn
  · exact Nat.lt_of_lt_of_le (h.slots j c n hj hn) ha.appends_le

theorem advance_own (j j' : Nat) (c c' : Adding) (n : Nat) (hj : (s.adds.set i { a with phase })[j]? = some c)
    (hj' : (s.adds.set i { a with phase })[j']? = some c') (hn : c.phase.slot? = some n)
    (hn' : c'.phase.slot? = some n) : j = j' := by
  have other {m : Nat} {c : Adding} (hp : phase.slot? = some n) (hm : s.adds[m]? = some c)
      (hc : c.phase.slot? = some n) : i = m := by
    rcases ha.slot n hp with hp | ⟨hle, -⟩
    · exact h.own i m a c n hi hm hp hc
    · have := h.slots m c n hm hc
      omega
  rcases getElem?_set_cases hj with ⟨rfl, rfl⟩ | ⟨-, hj⟩
  · rcases getElem?_set_cases hj' with ⟨rfl, -⟩ | ⟨-, hj'⟩
    · rfl
    · exact other hn hj' hn'
  · rcases getElem?_set_cases hj' with ⟨rfl, rfl⟩ | ⟨-, hj'⟩
    · exact (other hn' hj hn).symm
    · exact h.own j j' c c' n hj hj' hn hn'

theorem advance : Contest opening base first ⟨t, s.adds.set i { a with phase }, s.exclusive⟩ :=
  ⟨ha.runs, advance_listed h hi ha, advance_recorded h hi ha, advance_sole h hi ha, advance_slots h hi ha,
    advance_own h hi ha⟩

end Advance

/-- The logs move on and the adds stay where they are, with the same directory. -/
theorem onTwin (h : s.Contest opening base first) (ht : t.Runs opening base first)
    (hr : ∀ slot l bs, s.twin.traffic.Returned slot l bs → t.traffic.Returned slot l bs)
    (hlen : s.twin.traffic.appends.length ≤ t.traffic.appends.length)
    (hdir : t.index.index.directory = s.twin.index.index.directory) (exclusive : Option Deed) :
    Contest opening base first ⟨t, s.adds, exclusive⟩ ∧ s.Keeps ⟨t, s.adds, exclusive⟩ := by
  refine ⟨⟨ht, ?_, ?_, h.sole, ?_, h.own⟩, hr, fun _ _ _ _ hi => hi, fun _ _ phase _ hi he => ⟨phase, hi, he⟩⟩
  · intro e he
    refine (h.listed e (hdir ▸ he)).imp_right ?_
    rintro ⟨bs, j, slot, hj, hret⟩
    exact ⟨bs, j, slot, hj, hr _ _ _ hret⟩
  · intro j key slot l hj
    obtain ⟨hnew, hmem, bs, hret⟩ := h.recorded j key slot l hj
    exact ⟨hnew, hdir ▸ hmem, bs, hr _ _ _ hret⟩
  · intro j c n hj hn
    exact Nat.lt_of_lt_of_le (h.slots j c n hj hn) hlen

theorem begins (h : s.Contest opening base first) (key : String) :
    Contest opening base first { s with adds := s.adds ++ [⟨key, .starting⟩] } ∧
      s.Keeps { s with adds := s.adds ++ [⟨key, .starting⟩] } := by
  have old {j : Nat} {c : Adding} (hj : s.adds[j]? = some c) : (s.adds ++ [⟨key, .starting⟩])[j]? = some c :=
    getElem?_snoc_of_some hj
  have slotted {j : Nat} {c : Adding} {n : Nat} (hj : (s.adds ++ [⟨key, .starting⟩])[j]? = some c)
      (hn : c.phase.slot? = some n) : s.adds[j]? = some c := by
    rcases getElem?_snoc_cases hj with hj | ⟨-, rfl⟩
    · exact hj
    · cases hn
  refine ⟨⟨h.twin, ?_, ?_, ?_, ?_, ?_⟩, fun _ _ _ hr => hr, fun _ _ _ _ hi => old hi, fun _ _ phase _ hi he =>
    ⟨phase, old hi, he⟩⟩
  · intro e he
    refine (h.listed e he).imp_right ?_
    rintro ⟨bs, j, slot, hj, hret⟩
    exact ⟨bs, j, slot, old hj, hret⟩
  · intro j key' slot l hj
    exact h.recorded j key' slot l (slotted hj rfl)
  · intro j j' key' slot l slot' l' hj hj'
    exact h.sole j j' _ _ _ _ _ (slotted hj rfl) (slotted hj' rfl)
  · intro j c n hj hn
    exact h.slots j c n (slotted hj hn) hn
  · intro j j' c c' n hj hj' hn hn'
    exact h.own j j' c c' n (slotted hj hn) (slotted hj' hn') hn hn'

end Contest

theorem contest_step (h : s.Contest opening base first) (turn : Turn) :
    (s.step turn).Contest opening base first ∧ s.Keeps (s.step turn) := by
  have hturn := s.step_turned turn
  generalize s.step turn = s' at hturn ⊢
  cases hturn with
  | still => exact ⟨h, .refl s⟩
  | begun named shared => exact h.begins _
  | @moved i a add part =>
    have ha := h.twin.move a.key a.phase part
    exact ⟨h.advance add ha, .of_advances ha add⟩
  | @entered deed t shared quiet head =>
    obtain ⟨htraffic, hindex⟩ := Twin.headContent_move head
    obtain ⟨hruns, hframe⟩ := h.twin.work htraffic hindex
    refine h.onTwin hruns hframe.returned ?_ (by rw [hindex]) _
    rw [htraffic]
    exact s.twin.traffic.appends_length_le _
  | @left deed hdeed granted =>
    obtain ⟨hruns, happends, hindex⟩ := h.twin.headIndex deed granted
    exact h.onTwin hruns (fun _ _ _ hr => hr.congr happends) (Nat.le_of_eq (congrArg List.length happends).symm)
      (by rw [hindex]) _

theorem contest_run (h : s.Contest opening base first) (turns : List Turn) :
    (s.run turns).Contest opening base first ∧ s.Keeps (s.run turns) := by
  induction turns generalizing s with
  | nil => exact ⟨h, .refl s⟩
  | cons turn turns ih =>
    obtain ⟨hnext, hkeeps⟩ := contest_step h turn
    obtain ⟨hrun, hmore⟩ := ih hnext
    exact ⟨hrun, hkeeps.trans hmore⟩

/-! ## The winner and the others -/

variable {j slot : Nat} {l : Location} {key : String} {e : Fault}

namespace Contest

/-- A key has one blob at most. -/
theorem unique (h : s.Contest opening base first) {b b' : Blob} (hb : s.Recorded b) (hb' : s.Recorded b')
    (hkey : b.key = b'.key) : b = b' := by
  obtain ⟨key, l, bs⟩ := b
  obtain ⟨key', l', bs'⟩ := b'
  obtain ⟨i, slot, hi, c, hc, -, hbs⟩ := hb
  obtain ⟨j, slot', hj, c', hc', -, hbs'⟩ := hb'
  cases hkey
  have hij := h.sole i j _ _ _ _ _ hi hj
  subst hij
  cases hi.symm.trans hj
  cases hc.symm.trans hc'
  cases hbs.symm.trans hbs'
  rfl

/-- An add that gets into the index after its key was recorded. -/
theorem late (h : s.Contest opening base first) (hb : s.Recorded b) (hkey : b.key ≠ "")
    (hj : s.adds[j]? = some ⟨b.key, .appending slot⟩) (hout : s.twin.traffic.outcome? slot = some (.ok l))
    (space : Volume.Space) :
    (s.step (.add j (.finish space true))).adds[j]? = some ⟨b.key, .failing (.duplicateKey b.key)⟩ := by
  obtain ⟨i, slot', hi, -⟩ := hb
  have hknown := (h.recorded i _ _ _ hi).2.1
  simp only [step, hj, Twin.move, hout]
  rw [List.getElem?_set_self (List.getElem?_eq_some_iff.mp hj).1, h.twin.record_known hkey hknown]

/-- What the directory says of a key that it did not have at the opening: the location of the
    blob that was recorded under it, if there is one. -/
theorem found (h : s.Contest opening base first) (hnew : key ∉ opening.keys) :
    ∃ found : Option Blob, (∀ b, found = some b ↔ s.Recorded b ∧ b.key = key) ∧
      (s.twin.index.index.directory.find? key).map (·.location) = found.map (·.location) := by
  cases hf : s.twin.index.index.directory.find? key with
  | none =>
    refine ⟨none, ?_, rfl⟩
    intro b
    refine ⟨fun hb => (nomatch hb), ?_⟩
    rintro ⟨⟨i, slot, hi, -⟩, rfl⟩
    obtain ⟨e, he, hkey⟩ := List.mem_map.mp (h.recorded i _ _ _ hi).2.1
    exact absurd (beq_iff_eq.mpr hkey) (List.find?_eq_none.mp hf e he)
  | some e =>
    have hmem := List.mem_of_find?_eq_some hf
    have hkey : e.key = key := beq_iff_eq.mp (List.find?_some (p := fun e : Entry => e.key == key) hf)
    rcases h.listed e hmem with ho | ⟨bs, hb⟩
    · exact absurd (List.mem_map.mpr ⟨e, ho, hkey⟩) hnew
    · refine ⟨some ⟨e.key, e.location, bs⟩, ?_, rfl⟩
      intro b
      constructor
      · rintro heq
        cases heq
        exact ⟨hb, hkey⟩
      · rintro ⟨hb', hkey'⟩
        rw [h.unique hb hb' (hkey.trans hkey'.symm)]

end Contest

theorem step_add {phase : Phase} (hj : s.adds[j]? = some ⟨key, phase⟩) (part : Part) :
    (s.step (.add j part)).adds[j]? = some ⟨key, (s.twin.move key phase part).1⟩ := by
  simp only [step, hj]
  exact List.getElem?_set_self (List.getElem?_eq_some_iff.mp hj).1

theorem move_unwinds {phase : Phase} (he : phase.fault? = some e) (t : Twin) (key : String) :
    (t.move key phase .unwindContent).1 = .unwinding e ∨ (t.move key phase .unwindContent).1 = .failed e := by
  cases phase with
  | failing e' =>
    cases he
    simp only [Twin.move]
    split
    · exact .inr rfl
    · exact .inl rfl
  | unwinding e' =>
    cases he
    exact .inl rfl
  | failed e' =>
    cases he
    exact .inr rfl
  | _ => cases he

/-- An add that has failed puts both headers back and answers why. -/
theorem run_unwinds {phase : Phase} (hj : s.adds[j]? = some ⟨key, phase⟩) (he : phase.fault? = some e)
    (granted : Bool) :
    (s.run [.add j .unwindContent, .add j (.unwindIndex granted)]).adds[j]? = some ⟨key, .failed e⟩ := by
  show ((s.step (.add j .unwindContent)).step (.add j (.unwindIndex granted))).adds[j]? = _
  have hfirst := step_add hj .unwindContent
  rcases move_unwinds he s.twin key with hp | hp
  · rw [hp] at hfirst
    exact step_add hfirst _
  · rw [hp] at hfirst
    exact step_add hfirst _

/-! ## From the opening on -/

/-- A vault that was just opened on two different files, whatever they hold. -/
theorem contest_opened {v v' u w : Volume} {settings : Settings} {c : ContentLog} {k : KeyLog} (hv : v.Sound)
    (h : Vault.Parts v settings u c w k v') (hne : c.log.file ≠ k.log.file) (timeout : Duration) :
    Contest k.directory c.cursor (v'.disk.image c.log.file) (ofLogs ⟨c, Gate.ofIndex k timeout⟩ v'.disk) := by
  have hleaves := h.leaves hv hne
  obtain ⟨stop, hsteady⟩ := hleaves.index
  exact {
    twin := ⟨hne, rfl, hleaves.resting.tiled headSize, stop, _, hsteady⟩
    listed := fun e he => .inl he
    recorded := fun _ _ _ _ hi => nomatch hi
    sole := fun _ _ _ _ _ _ _ hi => nomatch hi
    slots := fun _ _ _ hi => nomatch hi
    own := fun _ _ _ _ _ hi => nomatch hi }

end Service

end TwinLog
