/-
  TwinLog.Proofs.Vault.Tuning — capacities and buffers do not show.

  A `Task` is an action without its tuning: the two capacities, the read buffer and the free
  bytes at that moment. `Plan` is the vault that has no capacities: a tree of names, and a shelf or
  a ledger. As long as nothing is refused for want of room, a run under any tuning shows
  what the plan shows, task by task: the same answers and the same two headers
  (`Plan.Matches.showings_eq`). So two runs under two tunings show the same
  (`tuning_does_not_show`). A capacity that does not fit a word with its header is refused,
  and that does show (`oversized_capacity_shows`).
-/

import TwinLog.Proofs.Vault.World

namespace TwinLog

/-- An action without its tuning. Content comes from a script. -/
inductive Task where
  | start (s : Settings)
  | add (key : String) (events : List Event) (declared : Except IoFault Nat)
  | get (key : String)
  | locate (key : String)
  | contains (key : String)
  | commit
  | rollback
  | close
  | drop
  | stop

structure Tuning where
  storageCapacity : Nat
  indexCapacity : Nat
  readBufferSize : Nat
  /-- Free bytes. -/
  available : Nat

namespace Tuning

def tune (t : Tuning) (s : Settings) : Settings :=
  { s with storageCapacity := t.storageCapacity, indexCapacity := t.indexCapacity, readBufferSize := t.readBufferSize }

structure Fits (t : Tuning) : Prop where
  buffer : 0 < t.readBufferSize
  storage : t.storageCapacity + headSize ≤ maxUnsigned
  index : t.indexCapacity + headSize ≤ maxUnsigned

end Tuning

def Settings.plain (s : Settings) : Settings := { s with readBufferSize := 1 }

namespace Task

def At (storage index : String) : Task → Prop
  | start s => s.storagePath = storage ∧ s.indexPath = index
  | _ => True

/-- A script that has answered empty goes on doing so. -/
def Settled : Task → Prop
  | add _ events _ => Event.Settled events
  | _ => True

def action (t : Tuning) (space : Volume.Space) : Task → Action
  | start s => .start (t.tune s)
  | add key events declared => .call (.add space key (.script [] events declared))
  | get key => .call (.get key)
  | locate key => .call (.locate key)
  | contains key => .call (.contains key)
  | commit => .call .commit
  | rollback => .call .rollback
  | close => .close
  | drop => .drop
  | stop => .stop

end Task

/-! ## Runs and what they show -/

def Answer.lacksSpace (a : Answer) : Bool :=
  match a.fault? with
  | some (.noSpace _ _) => true
  | _ => false

structure Showing where
  answer : Answer
  contentHead : Option Int
  indexHead : Option Int
  deriving DecidableEq

def Volume.headAt (v : Volume) (path : String) : Option Int :=
  match v.openToWrite path with
  | .ok (f, _) => (v.disk.image f).head?
  | .error _ => none

namespace World

def attempt (w : World) (task : Task) (t : Tuning) : Answer × World :=
  let freed := (w.step (.free t.available)).2
  freed.step (task.action t freed.volume.space)

def showing (storage index : String) (w : World) (answer : Answer) : Showing :=
  ⟨answer, w.volume.headAt storage, w.volume.headAt index⟩

def showings (storage index : String) (w : World) : List (Task × Tuning) → List Showing
  | [] => []
  | (task, t) :: rest =>
    let (answer, w) := w.attempt task t
    w.showing storage index answer :: showings storage index w rest

end World

/-! ## The plan -/

def Condition.shelf : Condition → Shelf
  | .idle s | .closed s => s
  | .busy g => g.shelf

/-- The vault without capacities. The bytes of its volume do not matter. -/
structure Plan where
  volume : Volume
  condition : Condition

namespace Plan

def ask (p : Plan) (f : Ledger → Answer × Ledger) (closed : Answer) : Answer × Plan :=
  match p.condition with
  | .idle _ => (.nothing, p)
  | .busy g => ((f g).1, { p with condition := .busy (f g).2 })
  | .closed _ => (closed, p)

def add (key : String) (events : List Event) (declared : Except IoFault Nat) (g : Ledger) : Answer × Ledger :=
  if key = "" then (.location (.error (.invalidArgument .emptyKey)), g)
  else (.location (g.add key events declared).1, (g.add key events declared).2)

def step (p : Plan) : Task → Answer × Plan
  | .start s =>
    match p.condition with
    | .idle shelf => match shelf.openAt p.volume s.plain with
      | (.error (e, shelf), volume) => (.done (.error e), ⟨volume, .idle shelf⟩)
      | (.ok g, volume) => (.done (.ok ()), ⟨volume, .busy g⟩)
    | _ => (.nothing, p)
  | .add key events declared => p.ask (add key events declared) (.location (.error (Vault.refusal key)))
  | .get key => p.ask (fun g => (.bytes (g.current.get key), g)) (Call.get key).refused
  | .locate key => p.ask (fun g => (.location (g.current.locate key), g)) (Call.locate key).refused
  | .contains key => p.ask (fun g => (.flag (g.current.contains key), g)) (Call.contains key).refused
  | .commit => p.ask (fun g => (.done g.commit.1, g.commit.2)) Call.commit.refused
  | .rollback => p.ask (fun g => (.done (.ok ()), g.undo)) Call.rollback.refused
  | .close =>
    match p.condition with
    | .idle _ => (.nothing, p)
    | condition => (.done (.ok ()), { p with condition := .closed condition.shelf })
  | .drop | .stop => (.nothing, { p with condition := .idle p.condition.shelf })

def headAt (p : Plan) (path : String) (head : Option Int) : Option Int :=
  match p.volume.openToWrite path with
  | .ok _ => head
  | .error _ => none

def showing (storage index : String) (p : Plan) (answer : Answer) : Showing :=
  ⟨answer, p.headAt storage p.condition.shelf.contentHead, p.headAt index p.condition.shelf.indexHead⟩

def showings (storage index : String) (p : Plan) : List Task → List Showing
  | [] => []
  | task :: rest =>
    let (answer, p) := p.step task
    p.showing storage index answer :: showings storage index p rest

/-- The world has the tree of the plan and stands as the plan says. -/
structure Matches (storage index : String) (p : Plan) (w : World) : Prop where
  twin : p.volume.Twin w.volume
  stands : w.Stands storage index p.condition

end Plan

/-! ## One task -/

theorem World.Stands.shelved {storage index : String} {condition : Condition} {w : World}
    (h : w.Stands storage index condition) : Shelved storage index condition.shelf w.volume := by
  cases h with
  | idle shelved => exact shelved
  | busy storagePath indexPath hosts follows =>
    subst storagePath indexPath
    exact hosts.shelved follows
  | closed shelved => exact shelved

namespace Plan

variable {storage index : String} {p : Plan} {w : World}

theorem headAt_eq {v : Volume} {path : String} {head : Option Int} (ht : p.volume.Twin v) (hv : v.Sound)
    (hf : v.Finds path (·.head? = head)) : v.headAt path = p.headAt path head := by
  unfold Volume.headAt Plan.headAt
  rcases ht.openToWrite path with ⟨e, hp, hw⟩ | ⟨f, v0', v', hp, hw, -⟩
  · rw [hp, hw]
  · rw [hp, hw]
    exact hf.opened hw hv

theorem Matches.showing_eq (h : p.Matches storage index w) (answer : Answer) :
    w.showing storage index answer = p.showing storage index answer := by
  have hs := h.stands.shelved
  have hcontent := headAt_eq h.twin hs.sound (hs.content.imp fun _ => Shelf.InContent.head)
  have hindex := headAt_eq h.twin hs.sound (hs.index.imp fun _ => Shelf.InIndex.head)
  rw [World.showing, Plan.showing, hcontent, hindex]

theorem Matches.freed (h : p.Matches storage index w) (available : Nat) :
    p.Matches storage index (w.step (.free available)).2 :=
  ⟨h.twin.trans ⟨rfl, rfl⟩, h.stands.freed available⟩

/-- A call, if `f` says what an open vault does. -/
theorem Matches.call (h : p.Matches storage index w) (c : Call) (f : Ledger → Answer × Ledger)
    (hopen : ∀ {berth : Berth} {g : Ledger} {l : Logs} (settings : Settings), w.volume.Hosts berth →
      l.Follows berth g w.volume.disk → ∃ answer l' d',
        (Vault.mk settings (some l)).perform w.volume.disk c = (answer, ⟨settings, some l'⟩, d') ∧
        (answer.lacksSpace = true ∨ answer = (f g).1 ∧ l'.Follows berth (f g).2 d')) :
    (w.step (.call c)).1.lacksSpace = true ∨ (w.step (.call c)).1 = (p.ask f c.refused).1 ∧
      (p.ask f c.refused).2.Matches storage index (w.step (.call c)).2 := by
  obtain ⟨volume, condition⟩ := p
  obtain ⟨twin, stands⟩ := h
  cases stands with
  | idle shelved => exact .inr ⟨rfl, twin, .idle shelved⟩
  | @busy berth g settings l v storagePath indexPath hosts follows =>
    obtain ⟨answer, l', d', heq, hcase⟩ := hopen settings hosts follows
    simp only [World.step, heq, ask]
    rcases hcase with hlack | ⟨hanswer, h'⟩
    · exact .inl hlack
    · have hv' : v.Twin { v with disk := d' } := ⟨rfl, h'.size.trans hosts.size.symm⟩
      exact .inr ⟨hanswer, twin.trans hv', .busy storagePath indexPath (hosts.onDisk h') h'⟩
  | closed shelved =>
    simp only [World.step, Vault.perform_closed, ask]
    exact .inr ⟨trivial, twin, .closed shelved⟩

theorem Matches.look (h : p.Matches storage index w) (c : Call) {answer : Ledger → Answer}
    (hc : ∀ g : Ledger, g.look? c = some (answer g)) :
    (w.step (.call c)).1.lacksSpace = true ∨
      (w.step (.call c)).1 = (p.ask (fun g => (answer g, g)) c.refused).1 ∧
        (p.ask (fun g => (answer g, g)) c.refused).2.Matches storage index (w.step (.call c)).2 := by
  refine h.call c _ ?_
  intro berth g l settings hosts follows
  obtain ⟨l', heq, h'⟩ := follows.perform_look settings (hc g)
  exact ⟨_, l', _, heq, .inr ⟨rfl, h'⟩⟩

/-- Space is told for both files of an open vault, so it can only be too little. -/
theorem lacksSpace_of_checkSpace {v : Volume} {berth : Berth} (h : v.Hosts berth) {path : String} {required : Nat}
    {e : Fault} (hpath : path = berth.storagePath ∨ path = berth.indexPath)
    (hc : Log.checkSpace v.space path required = .error e) :
    (Answer.location (.error e)).lacksSpace = true := by
  have hspace : ∃ available, v.space path = .ok available := by
    rcases hpath with rfl | rfl
    · exact h.storage_space
    · exact h.index_space
  obtain ⟨available, hspace⟩ := hspace
  rcases Log.checkSpace_cases v.space path required with ⟨e', he, -⟩ | ⟨a, -, hshort⟩ | ⟨a, -, hok⟩
  · cases hspace.symm.trans he
  · cases hshort.symm.trans hc
    rfl
  · cases hok.symm.trans hc

theorem Matches.add (h : p.Matches storage index w) (key : String) {events : List Event} (hs : Event.Settled events)
    (declared : Except IoFault Nat) :
    let answered := w.step (.call (.add w.volume.space key (.script [] events declared)))
    answered.1.lacksSpace = true ∨ answered.1 = (p.step (.add key events declared)).1 ∧
      (p.step (.add key events declared)).2.Matches storage index answered.2 := by
  refine h.call (.add w.volume.space key (.script [] events declared)) (Plan.add key events declared) ?_
  intro berth g l settings hosts follows
  unfold Plan.add
  by_cases hkey : key = ""
  · subst hkey
    exact ⟨_, l, _, Logs.Follows.perform_add_empty .., .inr ⟨rfl, follows⟩⟩
  · rw [if_neg hkey]
    cases hadd : l.add w.volume.space w.volume.disk key (.script [] events declared) with
    | mk r rest =>
      obtain ⟨l', d'⟩ := rest
      refine ⟨_, l', d', Logs.Follows.perform_add settings hkey hadd, ?_⟩
      rcases follows.add_scripted w.volume.space hkey hs declared hadd with
        ⟨path, required, e, hpath, hc, rfl⟩ | ⟨rfl, h'⟩
      · exact .inl (lacksSpace_of_checkSpace hosts hpath hc)
      · exact .inr ⟨rfl, h'⟩

/-- An opening under a tuning that fits checks and makes what one without it does. -/
theorem openAt_tuned {t : Tuning} (ht : t.Fits) (shelf : Shelf) (v : Volume) (s : Settings) :
    shelf.openAt v (t.tune s) = shelf.openAt v s.plain := by
  have hbuffer : (t.tune s).readBufferSize ≠ 0 := Nat.ne_of_gt ht.buffer
  have hplain : s.plain.readBufferSize ≠ 0 := Nat.one_ne_zero
  have hcheck : (t.tune s).check = s.plain.check := by
    unfold Settings.check
    rw [if_neg hbuffer, if_neg hplain]
    rfl
  have hfolder : (t.tune s).workingFolder = s.plain.workingFolder := rfl
  have hstorage : (t.tune s).storagePath = s.plain.storagePath := rfl
  have hindex : (t.tune s).indexPath = s.plain.indexPath := rfl
  simp only [Shelf.openAt, hcheck, hfolder, hstorage, hindex]

theorem Matches.start (h : p.Matches storage index w) {s : Settings} (hat : (Task.start s).At storage index)
    {t : Tuning} (ht : t.Fits) : (w.step (.start (t.tune s))).1.lacksSpace = true ∨
      (w.step (.start (t.tune s))).1 = (p.step (.start s)).1 ∧
        (p.step (.start s)).2.Matches storage index (w.step (.start (t.tune s))).2 := by
  obtain ⟨volume, condition⟩ := p
  obtain ⟨twin, stands⟩ := h
  cases stands with
  | @idle shelf v shelved =>
    obtain ⟨rfl, rfl⟩ := hat
    have hopens := shelved.opens (t.tune s) twin
    simp only [World.step, Plan.step]
    generalize Vault.openAt v (t.tune s) = opened at hopens
    cases hopens with
    | refused shelved' reason =>
      -- no room, a capacity that does not fit, or what the plan is refused as well
      rcases reason with ⟨required, available, rfl⟩ | hfits | ⟨v0', hplan, twin'⟩
      · exact .inl rfl
      · exact absurd ⟨ht.storage, ht.index⟩ hfits
      · rw [openAt_tuned ht] at hplan
        rw [hplan]
        exact .inr ⟨rfl, twin', .idle shelved'⟩
    | opened hstorage hindex hosts follows hplan twin' =>
      rw [openAt_tuned ht] at hplan
      rw [hplan]
      exact .inr ⟨rfl, twin', .busy hstorage hindex hosts follows⟩
  | busy storagePath indexPath hosts follows => exact .inr ⟨rfl, twin, .busy storagePath indexPath hosts follows⟩
  | closed shelved => exact .inr ⟨rfl, twin, .closed shelved⟩

theorem Matches.letGo (h : p.Matches storage index w) :
    ((w.step .close).1 = (p.step .close).1 ∧ (p.step .close).2.Matches storage index (w.step .close).2) ∧
      ((w.step .drop).1 = (p.step .drop).1 ∧ (p.step .drop).2.Matches storage index (w.step .drop).2) ∧
      ((w.step .stop).1 = (p.step .stop).1 ∧ (p.step .stop).2.Matches storage index (w.step .stop).2) := by
  obtain ⟨volume, condition⟩ := p
  obtain ⟨twin, stands⟩ := h
  cases stands with
  | idle shelved => exact ⟨⟨rfl, twin, .idle shelved⟩, ⟨rfl, twin, .idle shelved⟩, rfl, twin, .idle shelved⟩
  | @busy berth g settings l v storagePath indexPath hosts follows =>
    subst storagePath indexPath
    have hclosed := (hosts.onDisk follows.close).shelved follows.close
    have htwin : v.Twin { v with disk := l.close v.disk } := ⟨rfl, follows.close.size.trans hosts.size.symm⟩
    exact ⟨⟨rfl, twin.trans htwin, .closed hclosed⟩, ⟨rfl, twin.trans htwin, .idle hclosed⟩, rfl, twin,
      .idle (hosts.shelved follows)⟩
  | closed shelved => exact ⟨⟨rfl, twin, .closed shelved⟩, ⟨rfl, twin, .idle shelved⟩, rfl, twin, .idle shelved⟩

/-- One task under one tuning: something lacks room, or the plan says what happens. -/
theorem Matches.step (h : p.Matches storage index w) {task : Task} (hat : task.At storage index) (hs : task.Settled)
    {t : Tuning} (ht : t.Fits) :
    let answered := w.step (task.action t w.volume.space)
    answered.1.lacksSpace = true ∨
      answered.1 = (p.step task).1 ∧ (p.step task).2.Matches storage index answered.2 := by
  cases task with
  | start s => exact h.start hat ht
  | add key events declared => exact h.add key hs declared
  | get key => exact h.look (.get key) fun _ => rfl
  | locate key => exact h.look (.locate key) fun _ => rfl
  | contains key => exact h.look (.contains key) fun _ => rfl
  | commit =>
    refine h.call .commit _ ?_
    intro berth g l settings hosts follows
    obtain ⟨l', d', heq, h'⟩ := follows.perform_commit settings
    exact ⟨_, l', d', heq, .inr ⟨rfl, h'⟩⟩
  | rollback =>
    refine h.call .rollback _ ?_
    intro berth g l settings hosts follows
    obtain ⟨l', d', heq, h'⟩ := follows.perform_rollback settings
    exact ⟨_, l', d', heq, .inr ⟨rfl, h'⟩⟩
  | close => exact .inr h.letGo.1
  | drop => exact .inr h.letGo.2.1
  | stop => exact .inr h.letGo.2.2

/-! ## Whole runs -/

/-- Where room is never lacking, a run shows what the plan does. -/
theorem Matches.showings_eq (h : p.Matches storage index w) {steps : List (Task × Tuning)}
    (hat : ∀ x ∈ steps, x.1.At storage index) (hs : ∀ x ∈ steps, x.1.Settled) (ht : ∀ x ∈ steps, x.2.Fits)
    (hroom : ∀ r ∈ w.showings storage index steps, r.answer.lacksSpace = false) :
    w.showings storage index steps = p.showings storage index (steps.map (·.1)) := by
  -- on the steps, for every plan that matches: the tuning reaches the world and not the plan
  induction steps generalizing p w with
  | nil => rfl
  | cons x rest ih =>
    obtain ⟨task, t⟩ := x
    obtain ⟨hat, hats⟩ := List.forall_mem_cons.mp hat
    obtain ⟨hs, hss⟩ := List.forall_mem_cons.mp hs
    obtain ⟨ht, hts⟩ := List.forall_mem_cons.mp ht
    obtain ⟨hroom, hrooms⟩ := List.forall_mem_cons.mp hroom
    have hstep := (h.freed t.available).step hat hs ht
    rcases hstep with hlack | ⟨hanswer, hmatches⟩
    · cases hroom.symm.trans hlack
    · rw [World.showings, List.map_cons, Plan.showings]
      dsimp only
      rw [← hanswer, ← hmatches.showing_eq, ← ih hmatches hats hss hts hrooms]
      rfl

end Plan

/-- Two runs of the same tasks from two files that are new or empty and never one file, each with
    its own capacities, buffers and free bytes at every step: if nothing lacks room in
    either, all answers are the same, and the two headers after each of them. -/
theorem tuning_does_not_show {v : Volume} {storage index : String} (hv : v.Fresh storage index) {tasks : List Task}
    (hat : ∀ task ∈ tasks, task.At storage index) (hs : ∀ task ∈ tasks, task.Settled) {left right : List Tuning}
    (hl : left.length = tasks.length) (hr : right.length = tasks.length) (hleft : ∀ t ∈ left, t.Fits)
    (hright : ∀ t ∈ right, t.Fits)
    (hroom : ∀ r ∈ (World.mk none v).showings storage index (tasks.zip left), r.answer.lacksSpace = false)
    (hroom' : ∀ r ∈ (World.mk none v).showings storage index (tasks.zip right), r.answer.lacksSpace = false) :
    (World.mk none v).showings storage index (tasks.zip left) =
      (World.mk none v).showings storage index (tasks.zip right) := by
  have hplan : Plan.Matches storage index ⟨v, .idle ⟨[], none, none⟩⟩ ⟨none, v⟩ := ⟨.refl v, World.stands_of_fresh hv⟩
  have hrun {tunings : List Tuning} (hlen : tunings.length = tasks.length) (hfits : ∀ t ∈ tunings, t.Fits)
      (hroom : ∀ r ∈ (World.mk none v).showings storage index (tasks.zip tunings), r.answer.lacksSpace = false) :
      (World.mk none v).showings storage index (tasks.zip tunings) =
        Plan.showings storage index ⟨v, .idle ⟨[], none, none⟩⟩ tasks := by
    have heq := hplan.showings_eq (fun x hx => hat _ (List.of_mem_zip hx).1) (fun x hx => hs _ (List.of_mem_zip hx).1)
      (fun x hx => hfits _ (List.of_mem_zip hx).2) hroom
    rw [List.map_fst_zip (Nat.le_of_eq hlen.symm)] at heq
    exact heq
  rw [hrun hl hleft hroom, hrun hr hright hroom']

/-- Two sessions: a key is stored, an add breaks off, and the key is committed and found again. -/
def twoSessions : List Task :=
  [.start {}, .add "a" [.data [7, 8], .fail (.reported .interrupted "again"), .data [9]] (.ok 3),
    .add "b" [.data [1], .fail (.reported .other "gone")] (.ok 2), .get "b", .commit, .drop, .start {}, .get "a"]

/-- Both logs grow at their first write, and content is read byte by byte. -/
def tight : Tuning := ⟨0, 0, 1, 4096⟩

def wide : Tuning := ⟨2000, 1000, 16, 8192⟩

theorem twoSessions_tuned :
    let start := World.mk none (.empty 4096)
    let under := fun t => start.showings "./binstore_data/storage.bin" "./binstore_data/index.bin"
      (twoSessions.zip (List.replicate 8 t))
    under tight = under wide ∧ (under tight).getLast?.map (·.answer) = some (.bytes (.ok [7, 8, 9])) := by
  have hfresh : (Volume.empty 4096).Fresh "./binstore_data/storage.bin" "./binstore_data/index.bin" :=
    Volume.fresh_empty 4096 (by decide)
  have hfits : ∀ t, t = tight ∨ t = wide → t.Fits := by
    rintro t (rfl | rfl)
    · exact ⟨by decide, by decide, by decide⟩
    · exact ⟨by decide, by decide, by decide⟩
  have hat : ∀ task ∈ twoSessions, task.At "./binstore_data/storage.bin" "./binstore_data/index.bin" := by
    simp only [twoSessions, List.forall_mem_cons, Task.At]
    exact ⟨⟨rfl, rfl⟩, trivial, trivial, trivial, trivial, trivial, ⟨rfl, rfl⟩, trivial, fun _ h => nomatch h⟩
  have hs : ∀ task ∈ twoSessions, task.Settled := by
    simp only [twoSessions, List.forall_mem_cons, Task.Settled, Event.Settled]
    exact ⟨trivial, trivial, trivial, trivial, trivial, trivial, trivial, trivial, fun _ h => nomatch h⟩
  refine ⟨tuning_does_not_show hfresh hat hs rfl rfl ?_ ?_ (by decide +kernel) (by decide +kernel), by decide +kernel⟩
  · intro t ht
    exact hfits t (.inl (List.eq_of_mem_replicate ht))
  · intro t ht
    exact hfits t (.inr (List.eq_of_mem_replicate ht))

/-- Two runs that open a vault and differ in the capacity asked for its index: nothing lacks room in
    either, and one is refused. -/
theorem oversized_capacity_shows :
    let under := fun indexCapacity => (World.mk none (.empty 4096)).showings "./binstore_data/storage.bin"
      "./binstore_data/index.bin" [(.start {}, { wide with indexCapacity })]
    (Volume.empty 4096).Fresh "./binstore_data/storage.bin" "./binstore_data/index.bin" ∧
      (∀ r ∈ under 1000, r.answer.lacksSpace = false) ∧ (∀ r ∈ under maxUnsigned, r.answer.lacksSpace = false) ∧
      under 1000 ≠ under maxUnsigned :=
  ⟨Volume.fresh_empty 4096 (by decide), by decide +kernel⟩

end TwinLog
