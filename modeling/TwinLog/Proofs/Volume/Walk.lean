/-
  TwinLog.Proofs.Volume.Walk — a name that was found is found again.

  A volume is `Sound` when the numbers in its tree are those of nodes and files that are
  there. It `Grows` into another when nodes and entries are only added. A walk that found
  its node finds the same node in every volume grown from it (`Walks.grown`), and one that
  ended at a free name finds what is then attached there (`Walks.attached`); free names
  elsewhere stay free (`Walks.attach_ne`). So the file a path names (`Names`) is the same
  at every later opening.
-/

import TwinLog.Volume.Files

namespace TwinLog

def Node.Within (nodes files : Nat) : Node → Prop
  | .folder parent entries => parent < nodes ∧ ∀ e ∈ entries, e.2 < nodes
  | .file id => id < files
  | .link _ => True

/-- The same node, a folder with more entries behind those it had. -/
def Node.Grows : Node → Node → Prop
  | .folder parent entries, n => ∃ more, n = .folder parent (entries ++ more)
  | .file id, n => n = .file id
  | .link target, n => n = .link target

namespace Node

theorem Within.mono {n : Node} {nodes files nodes' files' : Nat} (h : n.Within nodes files)
    (hn : nodes ≤ nodes') (hf : files ≤ files') :
    n.Within nodes' files' := by
  cases n with
  | folder parent entries =>
    exact ⟨Nat.lt_of_lt_of_le h.1 hn, fun e he => Nat.lt_of_lt_of_le (h.2 e he) hn⟩
  | file id => exact Nat.lt_of_lt_of_le h hf
  | link target => trivial

namespace Grows

theorem refl (n : Node) : n.Grows n := by
  cases n with
  | folder parent entries => exact ⟨[], by rw [List.append_nil]⟩
  | file id => rfl
  | link target => rfl

theorem trans {n n' n'' : Node} (h : n.Grows n') (h' : n'.Grows n'') : n.Grows n'' := by
  cases n with
  | folder parent entries =>
    obtain ⟨more, rfl⟩ := h
    obtain ⟨more', rfl⟩ := h'
    exact ⟨more ++ more', by rw [List.append_assoc]⟩
  | file id => cases h; exact h'
  | link target => cases h; exact h'

end Grows

end Node

namespace Volume

structure Sound (v : Volume) : Prop where
  current : currentNode < v.nodes.size
  within : ∀ n, n < v.nodes.size → (v.node n).Within v.nodes.size v.disk.files.size

/-- Nodes, and entries of folders, are only added. -/
structure Grows (v v' : Volume) : Prop where
  size_le : v.nodes.size ≤ v'.nodes.size
  node : ∀ n, n < v.nodes.size → (v.node n).Grows (v'.node n)

variable {v v' v'' : Volume} {folder here links : Nat} {name : String} {purpose : Purpose} {steps : List String}
  {made : Node}

theorem sound_empty (available : Nat) : (empty available).Sound := by
  refine ⟨Nat.lt_succ_self 1, ?_⟩
  intro n hn
  match n, hn with
  | 0, _ => exact ⟨Nat.two_pos, fun e he => by cases List.mem_singleton.mp he; exact Nat.lt_succ_self 1⟩
  | 1, _ => exact ⟨Nat.two_pos, fun e he => nomatch he⟩

theorem Sound.root (hv : v.Sound) : rootNode < v.nodes.size := Nat.lt_trans Nat.zero_lt_one hv.current

namespace Grows

theorem refl (v : Volume) : v.Grows v := ⟨Nat.le_refl _, fun _ _ => .refl _⟩

theorem trans (h : v.Grows v') (h' : v'.Grows v'') : v.Grows v'' :=
  ⟨Nat.le_trans h.size_le h'.size_le, fun n hn => (h.node n hn).trans (h'.node n (Nat.lt_of_lt_of_le hn h.size_le))⟩

end Grows

/-! ## Attaching a node -/

@[simp] theorem size_attach (v : Volume) (folder : Nat) (name : String) (made : Node) :
    (v.attach folder name made).nodes.size = v.nodes.size + 1 := by simp [attach]

theorem node_attach_self (v : Volume) (folder : Nat) (name : String) (made : Node) :
    (v.attach folder name made).node v.nodes.size = made := by
  simp only [attach, node, Array.getElem?_push, Array.size_modify, if_true, Option.getD_some]

/-- A node that was there; the folder has a new entry. -/
theorem node_attach {n : Nat} (hn : n < v.nodes.size) : (v.attach folder name made).node n =
    if folder = n then match v.node n with
      | .folder parent entries => .folder parent (entries ++ [(name, v.nodes.size)])
      | other => other
    else v.node n := by
  have hne : n ≠ v.nodes.size := Nat.ne_of_lt hn
  simp only [attach, node, Array.getElem?_push, Array.size_modify, hne, if_false, Array.getElem?_modify,
    Array.getElem?_eq_getElem hn]
  split <;> rfl

theorem node_attach_ne {n : Nat} (hn : n < v.nodes.size) (h : folder ≠ n) :
    (v.attach folder name made).node n = v.node n := by
  rw [node_attach hn, if_neg h]

theorem node_attach_folder (hn : folder < v.nodes.size) {parent : Nat} {entries : List (String × Nat)}
    (h : v.node folder = .folder parent entries) :
    (v.attach folder name made).node folder = .folder parent (entries ++ [(name, v.nodes.size)]) := by
  rw [node_attach hn, if_pos rfl, h]

theorem grows_attach (v : Volume) (folder : Nat) (name : String) (made : Node) :
    v.Grows (v.attach folder name made) := by
  refine ⟨by rw [size_attach]; exact Nat.le_succ _, ?_⟩
  intro n hn
  by_cases hf : folder = n
  · subst hf
    cases he : v.node folder with
    | folder parent entries => exact ⟨_, node_attach_folder hn he⟩
    | file id => rw [node_attach hn, if_pos rfl, he]; rfl
    | link target => rw [node_attach hn, if_pos rfl, he]; rfl
  · rw [node_attach_ne hn hf]
    exact .refl _

theorem sound_attach (hv : v.Sound) (hm : made.Within (v.nodes.size + 1) v.disk.files.size) :
    (v.attach folder name made).Sound := by
  refine ⟨by rw [size_attach]; exact Nat.lt_succ_of_lt hv.current, ?_⟩
  intro n hn
  rw [size_attach] at hn ⊢
  show Node.Within _ v.disk.files.size _
  by_cases hnew : n = v.nodes.size
  · subst hnew
    rw [node_attach_self]
    exact hm
  have hold : n < v.nodes.size := by omega
  have hw := (hv.within n hold).mono (Nat.le_succ _) (Nat.le_refl _)
  by_cases hf : folder = n
  · subst hf
    cases he : v.node folder with
    | folder parent entries =>
      rw [he] at hw
      rw [node_attach_folder hold he]
      refine ⟨hw.1, ?_⟩
      intro e hmem
      rcases List.mem_append.mp hmem with hmem | hmem
      · exact hw.2 e hmem
      · rw [List.mem_singleton.mp hmem]
        exact Nat.lt_succ_self _
    | file id =>
      rw [he] at hw
      rw [node_attach hold, if_pos rfl, he]
      exact hw
    | link target => rw [node_attach hold, if_pos rfl, he]; trivial
  · rw [node_attach_ne hold hf]
    exact hw

/-! ## Walks without links -/

theorem mem_of_lookup {entries : List (String × Nat)} {next : Nat} (h : entries.lookup name = some next) :
    (name, next) ∈ entries := by
  obtain ⟨before, after, rfl, -⟩ := List.lookup_eq_some_iff.mp h
  simp

theorem lookup_append_of_some {entries more : List (String × Nat)} {next : Nat}
    (h : entries.lookup name = some next) :
    (entries ++ more).lookup name = some next := by
  rw [List.lookup_append, h]; rfl

/-- A walk looks `name` up in the folder `here`, which has `entries`. -/
structure Asks (v : Volume) (purpose : Purpose) (here : Nat) (name : String) (rest : List String)
    (entries : List (String × Nat)) : Prop where
  folder : ∃ parent, v.node here = .folder parent entries
  not_here : ¬ (name = "" ∨ name = ".")
  not_up : name ≠ ".."
  allowed : ¬ (purpose = .make ∧ rest = [""])
  short : ¬ maxName < name.utf8ByteSize

/-- The walks that `stroll` takes, those that fail apart. -/
inductive Strolls (v : Volume) (purpose : Purpose) : Nat → List String → Stop → Prop
  | here (n : Nat) : Strolls v purpose n [] (.at (.found n))
  | stay {n parent : Nat} {entries : List (String × Nat)} {step : String} {rest : List String} {stop : Stop}
      (folder : v.node n = .folder parent entries) (dot : step = "" ∨ step = ".")
      (go : Strolls v purpose n rest stop) : Strolls v purpose n (step :: rest) stop
  | up {n parent : Nat} {entries : List (String × Nat)} {rest : List String} {stop : Stop}
      (folder : v.node n = .folder parent entries) (go : Strolls v purpose parent rest stop) :
      Strolls v purpose n (".." :: rest) stop
  | absent {n : Nat} {entries : List (String × Nat)} {step : String} (asks : v.Asks purpose n step [] entries)
      (free : entries.lookup step = none) : Strolls v purpose n [step] (.at (.absent n step))
  | link {n next : Nat} {entries : List (String × Nat)} {step target : String} {rest : List String}
      (asks : v.Asks purpose n step rest entries) (entry : entries.lookup step = some next)
      (isLink : v.node next = .link target) : Strolls v purpose n (step :: rest) (.link target n rest)
  | into {n next : Nat} {entries : List (String × Nat)} {step : String} {rest : List String} {stop : Stop}
      (asks : v.Asks purpose n step rest entries) (entry : entries.lookup step = some next)
      (notLink : ∀ target, v.node next ≠ .link target) (go : Strolls v purpose next rest stop) :
      Strolls v purpose n (step :: rest) stop

theorem strolls_stroll (v : Volume) (purpose : Purpose) (here : Nat) (steps : List String) :
    (∃ e, v.stroll purpose here steps = .failed e) ∨ v.Strolls purpose here steps (v.stroll purpose here steps) := by
  induction steps generalizing here with
  | nil => exact .inr (.here _)
  | cons name rest ih =>
    unfold stroll
    split
    · rename_i parent entries he
      split
      · rename_i hdot
        exact (ih here).imp_right (.stay he hdot)
      rename_i hdot
      split
      · rename_i hup
        subst hup
        exact (ih parent).imp_right (.up he)
      rename_i hup
      split
      · exact .inl ⟨_, rfl⟩
      rename_i hmake
      split
      · exact .inl ⟨_, rfl⟩
      rename_i hlong
      have asks : v.Asks purpose here name rest entries := ⟨⟨parent, he⟩, hdot, hup, hmake, hlong⟩
      split
      · rename_i hfree
        cases rest with
        | nil => exact .inr (.absent asks hfree)
        | cons _ _ => exact .inl ⟨_, rfl⟩
      · rename_i next hnext
        split
        · rename_i target hlink
          exact .inr (.link asks hnext hlink)
        · rename_i hlink
          exact (ih next).imp_right (.into asks hnext hlink)
    · exact .inl ⟨_, rfl⟩

theorem Strolls.stroll_eq {stop : Stop} (h : v.Strolls purpose here steps stop) :
    v.stroll purpose here steps = stop := by
  induction h with
  | here n => rfl
  | stay folder dot go ih => rw [stroll, folder, ← ih]; exact if_pos dot
  | up folder go ih => rw [stroll, folder, ← ih]; rfl
  | absent asks free =>
    obtain ⟨parent, folder⟩ := asks.folder
    simp only [stroll, folder, asks.not_here, asks.not_up, asks.allowed, asks.short, if_false, free]
    exact if_pos rfl
  | link asks entry isLink =>
    obtain ⟨parent, folder⟩ := asks.folder
    simp only [stroll, folder, asks.not_here, asks.not_up, asks.allowed, asks.short, if_false, entry, isLink]
  | into asks entry notLink go ih =>
    obtain ⟨parent, folder⟩ := asks.folder
    simp only [stroll, folder, asks.not_here, asks.not_up, asks.allowed, asks.short, if_false, entry, ih]

/-- A walk ends somewhere, and not by failing, as `Strolls` says. -/
theorem strolls_iff {stop : Stop} (hs : ∀ e, stop ≠ .failed e) :
    v.stroll purpose here steps = stop ↔ v.Strolls purpose here steps stop := by
  refine ⟨?_, Strolls.stroll_eq⟩
  intro h
  rcases strolls_stroll v purpose here steps with ⟨e, he⟩ | hw
  · exact absurd (h.symm.trans he) (hs e)
  · exact h ▸ hw

/-- Looking finds what a walk to make a file has found. -/
theorem Strolls.look {stop : Stop} (h : v.Strolls .make here steps stop) :
    v.Strolls .look here steps stop := by
  have looks {n : Nat} {step : String} {rest : List String} {entries : List (String × Nat)}
      (asks : v.Asks .make n step rest entries) : v.Asks .look n step rest entries :=
    ⟨asks.folder, asks.not_here, asks.not_up, fun hm => Purpose.noConfusion hm.1, asks.short⟩
  induction h with
  | here n => exact .here n
  | stay folder dot go ih => exact .stay folder dot ih
  | up folder go ih => exact .up folder ih
  | absent asks free => exact .absent (looks asks) free
  | link asks entry isLink => exact .link (looks asks) entry isLink
  | into asks entry notLink go ih => exact .into (looks asks) entry notLink ih

def Stop.Within (nodes : Nat) : Stop → Prop
  | .at (.found n) => n < nodes
  | .at (.absent folder _) | .link _ folder _ => folder < nodes
  | .failed _ => True

theorem Asks.next_lt (hv : v.Sound) {rest : List String} {entries : List (String × Nat)} {next : Nat}
    (hh : here < v.nodes.size) (asks : v.Asks purpose here name rest entries) (h : entries.lookup name = some next) :
    next < v.nodes.size := by
  obtain ⟨parent, folder⟩ := asks.folder
  have hw := hv.within here hh
  rw [folder] at hw
  exact hw.2 _ (mem_of_lookup h)

theorem Strolls.within {stop : Stop} (hv : v.Sound) (hh : here < v.nodes.size)
    (h : v.Strolls purpose here steps stop) :
    stop.Within v.nodes.size := by
  induction h with
  | here n => exact hh
  | stay folder dot go ih => exact ih hh
  | up folder go ih =>
    have hw := hv.within _ hh
    rw [folder] at hw
    exact ih hw.1
  | absent asks free => exact hh
  | link asks entry isLink => exact hh
  | into asks entry notLink go ih => exact ih (asks.next_lt hv hh entry)

def Stop.Lasting : Stop → Prop
  | .at (.found _) | .link _ _ _ => True
  | .at (.absent _ _) | .failed _ => False

theorem Asks.grown (hg : v.Grows v') (hh : here < v.nodes.size) {rest : List String}
    {entries : List (String × Nat)} (asks : v.Asks purpose here name rest entries) :
    ∃ more, v'.Asks purpose here name rest (entries ++ more) := by
  obtain ⟨parent, folder⟩ := asks.folder
  have hnode := hg.node here hh
  rw [folder] at hnode
  obtain ⟨more, hmore⟩ := hnode
  exact ⟨more, ⟨parent, hmore⟩, asks.not_here, asks.not_up, asks.allowed, asks.short⟩

theorem Grows.not_link (hg : v.Grows v') {n : Nat} (hn : n < v.nodes.size)
    (h : ∀ target, v.node n ≠ .link target) :
    ∀ target, v'.node n ≠ .link target := by
  have hnode := hg.node n hn
  intro target
  cases he : v.node n with
  | folder parent entries =>
    rw [he] at hnode
    obtain ⟨more, hmore⟩ := hnode
    rw [hmore]
    exact Node.noConfusion
  | file id =>
    rw [he] at hnode
    rw [hnode]
    exact Node.noConfusion
  | link t => exact absurd he (h t)

/-- A walk goes on over grown nodes as it did, up to where it ended. Only a free name can
    end otherwise: there `habsent` says how. -/
theorem Strolls.carried {stop stop' : Stop} (hv : v.Sound) (hg : v.Grows v') (hh : here < v.nodes.size)
    (h : v.Strolls purpose here steps stop) (hlasting : stop.Lasting → stop' = stop)
    (habsent : ∀ {n : Nat} {name : String} {entries : List (String × Nat)}, n < v.nodes.size →
      v.Asks purpose n name [] entries → entries.lookup name = none → stop = .at (.absent n name) →
      v'.Strolls purpose n [name] stop') : v'.Strolls purpose here steps stop' := by
  induction h with
  | here n =>
    rw [hlasting trivial]
    exact .here n
  | stay folder dot go ih =>
    have hnode := hg.node _ hh
    rw [folder] at hnode
    obtain ⟨more, hmore⟩ := hnode
    exact .stay hmore dot (ih hh hlasting habsent)
  | up folder go ih =>
    have hw := hv.within _ hh
    have hnode := hg.node _ hh
    rw [folder] at hw hnode
    obtain ⟨more, hmore⟩ := hnode
    exact .up hmore (ih hw.1 hlasting habsent)
  | absent asks free => exact habsent hh asks free rfl
  | link asks entry isLink =>
    rw [hlasting trivial]
    obtain ⟨more, asks'⟩ := asks.grown hg hh
    have hnode := hg.node _ (asks.next_lt hv hh entry)
    rw [isLink] at hnode
    exact .link asks' (lookup_append_of_some entry) hnode
  | into asks entry notLink go ih =>
    obtain ⟨more, asks'⟩ := asks.grown hg hh
    have hn := asks.next_lt hv hh entry
    exact .into asks' (lookup_append_of_some entry) (hg.not_link hn notLink) (ih hn hlasting habsent)

theorem Strolls.grown {stop : Stop} (hv : v.Sound) (hg : v.Grows v') (hh : here < v.nodes.size)
    (h : v.Strolls purpose here steps stop) (hl : stop.Lasting) : v'.Strolls purpose here steps stop := by
  refine h.carried hv hg hh (fun _ => rfl) ?_
  rintro n name entries - - - rfl
  exact absurd hl id

theorem Strolls.attached (hv : v.Sound) (hh : here < v.nodes.size) (hm : ∀ target, made ≠ .link target)
    (h : v.Strolls purpose here steps (.at (.absent folder name))) :
    (v.attach folder name made).Strolls purpose here steps (.at (.found v.nodes.size)) := by
  refine h.carried hv (grows_attach ..) hh (absurd · id) ?_
  intro n step entries hn asks free hstop
  cases hstop
  obtain ⟨parent, hfolder⟩ := asks.folder
  have hlook : (entries ++ [(name, v.nodes.size)]).lookup name = some v.nodes.size := by
    rw [List.lookup_append, free, Option.none_or, List.lookup_cons_self]
  refine .into ⟨⟨parent, node_attach_folder hn hfolder⟩, asks.not_here, asks.not_up, asks.allowed, asks.short⟩
    hlook ?_ (.here _)
  rw [node_attach_self]
  exact hm

/-- A free name stays free when another one is taken. -/
theorem Strolls.attach_ne {folder' : Nat} {name' : String} (hv : v.Sound) (hh : here < v.nodes.size)
    (hne : folder' = folder → name' ≠ name) (h : v.Strolls purpose here steps (.at (.absent folder' name'))) :
    (v.attach folder name made).Strolls purpose here steps (.at (.absent folder' name')) := by
  refine h.carried hv (grows_attach ..) hh (absurd · id) ?_
  intro n step entries hn asks free hstop
  cases hstop
  obtain ⟨parent, hfolder⟩ := asks.folder
  by_cases hf : folder = folder'
  · subst hf
    refine .absent ⟨⟨parent, node_attach_folder hn hfolder⟩, asks.not_here, asks.not_up, asks.allowed, asks.short⟩ ?_
    have hdiff : (name' == name) = false := by simpa using hne rfl
    rw [List.lookup_append, free, Option.none_or, List.lookup_cons, hdiff]
    rfl
  · exact .absent ⟨⟨parent, (node_attach_ne hn hf).trans hfolder⟩, asks.not_here, asks.not_up, asks.allowed,
      asks.short⟩ free

/-! ## Walks through links -/

def linkStart (target : String) (folder : Nat) : Nat := if Path.isAbsolute target then rootNode else folder

/-- The walks that `walk` takes to their end. -/
inductive Walks (v : Volume) (purpose : Purpose) : Nat → Nat → List String → Spot → Prop
  | reach {left n : Nat} {path : List String} {spot : Spot} (go : v.Strolls purpose n path (.at spot)) :
      Walks v purpose left n path spot
  | follow {left n at' : Nat} {path rest : List String} {target : String} {spot : Spot}
      (go : v.Strolls purpose n path (.link target at' rest)) (named : target ≠ "")
      (next : Walks v purpose left (linkStart target at') (Path.steps target ++ rest) spot) :
      Walks v purpose (left + 1) n path spot

theorem walks_iff {spot : Spot} :
    v.walk purpose links here steps = .ok spot ↔ v.Walks purpose links here steps spot := by
  constructor
  · intro h
    induction links generalizing here steps with
    | zero =>
      unfold walk at h
      split at h
      · rename_i hs
        cases h
        exact .reach ((strolls_iff (fun _ => Stop.noConfusion)).mp hs)
      · cases h
      · cases h
    | succ links ih =>
      unfold walk at h
      split at h
      · rename_i hs
        cases h
        exact .reach ((strolls_iff (fun _ => Stop.noConfusion)).mp hs)
      · cases h
      · rename_i target folder rest hs
        dsimp only at h
        split at h
        · cases h
        · rename_i hnamed
          exact .follow ((strolls_iff (fun _ => Stop.noConfusion)).mp hs) hnamed (ih h)
  · intro h
    induction h with
    | reach go => unfold walk; rw [go.stroll_eq]
    | follow go named next ih =>
      unfold walk
      rw [go.stroll_eq]
      dsimp only
      rw [if_neg named]
      exact ih

namespace Walks

variable {spot : Spot}

theorem look (h : v.Walks .make links here steps spot) : v.Walks .look links here steps spot := by
  induction h with
  | reach go => exact .reach go.look
  | follow go named next ih => exact .follow go.look named ih

theorem linkStart_lt (hv : v.Sound) {target : String} {n : Nat} (h : n < v.nodes.size) :
    linkStart target n < v.nodes.size := by
  unfold linkStart
  split
  · exact hv.root
  · exact h

theorem within (hv : v.Sound) (hh : here < v.nodes.size) (h : v.Walks purpose links here steps spot) :
    (Stop.at spot).Within v.nodes.size := by
  induction h with
  | reach go => exact go.within hv hh
  | follow go named next ih => exact ih (linkStart_lt hv (go.within hv hh))

theorem grown (hv : v.Sound) (hg : v.Grows v') (hh : here < v.nodes.size) {n : Nat}
    (h : v.Walks purpose links here steps (.found n)) : v'.Walks purpose links here steps (.found n) := by
  generalize hs : Spot.found n = spot at h ⊢
  induction h with
  | reach go => subst hs; exact .reach (go.grown hv hg hh trivial)
  | follow go named next ih =>
    have hnext := ih (linkStart_lt hv (go.within hv hh)) hs
    exact .follow (go.grown hv hg hh trivial) named hnext

theorem attached (hv : v.Sound) (hh : here < v.nodes.size) (hm : ∀ target, made ≠ .link target)
    (h : v.Walks purpose links here steps (.absent folder name)) :
    (v.attach folder name made).Walks purpose links here steps (.found v.nodes.size) := by
  generalize hs : Spot.absent folder name = spot at h
  induction h with
  | reach go => subst hs; exact .reach (go.attached hv hh hm)
  | follow go named next ih =>
    exact .follow (go.grown hv (grows_attach ..) hh trivial) named (ih (linkStart_lt hv (go.within hv hh)) hs)

theorem attach_ne {folder' : Nat} {name' : String} (hv : v.Sound) (hh : here < v.nodes.size)
    (hne : folder' = folder → name' ≠ name) (h : v.Walks purpose links here steps (.absent folder' name')) :
    (v.attach folder name made).Walks purpose links here steps (.absent folder' name') := by
  generalize hs : Spot.absent folder' name' = spot at h ⊢
  induction h with
  | reach go => subst hs; exact .reach (go.attach_ne hv hh hne)
  | follow go named next ih =>
    exact .follow (go.grown hv (grows_attach ..) hh trivial) named (ih (linkStart_lt hv (go.within hv hh)) hs)

end Walks

end Volume

end TwinLog
