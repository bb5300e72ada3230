/-
  TwinLog.Proofs.Volume.Places — where in the tree a path leads, read off its text.

  `Path.moves` is a path without what a walk of it does not feel: doubled slashes and `.`.
  `Path.resolve` plays the moves on the place of the current folder, a list of names from
  the root: a name goes down, `..` goes up, and the root is above itself. `Path.components`
  is the path as it is compared with other paths; it keeps a leading `.`, so equal
  components give equal moves and not the other way round.

  In a `Tree`, a volume without links in which nothing has two places, a walk ends where
  the text says (`Tree.descend_of_names`). Making folders and files keeps a tree a tree.
-/

import Mathlib.Data.List.Induction
import TwinLog.Proofs.Log.Opening

namespace TwinLog

namespace Path

/-! ## The text of a path -/

def moves (path : String) : List String := (parts path).filter fun part => part ≠ "" ∧ part ≠ "."

/-- The parts by which a path is compared with others: the root, a leading `.`, and what moves. -/
def components (path : String) : List String :=
  if isAbsolute path then "/" :: moves path
  else if (parts path).head? = some "." then "." :: moves path
  else moves path

def climb (place : List String) : List String → List String
  | [] => place
  | step :: rest =>
    if step = "" ∨ step = "." then climb place rest
    else if step = ".." then climb place.dropLast rest
    else climb (place ++ [step]) rest

def resolve (cwd : List String) (path : String) : List String :=
  climb (if isAbsolute path then [] else cwd) (moves path)

/-- A name of one part that is none of the special ones. -/
structure Plain (name : String) : Prop where
  named : name ≠ ""
  whole : '/' ∉ name.toList
  not_here : name ≠ "."
  not_up : name ≠ ".."

theorem climb_filter (place steps : List String) :
    climb place (steps.filter fun part => part ≠ "" ∧ part ≠ ".") = climb place steps := by
  induction steps generalizing place with
  | nil => rfl
  | cons step rest ih =>
    by_cases h : step = "" ∨ step = "."
    · rw [List.filter_cons_of_neg (by rcases h with rfl | rfl <;> simp), ih, climb, if_pos h]
    · rw [List.filter_cons_of_pos (by simpa using h), climb, climb, if_neg h, if_neg h, ih, ih]

/-- What a walk of the path visits leads where its moves lead. -/
theorem climb_steps (place : List String) (path : String) : climb place (steps path) = climb place (moves path) := by
  have hnames : (names path).filter (fun part => part ≠ "" ∧ part ≠ ".") = moves path := by
    rw [names, List.filter_filter, moves]
    refine List.filter_congr fun part _ => ?_
    by_cases h : part = "" <;> simp [h]
  have hsteps : (steps path).filter (fun part => part ≠ "" ∧ part ≠ ".") = moves path := by
    unfold steps
    split
    · rw [List.filter_append, hnames]
      simp
    · exact hnames
  rw [← hsteps, climb_filter]

theorem climb_append (place steps : List String) (name : String) (h : Plain name) :
    climb place (steps ++ [name]) = climb place steps ++ [name] := by
  induction steps generalizing place with
  | nil => simp [climb, h.named, h.not_here, h.not_up]
  | cons step rest ih =>
    simp only [List.cons_append, climb]
    split
    · exact ih _
    split
    · exact ih _
    · exact ih _

/-! ## Slashes -/

theorem splitSlash_ne_nil (cs : List Char) : splitSlash cs ≠ [] := by
  cases cs with
  | nil => simp [splitSlash]
  | cons c r =>
    unfold splitSlash
    split
    · simp
    · split <;> simp

theorem splitSlash_append (cs ds : List Char) : splitSlash (cs ++ '/' :: ds) = splitSlash cs ++ splitSlash ds := by
  induction cs with
  | nil => simp [splitSlash]
  | cons c r ih =>
    by_cases h : c = '/'
    · simp [splitSlash, h, ih]
    · obtain ⟨part, parts, hr⟩ := List.exists_cons_of_ne_nil (splitSlash_ne_nil r)
      simp [splitSlash, h, ih, hr]

theorem splitSlash_of_not_mem {cs : List Char} (h : '/' ∉ cs) : splitSlash cs = [cs] := by
  induction cs with
  | nil => rfl
  | cons c r ih =>
    have hc : c ≠ '/' := by rintro rfl; simp at h
    have hr := ih fun hr => h (List.mem_cons_of_mem _ hr)
    simp [splitSlash, hc, hr]

theorem not_mem_of_mem_splitSlash {cs part : List Char} (h : part ∈ splitSlash cs) : '/' ∉ part := by
  induction cs generalizing part with
  | nil =>
    rw [List.mem_singleton.mp h]
    simp
  | cons c r ih =>
    by_cases hc : c = '/'
    · simp only [splitSlash, hc, if_true, List.mem_cons] at h
      rcases h with rfl | h
      · simp
      · exact ih h
    · obtain ⟨first, others, hr⟩ := List.exists_cons_of_ne_nil (splitSlash_ne_nil r)
      simp only [splitSlash, hc, if_false, hr, List.mem_cons] at h
      rw [hr] at ih
      rcases h with rfl | h
      · have := ih (List.mem_cons_self ..)
        simp [this, Ne.symm hc]
      · exact ih (List.mem_cons_of_mem _ h)

theorem slash_not_mem_moves (path : String) : "/" ∉ moves path := by
  intro h
  obtain ⟨cs, hcs, heq⟩ := List.mem_map.mp (List.mem_filter.mp h).1
  have hno := not_mem_of_mem_splitSlash hcs
  have : cs = ['/'] := by rw [← String.toList_ofList (l := cs), heq]; rfl
  simp [this] at hno

theorem dot_not_mem_moves (path : String) : "." ∉ moves path := by
  intro h
  simpa using (List.mem_filter.mp h).2

/-- Paths that compare equal move alike from the same start. -/
theorem components_eq {path path' : String} (h : components path = components path') :
    isAbsolute path = isAbsolute path' ∧ moves path = moves path' := by
  have hslash := slash_not_mem_moves
  have hdot := dot_not_mem_moves
  have key : ∀ p q, components p = components q → isAbsolute p = true → isAbsolute q = true := by
    intro p q hpq hp
    have hmem : "/" ∈ components q := by rw [← hpq, components, if_pos hp]; exact List.mem_cons_self ..
    unfold components at hmem
    split at hmem
    · assumption
    split at hmem
    · rcases List.mem_cons.mp hmem with hd | hd
      · exact absurd hd (by decide)
      · exact absurd hd (hslash q)
    · exact absurd hmem (hslash q)
  have habs : isAbsolute path = isAbsolute path' := by
    rw [Bool.eq_iff_iff]
    exact ⟨key _ _ h, key _ _ h.symm⟩
  refine ⟨habs, ?_⟩
  unfold components at h
  rw [habs] at h
  split at h
  · exact (List.cons.inj h).2
  · split at h <;> split at h
    · exact (List.cons.inj h).2
    · exact absurd (h ▸ List.mem_cons_self ..) (hdot path')
    · exact absurd (h ▸ List.mem_cons_self ..) (hdot path)
    · exact h

/-- Paths that compare equal lead to one place. -/
theorem resolve_of_components (cwd : List String) {path path' : String} (h : components path = components path') :
    resolve cwd path = resolve cwd path' := by
  obtain ⟨habs, hmoves⟩ := components_eq h
  rw [resolve, resolve, habs, hmoves]

theorem Plain.parts {name : String} (h : Plain name) : Path.parts name = [name] := by
  rw [Path.parts, splitSlash_of_not_mem h.whole]
  simp

theorem Plain.relative {name : String} (h : Plain name) : isAbsolute name = false := by
  unfold isAbsolute
  cases hc : name.toList with
  | nil => rfl
  | cons c r =>
    have hne : c ≠ '/' := by rintro rfl; exact h.whole (by simp [hc])
    simpa using hne

theorem parts_slash (base name : String) : parts (base ++ "/" ++ name) = parts base ++ parts name := by
  have hlist : (base ++ "/" ++ name).toList = base.toList ++ '/' :: name.toList := by simp
  rw [Path.parts, hlist, splitSlash_append, List.map_append]
  rfl

theorem exists_front_of_endsWithSlash {path : String} (h : endsWithSlash path = true) :
    ∃ front, path = front ++ "/" ++ "" := by
  unfold endsWithSlash at h
  obtain ⟨front, hfront⟩ := List.getLast?_eq_some_iff.mp (by simpa using h : path.toList.getLast? = some '/')
  refine ⟨String.ofList front, ?_⟩
  apply String.toList_inj.mp
  simp [hfront]

/-- A plain name inside a folder: one more part, an empty one behind the last slash left out. -/
theorem Plain.parts_join {name : String} (h : Plain name) (base : String) :
    ∃ front, (Path.parts base = front ∨ Path.parts base = front ++ [""]) ∧
      Path.parts (Path.join base name) = front ++ [name] := by
  have hrel := h.relative
  have hempty : Path.parts "" = [""] := by decide
  by_cases hbase : base = ""
  · subst hbase
    refine ⟨[], .inr hempty, ?_⟩
    rw [show Path.join "" name = name by simp [Path.join, hrel], h.parts]
    rfl
  by_cases hend : endsWithSlash base = true
  · have hjoin : Path.join base name = base ++ name := by simp [Path.join, hrel, hend]
    obtain ⟨front, rfl⟩ := exists_front_of_endsWithSlash hend
    refine ⟨Path.parts front, .inr (by rw [parts_slash, hempty]), ?_⟩
    rw [hjoin, String.append_empty, parts_slash, h.parts]
  · have hjoin : Path.join base name = base ++ "/" ++ name := by simp [Path.join, hrel, hend, hbase]
    exact ⟨_, .inl rfl, by rw [hjoin, parts_slash, h.parts]⟩

theorem Plain.absolute_join {name : String} (h : Plain name) (base : String) :
    isAbsolute (Path.join base name) = isAbsolute base := by
  have hrel := h.relative
  by_cases hbase : base = ""
  · subst hbase
    rw [show Path.join "" name = name by simp [Path.join, hrel], hrel]
    rfl
  have hhead (x : String) : isAbsolute (base ++ x) = isAbsolute base := by
    unfold isAbsolute
    cases hb : base.toList with
    | nil => exact absurd (String.toList_eq_nil_iff.mp hb) hbase
    | cons c r => simp [hb]
  unfold Path.join
  rw [hrel, if_neg Bool.false_ne_true]
  split
  · exact hhead name
  · rw [String.append_assoc]
    exact hhead _

theorem Plain.join {name : String} (h : Plain name) (base : String) :
    isAbsolute (Path.join base name) = isAbsolute base ∧
      Path.moves (Path.join base name) = Path.moves base ++ [name] := by
  refine ⟨h.absolute_join base, ?_⟩
  obtain ⟨front, hbase, hjoin⟩ := h.parts_join base
  unfold Path.moves
  rw [hjoin, List.filter_append]
  obtain hbase | hbase := hbase <;> simp [hbase, h.named, h.not_here]

/-- A plain name inside a folder is at its own place right below the folder's. -/
theorem Plain.resolve_join {name : String} (h : Plain name) (cwd : List String) (base : String) :
    resolve cwd (Path.join base name) = resolve cwd base ++ [name] := by
  obtain ⟨habs, hmoves⟩ := h.join base
  rw [resolve, habs, hmoves, climb_append _ _ _ h, resolve]

end Path

/-! ## Places in a volume -/

namespace Volume

variable {v v' : Volume} {cwd p q : List String} {folder here m n : Nat} {name path : String} {purpose : Purpose}
  {steps : List String} {made : Node} {f : FileId}

def descend (v : Volume) (here : Nat) : List String → Option Nat
  | [] => some here
  | name :: rest => ((v.entriesOf here).lookup name).bind fun next => descend v next rest

theorem descend_append (v : Volume) (here : Nat) (p q : List String) :
    v.descend here (p ++ q) = (v.descend here p).bind fun n => v.descend n q := by
  induction p generalizing here with
  | nil => rfl
  | cons name rest ih =>
    simp only [List.cons_append, descend, Option.bind_assoc]
    congr 1
    funext next
    exact ih next

theorem descend_snoc : v.descend here (p ++ [name]) = some n ↔
    ∃ m, v.descend here p = some m ∧ (v.entriesOf m).lookup name = some n := by
  simp [descend_append, descend, Option.bind_eq_some_iff]

/-- A volume without links whose current folder is at `cwd` and in which no node and no file
    has two places. -/
structure Tree (v : Volume) (cwd : List String) : Prop where
  sound : v.Sound
  here : v.descend rootNode cwd = some currentNode
  no_links : ∀ n target, v.node n ≠ .link target
  up : ∀ p n parent entries, v.descend rootNode p = some n → v.node n = .folder parent entries →
    v.descend rootNode p.dropLast = some parent
  one_place : ∀ p q n, v.descend rootNode p = some n → v.descend rootNode q = some n → p = q
  one_file : ∀ n m f, v.node n = .file f → v.node m = .file f → n = m

theorem entriesOf_folder {parent : Nat} {entries : List (String × Nat)} (h : v.node n = .folder parent entries) :
    v.entriesOf n = entries := by rw [entriesOf, h]

theorem next_lt (hv : v.Sound) (hn : n < v.nodes.size) (h : (v.entriesOf n).lookup name = some m) :
    m < v.nodes.size := by
  have hw := hv.within n hn
  unfold entriesOf at h
  split at h
  · rename_i parent entries he
    rw [he] at hw
    exact hw.2 _ (mem_of_lookup h)
  · cases h

theorem descend_lt (hv : v.Sound) (h : v.descend rootNode p = some n) : n < v.nodes.size := by
  induction p using List.reverseRecOn generalizing n with
  | nil => cases h; exact hv.root
  | append_singleton p name ih =>
    obtain ⟨m, hm, hn⟩ := descend_snoc.mp h
    exact next_lt hv (ih hm) hn

/-! ## Walks -/

namespace Tree

/-- A walk that starts at a place and finds a node ends where its steps climb to. -/
theorem descend_of_strolls (ht : v.Tree cwd) (h : v.Strolls purpose here steps (.at (.found n)))
    (hp : v.descend rootNode p = some here) : v.descend rootNode (Path.climb p steps) = some n := by
  generalize hs : Stop.at (.found n) = stop at h
  induction h generalizing p with
  | here m => cases hs; exact hp
  | stay folder dot go ih =>
    rw [Path.climb, if_pos dot]
    exact ih hp hs
  | up folder go ih =>
    rw [Path.climb, if_neg (by decide), if_pos rfl]
    exact ih (ht.up p _ _ _ hp folder) hs
  | absent asks free => cases hs
  | link asks entry isLink => cases hs
  | into asks entry notLink go ih =>
    obtain ⟨parent, hfolder⟩ := asks.folder
    rw [Path.climb, if_neg asks.not_here, if_neg asks.not_up]
    exact ih (descend_snoc.mpr ⟨_, hp, by rw [entriesOf_folder hfolder]; exact entry⟩) hs

/-- No walk of a tree stops at a link. -/
theorem not_strolls_link (ht : v.Tree cwd) {target : String} {rest : List String} :
    ¬ v.Strolls purpose here steps (.link target folder rest) := by
  intro h
  generalize hs : Stop.link target folder rest = stop at h
  induction h with
  | here m => cases hs
  | stay _ _ _ ih => exact ih hs
  | up _ _ ih => exact ih hs
  | absent _ _ => cases hs
  | link asks entry isLink => exact ht.no_links _ _ isLink
  | into _ _ _ _ ih => exact ih hs

/-- A file that a path names is at the place of the path. -/
theorem descend_of_names (ht : v.Tree cwd) (h : v.Names path f) :
    ∃ n, v.descend rootNode (Path.resolve cwd path) = some n ∧ v.node n = .file f := by
  obtain ⟨n, hw, hn⟩ := h
  have hwalk := (walkFrom_iff.mp hw).2
  have hstart : v.descend rootNode (if Path.isAbsolute path then [] else cwd) = some (startOf path) := by
    unfold startOf
    split
    · rfl
    · exact ht.here
  refine ⟨n, ?_, hn⟩
  rw [Path.resolve, ← Path.climb_steps]
  generalize hl : maxLinks = links at hwalk
  cases hwalk with
  | reach go => exact ht.descend_of_strolls go hstart
  | follow go named next => exact absurd go ht.not_strolls_link

/-- Two paths name one file iff they lead to one place. -/
theorem names_eq_iff (ht : v.Tree cwd) {path' : String} {g : FileId} (hf : v.Names path f) (hg : v.Names path' g) :
    f = g ↔ Path.resolve cwd path = Path.resolve cwd path' := by
  obtain ⟨n, hn, hnf⟩ := ht.descend_of_names hf
  obtain ⟨m, hm, hmg⟩ := ht.descend_of_names hg
  constructor
  · rintro rfl
    cases ht.one_file n m f hnf hmg
    exact ht.one_place _ _ n hn hm
  · intro heq
    rw [heq, hm] at hn
    cases hn
    rw [hnf] at hmg
    cases hmg
    rfl

end Tree

/-! ## Making keeps a tree a tree -/

theorem descend_attach (hv : v.Sound) (hm : ∀ parent entries, made = .folder parent entries → entries = [])
    (h : (v.attach folder name made).descend rootNode p = some n) :
    v.descend rootNode p = some n ∨
      n = v.nodes.size ∧ ∃ q, v.descend rootNode q = some folder ∧ p = q ++ [name] := by
  induction p using List.reverseRecOn generalizing n with
  | nil => exact .inl h
  | append_singleton p x ih =>
    obtain ⟨m, hm', hn⟩ := descend_snoc.mp h
    rcases ih hm' with hold | ⟨rfl, -⟩
    · have hlt := descend_lt hv hold
      rw [entriesOf, node_attach hlt] at hn
      by_cases hf : folder = m
      · subst hf
        cases he : v.node folder with
        | folder parent entries =>
          simp only [if_true, he, List.lookup_append, Option.or_eq_some_iff] at hn
          rcases hn with hn | ⟨-, hn⟩
          · exact .inl (descend_snoc.mpr ⟨folder, hold, by rw [entriesOf_folder he]; exact hn⟩)
          · by_cases hx : x = name
            · subst hx
              simp only [List.lookup_cons_self, Option.some.injEq] at hn
              exact .inr ⟨hn.symm, p, hold, rfl⟩
            · have hbeq : (x == name) = false := by simpa using hx
              simp [List.lookup_cons, hbeq] at hn
        | file id => simp [he] at hn
        | link target => simp [he] at hn
      · rw [if_neg hf, ← entriesOf.eq_1] at hn
        exact .inl (descend_snoc.mpr ⟨m, hold, hn⟩)
    · rw [entriesOf, node_attach_self] at hn
      cases made with
      | folder parent entries =>
        cases hm parent entries rfl
        cases hn
      | file id => cases hn
      | link target => cases hn

theorem Grows.descend (hv : v.Sound) (hg : v.Grows v') (h : v.descend rootNode p = some n) :
    v'.descend rootNode p = some n := by
  induction p using List.reverseRecOn generalizing n with
  | nil => exact h
  | append_singleton p x ih =>
    obtain ⟨m, hm, hn⟩ := descend_snoc.mp h
    refine descend_snoc.mpr ⟨m, ih hm, ?_⟩
    have hnode := hg.node m (descend_lt hv hm)
    unfold entriesOf at hn
    split at hn
    · rename_i parent entries he
      rw [he] at hnode
      obtain ⟨more, hmore⟩ := hnode
      rw [entriesOf_folder hmore]
      exact lookup_append_of_some hn
    · cases hn

theorem grows_folder {old : Node} {parent : Nat} {entries : List (String × Nat)}
    (h : old.Grows (.folder parent entries)) :
    ∃ before, old = .folder parent before := by
  cases old with
  | folder parent' before => obtain ⟨_, h⟩ := h; cases h; exact ⟨_, rfl⟩
  | file id => cases h
  | link target => cases h

theorem grows_file {old : Node} (h : old.Grows (.file f)) : old = .file f := by
  cases old with
  | folder parent before => obtain ⟨_, h⟩ := h; cases h
  | file id => cases h; rfl
  | link target => cases h

theorem grows_link {old : Node} {target : String} (h : old.Grows (.link target)) : old = .link target := by
  cases old with
  | folder parent before => obtain ⟨_, h⟩ := h; cases h
  | file id => cases h
  | link target => cases h; rfl

theorem node_attach_cases (v : Volume) (folder : Nat) (name : String) (made : Node) (n : Nat) :
    n = v.nodes.size ∧ (v.attach folder name made).node n = made ∨
      (v.node n).Grows ((v.attach folder name made).node n) := by
  rcases Nat.lt_trichotomy n v.nodes.size with hn | rfl | hn
  · exact .inr ((grows_attach v folder name made).node n hn)
  · exact .inl ⟨rfl, node_attach_self ..⟩
  · have hout : (v.attach folder name made).nodes.size ≤ n := by rw [size_attach]; exact hn
    rw [node, node, Array.getElem?_eq_none (Nat.le_of_lt hn), Array.getElem?_eq_none hout]
    exact .inr (.refl _)

/-- What can be added to a tree: a folder with nothing in it, below its parent, or a file that
    has no place yet. -/
inductive Bare (v : Volume) (folder : Nat) : Node → Prop
  | folder : Bare v folder (.folder folder [])
  | file {f : FileId} (unplaced : ∀ n, v.node n ≠ .file f) : Bare v folder (.file f)

namespace Bare

variable (hb : v.Bare folder made)
include hb

theorem no_entries (parent : Nat) (entries : List (String × Nat)) (h : made = .folder parent entries) :
    entries = [] := by
  cases hb with
  | folder => cases h; rfl
  | file unplaced => cases h

theorem not_link (target : String) : made ≠ .link target := by
  cases hb <;> exact Node.noConfusion

/-- A file after an attachment is the one that was made or was there. -/
theorem file_cases (h : (v.attach folder name made).node n = .file f) :
    n = v.nodes.size ∧ (∀ m, v.node m ≠ .file f) ∨ v.node n = .file f := by
  rcases node_attach_cases v folder name made n with ⟨rfl, hmade⟩ | hgrows
  · rw [h] at hmade
    subst hmade
    cases hb with
    | file unplaced => exact .inl ⟨rfl, unplaced⟩
  · rw [h] at hgrows
    exact .inr (grows_file hgrows)

end Bare

namespace Tree

theorem attach (ht : v.Tree cwd) (hb : v.Bare folder made) (hs : (v.attach folder name made).Sound) :
    (v.attach folder name made).Tree cwd := by
  have hg := grows_attach v folder name made
  have back {p : List String} {n : Nat} := @descend_attach v p folder n name made ht.sound hb.no_entries
  have hne {p : List String} {n : Nat} (h : v.descend rootNode p = some n) : n ≠ v.nodes.size :=
    Nat.ne_of_lt (descend_lt ht.sound h)
  refine ⟨hs, hg.descend ht.sound ht.here, ?_, ?_, ?_, ?_⟩
  · intro n target h
    rcases node_attach_cases v folder name made n with ⟨-, hmade⟩ | hgrows
    · exact hb.not_link target (hmade.symm.trans h)
    · rw [h] at hgrows
      exact ht.no_links n target (grows_link hgrows)
  · intro p n parent entries hp hn
    rcases back hp with hold | ⟨rfl, q, hq, rfl⟩
    · have hgrows := hg.node n (descend_lt ht.sound hold)
      rw [hn] at hgrows
      obtain ⟨before, hbefore⟩ := grows_folder hgrows
      exact hg.descend ht.sound (ht.up p n _ _ hold hbefore)
    · rw [node_attach_self] at hn
      subst hn
      cases hb
      rw [List.dropLast_concat]
      exact hg.descend ht.sound hq
  · intro p q n hp hq
    rcases back hp with hp | ⟨rfl, p', hp', rfl⟩ <;> rcases back hq with hq | ⟨hn, q', hq', rfl⟩
    · exact ht.one_place p q n hp hq
    · exact absurd hn (hne hp)
    · exact absurd rfl (hne hq)
    · rw [ht.one_place p' q' folder hp' hq']
  · intro n m f hn hm
    rcases hb.file_cases hn with ⟨rfl, hnew⟩ | hn' <;> rcases hb.file_cases hm with ⟨rfl, hnew'⟩ | hm'
    · rfl
    · exact absurd hm' (hnew m)
    · exact absurd hn' (hnew' n)
    · exact ht.one_file n m f hn' hm'

/-- The bytes of files, and files without a name, do not matter. -/
theorem of_nodes (ht : v.Tree cwd) (hv' : v'.Sound) (h : v'.nodes = v.nodes) : v'.Tree cwd := by
  have hn (n : Nat) : v'.node n = v.node n := by rw [node, node, h]
  have hd (here : Nat) (p : List String) : v'.descend here p = v.descend here p := by
    induction p generalizing here with
    | nil => rfl
    | cons name rest ih => simp only [descend, entriesOf, hn, ih]
  refine ⟨hv', ?_, ?_, ?_, ?_, ?_⟩
  · rw [hd]; exact ht.here
  · simpa only [hn] using ht.no_links
  · simpa only [hn, hd] using ht.up
  · simpa only [hd] using ht.one_place
  · simpa only [hn] using ht.one_file

theorem withFile (ht : v.Tree cwd) : (v.withFile folder name).Tree cwd := by
  refine (ht.of_nodes (sound_withSpare ht.sound) rfl).attach (.file ?_) (sound_withFile ht.sound)
  intro n hn
  have hold : v.node n = .file v.disk.files.size := hn
  rcases Nat.lt_or_ge n v.nodes.size with hlt | hge
  · have hw := ht.sound.within n hlt
    rw [hold] at hw
    exact Nat.lt_irrefl _ hw
  · rw [node, Array.getElem?_eq_none hge] at hold
    cases hold

theorem makeFolder (ht : v.Tree cwd) (h : v.makeFolder path = .ok v') : v'.Tree cwd := by
  have hsound := (makeFolder_furnished ht.sound h).sound
  unfold Volume.makeFolder at h
  cases hf : v.freeName path with
  | error e => rw [hf] at h; cases h
  | ok place =>
    rw [hf] at h
    cases h
    exact ht.attach .folder hsound

theorem makeFoldersWithin (ht : v.Tree cwd) {depth : Nat} {r : Except IoFault Unit}
    (h : Volume.makeFoldersWithin depth path v = (r, v')) : v'.Tree cwd :=
  makeFoldersWithin_keeps (P := (Volume.Tree · cwd)) (fun ht hw => ht.makeFolder hw) ht h

theorem openLog (ht : v.Tree cwd) {requested : Nat} {l : Log} (h : Log.openAt v path requested = .ok (l, v')) :
    v'.Tree cwd := by
  have hsound := (Log.openAt_spec ht.sound h).sound
  unfold Log.openAt at h
  split at h
  · cases h
  dsimp only at h
  split at h
  · cases h
  split at h
  · cases h
  · rename_i f w hw
    cases h
    refine of_nodes (v := w) ?_ hsound rfl
    rcases openToWrite_cases hw with ⟨-, rfl⟩ | ⟨folder, name, -, -, rfl⟩
    · exact ht
    · exact ht.withFile

end Tree

theorem tree_empty (available : Nat) : (empty available).Tree ["work"] := by
  have hnode (n : Nat) : (empty available).node n =
      if n = 0 then .folder rootNode [("work", currentNode)] else .folder rootNode [] := by
    match n with
    | 0 => rfl
    | 1 => rfl
    | n + 2 => rfl
  have hentries (n : Nat) : (empty available).entriesOf n = if n = 0 then [("work", currentNode)] else [] := by
    by_cases hn : n = 0 <;> simp [entriesOf, hnode, hn]
  have places {p : List String} {n : Nat} (h : (empty available).descend rootNode p = some n) :
      p = [] ∧ n = rootNode ∨ p = ["work"] ∧ n = currentNode := by
    match p, h with
    | [], h => cases h; exact .inl ⟨rfl, rfl⟩
    | name :: rest, h =>
      simp only [descend, hentries, rootNode, if_true] at h
      by_cases hw : name = "work"
      · subst hw
        simp only [List.lookup_cons_self, Option.bind_some] at h
        cases rest with
        | nil => cases h; exact .inr ⟨rfl, rfl⟩
        | cons x xs => simp [descend, hentries, currentNode] at h
      · have hbeq : (name == "work") = false := by simpa using hw
        simp [List.lookup_cons, hbeq] at h
  refine ⟨sound_empty available, rfl, ?_, ?_, ?_, ?_⟩
  · intro n target h
    rw [hnode] at h
    split at h <;> cases h
  · intro p n parent entries hp hn
    have hparent : parent = rootNode := by
      rw [hnode] at hn
      split at hn <;> (cases hn; rfl)
    rcases places hp with ⟨rfl, -⟩ | ⟨rfl, -⟩ <;> (subst hparent; rfl)
  · intro p q n hp hq
    rcases places hp with ⟨rfl, rfl⟩ | ⟨rfl, rfl⟩ <;> rcases places hq with ⟨rfl, h⟩ | ⟨rfl, h⟩
    · rfl
    · cases h
    · cases h
    · rfl
  · intro n m f hn
    rw [hnode] at hn
    split at hn <;> cases hn

end Volume

end TwinLog
