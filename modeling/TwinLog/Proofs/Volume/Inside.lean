/-
  TwinLog.Proofs.Volume.Inside — what is inside a folder is found under its path.

  A path that leads to a folder, joined with the name of one of the folder's entries, leads to
  that entry (`lookup_join`), however the folder was reached: through links, or by a path with a
  slash at its end. The name has to be one that can be asked for (`Askable`).

  The walk of the joined path is that of the folder's path and one step more (`Walks.append`).
  The blank step that a slash at the end leaves behind is not taken (`Walks.thin`).
-/

import TwinLog.Proofs.Volume.Places

namespace TwinLog

/-! ## The text of a joined path -/

namespace Path

variable {name : String}

theorem Plain.names_join (h : Plain name) (base : String) : names (Path.join base name) = names base ++ [name] := by
  obtain ⟨front, hbase, hjoin⟩ := h.parts_join base
  unfold names
  rw [hjoin, List.filter_append]
  obtain hbase | hbase := hbase <;> simp [hbase, h.named]

theorem mem_toList_join {c : Char} {base : String} (h : c ∈ (Path.join base name).toList) :
    c ∈ base.toList ∨ c = '/' ∨ c ∈ name.toList := by
  unfold Path.join at h
  split at h
  · exact .inr (.inr h)
  split at h
  · rw [String.toList_append, List.mem_append] at h
    exact h.imp_right .inr
  · rw [String.toList_append, String.toList_append, List.mem_append, List.mem_append, or_assoc] at h
    exact h.imp_right (Or.imp_left fun hc => List.mem_singleton.mp hc)

theorem Plain.steps_join (h : Plain name) (base : String) : steps (Path.join base name) = names base ++ [name] := by
  rw [← h.names_join, steps, if_neg]
  intro hend
  obtain ⟨front, hfront⟩ := exists_front_of_endsWithSlash hend
  obtain ⟨before, -, hjoin⟩ := h.parts_join base
  rw [hfront, parts_slash] at hjoin
  have hlast := congrArg List.getLast? hjoin
  rw [show Path.parts "" = [""] by decide, List.getLast?_concat, List.getLast?_concat] at hlast
  exact h.named (Option.some.inj hlast).symm

end Path

namespace Volume

variable {v : Volume} {base name : String} {here links m n parent : Nat} {steps more : List String} {spot : Spot}
  {stop : Stop} {entries : List (String × Nat)}

/-- A name that can be asked for below `base`: it has at most 255 bytes, and the joined path less
    than 4096. -/
structure Askable (base name : String) : Prop where
  plain : Path.Plain name
  text : '\x00' ∉ name.toList
  short : name.utf8ByteSize ≤ maxName
  fits : (Path.join base name).utf8ByteSize < maxPath

instance (base name : String) : Decidable (Askable base name) :=
  decidable_of_iff ((name ≠ "" ∧ '/' ∉ name.toList ∧ name ≠ "." ∧ name ≠ "..") ∧ '\x00' ∉ name.toList ∧
      name.utf8ByteSize ≤ maxName ∧ (Path.join base name).utf8ByteSize < maxPath)
    ⟨fun ⟨⟨named, whole, not_here, not_up⟩, text, short, fits⟩ => ⟨⟨named, whole, not_here, not_up⟩, text, short, fits⟩,
      fun h => ⟨⟨h.plain.named, h.plain.whole, h.plain.not_here, h.plain.not_up⟩, h.text, h.short, h.fits⟩⟩

theorem Askable.not_refused (h : Askable base name) (hbase : refusePath base = none) :
    refusePath (Path.join base name) = none := by
  have htext : '\x00' ∉ base.toList := by
    intro hmem
    rw [refusePath, if_pos (List.contains_iff_mem.mpr hmem)] at hbase
    cases hbase
  have hjoin : '\x00' ∉ (Path.join base name).toList := by
    intro hmem
    obtain hmem | hmem | hmem := Path.mem_toList_join hmem
    · exact htext hmem
    · cases hmem
    · exact h.text hmem
  have hnamed : Path.join base name ≠ "" := by
    intro hempty
    have hnames := h.plain.names_join base
    rw [hempty, show Path.names "" = [] by decide] at hnames
    simp at hnames
  rw [refusePath, if_neg (by simpa using hjoin), if_neg hnamed, if_neg (Nat.not_le.mpr h.fits)]

/-! ## One step more -/

theorem Askable.strolls (h : Askable base name) (hfolder : v.node n = .folder parent entries)
    (hentry : entries.lookup name = some m) (hlink : ∀ target, v.node m ≠ .link target) :
    v.Strolls .look n [name] (.at (.found m)) := by
  have asks : v.Asks .look n name [] entries := {
    folder := ⟨parent, hfolder⟩
    not_here := fun hdot => hdot.elim h.plain.named h.plain.not_here
    not_up := h.plain.not_up
    allowed := fun hmake => Purpose.noConfusion hmake.1
    short := Nat.not_lt.mpr h.short }
  exact .into asks hentry hlink (.here m)

/-- A walk that looks asks for a name whatever comes behind it. -/
theorem Asks.whatever {rest : List String} (asks : v.Asks .look n name rest entries) (rest' : List String) :
    v.Asks .look n name rest' entries :=
  ⟨asks.folder, asks.not_here, asks.not_up, fun hmake => Purpose.noConfusion hmake.1, asks.short⟩

/-- The steps of a stretch that is walked to its end are followed by more. -/
theorem Strolls.append (h : v.Strolls .look here steps (.at (.found n))) (go : v.Strolls .look n more stop) :
    v.Strolls .look here (steps ++ more) stop := by
  generalize hs : Stop.at (.found n) = found at h
  induction h with
  | here => cases hs; exact go
  | stay folder dot _ ih => exact .stay folder dot (ih hs)
  | up folder _ ih => exact .up folder (ih hs)
  | absent => cases hs
  | link => cases hs
  | into asks entry notLink _ ih => exact .into (asks.whatever _) entry notLink (ih hs)

/-- What follows a link waits until the link is followed. -/
theorem Strolls.append_link {target : String} {folder : Nat} {rest : List String}
    (h : v.Strolls .look here steps (.link target folder rest)) (more : List String) :
    v.Strolls .look here (steps ++ more) (.link target folder (rest ++ more)) := by
  generalize hs : Stop.link target folder rest = stop at h
  induction h with
  | here => cases hs
  | stay folder dot _ ih => exact .stay folder dot (ih hs)
  | up folder _ ih => exact .up folder (ih hs)
  | absent => cases hs
  | link asks entry isLink => cases hs; exact .link (asks.whatever _) entry isLink
  | into asks entry notLink _ ih => exact .into (asks.whatever _) entry notLink (ih hs)

theorem Walks.append (h : v.Walks .look links here steps (.found n)) (go : v.Strolls .look n more (.at spot)) :
    v.Walks .look links here (steps ++ more) spot := by
  generalize hs : Spot.found n = found at h
  induction h with
  | reach first => subst hs; exact .reach (first.append go)
  | follow first named _ ih =>
    refine .follow (first.append_link more) named ?_
    rw [← List.append_assoc]
    exact ih hs

/-! ## A blank step -/

/-- Two stops with the same steps before them, where only the first one has a blank step before `more`. -/
inductive Stop.Thins (more : List String) : Stop → Stop → Prop
  | same (stop : Stop) : Thins more stop stop
  | link (target : String) (folder : Nat) (rest : List String) :
      Thins more (.link target folder (rest ++ "" :: more)) (.link target folder (rest ++ more))

theorem Strolls.thin (h : v.Strolls .look here (steps ++ "" :: more) stop) (hmore : more ≠ []) :
    ∃ stop', Stop.Thins more stop stop' ∧ v.Strolls .look here (steps ++ more) stop' := by
  induction steps generalizing here with
  | nil =>
    generalize hblank : "" = blank, more = rest at h hmore
    cases h with
    | stay folder dot go => exact ⟨stop, .same stop, go⟩
    | up => exact absurd hblank (by decide)
    | absent => exact absurd rfl hmore
    | link asks => exact absurd (.inl hblank.symm) asks.not_here
    | into asks => exact absurd (.inl hblank.symm) asks.not_here
  | cons step rest ih =>
    rw [List.cons_append] at h
    generalize htail : rest ++ "" :: more = tail at h
    cases h with
    | stay folder dot go =>
      obtain ⟨stop', hthins, hgo⟩ := ih (htail ▸ go)
      exact ⟨stop', hthins, .stay folder dot hgo⟩
    | up folder go =>
      obtain ⟨stop', hthins, hgo⟩ := ih (htail ▸ go)
      exact ⟨stop', hthins, .up folder hgo⟩
    | absent => simp at htail
    | link asks entry isLink =>
      subst htail
      exact ⟨_, .link _ _ rest, .link (asks.whatever _) entry isLink⟩
    | into asks entry notLink go =>
      obtain ⟨stop', hthins, hgo⟩ := ih (htail ▸ go)
      exact ⟨stop', hthins, .into (asks.whatever _) entry notLink hgo⟩

theorem Walks.thin (h : v.Walks .look links here (steps ++ "" :: more) spot) (hmore : more ≠ []) :
    v.Walks .look links here (steps ++ more) spot := by
  generalize hs : steps ++ "" :: more = path at h
  induction h generalizing steps with
  | reach go =>
    subst hs
    obtain ⟨stop', hthins, hgo⟩ := go.thin hmore
    cases hthins
    exact .reach hgo
  | follow go named next ih =>
    subst hs
    obtain ⟨stop', hthins, hgo⟩ := go.thin hmore
    cases hthins with
    | same => exact .follow hgo named next
    | link target folder rest =>
      refine .follow hgo named ?_
      rw [← List.append_assoc]
      exact ih (List.append_assoc ..)

/-! ## Looking up -/

theorem lookup_iff : v.lookup base = .ok n ↔
    refusePath base = none ∧ v.Walks .look maxLinks (startOf base) (Path.steps base) (.found n) := by
  rw [← walkFrom_iff]
  unfold lookup nodeAt
  constructor
  · intro h
    split at h
    · rename_i hwalk
      cases h
      exact hwalk
    · cases h
    · cases h
  · intro h
    rw [h]

/-- An entry of a folder is found under the joined path. -/
theorem lookup_join (hbase : v.lookup base = .ok n) (hfolder : v.node n = .folder parent entries)
    (hentry : entries.lookup name = some m) (hlink : ∀ target, v.node m ≠ .link target) (hname : Askable base name) :
    v.lookup (Path.join base name) = .ok m := by
  obtain ⟨hrefuse, hwalk⟩ := lookup_iff.mp hbase
  refine lookup_iff.mpr ⟨hname.not_refused hrefuse, ?_⟩
  have hstart : startOf (Path.join base name) = startOf base := by
    rw [startOf, startOf, hname.plain.absolute_join]
  have hstep := hwalk.append (hname.strolls hfolder hentry hlink)
  rw [hstart, hname.plain.steps_join]
  unfold Path.steps at hstep
  split at hstep
  · rw [List.append_assoc] at hstep
    exact hstep.thin (by simp)
  · exact hstep

theorem isFile_iff (h : v.lookup base = .ok n) : v.isFile base = true ↔ ∃ id, v.node n = .file id := by
  simp only [isFile, openToRead, h]
  cases v.node n <;> simp

theorem isFolder_iff (h : v.lookup base = .ok n) (hlink : ∀ target, v.node n ≠ .link target) :
    v.isFolder base = true ↔ ∃ parent entries, v.node n = .folder parent entries := by
  simp only [isFolder, openToRead, h]
  cases hnode : v.node n with
  | folder => simp
  | file => simp
  | link target => exact absurd hnode (hlink target)

theorem childNames_eq (h : v.lookup base = .ok n) (hfolder : v.node n = .folder parent entries) :
    v.childNames base = .ok (entries.map (·.1)) := by
  simp only [childNames, h, hfolder]

end Volume

end TwinLog
