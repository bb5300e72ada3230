/-
  TwinLog.Proofs.KeyLog.Crowd — many callers of one gate.

  A caller asks, waits, and then either gets in, does its work step by step and leaves with a
  reply, or gives up with a timeout, whatever the others do. A run of any number of callers is
  a list of events in any order; an event that is not possible changes nothing. `entered` has
  the calls in the order in which they held the gate, `returns` in the order in which they
  returned, the timed-out ones included.

  `Serial` is the invariant: the calls that have left are a sequential run, which ends where
  the caller who is inside now has begun. From it:
  - `Serial.duplicate`: who repeats an add only after timeouts is not refused because of that;
  - `Serial.reopens`: what the last commit leaves are the adds that have succeeded.
-/

import TwinLog.Proofs.KeyLog.Calls

namespace TwinLog

namespace KeyLog

inductive Caller where
  | away
  | waiting (r : Request)
  | admitted

structure Visit where
  caller : Nat
  request : Request
  body : Body

structure Return where
  caller : Nat
  request : Request
  reply : Reply

structure Crowd where
  index : KeyLog
  disk : Disk
  timeout : Duration
  callers : List Caller
  inside : Option Visit
  entered : List (Nat × Request)
  returns : List Return

inductive Event where
  | ask (i : Nat) (r : Request)
  | enter (i : Nat)
  | expire (i : Nat)
  | work
  | leave

namespace Return

def expired (t : Duration) (ret : Return) : Bool := decide (ret.reply = ret.request.refuse (.timedOut t))

def added? (ret : Return) : Option (String × Location) :=
  match ret.request, ret.reply with
  | .add _ key l, .unit (.ok ()) => some (key, l)
  | _, _ => none

def Adds (key : String) (ret : Return) : Prop := ∃ space l, ret.request = .add space key l

end Return

namespace Crowd

def gather (k : KeyLog) (d : Disk) (timeout : Duration) (callers : Nat) : Crowd :=
  ⟨k, d, timeout, List.replicate callers .away, none, [], []⟩

def step (s : Crowd) : Event → Crowd
  | .ask i r => match s.callers[i]? with
    | some .away => { s with callers := s.callers.set i (.waiting r) }
    | _ => s
  | .enter i => match s.callers[i]?, s.inside with
    | some (.waiting r), none => { s with
        inside := some ⟨i, r, .begun r⟩
        callers := s.callers.set i .admitted
        entered := s.entered ++ [(i, r)] }
    | _, _ => s
  | .expire i => match s.callers[i]? with
    | some (.waiting r) => { s with
        callers := s.callers.set i .away
        returns := s.returns ++ [⟨i, r, r.refuse (.timedOut s.timeout)⟩] }
    | _ => s
  | .work => match s.inside with
    | some v =>
      let x := v.body.step s.index s.disk
      { s with inside := some { v with body := x.1 }, index := x.2.1, disk := x.2.2 }
    | none => s
  | .leave => match s.inside with
    | some ⟨i, r, .over reply⟩ => { s with
        inside := none
        callers := s.callers.set i .away
        returns := s.returns ++ [⟨i, r, reply⟩] }
    | _ => s

def run (s : Crowd) (events : List Event) : Crowd := events.foldl step s

/-- The returns that are no timeouts. -/
def kept (s : Crowd) : List Return := s.returns.filter fun ret => !ret.expired s.timeout

/-! ## The invariant -/

/-- The calls that have left are a sequential run, and the one inside is on its way from there. -/
structure Serial (k : KeyLog) (d : Disk) (s : Crowd) : Prop where
  replies : (k.replyAll d (s.kept.map (·.request))).1 = s.kept.map (·.reply)
  between : s.inside = none → (k.replyAll d (s.kept.map (·.request))).2 = (s.index, s.disk)
  within : ∀ v, s.inside = some v → ∃ n,
    Body.after n (.begun v.request, (k.replyAll d (s.kept.map (·.request))).2) = (v.body, s.index, s.disk)
  order : s.entered = s.kept.map (fun ret => (ret.caller, ret.request)) ++
    (s.inside.map fun v => (v.caller, v.request)).toList

variable {k : KeyLog} {d : Disk} {s : Crowd} {timeout : Duration}

theorem serial_gather (k : KeyLog) (d : Disk) (timeout : Duration) (callers : Nat) :
    Serial k d (gather k d timeout callers) where
  replies := rfl
  between := fun _ => rfl
  within := fun _ hv => nomatch hv
  order := rfl

theorem kept_append (s : Crowd) (ret : Return) (callers : List Caller) (inside : Option Visit) :
    Crowd.kept { s with callers, inside, returns := s.returns ++ [ret] } =
      s.kept ++ if ret.expired s.timeout then [] else [ret] := by
  rw [kept, kept, List.filter_append, List.filter_cons, List.filter_nil]
  cases ret.expired s.timeout <;> rfl

/-- The caller who is inside leaves with what the sequential run answers next. -/
theorem Serial.leave (h : Serial k d s) {i : Nat} {r : Request} {reply : Reply}
    (hv : s.inside = some ⟨i, r, .over reply⟩) : Serial k d { s with
      inside := none
      callers := s.callers.set i .away
      returns := s.returns ++ [⟨i, r, reply⟩] } := by
  obtain ⟨n, hn⟩ := h.within _ hv
  have hreply := Body.reply_of_over hn
  have hkeep : Return.expired s.timeout ⟨i, r, reply⟩ = false := by
    have hne := reply_ne_timedOut (k.replyAll d (s.kept.map (·.request))).2.1
      (k.replyAll d (s.kept.map (·.request))).2.2 r s.timeout
    rw [hreply] at hne
    exact decide_eq_false hne
  have hkept : Crowd.kept { s with
      inside := none
      callers := s.callers.set i .away
      returns := s.returns ++ [⟨i, r, reply⟩] } = s.kept ++ [⟨i, r, reply⟩] := by
    refine (kept_append ..).trans ?_
    rw [hkeep]
    rfl
  have hall := k.replyAll_append d (s.kept.map (·.request)) [r]
  simp only [replyAll, hreply, h.replies] at hall
  refine ⟨?_, ?_, ?_, ?_⟩
  · rw [hkept, List.map_append, List.map_append]
    exact congrArg Prod.fst hall
  · intro _
    rw [hkept, List.map_append]
    exact congrArg Prod.snd hall
  · intro _ hx
    cases hx
  · rw [hkept, h.order, hv, List.map_append]
    simp

/-- A call that times out is not one of the sequential run. -/
theorem Serial.expire (h : Serial k d s) (i : Nat) (r : Request) : Serial k d { s with
      callers := s.callers.set i .away
      returns := s.returns ++ [⟨i, r, r.refuse (.timedOut s.timeout)⟩] } := by
  have hexpired : Return.expired s.timeout ⟨i, r, r.refuse (.timedOut s.timeout)⟩ = true := decide_eq_true rfl
  have hkept : Crowd.kept { s with
      callers := s.callers.set i .away
      returns := s.returns ++ [⟨i, r, r.refuse (.timedOut s.timeout)⟩] } = s.kept := by
    refine (kept_append ..).trans ?_
    rw [hexpired]
    exact List.append_nil _
  exact ⟨hkept ▸ h.replies, hkept ▸ h.between, hkept ▸ h.within, hkept ▸ h.order⟩

theorem serial_step (h : Serial k d s) (event : Event) : Serial k d (s.step event) := by
  cases event with
  | ask i r =>
    simp only [step]
    split
    · exact ⟨h.replies, h.between, h.within, h.order⟩
    · exact h
  | enter i =>
    simp only [step]
    split
    · rename_i r hi hfree
      refine ⟨h.replies, fun hx => (nomatch hx), ?_, ?_⟩
      · intro v hv
        cases hv
        exact ⟨0, by rw [Body.after]; exact congrArg _ (h.between hfree)⟩
      · show s.entered ++ [(i, r)] = s.kept.map (fun ret => (ret.caller, ret.request)) ++ [(i, r)]
        rw [h.order, hfree]
        simp
    · exact h
  | expire i =>
    simp only [step]
    split
    · exact h.expire i _
    · exact h
  | work =>
    simp only [step]
    split
    · rename_i v hv
      obtain ⟨n, hn⟩ := h.within v hv
      refine ⟨h.replies, fun hx => (nomatch hx), ?_, ?_⟩
      · intro v' hv'
        cases hv'
        refine ⟨n + 1, ?_⟩
        rw [Body.after_add n 1]
        exact congrArg (Body.after 1) hn
      · show s.entered = _
        rw [h.order, hv]
        rfl
    · exact h
  | leave =>
    simp only [step]
    split
    · rename_i i r reply hv
      exact h.leave hv
    · exact h

theorem serial_run (h : Serial k d s) (events : List Event) : Serial k d (s.run events) := by
  induction events generalizing s with
  | nil => exact h
  | cons event events ih => exact ih (serial_step h event)

/-! ## What the calls have recorded -/

theorem reply_pairs (k : KeyLog) (d : Disk) (i : Nat) (r : Request) :
    (k.reply d r).2.1.directory.pairs =
      k.directory.pairs ++ (Return.added? ⟨i, r, (k.reply d r).1⟩).toList := by
  cases r with
  | add space key l =>
    rcases k.add_directory space d key l with ⟨hok, o, hdir⟩ | ⟨⟨e, he⟩, hdir⟩
    · simp only [reply, hok, hdir, Return.added?, Option.toList_some]
      exact List.map_append
    · simp only [reply, he, hdir, Return.added?, Option.toList_none, List.append_nil]
  | get key => exact (List.append_nil _).symm
  | contains key => exact (List.append_nil _).symm
  | commit =>
    simp only [reply, Gate.storing]
    split <;> exact (List.append_nil _).symm
  | rollback =>
    simp only [reply, Gate.storing]
    split <;> exact (List.append_nil _).symm

/-- The directory grows by the adds that have succeeded, in their order. -/
theorem replyAll_pairs {k : KeyLog} {d : Disk} {rets : List Return}
    (h : (k.replyAll d (rets.map (·.request))).1 = rets.map (·.reply)) :
    (k.replyAll d (rets.map (·.request))).2.1.directory.pairs = k.directory.pairs ++ rets.filterMap Return.added? := by
  induction rets generalizing k d with
  | nil => exact (List.append_nil _).symm
  | cons ret rest ih =>
    obtain ⟨i, r, reply⟩ := ret
    simp only [List.map_cons, replyAll, List.cons.injEq] at h ⊢
    obtain ⟨hreply, hrest⟩ := h
    have hone := reply_pairs k d i r
    rw [hreply] at hone
    rw [ih hrest, hone, List.append_assoc, List.filterMap_cons]
    cases Return.added? ⟨i, r, reply⟩ <;> rfl

theorem kept_split {before after : List Return} {ret : Return} (hr : s.returns = before ++ ret :: after)
    (hk : ret.expired s.timeout = false) : s.kept =
      before.filter (fun ret => !ret.expired s.timeout) ++ ret :: after.filter fun ret => !ret.expired s.timeout := by
  rw [kept, hr, List.filter_append, List.filter_cons, hk]
  rfl

namespace Serial

/-- The calls before this one are a sequential run, and it answers next. -/
theorem at_return (h : Serial k d s) {kept after : List Return} {ret : Return} (hk : s.kept = kept ++ ret :: after) :
    (k.replyAll d (kept.map (·.request))).1 = kept.map (·.reply) ∧
      ((k.replyAll d (kept.map (·.request))).2.1.reply (k.replyAll d (kept.map (·.request))).2.2 ret.request).1 =
        ret.reply := by
  have hall := h.replies
  rw [hk, List.map_append, List.map_append, replyAll_append] at hall
  obtain ⟨hbefore, hfrom⟩ := List.append_inj hall (by simp)
  refine ⟨hbefore, ?_⟩
  simp only [List.map_cons, replyAll, List.cons.injEq] at hfrom
  exact hfrom.1

/-- An add is a duplicate because the key was there in the beginning, or because another
    caller has recorded it, if all that its own caller tried before has timed out. -/
theorem duplicate (h : Serial k d s) {before after : List Return} {i : Nat} {space : Volume.Space}
    {key key' : String} {l : Location}
    (hr : s.returns = before ++ ⟨i, .add space key l, .unit (.error (.duplicateKey key'))⟩ :: after)
    (hown : ∀ ret ∈ before, ret.caller = i → ret.Adds key → ret.expired s.timeout = true) :
    key' = key ∧ (key ∈ k.directory.keys ∨
      ∃ ret ∈ before, ret.caller ≠ i ∧ ret.Adds key ∧ ret.reply = .unit (.ok ())) := by
  obtain ⟨hbefore, hreply⟩ := h.at_return (kept_split hr rfl)
  obtain ⟨hkey, hknown⟩ | hlog := add_fault (Reply.unit.inj hreply)
  · cases hkey
    refine ⟨rfl, ?_⟩
    obtain ⟨e, he, hekey⟩ := List.any_eq_true.mp hknown
    have hmem : (e.key, e.location) ∈ Directory.pairs _ := List.mem_map_of_mem he
    rw [replyAll_pairs hbefore, beq_iff_eq.mp hekey] at hmem
    rcases List.mem_append.mp hmem with hold | hnew
    · obtain ⟨e', he', heq⟩ := List.mem_map.mp hold
      exact .inl (List.mem_map.mpr ⟨e', he', congrArg Prod.fst heq⟩)
    · right
      obtain ⟨ret, hret, hadded⟩ := List.mem_filterMap.mp hnew
      obtain ⟨hret, hkept⟩ := List.mem_filter.mp hret
      obtain ⟨j, r, reply⟩ := ret
      unfold Return.added? at hadded
      split at hadded
      · rename_i space' key' l' hreq hrep
        obtain ⟨rfl, -⟩ := Prod.mk.inj (Option.some.inj hadded)
        refine ⟨_, hret, ?_, ⟨_, _, hreq⟩, hrep⟩
        intro hi
        have hexpired := hown _ hret hi ⟨_, _, hreq⟩
        rw [hexpired] at hkept
        cases hkept
      · cases hadded
  · cases hlog

end Serial

end Crowd

/-! ## The next opening -/

theorem reply_serve (k : KeyLog) (d : Disk) (r : Request) : (k.reply d r).2 = k.serve d r := by
  cases r <;> rfl

theorem Used.asked_all {path : String} {k : KeyLog} {v : Volume} (h : Used path k v) (rs : List Request) :
    Used path (k.replyAll v.disk rs).2.1 { v with disk := (k.replyAll v.disk rs).2.2 } := by
  induction rs generalizing k v with
  | nil => exact h
  | cons r rest ih =>
    have hone := h.asked r
    rw [← reply_serve] at hone
    exact ih hone

/-- A header that was just stored covers the whole directory. -/
theorem Intact.all_saved {k : KeyLog} {d d' : Disk} {persisted : Nat} (hm : k.log.Mounted d) (hc : k.commit d = .ok d')
    (h : Intact k d' persisted) : k.directory.filter (·.finish ≤ persisted) = k.directory := by
  have hlow : headSize ≤ k.cursor := Nat.le_trans h.persisted_within.1 h.persisted_within.2
  have hh := (Log.storeCursor_ok (Log.flush_spec hm).1 hc).2.2.1 hlow
  rw [h.headed.unique hh, List.filter_eq_self]
  intro e he
  exact decide_eq_true (h.laid.mem_bounds he).2

namespace Crowd.Serial

variable {k : KeyLog} {s : Crowd}

/-- The last call was a commit: the next opening is not refused as corruption, and finds what
    was there in the beginning and the adds that have succeeded. -/
theorem reopens {path : String} {v w : Volume} (hu : Used path k v) (h : Serial k v.disk s) (hfree : s.inside = none)
    {before : List Return} {ret : Return} (hk : s.kept = before ++ [ret]) (hc : ret.request = .commit)
    (hok : ret.reply = .unit (.ok ())) {closes : Bool}
    (hw : (s.index.left { v with disk := s.disk } closes).Spares path w) (capacity : Nat) :
    (∀ damage, (openAt w path capacity).1 ≠ .error (.corruption damage)) ∧
      (Log.Room w path capacity → ∃ k' w', openAt w path capacity = (.ok k', w')) ∧
      ∀ k' w', openAt w path capacity = (.ok k', w') →
        k'.directory.pairs = k.directory.pairs ++ s.kept.filterMap Return.added? := by
  have hend := h.between hfree
  have hpairs := replyAll_pairs h.replies
  have hused := hu.asked_all (s.kept.map (·.request))
  rw [hend] at hpairs hused
  obtain ⟨persisted, hi⟩ := hused.upheld.intact
  obtain ⟨hsafe, hfound, hopens⟩ := hused.upheld.opens_again hi hw capacity
  refine ⟨hsafe, hopens, ?_⟩
  intro k' w' hopen
  -- the state in which the commit began
  obtain ⟨-, hreply⟩ := h.at_return hk
  obtain ⟨opening, saved, hsteady⟩ := (hu.asked_all (before.map (·.request))).upheld.steady
  have hlast : ((k.replyAll v.disk (before.map (·.request))).2.1.reply
      (k.replyAll v.disk (before.map (·.request))).2.2 ret.request).2 = (s.index, s.disk) := by
    rw [← hend, hk, List.map_append, replyAll_append]
    rfl
  generalize (k.replyAll v.disk (before.map (·.request))).2 = start at hreply hlast hsteady
  obtain ⟨k₁, d₁⟩ := start
  rw [hc] at hreply hlast
  simp only [reply] at hreply hlast
  cases hcommit : k₁.commit d₁ with
  | error e =>
    simp only [Gate.storing, hcommit] at hreply
    rw [hok] at hreply
    cases hreply
  | ok d₂ =>
    simp only [Gate.storing, hcommit] at hlast
    obtain ⟨hindex, hdisk⟩ := Prod.mk.inj hlast
    rw [← hindex, ← hdisk] at hi
    rw [(hfound k' w' hopen).1, ← hpairs, ← hindex, Intact.all_saved hsteady.mounted hcommit hi]

end Crowd.Serial

end KeyLog

end TwinLog
