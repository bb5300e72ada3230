/-
  TwinLog.Proofs.ContentLog.Scripts — an append from a script of events.

  A script hands its bytes over in pieces, is interrupted, fails, or answers empty.
  `Event.gather` says what somebody gets who needs so many bytes and goes on asking. If the
  script answers empty for good once it has (`Event.Settled`), an append gets just that
  (`serve_gather`): how large its reads were, and where its chunks ended, makes no
  difference.
-/

import TwinLog.Proofs.ContentLog.Outcome

namespace TwinLog

namespace Event

/-- The bytes that events hand over to somebody who needs `need` of them, and repeats reads that
    were interrupted. -/
def gather : Nat → List Event → Except IoFault (List UInt8)
  | _, [] => .ok []
  | need, .data bs :: rest =>
    if need ≤ bs.length then .ok (bs.take need) else (gather (need - bs.length) rest).map (bs ++ ·)
  | _, .finish :: _ => .ok []
  | need, .fail e :: rest => if e.isInterrupted then gather need rest else .error e

/-- Once the script has answered empty it goes on doing so. -/
def Settled : List Event → Prop
  | [] => True
  | .data _ :: rest => Settled rest
  | .finish :: rest => ∀ e ∈ rest, e = .finish ∨ e = .data []
  | .fail _ :: rest => Settled rest

instance decidableSettled : (events : List Event) → Decidable (Settled events)
  | [] => .isTrue trivial
  | .data _ :: rest => decidableSettled rest
  | .finish :: rest => inferInstanceAs (Decidable (∀ e ∈ rest, e = .finish ∨ e = .data []))
  | .fail _ :: rest => decidableSettled rest

variable {need n : Nat} {bs : List UInt8} {rest events : List Event}

theorem gather_skip (h : 0 < need) (rest : List Event) : gather need (.data [] :: rest) = gather need rest := by
  rw [gather, if_neg (by rw [List.length_nil]; omega), List.length_nil, Nat.sub_zero]
  cases gather need rest <;> rfl

theorem gather_split (h : n ≤ need) (bs : List UInt8) (rest : List Event) : gather need (.data bs :: rest) =
    (gather (need - (bs.take n).length) (.data (bs.drop n) :: rest)).map (bs.take n ++ ·) := by
  simp only [gather, List.length_drop, List.length_take]
  by_cases hbs : bs.length ≤ n
  · have hmin : min n bs.length = bs.length := Nat.min_eq_right hbs
    have hdrop : bs.drop n = [] := List.drop_of_length_le hbs
    have htake : bs.take n = bs := List.take_of_length_le hbs
    simp only [hmin, hdrop, htake]
    by_cases hneed : need ≤ bs.length
    · have heq : need = bs.length := by omega
      simp [heq, Except.map]
    · rw [if_neg hneed, if_neg (by omega)]
      have hsub : need - bs.length - (bs.length - n) = need - bs.length := by omega
      rw [hsub]
      cases gather (need - bs.length) rest <;> rfl
  · have hmin : min n bs.length = n := Nat.min_eq_left (by omega)
    rw [hmin]
    by_cases hneed : need ≤ bs.length
    · rw [if_pos hneed, if_pos (by omega)]
      have hsplit : bs.take need = bs.take n ++ (bs.drop n).take (need - n) := by
        rw [← List.take_add]
        congr 1
        omega
      rw [hsplit]
      rfl
    · rw [if_neg hneed, if_neg (by omega)]
      have hsub : need - n - (bs.length - n) = need - bs.length := by omega
      rw [hsub]
      cases gather (need - bs.length) rest with
      | error e => rfl
      | ok more =>
        show Except.ok (bs ++ more) = Except.ok (bs.take n ++ (bs.drop n ++ more))
        rw [← List.append_assoc, List.take_append_drop]

theorem gather_finished (h : ∀ e ∈ rest, e = .finish ∨ e = .data []) (need : Nat) : gather need rest = .ok [] := by
  induction rest generalizing need with
  | nil => rfl
  | cons e rest ih =>
    rcases h e (List.mem_cons_self ..) with rfl | rfl
    · rfl
    · have hrest := ih fun e he => h e (List.mem_cons_of_mem _ he)
      rw [gather, hrest]
      split
      · rw [List.take_nil]
      · rfl

end Event

namespace Source

open Event (gather Settled)

/-- What a read of `n` bytes answers that somebody makes who is to get `all`, and what the script
    still hands over. -/
inductive Reads (n need : Nat) (all : Except IoFault (List UInt8)) : Reading → List UInt8 → List Event → Prop
  | interrupted {e : IoFault} {rest : List Event} (settled : Settled rest) (again : e.isInterrupted = true)
      (gathers : all = gather need (.data [] :: rest)) : Reads n need all (.error e) [] rest
  | failed {e : IoFault} {rest : List Event} (broken : e.isInterrupted = false) (gathers : all = .error e) :
      Reads n need all (.error e) [] rest
  | finished {rest : List Event} (settled : Settled rest) (gathers : all = .ok [])
      (rests : ∀ need, gather need (.data [] :: rest) = .ok []) : Reads n need all (.ok []) [] rest
  | bytes {b : UInt8} {bs left : List UInt8} {rest : List Event} (settled : Settled rest)
      (within : (b :: bs).length ≤ n)
      (gathers : all = (gather (need - (b :: bs).length) (.data left :: rest)).map (b :: bs ++ ·)) :
      Reads n need all (.ok (b :: bs)) left rest

variable {need n : Nat} {left : List UInt8} {events : List Event}

theorem settled_of_finished {rest : List Event} (h : ∀ e ∈ rest, e = .finish ∨ e = .data []) : Settled rest := by
  induction rest with
  | nil => trivial
  | cons e rest ih =>
    have hrest := fun e he => h e (List.mem_cons_of_mem _ he)
    rcases h e (List.mem_cons_self ..) with rfl | rfl
    · exact hrest
    · exact ih hrest

theorem reads_data (hn : 0 < n) (hle : n ≤ need) {bs : List UInt8} (hbs : bs ≠ []) {rest : List Event}
    (hs : Settled rest) : Reads n need (gather need (.data bs :: rest)) (.ok (bs.take n)) (bs.drop n) rest := by
  have hgather := Event.gather_split hle bs rest
  obtain ⟨b, bs', hbs'⟩ := List.exists_cons_of_ne_nil hbs
  obtain ⟨m, rfl⟩ : ∃ m, n = m + 1 := ⟨n - 1, by omega⟩
  subst hbs'
  have hwithin : ((b :: bs').take (m + 1)).length ≤ m + 1 := List.length_take_le ..
  rw [List.take_succ_cons] at hgather hwithin ⊢
  exact .bytes hs hwithin hgather

theorem reads_next (hn : 0 < n) (hle : n ≤ need) (hs : Settled events) :
    Reads n need (gather need events) (nextEvent n events).1 (nextEvent n events).2.1 (nextEvent n events).2.2 := by
  have hneed : 0 < need := Nat.lt_of_lt_of_le hn hle
  induction events with
  | nil => exact .finished trivial rfl fun need => Event.gather_finished (by simp [nextEvent]) need
  | cons e rest ih =>
    cases e with
    | data bs =>
      by_cases hbs : bs = []
      · subst hbs
        rw [Event.gather_skip hneed]
        exact ih hs
      · have hempty : bs.isEmpty = false := by simpa using hbs
        simp only [nextEvent, hempty, Bool.false_eq_true, if_false]
        exact reads_data hn hle hbs hs
    | finish =>
      refine .finished (settled_of_finished hs) rfl fun need => ?_
      exact Event.gather_finished (by
        intro e he
        rcases List.mem_cons.mp he with rfl | he
        · exact .inr rfl
        · exact hs e he) need
    | fail e =>
      simp only [nextEvent, gather]
      cases he : e.isInterrupted with
      | true => exact .interrupted hs he (Event.gather_skip hneed rest).symm
      | false => exact .failed he rfl

theorem reads_script (hn : 0 < n) (hle : n ≤ need) (left : List UInt8) (hs : Settled events)
    (declared : Except IoFault Nat) (d : Disk) :
    ∃ left' rest, ((Source.script left events declared).read d n).2 = .script left' rest declared ∧
      Reads n need (gather need (.data left :: events)) ((Source.script left events declared).read d n).1
        left' rest := by
  by_cases hleft : left = []
  · subst hleft
    refine ⟨_, _, rfl, ?_⟩
    rw [Event.gather_skip (Nat.lt_of_lt_of_le hn hle)]
    exact reads_next hn hle hs
  · have hempty : left.isEmpty = false := by simpa using hleft
    refine ⟨left.drop n, events, by simp [read, hempty], ?_⟩
    simp only [read, hempty, Bool.false_eq_true, if_false]
    exact reads_data hn hle hleft hs

end Source

def Transfer.outcome (t : Transfer) : Except IoFault (List UInt8) → Except Fault Location
  | .error e => .error (.io e)
  | .ok rest =>
    if (t.soFar ++ rest).length = t.size then .ok ⟨t.size, t.start, Checksum.of (t.soFar ++ rest)⟩
    else .error (Transfer.endedEarly (t.soFar ++ rest).length t.size)

/-- What a transfer still gets counts as its own once it has taken a part. -/
theorem Transfer.outcome_waiting {t u : Transfer} {bs : List UInt8} (hs : u.start = t.start) (hz : u.size = t.size)
    (hu : u.soFar = t.soFar ++ bs) (all : Except IoFault (List UInt8)) :
    t.outcome (all.map (bs ++ ·)) = u.outcome all := by
  cases all with
  | error e => rfl
  | ok rest => simp only [outcome, Except.map, hs, hz, hu, List.append_assoc]

namespace ContentLog

open Event (gather Settled)

/-- Who goes on asking gets what comes behind what it took. -/
theorem gathers_on {t u : Transfer} {all : Except IoFault (List UInt8)} {r : Reading} {left : List UInt8}
    {rest : List Event} (hreads : Source.Reads t.wants (t.size - t.soFar.length) all r left rest)
    (hnext : t.Next r (.waiting u)) :
    Settled rest ∧ all = (gather (u.size - u.soFar.length) (.data left :: rest)).map (t.takes r ++ ·) := by
  have hnone (x : Except IoFault (List UInt8)) : x.map (List.nil ++ ·) = x := by cases x <;> rfl
  obtain ⟨-, hz, hu⟩ := hnext.waiting
  cases hreads with
  | interrupted settled again gathers =>
    cases hnext
    exact ⟨settled, gathers.trans (hnone _).symm⟩
  | failed broken gathers =>
    cases hnext with
    | again interrupted => exact absurd (interrupted.symm.trans broken) (by decide)
  | finished settled gathers rests =>
    refine ⟨settled, ?_⟩
    rw [gathers, rests]
    show Except.ok [] = Except.ok (t.takes (.ok []) ++ [])
    rw [Transfer.takes, List.take_nil, List.append_nil]
  | bytes settled within gathers =>
    refine ⟨settled, ?_⟩
    rw [Transfer.takes, List.take_of_length_le within] at hu ⊢
    rw [hz, hu, List.length_append, ← Nat.sub_sub]
    exact gathers

/-- Where the transfer ends, nothing comes behind what it took. -/
theorem gathers_all {t : Transfer} {all : Except IoFault (List UInt8)} {r : Reading} {left : List UInt8}
    {rest : List Event} {result : Except Fault Location}
    (hreads : Source.Reads t.wants (t.size - t.soFar.length) all r left rest) (hnext : t.Next r (.ended result)) :
    result = t.outcome all ∧ ∀ bs, all = .ok bs → t.takes r = bs := by
  have hlt := t.soFar_lt
  cases hreads with
  | interrupted settled again gathers =>
    cases hnext with
    | broken failed => exact absurd (again.symm.trans failed) (by decide)
  | failed broken gathers =>
    subst gathers
    cases hnext
    exact ⟨rfl, fun bs h => nomatch h⟩
  | finished settled gathers rests =>
    subst gathers
    cases hnext
    refine ⟨?_, fun bs h => by cases h; exact List.take_nil⟩
    rw [Transfer.outcome, List.append_nil, if_neg (by omega)]
  | @bytes b bs left rest settled within gathers =>
    cases hnext with
    | full whole =>
      rw [List.take_of_length_le within] at whole ⊢
      have hnone : t.size - t.soFar.length - (b :: bs).length = 0 := by
        rw [List.length_append] at whole
        omega
      rw [hnone, gather, if_pos (Nat.zero_le _), List.take_zero] at gathers
      have hall := gathers.trans (congrArg Except.ok (List.append_nil _))
      subst hall
      refine ⟨?_, fun all h => by cases h; exact List.take_of_length_le within⟩
      rw [Transfer.outcome, if_pos whole]

/-- A transfer from a script gets what the script hands over to it, and answers accordingly. -/
theorem serve_gather (t : Transfer) (left : List UInt8) (events : List Event) (declared : Except IoFault Nat)
    (reads : List Nat) (c : ContentLog) (d : Disk) (hcap : t.start + t.size ≤ c.capacity) (hs : Settled events) :
    (serve t (.script left events declared) reads c d).result =
        t.outcome (gather (t.size - t.soFar.length) (.data left :: events)) ∧
      ∀ bs, gather (t.size - t.soFar.length) (.data left :: events) = .ok bs →
        received t (.script left events declared) c d = bs := by
  generalize hsrc : Source.script left events declared = src
  fun_induction serve t src reads c d generalizing left events with
  | case1 t src reads c d result c' d' hstep =>
    subst hsrc
    obtain ⟨left', rest, -, hreads⟩ := Source.reads_script t.wants_pos t.wants_le left hs declared d
    rw [received, hstep]
    exact gathers_all hreads (step_ended hcap hstep)
  | case2 t src reads c d t' c' d' hstep ih =>
    subst hsrc
    obtain ⟨rfl, hnext⟩ := step_waiting hcap hstep
    obtain ⟨hst, hz, hu⟩ := hnext.waiting
    obtain ⟨left', rest, hsrc, hreads⟩ := Source.reads_script t.wants_pos t.wants_le left hs declared d
    obtain ⟨hs', hall⟩ := gathers_on hreads hnext
    obtain ⟨hresult, hreceived⟩ := ih left' rest (by rw [hst, hz]; exact hcap) hs' hsrc.symm
    rw [hall, received, hstep, Transfer.outcome_waiting hst hz hu]
    refine ⟨hresult, fun bs h => ?_⟩
    cases hg : gather (t'.size - t'.soFar.length) (.data left' :: rest) with
    | error e => rw [hg] at h; cases h
    | ok more =>
      rw [hg] at h
      cases h
      dsimp only
      rw [hreceived more hg]

/-- What an append at `cursor` gets from a script if there is room, and where the cursor is then. -/
def scripted (cursor : Nat) (events : List Event) : Except IoFault Nat → Except Fault (List UInt8) × Nat
  | .error e => (.error (.io e), cursor)
  | .ok size =>
    if maxSigned < cursor + size then (.error (.invalidArgument (.contentTooLong size cursor)), cursor)
    else match gather size (.data [] :: events) with
      | .error e => (.error (.io e), cursor + size)
      | .ok bs => (if bs.length = size then .ok bs else .error (Transfer.endedEarly bs.length size), cursor + size)

/-- An append from a script finds no room, or answers what the script alone decides. -/
theorem append_scripted {c : ContentLog} {d : Disk} (h : c.Resting d) (space : Volume.Space) {events : List Event}
    (hs : Settled events) (declared : Except IoFault Nat) :
    (∃ required e, Log.checkSpace space c.log.path required = .error e ∧
        (c.append space d (.script [] events declared)).result = .error e) ∨
      (c.append space d (.script [] events declared)).result =
          (scripted c.cursor events declared).1.map (fun bs => ⟨bs.length, c.cursor, Checksum.of bs⟩) ∧
        (c.append space d (.script [] events declared)).log.cursor = (scripted c.cursor events declared).2 ∧
        ∀ bs, (scripted c.cursor events declared).1 = .ok bs → c.taken space d (.script [] events declared) = bs := by
  cases append_way h space (.script [] events declared) with
  | length hdecl hresult hcursor =>
    subst hdecl
    exact .inr ⟨hresult, hcursor, fun bs h => nomatch h⟩
  | tooLong hdecl hlong hresult hcursor =>
    subst hdecl
    rw [scripted, if_pos hlong]
    exact .inr ⟨hresult, hcursor, fun bs h => nomatch h⟩
  | noRoom hdecl hfits hpast hrefused hresult hcursor => exact .inl ⟨_, _, hrefused, hresult⟩
  | nothing hdecl hfits hresult htaken hcursor =>
    subst hdecl
    have hscript : scripted c.cursor events (.ok 0) = (.ok [], c.cursor) := by
      rw [scripted, Nat.add_zero, if_neg (Nat.not_lt.mpr hfits)]
      rfl
    rw [hscript]
    exact .inr ⟨hresult, hcursor, fun bs h => by cases h; exact htaken⟩
  | @served size ce de t hdecl hfits hserved hcursor =>
    subst hdecl
    obtain ⟨hresult, hreceived⟩ := serve_gather t [] events (.ok size) [] ce de hserved.fits hs
    rw [hserved.soFar, List.length_nil, Nat.sub_zero, hserved.size] at hresult hreceived
    rw [scripted, if_neg (Nat.not_lt.mpr hfits), hcursor, hserved.append, hserved.taken, hresult]
    right
    cases hg : gather size (.data [] :: events) with
    | error e => exact ⟨rfl, rfl, fun bs h => nomatch h⟩
    | ok bs =>
      rw [Transfer.outcome, hserved.soFar, List.nil_append, hserved.size, hserved.start]
      dsimp only
      by_cases hwhole : bs.length = size
      · rw [if_pos hwhole, if_pos hwhole]
        exact ⟨by rw [← hwhole]; rfl, rfl, fun _ h => by cases h; exact hreceived bs hg⟩
      · rw [if_neg hwhole, if_neg hwhole]
        exact ⟨rfl, rfl, fun _ h => nomatch h⟩

end ContentLog

end TwinLog
