/-
  TwinLog.Proofs.Bulk.Reported — whose failure is reported.

  `Crew.failures` lists the works that fail in a run as they fail, each with the number of its
  worker. Workers are numbered in the order in which they were made, and their results are
  gathered in that order. So a crew reports the failure of its first failing worker
  (`reporter`), and this is the failure that came first in time just if every other worker that
  fails was made later.

  - `first_failure_reported_iff`: for all work, any number of workers and any order of their
    moves; and so for what a load and a check report.
  - `later_failure_reported`: a check by two workers in which the second one fails first.
-/

import TwinLog.Proofs.Bulk.Checking
import TwinLog.Proofs.Bulk.Chronicle
import TwinLog.Proofs.Bulk.Conclusion

namespace TwinLog

def Motion.fault? {α ε : Type} : Motion α ε → Option ε
  | ends _ (.error e) => some e
  | _ => none

namespace Crew

variable {α τ ε σ κ : Type} {trade : Trade α τ ε σ κ} {c c' : Crew α τ ε σ} {i j : Nat} {failed : List (Nat × ε)} {e : ε}

def failure? (trade : Trade α τ ε σ κ) (c : Crew α τ ε σ) (move : Nat × κ) : Option (Nat × ε) :=
  ((c.motion? trade move).bind Motion.fault?).map (move.1, ·)

/-- The works that fail in a run, in the order of time. -/
def failures (trade : Trade α τ ε σ κ) : Crew α τ ε σ → List (Nat × κ) → List (Nat × ε)
  | _, [] => []
  | c, move :: moves => (c.failure? trade move).toList ++ failures trade (c.step trade move) moves

def fault? (c : Crew α τ ε σ) (i : Nat) : Option ε := c.hands[i]?.bind Hand.fault?

def reporter (c : Crew α τ ε σ) : Option Nat := c.hands.findIdx? fun hand => hand.fault?.isSome

theorem outcome_error_iff : c.outcome = .error e ↔ ∃ i, c.reporter = some i ∧ c.fault? i = some e := by
  have hfind (hands : List (Hand α τ ε)) : hands.findSome? Hand.fault? = some e ↔
      ∃ i, hands.findIdx? (fun hand => hand.fault?.isSome) = some i ∧ hands[i]?.bind Hand.fault? = some e := by
    induction hands with
    | nil => simp
    | cons hand hands ih =>
      rw [List.findSome?_cons, List.findIdx?_cons]
      cases hfault : hand.fault? with
      | some e' => simp [hfault]
      | none => simpa using ih
  unfold outcome reporter fault?
  rw [← hfind]
  cases c.hands.findSome? Hand.fault? <;> simp

theorem reporter_eq_some_iff : c.reporter = some i ↔ (c.fault? i).isSome ∧ ∀ j < i, c.fault? j = none := by
  unfold reporter fault?
  rw [List.findIdx?_eq_some_iff_getElem]
  constructor
  · rintro ⟨hlt, hfault, hbefore⟩
    refine ⟨by simpa [List.getElem?_eq_getElem hlt] using hfault, ?_⟩
    intro j hj
    have hnone := hbefore j hj
    rw [List.getElem?_eq_getElem (Nat.lt_trans hj hlt)]
    simpa using hnone
  · rintro ⟨hfault, hbefore⟩
    have hlt : i < c.hands.length := by
      by_contra hge
      rw [List.getElem?_eq_none (Nat.le_of_not_lt hge)] at hfault
      cases hfault
    refine ⟨hlt, by simpa [List.getElem?_eq_getElem hlt] using hfault, ?_⟩
    intro j hj
    have hnone := hbefore j hj
    rw [List.getElem?_eq_getElem (Nat.lt_trans hj hlt)] at hnone
    simpa using hnone

/-! ## What has failed so far -/

/-- Every worker whose work has failed is listed once, with its error, and no other worker is. -/
structure Blames (c : Crew α τ ε σ) (failed : List (Nat × ε)) : Prop where
  once : (failed.map Prod.fst).Nodup
  listed : ∀ i e, (i, e) ∈ failed ↔ c.fault? i = some e

theorem Effect.blamed {queue queue' : List α} {flag flag' : Bool} {old new : Hand α τ ε} {motion : Motion α ε}
    (h : Effect queue flag old motion queue' flag' new) :
    (∀ e, new.fault? = some e ↔ old.fault? = some e ∨ motion.fault? = some e) ∧
      (∀ e, motion.fault? = some e → old.fault? = none) := by
  cases h <;> simp [Hand.fault?, Motion.fault?]

theorem fault?_set {old new : Hand α τ ε} (hand : c.hands[i]? = some old) {queue : List α} {flag : Bool} {shared : σ} :
    fault? ⟨queue, flag, c.hands.set i new, shared⟩ j = if i = j then new.fault? else c.fault? j := by
  have hlt := (List.getElem?_eq_some_iff.mp hand).1
  unfold fault?
  by_cases hij : i = j
  · subst hij
    rw [if_pos rfl, List.getElem?_set_self hlt]
    rfl
  · rw [if_neg hij, List.getElem?_set_ne hij]

theorem Blames.step (h : c.Blames failed) (move : Nat × κ) :
    (c.step trade move).Blames (failed ++ (c.failure? trade move).toList) := by
  have hmakes := step_makes trade c move
  unfold failure?
  generalize c.motion? trade move = motion, c.step trade move = c' at hmakes ⊢
  cases hmakes with
  | rests => simpa using h
  | @effect old new motion queue flag shared hand effect =>
    obtain ⟨hblamed, hfirst⟩ := effect.blamed
    have hold : c.fault? move.1 = old.fault? := by
      unfold fault?
      rw [hand]
      rfl
    rw [Option.bind_some]
    refine ⟨?_, ?_⟩
    · cases hfault : motion.fault? with
      | none => simpa using h.once
      | some e =>
        -- who fails now has not failed before
        have hnew : move.1 ∉ failed.map Prod.fst := by
          intro hmem
          obtain ⟨⟨i, e'⟩, hmem, rfl⟩ := List.mem_map.mp hmem
          have hbefore := (h.listed _ _).mp hmem
          rw [hold, hfirst e hfault] at hbefore
          cases hbefore
        rw [Option.map_some, Option.toList_some, List.map_append]
        refine List.nodup_append.mpr ⟨h.once, by simp, ?_⟩
        rintro i hi _ hmem rfl
        rw [List.map_cons, List.map_nil, List.mem_singleton] at hmem
        exact hnew (hmem ▸ hi)
    · intro i e
      rw [fault?_set hand, List.mem_append, h.listed]
      by_cases hi : move.1 = i
      · subst hi
        rw [if_pos rfl, hold, hblamed]
        simp
      · rw [if_neg hi]
        simp [hi]

theorem Blames.start (threads : Nat) (items : List α) (s : σ) :
    (Crew.start threads items s : Crew α τ ε σ).Blames [] := by
  refine ⟨List.nodup_nil, ?_⟩
  intro i e
  unfold fault? Crew.start
  rw [List.getElem?_replicate]
  split <;> simp [Hand.fault?]

theorem Blames.run (h : c.Blames failed) (moves : List (Nat × κ)) :
    (c.run trade moves).Blames (failed ++ c.failures trade moves) := by
  induction moves generalizing c failed with
  | nil => simpa [Crew.run, failures] using h
  | cons move moves ih =>
    have hstep : (c.step trade move).Blames (failed ++ (c.failure? trade move).toList) := h.step move
    have hnext := ih hstep
    rw [List.append_assoc] at hnext
    exact hnext

/-- A worker that fails is one of those that were made. -/
theorem Blames.made (h : c.Blames failed) : ∀ other ∈ failed, other.1 < c.hands.length := by
  rintro ⟨i, e⟩ hmem
  have hfault := (h.listed i e).mp hmem
  by_contra hge
  rw [fault?, List.getElem?_eq_none (Nat.le_of_not_lt hge)] at hfault
  cases hfault

/-! ## Which of them is reported -/

/-- This answer is the failure of that worker which was made first, among all that have failed. -/
def Reports (failed : List (Nat × ε)) (r : Except ε Unit) : Prop :=
  (failed = [] → r = .ok ()) ∧ ∀ i e, (i, e) ∈ failed → (∀ other ∈ failed, i ≤ other.1) → r = .error e

theorem Blames.reporter_iff (h : c.Blames failed) :
    c.reporter = some i ↔ i ∈ failed.map Prod.fst ∧ ∀ other ∈ failed, i ≤ other.1 := by
  rw [reporter_eq_some_iff]
  refine and_congr ?_ ⟨?_, ?_⟩
  · rw [Option.isSome_iff_exists, List.mem_map]
    simp only [← h.listed]
    exact ⟨fun ⟨e, hmem⟩ => ⟨(i, e), hmem, rfl⟩, fun ⟨other, hmem, hi⟩ => ⟨other.2, hi ▸ hmem⟩⟩
  · rintro hbefore ⟨j, e⟩ hmem
    by_contra hlt
    cases (hbefore j (Nat.lt_of_not_le hlt)).symm.trans ((h.listed j e).mp hmem)
  · intro hleast j hj
    rw [Option.eq_none_iff_forall_ne_some]
    intro e hfault
    exact Nat.not_lt.mpr (hleast (j, e) ((h.listed j e).mpr hfault)) hj

theorem Blames.reports (h : c.Blames failed) : Reports failed c.outcome := by
  constructor
  · rintro rfl
    cases ho : c.outcome with
    | ok u => rfl
    | error e =>
      obtain ⟨i, -, hfault⟩ := outcome_error_iff.mp ho
      cases (h.listed i e).mpr hfault
  · intro i e hmem hleast
    have hreporter := h.reporter_iff.mpr ⟨List.mem_map_of_mem hmem, hleast⟩
    exact outcome_error_iff.mpr ⟨i, hreporter, (h.listed i e).mp hmem⟩

/-- Whose failure came first is the reporter if all others were made later. -/
theorem Blames.first_iff {rest : List (Nat × ε)} (h : c.Blames ((i, e) :: rest)) :
    c.reporter = some i ↔ ∀ other ∈ rest, i < other.1 := by
  rw [h.reporter_iff, List.map_cons, and_iff_right List.mem_cons_self, List.forall_mem_cons]
  have hnew : ∀ other ∈ rest, other.1 ≠ i := by
    intro other hmem hi
    exact (List.nodup_cons.mp h.once).1 (List.mem_map.mpr ⟨other, hmem, hi⟩)
  constructor
  · intro hleast other hmem
    exact Nat.lt_of_le_of_ne (hleast.2 other hmem) (hnew other hmem).symm
  · intro hlater
    exact ⟨Nat.le_refl i, fun other hmem => Nat.le_of_lt (hlater other hmem)⟩

/-- A single worker fails once. -/
theorem Blames.single (h : c.Blames failed) (hone : c.hands.length ≤ 1) : failed.length ≤ 1 := by
  have hzero : ∀ n ∈ failed.map Prod.fst, n = 0 := by
    intro n hn
    obtain ⟨other, hmem, rfl⟩ := List.mem_map.mp hn
    have hmade := h.made other hmem
    omega
  have hrep := List.eq_replicate_of_mem hzero
  have honce := h.once
  rw [hrep, List.nodup_replicate, List.length_map] at honce
  exact honce

theorem failure?_fault (trade : Trade α τ ε σ κ) (c : Crew α τ ε σ) (move : Nat × κ) :
    (c.failure? trade move).toList.map Prod.snd = (c.motion? trade move).toList.filterMap Motion.fault? := by
  unfold failure?
  cases c.motion? trade move with
  | none => rfl
  | some motion =>
    rw [Option.bind_some, Option.toList_some, List.filterMap_cons]
    cases motion.fault? <;> rfl

/-- The failures are the works that end with an error. -/
theorem failures_faults (trade : Trade α τ ε σ κ) (c : Crew α τ ε σ) (moves : List (Nat × κ)) :
    (c.failures trade moves).map Prod.snd = (c.motions trade moves).filterMap Motion.fault? := by
  induction moves generalizing c with
  | nil => rfl
  | cons move moves ih =>
    rw [failures, motions, List.map_append, List.filterMap_append, failure?_fault, ih]

theorem start_blames (trade : Trade α τ ε σ κ) (threads : Nat) (items : List α) (s : σ) (moves : List (Nat × κ)) :
    ((start threads items s).run trade moves).Blames ((start threads items s).failures trade moves) :=
  (Blames.start threads items s).run moves

/-- **Whose failure is reported**: for all work and any order of the moves of any number of
    workers, the failures come from different workers, a single worker fails once, and the
    answer is the failure of the failing worker that was made first. Whoever fails first in
    time is that worker if and only if all others that fail were made later. So it is with the
    answer of a check, and with that of a load whose rollback succeeds. -/
theorem first_failure_reported_iff (trade : Trade α τ ε σ κ) (threads : Nat) (items : List α) (s : σ)
    (moves : List (Nat × κ)) (hc : (start threads items s).run trade moves = c)
    (hfailed : (start threads items s).failures trade moves = failed) :
    failed.map Prod.snd = ((start threads items s).motions trade moves).filterMap Motion.fault? ∧
    (failed.map Prod.fst).Nodup ∧ (threads ≤ 1 → failed.length ≤ 1) ∧
    Reports failed c.outcome ∧
    (∀ i e rest, failed = (i, e) :: rest → (c.reporter = some i ↔ ∀ other ∈ rest, i < other.1)) ∧
    (∀ vault y paths workers r v', Verifies vault y paths workers r v' →
      ∃ turns, (Load.checkers vault y paths workers turns).AllDone ∧
        Reports ((start workers paths (vault, y)).failures Load.checking turns) r) ∧
    (∀ vault w paths workers attempts r v', Loads vault w paths workers attempts r v' →
      ∃ l turns, vault.logs = some l ∧ (Load.crew w l paths workers attempts turns).AllDone ∧
        ((start workers paths (.ofLogs l w.disk)).failures (Load.trade w attempts) turns ≠ [] →
          (Load.onDisk ((Load.crew w l paths workers attempts turns).shared.site vault w) Vault.rollback).1 = .ok () →
          Reports ((start workers paths (.ofLogs l w.disk)).failures (Load.trade w attempts) turns) r)) := by
  subst hc
  subst hfailed
  have hblames := start_blames trade threads items s moves
  refine ⟨failures_faults .., hblames.once, ?_, hblames.reports, ?_, ?_, ?_⟩
  · intro hone
    refine hblames.single ?_
    rw [hands_length, start, List.length_replicate]
    omega
  · intro i e rest heq
    rw [heq] at hblames
    exact hblames.first_iff
  · rintro vault y paths workers r v' ⟨turns, hdone⟩
    exact ⟨turns, hdone, (start_blames ..).reports⟩
  · rintro vault w paths workers attempts r v' ⟨hl, turns, hdone⟩
    refine ⟨_, turns, hl, hdone, ?_⟩
    intro hne hrollback
    refine ⟨fun hnil => absurd hnil hne, ?_⟩
    intro i e hmem hleast
    have houtcome : (Load.crew w _ paths workers attempts turns).outcome = .error e :=
      (start_blames (Load.trade w attempts) workers paths (.ofLogs _ w.disk) turns).reports.2 i e hmem hleast
    rw [houtcome]
    show (Load.onDisk _ Vault.rollback).1.bind (fun _ => Except.error e) = _
    rw [hrollback]
    rfl

def bare : Vault := ⟨Vault.small, some Vault.smallLogs⟩

/-- Two workers check a file each, and the second one asks first. Neither file is stored. -/
def secondFirst : List (Nat × Unit) := [(0, ()), (0, ()), (1, ()), (1, ()), (1, ()), (0, ()), (0, ()), (1, ())]

def firstFirst : List (Nat × Unit) := [(0, ()), (0, ()), (1, ()), (1, ()), (0, ()), (1, ()), (1, ()), (0, ())]

theorem bare_checked {moves : List (Nat × Unit)} (h : moves = secondFirst ∨ moves = firstFirst) :
    (Load.checkers bare Vault.smallVolume ["a", "b"] 2 moves).hands =
      [.done (.error (.keyNotFound "a")), .done (.error (.keyNotFound "b"))] := by
  obtain rfl | rfl := h <;> rfl

theorem bare_verifies {moves : List (Nat × Unit)} (h : moves = secondFirst ∨ moves = firstFirst) :
    (Load.checkers bare Vault.smallVolume ["a", "b"] 2 moves).AllDone ∧
      ∃ v', Verifies bare Vault.smallVolume ["a", "b"] 2 (.error (.keyNotFound "a")) v' := by
  have hdone : (Load.checkers bare Vault.smallVolume ["a", "b"] 2 moves).AllDone := by
    rw [AllDone, bare_checked h]
    simp [Hand.isDone]
  have hverifies := Verifies.done moves hdone
  rw [outcome, bare_checked h] at hverifies
  exact ⟨hdone, _, hverifies⟩

/-- The first worker fails before the second one, and its failure is reported. -/
theorem earlier_failure_reported :
    (start 2 ["a", "b"] (bare, Vault.smallVolume)).failures Load.checking firstFirst =
      [(0, .keyNotFound "a"), (1, .keyNotFound "b")] ∧
    Reports [(0, .keyNotFound "a"), (1, .keyNotFound "b")]
      (Load.checkers bare Vault.smallVolume ["a", "b"] 2 firstFirst).outcome ∧
    (Load.checkers bare Vault.smallVolume ["a", "b"] 2 firstFirst).reporter = some 0 ∧
    ∃ turns, (Load.checkers bare Vault.smallVolume ["a", "b"] 2 turns).AllDone ∧
      Reports ((start 2 ["a", "b"] (bare, Vault.smallVolume)).failures Load.checking turns) (.error (.keyNotFound "a")) := by
  have hfailed : (start 2 ["a", "b"] (bare, Vault.smallVolume)).failures Load.checking firstFirst =
      [(0, .keyNotFound "a"), (1, .keyNotFound "b")] := by rfl
  obtain ⟨-, -, -, hreports, hfirst, hverifies, -⟩ :=
    first_failure_reported_iff Load.checking 2 ["a", "b"] (bare, Vault.smallVolume) firstFirst rfl hfailed
  obtain ⟨-, v', hcheck⟩ := bare_verifies (.inr rfl)
  exact ⟨hfailed, hreports, (hfirst 0 _ _ rfl).mpr (by simp), hverifies _ _ _ _ _ _ hcheck⟩

/-- The second worker fails before the first one, and the failure of the first one is reported. -/
theorem later_failure_reported :
    Vault.openAt (.empty 4096) Vault.small = (.ok bare, Vault.smallVolume) ∧
    (Load.checkers bare Vault.smallVolume ["a", "b"] 2 secondFirst).AllDone ∧
    (start 2 ["a", "b"] (bare, Vault.smallVolume)).failures Load.checking secondFirst =
      [(1, .keyNotFound "b"), (0, .keyNotFound "a")] ∧
    (Load.checkers bare Vault.smallVolume ["a", "b"] 2 secondFirst).outcome = .error (.keyNotFound "a") ∧
    ∃ v', Verifies bare Vault.smallVolume ["a", "b"] 2 (.error (.keyNotFound "a")) v' := by
  obtain ⟨hdone, hverifies⟩ := bare_verifies (.inl rfl)
  refine ⟨Vault.small_opens, hdone, by rfl, ?_, hverifies⟩
  rw [outcome, bare_checked (.inl rfl)]
  rfl

end Crew

end TwinLog
