/-
  TwinLog.Proofs.Bulk.Attempts — how often an operation is repeated.

  An operation is anything that answers and leaves a state for the next call, so what it answers
  call after call is any sequence. `settledAt` is the number of the first call that does not
  time out. `retryMore` ends at that call or when its attempts are used up, whichever is first
  (`retryMore_ends`), and so does the loop that counts in a word (`retryFrom_eq`).

  - `attempts_exact`: for every limit that fits the word, zero too, and every operation.
-/

import Mathlib.Data.ENat.Lattice
import TwinLog.Bulk.Retry

namespace TwinLog

def timesOut {α : Type} : Except Fault α → Bool
  | .error e => e.isTimeout
  | .ok _ => false

namespace Retry

variable {σ α : Type}

/-- Call number `n + 1` of an operation: what it answers and leaves. -/
def call (op : σ → Except Fault α × σ) (s : σ) : Nat → Except Fault α × σ
  | 0 => op s
  | n + 1 => op (call op s n).2

/-- The number of the first call that does not time out; infinite if all do. -/
noncomputable def settledAt (op : σ → Except Fault α × σ) (s : σ) : ℕ∞ :=
  ⨅ n ∈ {n | timesOut (call op s n).1 = false}, ((n + 1 : ℕ) : ℕ∞)

def counted (op : σ → Except Fault α × σ) (s : σ × Nat) : Except Fault α × (σ × Nat) :=
  ((op s.1).1, ((op s.1).2, s.2 + 1))

variable (op : σ → Except Fault α × σ) (s : σ)

theorem call_succ (n : Nat) : call op s (n + 1) = call op (op s).2 n := by
  induction n with
  | zero => rfl
  | succ n ih =>
    rw [call, ih]
    rfl

theorem call_counted (n : Nat) : call (counted op) (s, 0) n = ((call op s n).1, ((call op s n).2, n + 1)) := by
  induction n with
  | zero => rfl
  | succ n ih =>
    rw [call, ih]
    rfl

theorem settledAt_counted : settledAt (counted op) (s, 0) = settledAt op s := by
  unfold settledAt
  simp only [call_counted]

/-- An operation is called again just if it has timed out. -/
theorem retryMore_succ (more : Nat) :
    retryMore op (more + 1) s = if timesOut (op s).1 then retryMore op more (op s).2 else op s := by
  rw [retryMore]
  generalize op s = x
  obtain ⟨r, s'⟩ := x
  cases r with
  | ok a => rfl
  | error e => cases e <;> rfl

/-- The last call is the first one that does not time out, or the last that is allowed. -/
theorem retryMore_ends (more : Nat) : ∃ n ≤ more, retryMore op more s = call op s n ∧
    (∀ i < n, timesOut (call op s i).1 = true) ∧ (n < more → timesOut (call op s n).1 = false) := by
  induction more generalizing s with
  | zero => exact ⟨0, Nat.le_refl 0, rfl, nofun, nofun⟩
  | succ more ih =>
    rw [retryMore_succ]
    by_cases hout : timesOut (op s).1 = true
    · rw [if_pos hout]
      obtain ⟨n, hle, hlast, hbefore, hends⟩ := ih (op s).2
      refine ⟨n + 1, Nat.succ_le_succ hle, by rw [hlast, call_succ], ?_, ?_⟩
      · intro i hi
        cases i with
        | zero => exact hout
        | succ i =>
          rw [call_succ]
          exact hbefore i (Nat.lt_of_succ_lt_succ hi)
      · intro hlt
        rw [call_succ]
        exact hends (Nat.lt_of_succ_lt_succ hlt)
    · rw [if_neg hout]
      exact ⟨0, Nat.zero_le _, rfl, nofun, fun _ => Bool.eq_false_iff.mpr hout⟩

/-- The number of calls is that of the first call that settles, or of the attempts if that is less. -/
theorem retryMore_calls (more : Nat) : ∃ n : Nat, ((n + 1 : ℕ) : ℕ∞) = min (settledAt op s) ((more + 1 : ℕ) : ℕ∞) ∧
    retryMore op more s = call op s n := by
  obtain ⟨n, hle, hlast, hbefore, hends⟩ := retryMore_ends op s more
  refine ⟨n, le_antisymm (le_min ?_ ?_) ?_, hlast⟩
  · refine le_iInf₂ fun i hi => ?_
    have hni : n ≤ i := by
      by_contra hlt
      exact Bool.false_ne_true (hi.symm.trans (hbefore i (Nat.lt_of_not_le hlt)))
    exact_mod_cast Nat.succ_le_succ hni
  · exact_mod_cast Nat.succ_le_succ hle
  · rcases Nat.lt_or_eq_of_le hle with hlt | rfl
    · exact (min_le_left _ _).trans (iInf₂_le n (hends hlt))
    · exact min_le_right _ _

/-- The loop goes round just if the operation has timed out and its counter is below the limit. -/
theorem retryFrom_next (attempts attempt : UInt32) : retryFrom attempts op attempt s =
    if timesOut (op s).1 = true ∧ attempt < attempts then retryFrom attempts op (attempt + 1) (op s).2 else op s := by
  rw [retryFrom]
  generalize op s = x
  obtain ⟨r, s'⟩ := x
  cases r with
  | ok a => rfl
  | error e =>
    cases e with
    | timedOut after => simp only [timesOut, Fault.isTimeout, true_and]
    | _ => rfl

/-- The loop with its counter repeats as often as is left up to its limit. -/
theorem retryFrom_eq (attempts attempt : UInt32) :
    retryFrom attempts op attempt s = retryMore op (attempts.toNat - attempt.toNat) s := by
  generalize hmore : attempts.toNat - attempt.toNat = more
  induction more generalizing attempt s with
  | zero =>
    have hlast : ¬attempt < attempts := by
      rw [UInt32.lt_iff_toNat_lt]
      omega
    rw [retryFrom_next, if_neg fun h => hlast h.2]
    rfl
  | succ more ih =>
    have hlt : attempt < attempts := by
      rw [UInt32.lt_iff_toNat_lt]
      omega
    have hnext := toNat_next hlt
    rw [retryFrom_next, retryMore_succ, ih (op s).2 (attempt + 1) (by omega)]
    simp only [hlt, and_true]

/-- For every limit on the attempts and every operation: it is called as often as it takes to a first call that
    does not time out, but no more often than the limit allows, where zero allows one call; the answer is
    what the last of these calls has answered, and the state is what it has left. -/
theorem attempts_exact (attempts : UInt32) : ∃ n : Nat,
    ((n + 1 : ℕ) : ℕ∞) = min (settledAt op s) (max attempts.toNat 1 : ℕ) ∧
    retryFrom attempts op 1 s = call op s n ∧
    retryFrom attempts (counted op) 1 (s, 0) = ((call op s n).1, ((call op s n).2, n + 1)) ∧
    retryTimeouts attempts.toNat op s = retryFrom attempts op 1 s := by
  have hmax : attempts.toNat - 1 + 1 = max attempts.toNat 1 := by omega
  have hloop {σ : Type} (op : σ → Except Fault α × σ) (s : σ) :
      retryFrom attempts op 1 s = retryTimeouts attempts.toNat op s := retryFrom_eq op s attempts 1
  obtain ⟨n, hcalls, hlast⟩ := retryMore_calls op s (attempts.toNat - 1)
  obtain ⟨m, hcalls', hlast'⟩ := retryMore_calls (counted op) (s, 0) (attempts.toNat - 1)
  rw [hmax] at hcalls hcalls'
  rw [settledAt_counted, ← hcalls] at hcalls'
  obtain rfl : m = n := Nat.succ_injective (Nat.cast_injective hcalls')
  refine ⟨m, hcalls, (hloop op s).trans hlast, ?_, (hloop op s).symm⟩
  rw [hloop, ← call_counted]
  exact hlast'

end Retry

end TwinLog
