/-
  TwinLog.Bulk.Retry — repeating an operation while it times out.

  An operation runs at least once and at most as often as there are attempts; only a
  timeout is worth another attempt, and the last outcome is the answer. `retryFrom` is the
  same as a loop that counts its attempts in a word of 32 bits.

  It follows `retry_on_timeout`, less the lines it logs.
-/

import TwinLog.Fault

namespace TwinLog

variable {σ α : Type}

/-- Run `op` once, and up to `more` times again while it times out. -/
def retryMore (op : σ → Except Fault α × σ) : Nat → σ → Except Fault α × σ
  | 0, s => op s
  | more + 1, s =>
    match op s with
    | (.error (.timedOut _), s) => retryMore op more s
    | done => done

/-- Run `op` while it times out, `attempts` times in all (zero counts as one). -/
def retryTimeouts (attempts : Nat) (op : σ → Except Fault α × σ) (s : σ) : Except Fault α × σ :=
  retryMore op (attempts - 1) s

theorem toNat_next {attempt attempts : UInt32} (h : attempt < attempts) : (attempt + 1).toNat = attempt.toNat + 1 := by
  have hlt := UInt32.lt_iff_toNat_lt.mp h
  have hlimit := attempts.toNat_lt
  rw [UInt32.toNat_add, UInt32.toNat_one, Nat.mod_eq_of_lt (by omega)]

def retryFrom (attempts : UInt32) (op : σ → Except Fault α × σ) (attempt : UInt32) (s : σ) : Except Fault α × σ :=
  match op s with
  | (.error (.timedOut after), s) =>
    if attempt < attempts then retryFrom attempts op (attempt + 1) s else (.error (.timedOut after), s)
  | done => done
termination_by attempts.toNat - attempt.toNat
decreasing_by
  rename_i hlt
  have hnext := toNat_next hlt
  have hlt := UInt32.lt_iff_toNat_lt.mp hlt
  omega

def defaultAttempts : Nat := 3

end TwinLog
