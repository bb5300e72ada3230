/-
  TwinLog.Bulk.Pool — workers that share one queue and stop at the first failure.

  A worker takes the next item, looks whether anybody has failed, and works on the item;
  then it takes another. It is done when the queue is empty, when it sees a failure, or
  when its own work fails, which raises the flag for the others. `step` is one of these
  moves of one worker, so a run of the pool is any sequence of steps; `run` is the run in
  which the first worker that is not done moves until all are. The outcome is the first
  failure in the order of the workers.

  It follows `run_workers`. Left out are a worker that panics and the channel itself, of
  which only the order of its items shows.
-/

namespace TwinLog

inductive Worker (α ε : Type) where
  | idle
  /-- Has taken an item and not yet looked at the flag. -/
  | holding (item : α)
  | working (item : α)
  | done (result : Except ε Unit)

structure Pool (α ε σ : Type) where
  queue : List α
  failed : Bool
  workers : List (Worker α ε)
  /-- What the work is done on. -/
  shared : σ

namespace Worker

variable {α ε : Type}

def isDone : Worker α ε → Bool
  | done _ => true
  | _ => false

/-- A bound on the steps a worker takes without the queue. -/
def weight : Worker α ε → Nat
  | idle => 1
  | holding _ => 3
  | working _ => 2
  | done _ => 0

def weights : List (Worker α ε) → Nat
  | [] => 0
  | w :: rest => w.weight + weights rest

end Worker

namespace Pool

variable {α ε σ : Type}

def start (threads : Nat) (items : List α) (shared : σ) : Pool α ε σ :=
  ⟨items, false, List.replicate (max threads 1) .idle, shared⟩

def step (work : α → σ → Except ε Unit × σ) (p : Pool α ε σ) (i : Nat) : Pool α ε σ :=
  match p.workers[i]? with
  | some .idle => match p.queue with
    | [] => { p with workers := p.workers.set i (.done (.ok ())) }
    | item :: rest => { p with queue := rest, workers := p.workers.set i (.holding item) }
  | some (.holding item) =>
    { p with workers := p.workers.set i (if p.failed then .done (.ok ()) else .working item) }
  | some (.working item) => match work item p.shared with
    | (.ok (), shared) => { p with shared, workers := p.workers.set i .idle }
    | (.error e, shared) => { p with shared, failed := true, workers := p.workers.set i (.done (.error e)) }
  | _ => p

def weight (p : Pool α ε σ) : Nat := 3 * p.queue.length + Worker.weights p.workers

def next (p : Pool α ε σ) : Option Nat := p.workers.findIdx? (!·.isDone)

/-- A sum over a list, one element of which is replaced. -/
theorem sum_set {β : Type} {weight : β → Nat} {sum : List β → Nat}
    (hcons : ∀ b bs, sum (b :: bs) = weight b + sum bs) {bs : List β} {i : Nat} {old : β} (h : bs[i]? = some old)
    (new : β) : sum (bs.set i new) + weight old = sum bs + weight new := by
  induction bs generalizing i with
  | nil => simp at h
  | cons b bs ih =>
    cases i with
    | zero =>
      simp only [List.getElem?_cons_zero, Option.some.injEq] at h
      subst h
      simp only [List.set_cons_zero, hcons]
      omega
    | succ i =>
      have := ih (by simpa using h)
      simp only [List.set_cons_succ, hcons]
      omega

/-- Every move of a worker that is not done brings the end nearer. -/
theorem weight_step_lt (work : α → σ → Except ε Unit × σ) (p : Pool α ε σ) {i : Nat} {w : Worker α ε}
    (h : p.workers[i]? = some w) (hw : w.isDone = false) : (p.step work i).weight < p.weight := by
  have hs (new : Worker α ε) : Worker.weights (p.workers.set i new) + w.weight = Worker.weights p.workers + new.weight :=
    sum_set (fun _ _ => rfl) h new
  unfold step weight
  cases w with
  | idle =>
    rw [h]
    cases hq : p.queue with
    | nil =>
      have := hs (.done (.ok ()))
      simp only [Worker.weight] at this
      simp only
      omega
    | cons item rest =>
      have := hs (.holding item)
      simp only [Worker.weight] at this
      simp only [List.length_cons]
      omega
  | holding item =>
    rw [h]
    cases hf : p.failed with
    | true =>
      have := hs (.done (.ok ()))
      simp only [Worker.weight] at this
      simp only [if_true]
      omega
    | false =>
      have := hs (.working item)
      simp only [Worker.weight] at this
      simp only [Bool.false_eq_true, if_false]
      omega
  | working item =>
    rw [h]
    simp only
    split
    · have := hs .idle
      simp only [Worker.weight] at this
      simp only
      omega
    · rename_i e _ _
      have := hs (.done (.error e))
      simp only [Worker.weight] at this
      simp only
      omega
  | done r => simp [Worker.isDone] at hw

/-- Move the first worker that is not done until all are. -/
def run (work : α → σ → Except ε Unit × σ) (p : Pool α ε σ) : Pool α ε σ :=
  match _step : p.next with
  | none => p
  | some i => run work (p.step work i)
termination_by p.weight
decreasing_by
  obtain ⟨hi, hw, _⟩ := List.findIdx?_eq_some_iff_getElem.mp _step
  exact weight_step_lt work p (List.getElem?_eq_getElem hi) (by simpa using hw)

/-- The first failure in the order of the workers. -/
def outcome (p : Pool α ε σ) : Except ε Unit :=
  match p.workers.findSome? fun | .done (.error e) => some e | _ => none with
  | some e => .error e
  | none => .ok ()

end Pool

end TwinLog
