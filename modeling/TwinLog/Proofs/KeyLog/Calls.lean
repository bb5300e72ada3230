/-
  TwinLog.Proofs.KeyLog.Calls — one call of an index step by step, and calls in a row.

  The caller who is inside a gate works on the index in steps (`Body`): it looks for the key,
  makes room, writes the record, moves the cursor and lists the key. Each step reads the index
  as it stands at that moment, so a second caller inside would meet a record half made. Commits
  and rollbacks are one step, since nobody looks at the disk in the meantime. All steps
  together are the call (`after_six`), and whoever is done has done the whole call
  (`reply_of_over`).

  Calls in a row are `Gate.serveAll`. A gate that somebody is inside of answers a timeout and
  is left alone (`serve_held`), and nothing else does: what an index answers by itself is a
  duplicate, or a fault of its log (`add_fault`).
-/

import TwinLog.Proofs.KeyLog.Commit
import TwinLog.Proofs.Vault.Service

namespace TwinLog

/-! ## The faults of a log -/

inductive Fault.OfLog : Fault → Prop
  | argument (why : Refusal) : OfLog (.invalidArgument why)
  | system (why : IoFault) : OfLog (.io why)
  | room (required available : Nat) : OfLog (.noSpace required available)

namespace Log

variable {d : Disk}

theorem grow_fault {log : Log} {space : Volume.Space} {required : Nat} {e : Fault}
    (h : log.grow space d required = .error e) : e.OfLog := by
  obtain ⟨-, hcheck⟩ := grow_refused h
  unfold checkSpace at hcheck
  split at hcheck
  · cases hcheck
    exact .system _
  · split at hcheck
    · cases hcheck
      exact .room ..
    · cases hcheck

theorem write_fault {log : Log} {offset : Nat} {bs : List UInt8} {e : Fault} (h : log.write d offset bs = .error e) :
    e.OfLog := by
  unfold Log.write Log.checkRange at h
  split at h
  · rename_i hrange
    cases h
    split at hrange
    · cases hrange
    · cases hrange
      exact .argument _
  · cases h

theorem storeCursor_fault {log : Log} {cursor : Nat} {e : Fault} (h : log.storeCursor d cursor = .error e) :
    e.OfLog := by
  unfold Log.storeCursor at h
  split at h
  · cases h
    exact .argument _
  · cases hwrite : log.write d 0 (int64Bytes (Int64.ofNat cursor)) with
    | error e' =>
      rw [hwrite] at h
      cases h
      exact write_fault hwrite
    | ok d' =>
      rw [hwrite] at h
      cases h

end Log

namespace KeyLog

/-! ## One call -/

inductive Reply where
  | unit (r : Except Fault Unit)
  | location (r : Except Fault Location)
  | known (r : Except Fault Bool)
  deriving DecidableEq

def reply (k : KeyLog) (d : Disk) : Request → Reply × KeyLog × Disk
  | .add space key l => (.unit (k.add space d key l).1, (k.add space d key l).2)
  | .get key => (.location (k.get key), k, d)
  | .contains key => (.known (.ok (k.contains key)), k, d)
  | .commit => (.unit (Gate.storing commit k d).1, (Gate.storing commit k d).2)
  | .rollback => (.unit (Gate.storing rollback k d).1, (Gate.storing rollback k d).2)

/-- How far the caller who is inside has come. -/
inductive Body where
  | begun (r : Request)
  /-- The key is new and not too long. -/
  | checked (space : Volume.Space) (entry : Entry)
  /-- There is room for the record. -/
  | roomy (entry : Entry)
  | framed (entry : Entry) (header : Header)
  | written (entry : Entry)
  /-- The cursor is behind the record; the directory does not have it yet. -/
  | passed (entry : Entry)
  | over (reply : Reply)

def Body.step (k : KeyLog) (d : Disk) : Body → Body × KeyLog × Disk
  | .begun (.add space key l) =>
    if key = "" then (.over (.unit (.error (.invalidArgument .emptyKey))), k, d)
    else if k.directory.contains key then (.over (.unit (.error (.duplicateKey key))), k, d)
    else if maxKeySize < key.utf8ByteSize then
      (.over (.unit (.error (.invalidArgument (.keyTooLong key.utf8ByteSize)))), k, d)
    else (.checked space ⟨key, k.cursor + Header.width, l⟩, k, d)
  | .begun r => (.over (k.reply d r).1, (k.reply d r).2)
  | .checked space entry => match k.log.grow space d entry.finish with
    | .error e => (.over (.unit (.error e)), k, d)
    | .ok (_, log, d) => (.roomy entry, { k with log }, d)
  | .roomy entry => match headerFor entry.keyOffset entry.keySize entry.location with
    | .error e => (.over (.unit (.error e)), k, d)
    | .ok header => (.framed entry header, k, d)
  | .framed entry header => match k.log.write d k.cursor (header.encode ++ keyBytes entry.key) with
    | .error e => (.over (.unit (.error e)), k, d)
    | .ok d => (.written entry, k, d)
  | .written entry => (.passed entry, { k with cursor := entry.finish }, d)
  | .passed entry => (.over (.unit (.ok ())), { k with directory := k.directory ++ [entry] }, d)
  | .over reply => (.over reply, k, d)

def Body.after : Nat → Body × KeyLog × Disk → Body × KeyLog × Disk
  | 0, x => x
  | n + 1, x => after n (x.1.step x.2.1 x.2.2)

namespace Body

variable {k k' : KeyLog} {d d' : Disk} {r : Request}

theorem after_add (m n : Nat) (x : Body × KeyLog × Disk) : after (m + n) x = after n (after m x) := by
  induction m generalizing x with
  | zero => rw [Nat.zero_add]; rfl
  | succ m ih =>
    rw [Nat.succ_add]
    exact ih _

theorem after_over (n : Nat) (reply : Reply) (k : KeyLog) (d : Disk) :
    after n (.over reply, k, d) = (.over reply, k, d) := by
  induction n with
  | zero => rfl
  | succ n ih => exact ih

theorem after_step {n : Nat} {b : Body} {x : Body × KeyLog × Disk} (h : b.step k d = x) :
    after (n + 1) (b, k, d) = after n x := h ▸ rfl

theorem after_ends {n : Nat} {b : Body} {reply : Reply} (h : b.step k d = (.over reply, k', d')) :
    after (n + 1) (b, k, d) = (.over reply, k', d') := by rw [after_step h, after_over]

theorem after_six (k : KeyLog) (d : Disk) (r : Request) :
    after 6 (.begun r, k, d) = (.over (k.reply d r).1, (k.reply d r).2) := by
  cases r with
  | add space key l =>
    simp only [reply, KeyLog.add]
    by_cases hkey : key = ""
    · rw [if_pos hkey]
      exact after_ends (by simp only [step, if_pos hkey])
    by_cases hknown : k.directory.contains key
    · rw [if_neg hkey, if_pos hknown]
      exact after_ends (by simp only [step, if_neg hkey, if_pos hknown])
    by_cases hlong : maxKeySize < key.utf8ByteSize
    · rw [if_neg hkey, if_neg hknown, if_pos hlong]
      exact after_ends (by simp only [step, if_neg hkey, if_neg hknown, if_pos hlong])
    have hchecked : step k d (.begun (.add space key l)) =
        (.checked space ⟨key, k.cursor + Header.width, l⟩, k, d) := by
      simp only [step, if_neg hkey, if_neg hknown, if_neg hlong]
    rw [if_neg hkey, if_neg hknown, if_neg hlong, after_step hchecked]
    generalize hentry : (⟨key, k.cursor + Header.width, l⟩ : Entry) = entry
    cases hgrow : k.log.grow space d entry.finish with
    | error e => exact after_ends (by simp only [step, hgrow])
    | ok grown =>
      obtain ⟨grew, log, dg⟩ := grown
      have hroomy : step k d (.checked space entry) = (.roomy entry, { k with log }, dg) := by
        simp only [step, hgrow]
      rw [after_step hroomy]
      have hl : entry.location = l := hentry ▸ rfl
      have hbytes : entry.key = key := hentry ▸ rfl
      have hoffset : entry.keyOffset = k.cursor + Header.width := hentry ▸ rfl
      cases hfits : headerFor (k.cursor + Header.width) entry.keySize l with
      | error e => exact after_ends (by simp only [step, hl, hoffset, hfits])
      | ok header =>
        have hframed : step { k with log } dg (.roomy entry) = (.framed entry header, { k with log }, dg) := by
          simp only [step, hl, hoffset, hfits]
        rw [after_step hframed]
        dsimp only
        cases hwrite : log.write dg k.cursor (header.encode ++ keyBytes key) with
        | error e => exact after_ends (by simp only [step, hbytes, hwrite])
        | ok dw =>
          have hwritten : step { k with log } dg (.framed entry header) = (.written entry, { k with log }, dw) := by
            simp only [step, hbytes, hwrite]
          rw [after_step hwritten]
          rfl
  | _ => rfl

/-- Whoever is done has done the whole call. -/
theorem reply_of_over {n : Nat} {reply : Reply} (h : after n (.begun r, k, d) = (.over reply, k', d')) :
    k.reply d r = (reply, k', d') := by
  have hsix := after_add n 6 (.begun r, k, d)
  rw [h, after_over, Nat.add_comm, after_add 6 n, after_six, after_over] at hsix
  cases hreply : k.reply d r
  rw [hreply] at hsix
  cases hsix
  rfl

end Body

/-! ## Many calls, one after the other -/

def Request.refuse (e : Fault) : Request → Reply
  | .add .. | .commit | .rollback => .unit (.error e)
  | .get _ => .location (.error e)
  | .contains _ => .known (.error e)

def replyAll (k : KeyLog) (d : Disk) : List Request → List Reply × KeyLog × Disk
  | [] => ([], k, d)
  | r :: rest =>
    let x := k.reply d r
    let y := replyAll x.2.1 x.2.2 rest
    (x.1 :: y.1, y.2)

end KeyLog

namespace Gate

def serve (g : Gate) (d : Disk) : KeyLog.Request → KeyLog.Reply × Gate × Disk
  | .add space key l => (.unit (g.add space d key l).1, (g.add space d key l).2)
  | .get key => (.location (g.get d key).1, (g.get d key).2)
  | .contains key => (.known (g.contains d key).1, (g.contains d key).2)
  | .commit => (.unit (g.commit d).1, (g.commit d).2)
  | .rollback => (.unit (g.rollback d).1, (g.rollback d).2)

def serveAll (g : Gate) (d : Disk) : List KeyLog.Request → List KeyLog.Reply × Gate × Disk
  | [] => ([], g, d)
  | r :: rest =>
    let x := g.serve d r
    let y := serveAll x.2.1 x.2.2 rest
    (x.1 :: y.1, y.2)

variable {g : Gate}

theorem serve_free (h : g.held = none) (d : Disk) (r : KeyLog.Request) :
    g.serve d r = ((g.index.reply d r).1, g.passed (g.index.reply d r).2.1, (g.index.reply d r).2.2) := by
  cases r with
  | add space key l => simp only [serve, add, call_free h, KeyLog.reply]
  | get key => simp only [serve, get, call_free h, KeyLog.reply]
  | contains key => simp only [serve, contains, call_free h, KeyLog.reply]
  | commit => simp only [serve, commit, call_free h, KeyLog.reply]
  | rollback => simp only [serve, rollback, call_free h, KeyLog.reply]

theorem serve_held {x : String × Location} (h : g.held = some x) (d : Disk) (r : KeyLog.Request) :
    g.serve d r = (r.refuse (.timedOut g.timeout), g, d) := by
  cases r with
  | add space key l => simp only [serve, add, call, h, KeyLog.Request.refuse]
  | get key => simp only [serve, get, call, h, KeyLog.Request.refuse]
  | contains key => simp only [serve, contains, call, h, KeyLog.Request.refuse]
  | commit => simp only [serve, commit, call, h, KeyLog.Request.refuse]
  | rollback => simp only [serve, rollback, call, h, KeyLog.Request.refuse]

theorem serveAll_free (h : g.held = none) (d : Disk) (rs : List KeyLog.Request) :
    (g.serveAll d rs).1 = (g.index.replyAll d rs).1 ∧ (g.serveAll d rs).2.1.index = (g.index.replyAll d rs).2.1 ∧
      (g.serveAll d rs).2.2 = (g.index.replyAll d rs).2.2 := by
  induction rs generalizing g d with
  | nil => exact ⟨rfl, rfl, rfl⟩
  | cons r rest ih =>
    simp only [serveAll, KeyLog.replyAll, serve_free h]
    obtain ⟨hreplies, hindex, hdisk⟩ := ih (g := g.passed (g.index.reply d r).2.1) h (g.index.reply d r).2.2
    exact ⟨by rw [hreplies]; rfl, hindex, hdisk⟩

end Gate

namespace KeyLog

variable {k k' : KeyLog} {d d' : Disk}

theorem replyAll_append (k : KeyLog) (d : Disk) (rs more : List Request) :
    k.replyAll d (rs ++ more) = ((k.replyAll d rs).1 ++ ((k.replyAll d rs).2.1.replyAll (k.replyAll d rs).2.2 more).1,
      ((k.replyAll d rs).2.1.replyAll (k.replyAll d rs).2.2 more).2) := by
  induction rs generalizing k d with
  | nil => rfl
  | cons r rest ih => simp only [List.cons_append, replyAll, ih]

@[simp] theorem length_replyAll (k : KeyLog) (d : Disk) (rs : List Request) :
    (k.replyAll d rs).1.length = rs.length := by
  induction rs generalizing k d with
  | nil => rfl
  | cons r rest ih => simp only [replyAll, List.length_cons, ih]

/-! ## What an index answers by itself -/

theorem toSigned_fault {n : Nat} {e : Fault} (h : toSigned n = .error e) : e.OfLog := by
  unfold toSigned at h
  split at h
  · cases h
  · cases h
    exact .argument _

theorem headerFor_fault {offset size : Nat} {l : Location} {e : Fault} (h : headerFor offset size l = .error e) :
    e.OfLog := by
  unfold headerFor at h
  split at h
  · cases h
  all_goals
    cases h
    exact toSigned_fault (by assumption)

theorem add_fault {space : Volume.Space} {key : String} {l : Location} {e : Fault}
    (h : (k.add space d key l).1 = .error e) :
    e = .duplicateKey key ∧ k.directory.contains key = true ∨ e.OfLog := by
  rcases hadd : k.add space d key l with ⟨r, k', d'⟩
  obtain rfl : r = .error e := by rw [hadd] at h; exact h
  cases add_cases hadd with
  | nameless | tooLong => exact .inr (.argument _)
  | duplicate known => exact .inl ⟨rfl, known⟩
  | noRoom unknown short refused => exact .inr (Log.grow_fault refused)
  | tooFar unknown short room unfit => exact .inr (headerFor_fault unfit)

/-- Recording a key lists it last, refusing it leaves the directory alone. -/
theorem add_directory (k : KeyLog) (space : Volume.Space) (d : Disk) (key : String) (l : Location) :
    (k.add space d key l).1 = .ok () ∧
        (∃ o, (k.add space d key l).2.1.directory = k.directory ++ [⟨key, o, l⟩]) ∨
      (∃ e, (k.add space d key l).1 = .error e) ∧ (k.add space d key l).2.1.directory = k.directory := by
  rcases hadd : k.add space d key l with ⟨r, k', d'⟩
  cases add_cases hadd with
  | nameless | duplicate | tooLong | noRoom | tooFar => exact .inr ⟨⟨_, rfl⟩, rfl⟩
  | recorded => exact .inl ⟨rfl, _, rfl⟩

theorem storing_fault {store : KeyLog → Disk → Except Fault Disk} {e : Fault}
    (h : (Gate.storing store k d).1 = .error e) : store k d = .error e := by
  unfold Gate.storing at h
  split at h
  · rename_i hstore
    cases h
    exact hstore
  · cases h

/-- An index never answers that it has timed out. -/
theorem reply_ne_timedOut (k : KeyLog) (d : Disk) (r : Request) (t : Duration) :
    (k.reply d r).1 ≠ r.refuse (.timedOut t) := by
  have never : ¬ Fault.OfLog (.timedOut t) := by
    intro h
    cases h
  intro h
  cases r with
  | add space key l =>
    rcases add_fault (Reply.unit.inj h) with ⟨he, -⟩ | he
    · cases he
    · exact never he
  | get key =>
    have hget : k.get key = .error (.timedOut t) := Reply.location.inj h
    unfold KeyLog.get at hget
    split at hget
    · cases hget
    · split at hget <;> cases hget
  | contains key => cases h
  | commit => exact never (Log.storeCursor_fault (storing_fault (Reply.unit.inj h)))
  | rollback => exact never (Log.storeCursor_fault (storing_fault (Reply.unit.inj h)))

end KeyLog

end TwinLog
