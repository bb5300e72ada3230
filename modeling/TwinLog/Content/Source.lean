/-
  TwinLog.Content.Source — where the bytes of a blob come from.

  A source is asked for its length once, before anything is read, and then read in
  steps: a read with room for `n` bytes gives at most `n`, an empty answer says that
  there is nothing at the moment, and a read may fail. Three kinds exist besides a
  folder opened by mistake: bytes in memory from a position on, an open file from a
  position on (read as it is at that moment), and a script of events, for sources that
  answer short, early, late or not at all.

  `readAll` is the reader used for checksums: it repeats interrupted reads and takes the
  first empty answer for the end. It ends because each step before that uses up part of
  the source (`weight_read_lt`).

  It follows `Content` with what implements it, and `of_reader` of `Checksum`. A borrowed
  source is left out, since it does what its owner does, and so are sources of other
  makes, for which the script stands.
-/

import TwinLog.Location
import TwinLog.Volume.Files

namespace TwinLog

/-- What a scripted source answers next. -/
inductive Event where
  | data (bs : List UInt8)
  | finish
  | fail (e : IoFault)
  deriving DecidableEq, Repr, Inhabited

/-- What a read gives: some bytes, or none at the end, or a failure. -/
abbrev Reading : Type := Except IoFault (List UInt8)

inductive Source where
  /-- Bytes in memory; the position may lie past their end. -/
  | memory (data : Array UInt8) (position : Nat)
  | file (id : FileId) (position : Nat)
  | folder
  /-- `left` is what the last data event still holds. -/
  | script (left : List UInt8) (events : List Event) (declared : Except IoFault Nat)

namespace Event

def size : Event → Nat
  | data bs => bs.length
  | _ => 0

def sizes : List Event → Nat
  | [] => 0
  | e :: rest => e.size + sizes rest

end Event

namespace Source

def ofBytes (bs : List UInt8) (position : Nat) : Source := .memory bs.toArray position

def ofEvents (events : List Event) (declared : Option (Except IoFault Nat)) : Source :=
  .script [] events (declared.getD (.ok (Event.sizes events)))

def openAt (v : Volume) (path : String) (position : Nat) : Except IoFault Source :=
  match v.openToRead path with
  | .error e => .error e
  | .ok opened =>
    if Volume.maxOffset opened < position then .error (.system .invalidArgument)
    else match opened with
      | .file id => .ok (.file id position)
      | .folder => .ok .folder

/-- The length that the source claims. A file claims all of it, wherever it is read. -/
def declared (d : Disk) : Source → Except IoFault Nat
  | memory data position => .ok (data.size - position)
  | file id _ => .ok (d.image id).length
  | folder => .ok Volume.folderLength
  | script _ _ declared => declared

/-- The next event's answer to a read of `n` bytes, what it leaves over, and the events
    after it. Empty data is skipped. -/
def nextEvent (n : Nat) : List Event → Reading × List UInt8 × List Event
  | [] => (.ok [], [], [])
  | .data bs :: rest => if bs.isEmpty then nextEvent n rest else (.ok (bs.take n), bs.drop n, rest)
  | .finish :: rest => (.ok [], [], rest)
  | .fail e :: rest => (.error e, [], rest)

def read (d : Disk) (n : Nat) : Source → Reading × Source
  | memory data position =>
    let bs := (data.extract position (position + n)).toList
    (.ok bs, memory data (position + bs.length))
  | file id position =>
    let bs := (d.image id).readUpTo position n
    (.ok bs, file id (position + bs.length))
  | folder => (.error (.system .isFolder), folder)
  | script left events declared =>
    if left.isEmpty then
      let (r, left, events) := nextEvent n events
      (r, script left events declared)
    else (.ok (left.take n), script (left.drop n) events declared)

/-- How much is still to come: bytes, and events of a script. -/
def weight (d : Disk) : Source → Nat
  | memory data position => data.size - position
  | file id position => (d.image id).length - position
  | folder => 0
  | script left events _ => left.length + Event.sizes events + events.length

def interrupts : Source → Nat
  | script _ events _ => events.countP fun e => match e with | .fail f => f.isInterrupted | _ => false
  | _ => 0

/-- A reading that makes a reader ask again. -/
def goesOn : Reading → Bool
  | .ok bs => !bs.isEmpty
  | .error e => e.isInterrupted

theorem weight_nextEvent (n : Nat) (hn : 0 < n) (events : List Event) :
    let (r, left, rest) := nextEvent n events
    goesOn r → left.length + Event.sizes rest + rest.length < Event.sizes events + events.length := by
  induction events with
  | nil => simp [nextEvent, goesOn]
  | cons e events ih =>
    cases e with
    | data bs =>
      by_cases h : bs.isEmpty
      · simp only [nextEvent, h, if_true]
        intro hr
        have := ih hr
        simp only [Event.sizes, List.length_cons]
        omega
      · simp only [nextEvent, h, Bool.false_eq_true, if_false, List.length_drop, List.length_cons,
          Event.sizes, Event.size]
        intro _
        omega
    | finish => simp [nextEvent, goesOn]
    | fail e =>
      simp only [nextEvent, List.length_nil, List.length_cons, Event.sizes]
      intro _
      omega

theorem weight_read_lt (d : Disk) (n : Nat) (hn : 0 < n) (s : Source) (h : goesOn (s.read d n).1) :
    (s.read d n).2.weight d < s.weight d := by
  cases s with
  | memory data position =>
    simp only [read, goesOn, weight] at h ⊢
    have hl : 0 < ((data.extract position (position + n)).toList).length :=
      List.length_pos_iff.mpr (by simpa using h)
    simp only [Array.length_toList, Array.size_extract] at hl ⊢
    omega
  | file id position =>
    simp only [read, goesOn, weight] at h ⊢
    have hl : 0 < ((d.image id).readUpTo position n).length := List.length_pos_iff.mpr (by simpa using h)
    simp only [Image.readUpTo, Image.read, Sparse.length_read] at hl ⊢
    omega
  | folder => simp [read, goesOn, IoFault.isInterrupted] at h
  | script left events declared =>
    by_cases hl : left.isEmpty
    · have := weight_nextEvent n hn events
      simp only [read, hl, if_true, weight] at h ⊢
      have := this h
      omega
    · have : 0 < left.length := List.length_pos_iff.mpr (by simpa using hl)
      simp only [read, hl, weight, List.length_drop, Bool.false_eq_true, if_false]
      omega

theorem interrupts_nextEvent (n : Nat) (events : List Event) :
    let (r, _, rest) := nextEvent n events
    (script [] rest (.ok 0)).interrupts ≤ (script [] events (.ok 0)).interrupts ∧
      (∀ e, r = .error e → e.isInterrupted →
        (script [] rest (.ok 0)).interrupts < (script [] events (.ok 0)).interrupts) := by
  induction events with
  | nil => simp [nextEvent, interrupts]
  | cons e events ih =>
    cases e with
    | data bs =>
      by_cases h : bs.isEmpty
      · simpa [nextEvent, h, interrupts] using ih
      · simp [nextEvent, h, interrupts]
    | finish => simp [nextEvent, interrupts]
    | fail e =>
      simp only [nextEvent, interrupts, List.countP_cons]
      refine ⟨by omega, fun f hf hi => ?_⟩
      cases hf
      simp [hi]

/-- A read never adds interruptions, and an interrupted one uses one up. -/
theorem interrupts_read (d : Disk) (n : Nat) (s : Source) :
    (s.read d n).2.interrupts ≤ s.interrupts ∧
      ∀ e, (s.read d n).1 = .error e → e.isInterrupted → (s.read d n).2.interrupts < s.interrupts := by
  cases s with
  | memory data position => simp [read, interrupts]
  | file id position => simp [read, interrupts]
  | folder => simp [read, interrupts, IoFault.isInterrupted]
  | script left events declared =>
    by_cases hl : left.isEmpty
    · simpa [read, hl, interrupts] using interrupts_nextEvent n events
    · simp [read, hl, interrupts]

/-- All bytes up to the first empty answer, read `step + 1` at a time. -/
def readAll (d : Disk) (step : Nat) (s : Source) : Except IoFault (List UInt8) :=
  match _seen : s.read d (step + 1) with
  | (.ok [], _) => .ok []
  | (.ok (b :: bs), rest) => (readAll d step rest).map ((b :: bs) ++ ·)
  | (.error e, rest) => if _again : e.isInterrupted then readAll d step rest else .error e
termination_by s.weight d
decreasing_by
  · have := weight_read_lt d (step + 1) (Nat.succ_pos _) s (by simp [_seen, goesOn])
    rwa [_seen] at this
  · have := weight_read_lt d (step + 1) (Nat.succ_pos _) s (by simpa [_seen, goesOn] using _again)
    rwa [_seen] at this

end Source

def Checksum.ofSource (d : Disk) (s : Source) : Except IoFault Checksum := (s.readAll d 8191).map Checksum.of

end TwinLog
