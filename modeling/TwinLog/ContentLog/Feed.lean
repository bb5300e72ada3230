/-
  TwinLog.ContentLog.Feed — appends that are handed their content from outside, one event
  at a time, so that several can be under way in one log.

  Data serves as many reads as it fills; what it holds past the end of the append is
  dropped. `abandon` tells an append that nothing more comes.

  The appends are those of `BlobStore`; what hands them their content is a caller of it,
  and no part of the store.
-/

import TwinLog.ContentLog.Transfer

namespace TwinLog

namespace ContentLog

/-- Serve reads from `bs` until it is used up. -/
def feedData (c : ContentLog) (d : Disk) (t : Transfer) (bs : List UInt8) : Progress × ContentLog × Disk :=
  match bs with
  | [] => (.waiting t, c, d)
  | b :: r => match c.step d t (.ok ((b :: r).take t.wants)) with
    | (.waiting t', c', d') => feedData c' d' t' ((b :: r).drop t.wants)
    | done => done
termination_by bs.length
decreasing_by
  have := t.wants_pos
  simp only [List.length_drop, List.length_cons]
  omega

def feed (c : ContentLog) (d : Disk) (t : Transfer) : Event → Progress × ContentLog × Disk
  | .data bs => c.feedData d t bs
  | .finish => c.step d t (.ok [])
  | .fail e => c.step d t (.error e)

def abandon (c : ContentLog) (d : Disk) (t : Transfer) : Except Fault Location × ContentLog × Disk :=
  match _step : c.step d t (.ok []) with
  | (.ended result, c, d) => (result, c, d)
  | (.waiting t', c', d') => abandon c' d' t'
termination_by t.budget
decreasing_by
  have h : (c.step d t (.ok [])).1 = .waiting t' := by rw [_step]
  rcases budget_step h with ⟨_, e, he, _⟩ | hb
  · cases he
  · exact hb

end ContentLog

end TwinLog
