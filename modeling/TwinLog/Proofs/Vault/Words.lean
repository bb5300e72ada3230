/-
  TwinLog.Proofs.Vault.Words — no offset of a vault's logs wraps around.

  The sums of offsets and sizes in the two logs are not checked where they are made. In the
  index each stays below a cursor on disk or one key behind a signed word, in the content log
  below the end of a range that was reserved (`KeyLog.Narrow`, `Traffic.Narrow`); so all of
  them are words, for any bytes in the files, any key, location and declared size, in any
  state the logs come to, and the ends of all locations that they answer are words too
  (`no_sum_leaves_its_word`). The bound is no wider than needed: an index at the last signed word
  sums up past it before it refuses the key (`far_logs_stay_in_words`).
-/

import Mathlib.Control.Monad.Basic
import TwinLog.Proofs.ContentLog.Words

namespace TwinLog

/-- On a machine that stops at a sum that is no word, everything comes out as it does here: opening an
    index, recording a key in one that is in use, and every reservation, append and move of appends
    under way in a content log that is in use. The cursor of a content log is a signed word. The locations
    that are replayed, answered by an index or returned by an append end at a word. -/
theorem no_sum_leaves_its_word :
    (∀ v path capacity, KeyLog.openInWords v path capacity = some (KeyLog.openAt v path capacity)) ∧
    (∀ log d bound dir, KeyLog.replay log d bound = .ok dir →
      ∀ e ∈ dir, e.location.finishInWords = some e.location.finish) ∧
    (∀ k : KeyLog, k.InUse →
      (∀ space d key l, k.addInWords space d key l = some (k.add space d key l)) ∧
      ∀ key l, k.get key = .ok l → l.finishInWords = some l.finish) ∧
    ∀ s : Traffic, s.InUse →
      s.log.cursor ≤ maxSigned ∧
      (∀ size, s.log.reserveInWords size = some (s.log.reserve size)) ∧
      (∀ hasher space src,
        s.log.appendInWords hasher space s.disk src = some (s.log.appendBuffered hasher space s.disk src) ∧
        ∀ l, (s.log.appendBuffered hasher space s.disk src).result = .ok l → l.finishInWords = some l.finish) ∧
      (∀ m, s.stepInWords m = some (s.step m)) ∧
      ∀ i l bs, s.Returned i l bs → l.finishInWords = some l.finish := by
  refine ⟨KeyLog.openInWords_eq, ?_, ?_, ?_⟩
  · intro log d bound dir h e he
    have hfits := KeyLog.fits_of_replay h e he
    exact Location.finishInWords_eq hfits.offset hfits.size
  · intro k hk
    exact ⟨KeyLog.addInWords_eq hk.narrow.cursor, fun key l => hk.narrow.get⟩
  · intro s hs
    have hn := hs.narrow
    refine ⟨hn.cursor, ContentLog.reserveInWords_eq s.log, fun hasher space src => ⟨?_, fun l hl => ?_⟩,
      hn.stepInWords_eq, fun i l bs hr => ?_⟩
    · exact ContentLog.appendInWords_eq hasher s.log space s.disk src
    · exact Location.finishInWords_of_le (ContentLog.finish_of_appendBuffered hl)
    · exact Location.finishInWords_of_le (hn.returned hr)

def farVolume (name : String) (bs : List UInt8) : Volume :=
  { (Volume.empty maxUnsigned).withFile 1 name with disk := ⟨#[⟨.ofList bs, maxSigned⟩]⟩ }

def farEntry : Entry := ⟨"b", 52, ⟨maxSigned, maxSigned, default⟩⟩

def farIndexVolume : Volume := farVolume "index.bin" (int64Bytes (Int64.ofNat maxSigned) ++ farEntry.bytes)

def farIndex : KeyLog := ⟨⟨"index.bin", 0, maxSigned⟩, maxSigned, maxSigned, [farEntry]⟩

def farContentVolume : Volume := farVolume "store.bin" (int64Bytes (Int64.ofNat (maxSigned - 2)))

def farContent : ContentLog := ⟨⟨"store.bin", 0, maxSigned⟩, maxSigned - 2, maxSigned - 2, [], 2, Nat.zero_lt_two⟩

/-- Two logs at the far end of what their headers can say. The index answers a location whose offset and
    size are the last signed word, and refuses another key after it has summed up past that word; the
    content log hands out its last two bytes and an empty range behind them, and no more, however much is
    declared. -/
theorem far_logs_stay_in_words :
    (∃ v, KeyLog.openAt farIndexVolume "index.bin" 0 = (.ok farIndex, v) ∧
      KeyLog.replay farIndex.log v.disk maxSigned = .ok [farEntry] ∧ farIndex.get "b" = .ok farEntry.location ∧
      farEntry.location.finishInWords = some (maxUnsigned - 1) ∧
      (farIndex.addInWords (fun _ => .ok maxUnsigned) v.disk "a" ⟨3, 8, default⟩).map (·.1) =
        some (.error (.invalidArgument (.doesNotFit (maxSigned + 44))))) ∧
    ∃ v, ContentLog.openAt farContentVolume "store.bin" 0 2 = (.ok farContent, v) ∧
      let s := (Traffic.idle farContent v.disk).run [.reserve 2, .reserve 0, .room 1 fun _ => .ok 0, .release 1]
      s.log.cursor = maxSigned ∧ (∀ size, 0 < size → s.stepInWords (.reserve size) = some s) ∧
        s.Returned 1 ⟨0, maxSigned, Checksum.of []⟩ [] ∧
        Location.finishInWords ⟨0, maxSigned, Checksum.of []⟩ = some maxSigned := by
  obtain ⟨-, -, hindex, hcontent⟩ := no_sum_leaves_its_word
  constructor
  · have hk : (KeyLog.openAt farIndexVolume "index.bin" 0).1 = .ok farIndex := by decide +kernel
    have hopen : KeyLog.openAt farIndexVolume "index.bin" 0 =
        (.ok farIndex, (KeyLog.openAt farIndexVolume "index.bin" 0).2) := by rw [← hk]
    have hreplay : KeyLog.replay farIndex.log (KeyLog.openAt farIndexVolume "index.bin" 0).2.disk maxSigned =
        .ok [farEntry] := by decide +kernel
    have hget : farIndex.get "b" = .ok farEntry.location := by decide +kernel
    have hrefused : (farIndex.add (fun _ => .ok maxUnsigned) (KeyLog.openAt farIndexVolume "index.bin" 0).2.disk "a"
        ⟨3, 8, default⟩).1 = .error (.invalidArgument (.doesNotFit (maxSigned + 44))) := by decide +kernel
    obtain ⟨hadd, hanswered⟩ := hindex farIndex (.opened hopen)
    refine ⟨_, hopen, hreplay, hget, hanswered "b" _ hget, ?_⟩
    rw [hadd, Option.map_some, hrefused]
  · have hc : (ContentLog.openAt farContentVolume "store.bin" 0 2).1 = .ok farContent := by decide +kernel
    have hopen : ContentLog.openAt farContentVolume "store.bin" 0 2 =
        (.ok farContent, (ContentLog.openAt farContentVolume "store.bin" 0 2).2) := by rw [← hc]
    refine ⟨_, hopen, ?_⟩
    intro s
    have hs : s.InUse := ((((Traffic.InUse.opened hopen).moved (.reserve 2)).moved (.reserve 0)).moved
      (.room 1 fun _ => .ok 0)).moved (.release 1)
    obtain ⟨-, -, -, hmoves, hreturned⟩ := hcontent s hs
    have hcursor : s.log.cursor = maxSigned := by decide +kernel
    have hlast : s.Returned 1 ⟨0, maxSigned, Checksum.of []⟩ [] :=
      ⟨⟨maxSigned, 0, .returned ⟨0, maxSigned, Checksum.of []⟩, []⟩, by rfl, rfl, rfl⟩
    refine ⟨hcursor, fun size hpos => ?_, hlast, hreturned 1 _ [] hlast⟩
    have hfull : ¬ s.log.cursor + size ≤ maxSigned := by omega
    rw [hmoves]
    simp only [Traffic.step, ContentLog.reserve, if_neg hfull]

end TwinLog
