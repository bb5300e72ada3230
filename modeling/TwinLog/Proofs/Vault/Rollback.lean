/-
  TwinLog.Proofs.Vault.Rollback — when a rollback leaves keys without their contents.

  A rollback writes the headers in the order of a commit: the content log's first, and the
  index's if the call gets its turn there. After a commit that takes the content log's
  cursor back while the index still names what lies behind it. It stays so when the
  second write times out, until some later commit, or a rollback that gets to the index.
  `run_dangles_iff` says exactly when: the last to write the content log's header was a
  rollback, the last to write the index's was a commit, and that one covered some content.

  `Twin.Persists` reads the headers and the records as an opening does.
-/

import TwinLog.Proofs.Vault.Crash

namespace TwinLog

/-- An index opened on a file with nothing in it can be read again at any time. -/
theorem KeyLog.Steady.replays {opening saved : Directory} {stop : Nat} {k : KeyLog} {d : Disk}
    (h : Steady opening stop saved k d) (hs : stop = k.checkpoint) :
    ∃ m, k.log.loadCursor d = .ok m ∧ replay k.log d m = .ok saved := by
  obtain ⟨m, hstored⟩ := h.stored hs
  have hhead := h.mounted.head_le
  have hlength := h.mounted.length_eq
  have head : 0 < headSize := by decide
  rcases hstored.resumes with ⟨h0, -⟩ | ⟨hh, hle⟩
  · omega
  · rw [hlength] at hle
    exact ⟨m, (Log.loadCursor_iff h.mounted).mpr ⟨hh, hle⟩,
      (replay_iff hle hh.head_le).mpr ⟨m, hstored.laid, hstored.stops, hstored.distinct⟩⟩

namespace Twin

/-- What the headers on disk say: the content log's cursor, and the records below the index's. -/
structure Persists (t : Twin) (p : Nat) (dir : Directory) : Prop where
  content : t.traffic.log.log.loadCursor t.traffic.disk = .ok p
  index : ∃ m, t.index.index.log.loadCursor t.traffic.disk = .ok m ∧
    KeyLog.replay t.index.index.log t.traffic.disk m = .ok dir

theorem Persists.unique {t : Twin} {p q : Nat} {dir dir' : Directory} (h : t.Persists p dir)
    (h' : t.Persists q dir') : p = q ∧ dir = dir' := by
  obtain ⟨m, hm, hdir⟩ := h.index
  obtain ⟨m', hm', hdir'⟩ := h'.index
  cases hm.symm.trans hm'
  exact ⟨Except.ok.inj (h.content.symm.trans h'.content), Except.ok.inj (hdir.symm.trans hdir')⟩

end Twin

/-- A record names content past the content log's cursor. -/
def Directory.Dangles (dir : Directory) (p : Nat) : Prop := ∃ e ∈ dir, 0 < e.location.size ∧ p < e.location.finish

namespace Service

variable {g : Ground} {p : Nat} {saved : Directory} {s : Service}

theorem Stands.persists (h : s.Stands g p saved) (hg : g.stop = g.mark) : s.twin.Persists p saved :=
  ⟨(Log.loadCursor_iff h.twin.content.mounted).mpr ⟨h.twin.head, h.twin.le⟩,
    h.twin.index.replays (hg.trans h.twin.mark.symm)⟩

/-- A header write that has timed out leaves both logs as they are. -/
theorem twin_timed_out (s : Service) : (s.run [.headIndex false]).twin = s.twin := by
  show (s.step (.headIndex false)).twin = s.twin
  dsimp only [step]
  split
  · rfl
  · rfl

/-- What lies behind the opening is out of reach of a header that was put back. -/
theorem Stands.dangles (h : s.Stands g p saved) (hg : g.opening = []) :
    saved.Dangles p ↔ s.twin.contentDeeds.head? = some .rollback ∧ s.twin.indexDeeds.head? = some .commit ∧
      ∃ e ∈ saved, 0 < e.location.size := by
  have htwin := h.twin
  constructor
  · rintro ⟨e, he, hpos, hlt⟩
    refine ⟨?_, ?_, e, he, hpos⟩
    · by_contra hlast
      rcases htwin.saved_covered hlast e he with h0 | hle
      · omega
      · omega
    · by_contra hlast
      rw [htwin.kept hlast, hg] at he
      cases he
  · rintro ⟨hlast, -, e, he, hpos⟩
    have hback := htwin.undone fun hc => nomatch hlast.symm.trans hc
    refine ⟨e, he, hpos, ?_⟩
    rcases h.listed e (htwin.index.saved_sub he) with ho | ⟨bs, i, slot, -, hret⟩
    · rw [hg] at ho
      cases ho
    · obtain ⟨-, -, -, hheld⟩ := Traffic.returned_spec htwin.content hret
      have hbounds := htwin.content.held_bounds (hheld hpos)
      dsimp only at hbounds
      omega

end Service

namespace Vault

variable {v v' : Volume} {s : Settings} {vault : Vault} {l : Logs}

/-- Opened on two different files with nothing in them: at every point of every run the
    headers can be read, and a record below the index's cursor names content past the content
    log's cursor exactly if a rollback was the last to write the content log's header, a
    commit the last to write the index's, and some record has content at all. -/
theorem run_dangles_iff (hv : v.Sound) (h : openAt v s = (.ok vault, v')) (hl : vault.logs = some l)
    (hne : l.content.log.file ≠ l.index.index.log.file) (hc : (v.disk.image l.content.log.file).length = 0)
    (hi : (v.disk.image l.index.index.log.file).length = 0) (turns : List Turn) :
    let t := (Service.ofLogs l v'.disk).run turns
    ∃ p dir, t.twin.Persists p dir ∧ (dir.Dangles p ↔
      t.twin.contentDeeds.head? = some .rollback ∧ t.twin.indexDeeds.head? = some .commit ∧
        ∃ e ∈ dir, 0 < e.location.size) := by
  intro t
  obtain ⟨hcursor, hdir, hmark⟩ := opens_fresh hv h hl hne hc hi
  obtain ⟨u, c, w, k, hparts, rfl⟩ := openAt_iff.mp h
  cases hl
  dsimp only [Gate.ofIndex] at hcursor hdir hmark hne
  have hold : k.directory.Covered c.cursor := by
    rw [hdir]
    intro e he
    cases he
  obtain ⟨stop, hbegin⟩ := Service.stands_opened hv hparts hne hold s.indexTimeout
  have hstop : stop = k.checkpoint := by
    have hlaid := hbegin.twin.index.opened
    rw [hdir] at hlaid
    exact hlaid.symm.trans hmark.symm
  obtain ⟨p, saved, hstands⟩ := Service.stands_run hbegin turns
  exact ⟨p, saved, hstands.persists hstop, hstands.dangles hdir⟩

/-- A key of three bytes, stored and committed. -/
def committed : List Turn :=
  let space : Volume.Space := fun _ => .ok 4096
  [.begin "a", .add 0 (.reserve 3), .add 0 (.room space), .add 0 (.feed (.ok [7, 8])), .add 0 (.feed (.ok [9])),
    .add 0 .release, .add 0 (.finish space true), .headContent .commit, .headIndex true]

/-- After that, an add of the same key, whose rollback does not get to the index. -/
def addedTwice : List Turn :=
  let space : Volume.Space := fun _ => .ok 4096
  committed ++ [.begin "a", .add 1 (.reserve 1), .add 1 (.room space), .add 1 (.feed (.ok [5])), .add 1 .release,
    .add 1 (.finish space true), .add 1 .unwindContent, .add 1 (.unwindIndex false)]

def orphan : Directory := [⟨"a", 52, ⟨3, 8, Checksum.of [7, 8, 9]⟩⟩]

theorem addedTwice_persists :
    ((Service.ofLogs smallLogs smallVolume.disk).run addedTwice).twin.Persists 8 orphan :=
  ⟨by decide +kernel, 53, by decide +kernel⟩

/-- An add that fails can do it. -/
theorem addedTwice_dangles :
    ∃ p dir, ((Service.ofLogs smallLogs smallVolume.disk).run addedTwice).twin.Persists p dir ∧ dir.Dangles p := by
  obtain ⟨p, dir, hpersists, hiff⟩ :=
    run_dangles_iff (Volume.sound_empty 4096) small_opens rfl (by decide) (by rfl) (by rfl) addedTwice
  obtain ⟨-, rfl⟩ := hpersists.unique addedTwice_persists
  refine ⟨p, orphan, hpersists, hiff.mpr ⟨?_, ?_, _, List.mem_cons_self, by decide⟩⟩
  · decide +kernel
  · decide +kernel

/-- So can a rollback that was asked for, between its two writes and after the second one has
    timed out. -/
theorem rollback_after_commit_dangles : openAt (.empty 4096) small = (.ok ⟨small, some smallLogs⟩, smallVolume) ∧
    smallLogs.content.log.file ≠ smallLogs.index.index.log.file ∧
    ((Volume.empty 4096).disk.image smallLogs.content.log.file).length = 0 ∧
    ((Volume.empty 4096).disk.image smallLogs.index.index.log.file).length = 0 ∧
    ∀ turns ∈ [committed ++ [.headContent .rollback], committed ++ [.headContent .rollback, .headIndex false]],
      ((Service.ofLogs smallLogs smallVolume.disk).run turns).twin.Persists 8 orphan ∧ orphan.Dangles 8 := by
  have hdangles : orphan.Dangles 8 := ⟨_, List.mem_cons_self, by decide, by decide⟩
  have hbetween : ((Service.ofLogs smallLogs smallVolume.disk).run
      (committed ++ [.headContent .rollback])).twin.Persists 8 orphan :=
    ⟨by decide +kernel, 53, by decide +kernel⟩
  refine ⟨small_opens, by decide, by rfl, by rfl, ?_⟩
  intro turns hturns
  refine ⟨?_, hdangles⟩
  rcases List.mem_cons.mp hturns with rfl | hturns
  · exact hbetween
  · cases List.mem_singleton.mp hturns
    rw [List.append_cons, Service.run_append, Service.twin_timed_out]
    exact hbetween

end Vault

end TwinLog
