import BitzServer.Server.Daemon

/-!
# One daemon for a pid file

The lock on the pid file in any interleaving of servers that start, fork workers, shut down or die: it is with one daemon at most, a server
can start when it is with none, and the file names the daemon that has it.
-/

namespace BitzServer

namespace Daemon

/-- The lock is with the processes that are between `lockf` and its release, and the file begins with what they have written. -/
structure Guarded (s : State) : Prop where
  owned : FileLock.Owned s.Holds s.file
  created : ∀ pid, s.procs pid = some .opened ∨ s.Holds pid → s.file.content ≠ none
  begins : ∀ pid n, s.procs pid = some (.running n) → ∃ content, s.file.content = some content ∧ (pidText pid).take n <+: content
  inRange : ∀ pid, s.procs pid ≠ none → pid < pidLimit

namespace PidFileAux

variable {s : State} {pid : Nat} {stage : Option Stage} {file : FileLock.File Nat Byte}

theorem move_self : (s.move pid stage file).procs pid = stage := Function.update_self _ _ _

theorem move_of_ne {q : Nat} (h : q ≠ pid) : (s.move pid stage file).procs q = s.procs q := Function.update_of_ne h _ _

theorem holds_move_self : (s.move pid stage file).Holds pid ↔ Stage.HasLock stage := by
  rw [State.Holds, move_self]

theorem holds_move_of_ne {q : Nat} (h : q ≠ pid) : (s.move pid stage file).Holds q ↔ s.Holds q := by
  rw [State.Holds, State.Holds, move_of_ne h]

/-- Nothing changes for the others when a process moves to a stage without the lock and the content stays. -/
theorem guarded_move (hs : Guarded s) (hrange : s.procs pid = none → pid < pidLimit)
    (howned : FileLock.Owned (s.move pid stage file).Holds file)
    (hcontent : s.file.content ≠ none → file.content = s.file.content)
    (hcreated : stage = some .opened ∨ Stage.HasLock stage → file.content ≠ none)
    (hbegins : ∀ n, stage = some (.running n) → ∃ content, file.content = some content ∧ (pidText pid).take n <+: content) :
    Guarded (s.move pid stage file) where
  owned := howned
  created q hq := by
    by_cases hqp : q = pid
    · subst hqp
      rw [move_self, holds_move_self] at hq
      exact hcreated hq
    · rw [move_of_ne hqp, holds_move_of_ne hqp] at hq
      have hthere := hs.created q hq
      exact (hcontent hthere).symm ▸ hthere
  begins q n hq := by
    by_cases hqp : q = pid
    · subst hqp
      rw [move_self] at hq
      exact hbegins n hq
    · rw [move_of_ne hqp] at hq
      obtain ⟨content, hthere, hbegin⟩ := hs.begins q n hq
      exact ⟨content, (hcontent (by rw [hthere]; exact nofun)).trans hthere, hbegin⟩
  inRange q hq := by
    by_cases hqp : q = pid
    · subst hqp
      by_cases hnone : s.procs q = none
      · exact hrange hnone
      · exact hs.inRange q hnone
    · rw [move_of_ne hqp] at hq
      exact hs.inRange q hq

theorem guarded_initial (content : Option Bytes) : Guarded (State.initial content) where
  owned _ := ⟨False.elim, nofun⟩
  created _ h := h.elim nofun False.elim
  begins _ _ := nofun
  inRange _ h := absurd rfl h

/-- Every statement of every process keeps this. -/
theorem guarded_step {s' : State} {e : Event} (hs : Guarded s) (h : step s e = some s') : Guarded s' := by
  obtain ⟨pid, stage, file, rfl, hrange, hcase⟩ := step_cases h
  have hothers : ∀ q, q ≠ pid → ((s.move pid stage file).Holds q ↔ s.Holds q) := fun q hq => holds_move_of_ne hq
  rcases hcase with ⟨hold, hnew, hopen, rfl⟩ | ⟨hstarted, rfl, rfl⟩ | ⟨hopened, rfl, hlock⟩ | ⟨hlocked, count, rfl, rfl⟩ |
    ⟨hnew, hopen, rfl⟩
  · -- a process without the lock moves, and the file stays
    refine guarded_move hs hrange (hs.owned.same (fun q => ?_) rfl) (fun _ => rfl) (fun h => (h.elim hopen hnew).elim) ?_
    · by_cases hqp : q = pid
      · subst hqp
        rw [holds_move_self]
        exact ⟨fun h => absurd h hnew, fun h => absurd h hold⟩
      · exact hothers q hqp
    · rintro n rfl
      exact absurd trivial hnew
  · -- `open`
    refine guarded_move hs hrange (hs.owned.same (fun q => ?_) rfl) (fun hthere => ?_) (fun _ => nofun) (fun n => nofun)
    · by_cases hqp : q = pid
      · subst hqp
        rw [holds_move_self, State.Holds, hstarted]
        exact Iff.rfl
      · exact hothers q hqp
    · obtain ⟨content, hcontent⟩ := Option.ne_none_iff_exists'.mp hthere
      rw [FileLock.File.create, hcontent]
      rfl
  · -- `lockf`
    have hnot : ¬s.Holds pid := by
      rw [State.Holds, hopened]
      exact id
    refine guarded_move hs hrange (hs.owned.locked hlock hnot (holds_move_self.mpr trivial) hothers)
      (fun _ => (FileLock.File.tryLock_spec hlock).2) (fun _ => ?_) (fun n => nofun)
    rw [(FileLock.File.tryLock_spec hlock).2]
    exact hs.created pid (.inl hopened)
  · -- `write`: no other process has the lock, so no other has written
    have hholds : s.Holds pid := by
      rw [State.Holds, hlocked]
      trivial
    obtain ⟨content, hcontent⟩ := Option.ne_none_iff_exists'.mp (hs.created pid (.inr hholds))
    have hover : (s.file.overwrite ((pidText pid).take count)).content =
        some ((pidText pid).take count ++ content.drop ((pidText pid).take count).length) := by
      rw [FileLock.File.overwrite, hcontent]
      rfl
    refine ⟨hs.owned.same (fun q => ?_) rfl, fun q _ => ?_, fun q n hq => ?_, fun q hq => ?_⟩
    · by_cases hqp : q = pid
      · subst hqp
        exact ⟨fun _ => hholds, fun _ => holds_move_self.mpr trivial⟩
      · exact hothers q hqp
    · exact fun hnone => absurd (hover.symm.trans hnone) nofun
    · by_cases hqp : q = pid
      · subst hqp
        rw [move_self] at hq
        obtain rfl := Stage.running.inj (Option.some.inj hq)
        refine ⟨_, hover, ?_⟩
        rw [List.length_take, List.take_eq_take_min.symm]
        exact List.prefix_append _ _
      · rw [move_of_ne hqp] at hq
        have hq' : s.Holds q := by
          rw [State.Holds, hq]
          trivial
        exact absurd (hs.owned.unique hq' hholds) hqp
    · by_cases hqp : q = pid
      · subst hqp
        exact hs.inRange q (by rw [hlocked]; exact nofun)
      · rw [move_of_ne hqp] at hq
        exact hs.inRange q hq
  · -- `close`, or the end of the process
    refine guarded_move hs hrange (hs.owned.released (fun h => hnew (holds_move_self.mp h)) hothers) (fun _ => ?_)
      (fun h => (h.elim hopen hnew).elim) ?_
    · exact FileLock.File.release_content _ _
    · rintro n rfl
      exact absurd trivial hnew

/-- The text of a pid fits in `str`. -/
theorem length_pidText_lt {pid : Nat} (h : pid < pidLimit) : (pidText pid).length < strSize := by
  have hdigits : (Numeral.numeral 10 pid).length ≤ 7 :=
    Numeral.length_numeral_le (by omega) (by omega) (h.trans_le (by rw [pidLimit]; omega))
  rw [pidText, itoa, if_neg (by omega), List.nil_append, List.length_append, List.length_map, Int.natAbs_natCast, strSize]
  exact Nat.lt_of_le_of_lt (Nat.add_le_add_right hdigits 1) (by decide)

/-- `atoi` reads the digits in front of another character. -/
theorem atoi_append {digits rest : Bytes} (hne : digits ≠ []) (hd : ∀ c ∈ digits, isDigit c = true)
    (hrest : ∀ c ∈ rest.head?, isDigit c = false) (h : decValue digits < 2 ^ 31) : atoi (digits ++ rest) = decValue digits := by
  obtain ⟨c, ds, rfl⟩ := List.exists_cons_of_ne_nil hne
  obtain ⟨hspace, hminus, hplus, -⟩ := isHexDigit_ne c (isHexDigit_of_isDigit c (hd c List.mem_cons_self))
  have hdrop : (c :: ds ++ rest).dropWhile isSpace = c :: ds ++ rest := List.dropWhile_cons_of_neg (by simp [hspace])
  have hsign : ((c :: ds ++ rest).head? == some 45) = false ∧ ((c :: ds ++ rest).head? == some 43) = false := by
    simp [hminus, hplus]
  have hnone : rest.takeWhile isDigit = [] := by
    cases rest with
    | nil => rfl
    | cons x rest => exact List.takeWhile_cons_of_neg (by simp [hrest x rfl])
  have htake : (c :: ds ++ rest).takeWhile isDigit = c :: ds := by
    rw [List.takeWhile_append_of_pos hd, hnone, List.append_nil]
  simp only [atoi, hdrop, hsign, Bool.or_self, Bool.false_eq_true, if_false, htake]
  rw [min_eq_right (by omega)]
  exact toInt32_of_lt h

/-- `atoi` of a file that begins with the text of a pid. -/
theorem atoi_pidText {pid : Nat} (h : pid < pidLimit) {content : Bytes} (hbegin : pidText pid <+: content) : atoi content = pid := by
  obtain ⟨rest, rfl⟩ := hbegin
  have hlt : decValue ((Numeral.numeral 10 pid).map digitByte) < 2 ^ 31 := by
    rw [decValue_numeral]
    exact h.trans (by decide)
  rw [pidText, itoa, if_neg (by omega), List.nil_append, Int.natAbs_natCast, List.append_assoc]
  refine (atoi_append (by simp [Numeral.numeral_ne_nil]) (fun c hc => isDigit_of_mem_numeral hc) ?_ hlt).trans ?_
  · rintro c ⟨⟩
    rfl
  · rw [decValue_numeral]

end PidFileAux

open PidFileAux

/-- Whatever the servers with one pid file do and whenever they end: two of them are never between `lockf` and the release of the lock, one
that has opened the file gets the lock exactly if none is there, no pid is too long for `str`, and when a daemon has written its pid, this
is the number that the file begins with, whatever had been in the file before. -/
theorem pidFile_exclusive {content : Option Bytes} {s : State} (h : Runs.Reach step (fun _ _ => True) (State.initial content) s) :
    (∀ pid pid', s.Holds pid → s.Holds pid' → pid = pid') ∧
      (∀ pid, s.procs pid = some .opened →
        ((∃ s', step s (.lockf pid) = some s' ∧ s'.procs pid = some .locked) ↔ ∀ pid', ¬s.Holds pid')) ∧
      (∀ pid, s.procs pid ≠ none → (pidText pid).length < strSize) ∧
      ∀ pid, s.procs pid = some (.running (pidText pid).length) →
        ∃ content', s.file.content = some content' ∧ pidText pid <+: content' ∧ atoi content' = pid := by
  have hs : Guarded s := h.invariant (guarded_initial content) fun _ _ _ hs _ hstep => guarded_step hs hstep
  refine ⟨fun pid pid' hp hp' => hs.owned.unique hp hp', fun pid hopened => ?_, fun pid hthere => length_pidText_lt (hs.inRange pid hthere),
    fun pid hrunning => ?_⟩
  · have hnot : ¬s.Holds pid := by
      rw [State.Holds, hopened]
      exact id
    rw [← hs.owned.tryLock_iff hnot, step, if_pos hopened]
    cases s.file.tryLock pid with
    | some file => exact ⟨fun _ => rfl, fun _ => ⟨_, rfl, move_self⟩⟩
    | none =>
      refine ⟨?_, fun hsome => absurd hsome Bool.false_ne_true⟩
      rintro ⟨s', hs', hlocked⟩
      obtain rfl := Option.some.inj hs'
      cases move_self.symm.trans hlocked
  · obtain ⟨content', hthere, hbegin⟩ := hs.begins pid _ hrunning
    rw [List.take_length] at hbegin
    exact ⟨content', hthere, hbegin, atoi_pidText (hs.inRange pid (by simp [hrunning])) hbegin⟩

/-- A daemon with a short pid behind one with a long pid that has crashed, and a second one that does not get the lock. -/
def restart : List Event :=
  [.start 12345, .openFile 12345, .lockf 12345, .write 12345 6, .fork 12345 12346, .exit 12345, .start 7, .openFile 7, .lockf 7,
    .write 7 2, .shutdown 12346, .start 8, .openFile 8, .lockf 8]

theorem pidFile_exclusive_restart : ∃ s, s.file.content = some (bytes "7\n345\n") ∧
    (∀ pid pid', s.Holds pid → s.Holds pid' → pid = pid') ∧
    (∀ pid, s.procs pid = some .opened →
      ((∃ s', step s (.lockf pid) = some s' ∧ s'.procs pid = some .locked) ↔ ∀ pid', ¬s.Holds pid')) ∧
    (∀ pid, s.procs pid ≠ none → (pidText pid).length < strSize) ∧
    ∀ pid, s.procs pid = some (.running (pidText pid).length) →
      ∃ content', s.file.content = some content' ∧ pidText pid <+: content' ∧ atoi content' = pid := by
  obtain ⟨s, hexec, hcontent⟩ : ∃ s, Runs.exec step (fun _ _ => True) (State.initial none) restart = some s ∧
      s.file.content = some (bytes "7\n345\n") := ⟨_, rfl, rfl⟩
  exact ⟨s, hcontent, pidFile_exclusive (Runs.reach_of_exec .init hexec)⟩

end Daemon

end BitzServer
