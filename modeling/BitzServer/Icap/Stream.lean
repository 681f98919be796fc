import BitzServer.Lib.Feed
import Mathlib.Data.List.Basic
import Mathlib.Tactic

/-!
# The client stream

The state of the process that serves a connection, as far as the icap library sees it: the stream of the client socket
(`psocksxx::iosockstream`), the stack memory that an uninitialised local finds, and the clocks. The stream delivers the bytes the peer has
sent and then ends: a read at the end leaves it no longer good, and a stream that is not good reads and writes nothing. `psocksxx` is not
part of the repository: which writes fail, and what a failed write leaves, is a parameter of the stream.
-/

namespace BitzServer

/-- A byte of the stream or of a string. -/
abbrev Byte := UInt8

/-- The bytes of a `std::string`. -/
abbrev Bytes := List Byte

/-- The bytes of an ASCII text of the source. -/
def bytes (s : String) : Bytes := s.toList.map (fun c => c.toNat.toUInt8)

/-- Whether all bytes of a text have a property is decided from the text, not from all bytes there are. -/
instance decidableForallMem (text : Bytes) (p : Byte → Prop) [DecidablePred p] : Decidable (∀ c ∈ text, p c) :=
  List.decidableBAll p text

def cr : Byte := 13
def lf : Byte := 10

/-- `"\r\n"` -/
def crlf : Bytes := [cr, lf]

/-- `ICAP_BUFFER_SIZE` -/
def icapBufferSize : Nat := 1024

/-- What ends a run that the process does not survive or that never ends: a failed precondition of the standard library (the
exception leaves a `throw()` function, which aborts), an access through a null pointer, and a loop that has no end. -/
inductive Fault where
  | outOfRange
  | nullPointer
  | diverges
  deriving DecidableEq, Repr

/-- What the clocks show: the date as `strftime` prints it, `time()` and `clock()`. -/
structure Stamp where
  date : Bytes
  rawTime : Int
  clockTime : Int

/-- How a write fails: whether a `sockexception` leaves it, and whether it sets `badbit`, as every failed output of a `std::ostream` does. -/
structure WriteFault where
  throws : Bool
  breaks : Bool
  deriving DecidableEq, Repr

/-- The client stream, the stack memory and the clocks. -/
structure Conn where
  /-- what the peer sends before it closes or falls silent, less what has been read -/
  unread : Bytes
  /-- `rdstate() == goodbit` -/
  good : Bool
  /-- after `unread` the peer stays silent until the timeout, it does not close -/
  stalls : Bool
  /-- a write has set `badbit` -/
  broken : Bool
  /-- what has been written to the stream -/
  sent : Bytes
  /-- what of it `flush()` has passed on to the peer; the rest may still be in the buffer of the stream -/
  flushed : Bytes
  /-- how each of the next writes to a good stream fails, none if it does not; later ones do not -/
  faults : List (Option WriteFault)
  /-- what the next uninitialised locals find on the stack -/
  stack : Nat → UInt32
  /-- what the clocks show the next times -/
  stamps : Nat → Stamp

/-- A good stream with nothing sent yet, whose writes do not fail. -/
def Conn.ofInput (unread : Bytes) : Conn where
  unread := unread
  good := true
  stalls := false
  broken := false
  sent := []
  flushed := []
  faults := []
  stack _ := 0
  stamps _ := { date := [], rawTime := 0, clockTime := 0 }

/-- A program on the stream. -/
abbrev SockM := StateT Conn (Except Fault)

instance : Feed.Source Conn Byte where
  unread s := s.unread
  ready s := s.good = true
  withUnread s l := { s with unread := l }
  unread_withUnread _ _ := rfl
  ready_withUnread _ _ h := h
  withUnread_unread _ := rfl
  withUnread_withUnread _ _ _ := rfl

/-- A loop that takes characters with `get()` until it stops: it is given what is unread (nothing once the stream is not good,
`get()` then returns -1), and gives its result, what it leaves and whether the stream is still good. -/
def readChars {α : Type} (loop : Bytes → Except Fault (α × Bytes × Bool)) : SockM α := fun s =>
  if s.good then do
    let (a, rest, good) ← loop s.unread
    return (a, { s with unread := rest, good := good })
  else do
    let (a, _, _) ← loop []
    return (a, s)

/-- `istream::read( buffer, n )`: the bytes put in the buffer, `gcount()` of them. -/
def read (n : Nat) : SockM Bytes := fun s =>
  if s.good then
    if n ≤ s.unread.length then .ok (s.unread.take n, { s with unread := s.unread.drop n })
    else .ok (s.unread, { s with unread := [], good := false })
  else .ok ([], s)

/-- `good()` -/
def good : SockM Bool := fun s => .ok (s.good, s)

/-- `timedout()`: a read ran into the silence of the peer. -/
def timedout : SockM Bool := fun s => .ok (s.stalls && !s.good && !s.broken, s)

/-- `ostream::write( data )`, false if it throws. The stream is one `iostream`: once it is not good, nothing is written. -/
def write (data : Bytes) : SockM Bool := fun s =>
  if s.good then
    match s.faults.head?.join with
    | some fault =>
      .ok (!fault.throws, { s with good := !fault.breaks, broken := s.broken || fault.breaks, faults := s.faults.tail })
    | none => .ok (true, { s with sent := s.sent ++ data, faults := s.faults.tail })
  else .ok (true, s)

/-- `ostream::flush()` -/
def flush : SockM Unit := fun s => .ok ((), if s.good then { s with flushed := s.sent } else s)

/-- The content of an uninitialised local. -/
def uninitialised : SockM UInt32 := fun s => .ok (s.stack 0, { s with stack := fun i => s.stack (i + 1) })

/-- What the clocks show. -/
def now : SockM Stamp := fun s => .ok (s.stamps 0, { s with stamps := fun i => s.stamps (i + 1) })

/-! ## What the operations keep -/

/-- Reading goes on: what is unread does not grow. -/
def Conn.Shrinks (s s' : Conn) : Prop := s'.unread.length ≤ s.unread.length

/-- No write that fails sets `badbit`. -/
def Conn.StaysGood (s : Conn) : Prop := ∀ fault, some fault ∈ s.faults → fault.breaks = false

/-- Nothing is read, and the stream is as good as before unless a write has broken it. -/
def Conn.KeepsInput (s s' : Conn) : Prop :=
  s'.unread = s.unread ∧ s'.stalls = s.stalls ∧ (s.StaysGood → s'.StaysGood ∧ s'.good = s.good ∧ s'.broken = s.broken)

/-- Nothing is written. -/
def Conn.WritesNothing (s s' : Conn) : Prop := s'.sent = s.sent ∧ s'.flushed = s.flushed ∧ s'.faults = s.faults

instance : Std.Refl Conn.Shrinks := ⟨fun _ => Nat.le_refl _⟩

instance : IsTrans Conn Conn.Shrinks := ⟨fun _ _ _ h h' => Nat.le_trans h' h⟩

instance : Std.Refl Conn.KeepsInput := ⟨fun _ => ⟨rfl, rfl, fun h => ⟨h, rfl, rfl⟩⟩⟩

instance : IsTrans Conn Conn.KeepsInput := by
  refine ⟨fun s s₁ s₂ h h' => ⟨h'.1.trans h.1, h'.2.1.trans h.2.1, fun hstays => ?_⟩⟩
  obtain ⟨hstays₁, hgood₁, hbroken₁⟩ := h.2.2 hstays
  obtain ⟨hstays₂, hgood₂, hbroken₂⟩ := h'.2.2 hstays₁
  exact ⟨hstays₂, hgood₂.trans hgood₁, hbroken₂.trans hbroken₁⟩

instance : Std.Refl Conn.WritesNothing := ⟨fun _ => ⟨rfl, rfl, rfl⟩⟩

instance : IsTrans Conn Conn.WritesNothing := ⟨fun _ _ _ h h' => ⟨h'.1.trans h.1, h'.2.1.trans h.2.1, h'.2.2.trans h.2.2⟩⟩

/-- No write fails at all. -/
theorem Conn.staysGood_of_nil {s : Conn} (h : s.faults = []) : s.StaysGood := by
  intro fault hmem
  rw [h] at hmem
  cases hmem

/-- What reads nothing does not make the input grow. -/
theorem Conn.KeepsInput.shrinks (s s' : Conn) (h : s.KeepsInput s') : s.Shrinks s' :=
  Nat.le_of_eq (congrArg List.length h.1)

open Feed

/-- `read( buffer, n )` reads the next `n` bytes. -/
theorem read_consumes (w : Bytes) : Consumes (read w.length) w w := by
  intro s rest hg hu
  replace hg : s.good = true := hg
  replace hu : s.unread = w ++ rest := hu
  have hle : w.length ≤ s.unread.length := by simp [hu]
  have hrun : (read w.length).run s = .ok (s.unread.take w.length, { s with unread := s.unread.drop w.length }) := by
    rw [StateT.run, read, if_pos hg, if_pos hle]
  rw [hrun, hu, List.take_left, List.drop_left]
  rfl

theorem good_run (s : Conn) : good.run s = .ok (s.good, s) := rfl

theorem good_consumes : Consumes good [] true := by
  intro s rest hg hu
  replace hg : s.good = true := hg
  replace hu : s.unread = rest := hu
  subst hu
  rw [good_run, hg]
  rfl

/-- Testing the stream reads nothing. -/
theorem timedout_within : Within Conn.KeepsInput timedout :=
  fun s => ⟨s.stalls && !s.good && !s.broken, s, rfl, Std.Refl.refl s, trivial⟩

theorem now_within : Within Conn.KeepsInput now := fun _ => ⟨_, _, rfl, ⟨rfl, rfl, fun h => ⟨h, rfl, rfl⟩⟩, trivial⟩

theorem flush_within : Within Conn.KeepsInput flush := by
  refine fun s => ⟨(), _, rfl, ?_, trivial⟩
  split
  · exact ⟨rfl, rfl, fun h => ⟨h, rfl, rfl⟩⟩
  · exact Std.Refl.refl s

/-- What a write can do. -/
inductive Written (data : Bytes) (s : Conn) : Bool → Conn → Prop
  | dead (hgood : s.good = false) : Written data s true s
  | failed {fault : WriteFault} (hgood : s.good = true) (hfault : s.faults.head?.join = some fault) : Written data s (!fault.throws)
      { s with good := !fault.breaks, broken := s.broken || fault.breaks, faults := s.faults.tail }
  | written (hgood : s.good = true) (hfault : s.faults.head?.join = none) :
      Written data s true { s with sent := s.sent ++ data, faults := s.faults.tail }

/-- A write returns. -/
theorem exists_write (data : Bytes) (s : Conn) : ∃ b s', (write data).run s = .ok (b, s') ∧ Written data s b s' := by
  rw [StateT.run, write]
  by_cases hgood : s.good = true
  · rw [if_pos hgood]
    cases hfault : s.faults.head?.join with
    | some fault => exact ⟨_, _, rfl, .failed hgood hfault⟩
    | none => exact ⟨_, _, rfl, .written hgood hfault⟩
  · rw [if_neg hgood]
    exact ⟨_, _, rfl, .dead (Bool.eq_false_iff.mpr hgood)⟩

theorem written_of_run {data : Bytes} {s s' : Conn} {b : Bool} (h : (write data).run s = .ok (b, s')) : Written data s b s' := by
  obtain ⟨b', s'', hrun, hwritten⟩ := exists_write data s
  obtain ⟨⟨⟩, rfl⟩ := Prod.mk.inj (Except.ok.inj (hrun.symm.trans h))
  exact hwritten

/-- The fault of the next write is one of the faults. -/
theorem mem_faults_of_head {faults : List (Option WriteFault)} {fault : WriteFault} (h : faults.head?.join = some fault) :
    some fault ∈ faults := by
  cases faults with
  | nil => cases h
  | cons first rest =>
    obtain rfl : first = some fault := h
    exact List.mem_cons_self

/-- Writing reads nothing. -/
theorem write_within (data : Bytes) : Within Conn.KeepsInput (write data) := by
  intro s
  obtain ⟨b, s', hrun, hwritten⟩ := exists_write data s
  refine ⟨b, s', hrun, ?_, trivial⟩
  have htail : s.StaysGood → ∀ fault, some fault ∈ s.faults.tail → fault.breaks = false :=
    fun hstays fault hmem => hstays fault (List.mem_of_mem_tail hmem)
  cases hwritten with
  | dead _ => exact Std.Refl.refl s
  | @failed fault hgood hfault =>
    refine ⟨rfl, rfl, fun hstays => ⟨htail hstays, ?_⟩⟩
    rw [hstays fault (mem_faults_of_head hfault), hgood, Bool.or_false]
    exact ⟨rfl, rfl⟩
  | written _ _ => exact ⟨rfl, rfl, fun hstays => ⟨htail hstays, rfl, rfl⟩⟩

/-- Reading writes nothing. -/
theorem read_writesNothing (n : Nat) : Keeps Conn.WritesNothing (read n) := by
  intro s a s' h
  rw [StateT.run, read] at h
  split at h
  · split at h <;> cases h <;> exact ⟨rfl, rfl, rfl⟩
  · cases h
    exact ⟨rfl, rfl, rfl⟩

/-- What a loop over `get()` is given, and what it leaves. -/
theorem readChars_run {α : Type} {loop : Bytes → Except Fault (α × Bytes × Bool)} {s : Conn} {a : α} {rest : Bytes} {g : Bool}
    (h : loop (if s.good then s.unread else []) = .ok (a, rest, g)) :
    (readChars loop).run s = .ok (a, if s.good then { s with unread := rest, good := g } else s) := by
  rw [StateT.run, readChars]
  by_cases hg : s.good = true
  · rw [if_pos hg] at h
    rw [if_pos hg, if_pos hg, h]
    rfl
  · rw [if_neg hg] at h
    rw [if_neg hg, if_neg hg, h]
    rfl

/-- A loop over `get()` that returns on every input, and takes as many characters as its result counts or more, does so on every stream. -/
theorem readChars_returns {α : Type} {loop : Bytes → Except Fault (α × Bytes × Bool)} {count : α → Nat}
    (h : ∀ input, ∃ a rest g, loop input = .ok (a, rest, g) ∧ count a + rest.length ≤ input.length) (s : Conn) :
    ∃ a s', (readChars loop).run s = .ok (a, s') ∧ count a + s'.unread.length ≤ s.unread.length := by
  obtain ⟨a, rest, g, hrun, hlen⟩ := h (if s.good then s.unread else [])
  refine ⟨a, _, readChars_run hrun, ?_⟩
  by_cases hg : s.good = true
  · rw [if_pos hg] at hlen ⊢
    exact hlen
  · rw [if_neg hg, List.length_nil] at hlen
    rw [if_neg hg]
    omega

theorem readChars_writesNothing {α : Type} (loop : Bytes → Except Fault (α × Bytes × Bool)) :
    Keeps Conn.WritesNothing (readChars loop) := by
  intro s a s' h
  rw [StateT.run, readChars] at h
  split at h
  · cases hloop : loop s.unread with
    | error e => simp [hloop, bind, Except.bind] at h
    | ok r =>
      rw [hloop] at h
      cases h
      exact ⟨rfl, rfl, rfl⟩
  · cases hloop : loop [] with
    | error e => simp [hloop, bind, Except.bind] at h
    | ok r =>
      rw [hloop] at h
      cases h
      exact ⟨rfl, rfl, rfl⟩

theorem good_writesNothing : Keeps Conn.WritesNothing good := by
  intro s a s' h
  cases h
  exact ⟨rfl, rfl, rfl⟩

theorem uninitialised_writesNothing : Keeps Conn.WritesNothing uninitialised := by
  intro s a s' h
  cases h
  exact ⟨rfl, rfl, rfl⟩

theorem now_writesNothing : Keeps Conn.WritesNothing now := by
  intro s a s' h
  cases h
  exact ⟨rfl, rfl, rfl⟩

/-- On a good stream whose writes do not fail, what is written is sent. -/
theorem write_run {s : Conn} (hg : s.good = true) (hf : s.faults = []) (data : Bytes) :
    (write data).run s = .ok (true, { s with sent := s.sent ++ data }) := by
  simp [StateT.run, write, hg, hf]

/-- On a good stream everything that has been written is passed on. -/
theorem flush_run {s : Conn} (hg : s.good = true) : flush.run s = .ok ((), { s with flushed := s.sent }) := by
  rw [StateT.run, flush, if_pos hg]

end BitzServer
