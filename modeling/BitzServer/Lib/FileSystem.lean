import Mathlib.Data.List.DropRight

/-!
# A tree of directories and regular files

The state of a file system without links, as a process sees it: what stands at each place below the root, the working directory, where
the process may search, and where a new entry is refused. A place is given by the names that lead to it from the root. A path is the list
of what stands between its slashes; it is resolved as POSIX says, for names and paths of any length. The names are of any type.
-/

namespace FileSystem

/-- What stands at a place. -/
inductive Node where
  | directory | regular
  deriving DecidableEq, Repr

/-- The errors of `mkdir`. -/
inductive Errno where
  | ENOENT | EEXIST | ENOTDIR | EACCES | EROFS | ENOSPC | EDQUOT | EMLINK
  deriving DecidableEq, Repr

/-- The errors with which a directory that is reached refuses a new name. -/
abbrev Refusal := { e : Errno // e ≠ .ENOENT ∧ e ≠ .EEXIST }

/-- What stands between two slashes of a path: nothing, a dot, two dots, or the name of an entry. -/
inductive Segment (ν : Type) where
  | empty | dot | dotdot
  | name (n : ν)
  deriving DecidableEq, Repr

/-- The state. Entries stand in directories, and so does the process, unless its working directory has been removed; the entries dot
and dot-dot of a removed directory are gone as well. -/
structure State (ν : Type) where
  node : List ν → Option Node
  workingDirectory : Option (List ν)
  searchable : List ν → Bool
  refuses : List ν → Option Refusal
  node_root : node [] = some .directory
  node_parent : ∀ d n, node (d ++ [n]) ≠ none → node d = some .directory
  node_working : ∀ d ∈ workingDirectory, node d = some .directory

variable {ν : Type}

/-! ## Resolving a path -/

/-- The place to which one segment leads. -/
def State.step (fs : State ν) (d : List ν) (s : Segment ν) : Except Errno (List ν) :=
  match fs.node d with
  | none => .error .ENOENT
  | some .regular => .error .ENOTDIR
  | some .directory =>
    if fs.searchable d = false then .error .EACCES
    else
      match s with
      | .empty | .dot => .ok d
      | .dotdot => .ok d.dropLast
      | .name n => if fs.node (d ++ [n]) = none then .error .ENOENT else .ok (d ++ [n])

/-- The place to which segments lead. -/
def State.walk (fs : State ν) (d : List ν) : List (Segment ν) → Except Errno (List ν)
  | [] => .ok d
  | s :: segs => (fs.step d s).bind fun d' => fs.walk d' segs

/-- Where a path begins: at the root if it begins with a slash, in the working directory if it does not. -/
def State.start (fs : State ν) : List (Segment ν) → Option (List ν)
  | .empty :: _ => some []
  | _ => fs.workingDirectory

/-- The place that a path names; a path that is cut before its first name still begins at the root. -/
def State.resolve (fs : State ν) (path : List (Segment ν)) : Except Errno (List ν) :=
  match fs.start path with
  | none => .error .ENOENT
  | some d => fs.walk d path

/-- The path names a directory. -/
def State.IsDirectory (fs : State ν) (path : List (Segment ν)) : Prop :=
  ∃ d, fs.resolve path = .ok d ∧ fs.node d = some .directory

theorem State.walk_append (fs : State ν) (d : List ν) (a b : List (Segment ν)) :
    fs.walk d (a ++ b) = (fs.walk d a).bind fun d' => fs.walk d' b := by
  induction a generalizing d with
  | nil => rfl
  | cons s a ih =>
    simp only [List.cons_append, State.walk]
    cases fs.step d s with
    | error e => rfl
    | ok d' => exact ih d'

@[simp]
theorem State.walk_singleton (fs : State ν) (d : List ν) (s : Segment ν) : fs.walk d [s] = fs.step d s := by
  simp only [State.walk]
  cases fs.step d s <;> rfl

/-- The directory above a directory. -/
theorem State.node_directory_dropLast (fs : State ν) {d : List ν} (h : fs.node d = some .directory) :
    fs.node d.dropLast = some .directory := by
  rcases List.eq_nil_or_concat' d with rfl | ⟨d, n, rfl⟩
  · exact h
  · rw [List.dropLast_concat]
    exact fs.node_parent d n (by simp [h])

/-- Nothing stands below a place where nothing stands. -/
theorem State.node_below {fs : State ν} {x : List ν} (h : fs.node x = none) (y : List ν) : fs.node (x ++ y) = none := by
  induction y using List.reverseRecOn with
  | nil => rwa [List.append_nil]
  | append_singleton y n ih =>
    by_contra hne
    rw [← List.append_assoc] at hne
    rw [fs.node_parent _ n hne] at ih
    simp at ih

/-- A step is made from a directory in which the process may search. -/
theorem State.step_ok {fs : State ν} {d d' : List ν} {s : Segment ν} (h : fs.step d s = .ok d') :
    fs.node d = some .directory ∧ fs.searchable d = true ∧ fs.node d' ≠ none := by
  unfold State.step at h
  rcases hd : fs.node d with _ | _ | _ <;> simp only [hd] at h <;> try contradiction
  cases hs : fs.searchable d with
  | false => simp [hs] at h
  | true =>
    refine ⟨rfl, rfl, ?_⟩
    rw [hs] at h
    cases s with
    | empty | dot =>
      obtain rfl : d = d' := by simpa using h
      simp [hd]
    | dotdot =>
      obtain rfl : d.dropLast = d' := by simpa using h
      rw [fs.node_directory_dropLast hd]
      simp
    | name n =>
      by_cases hn : fs.node (d ++ [n]) = none
      · simp [hn] at h
      · obtain rfl : d ++ [n] = d' := by simpa [hn] using h
        exact hn

/-- The steps there are from a directory in which the process may search. -/
theorem State.step_directory {fs : State ν} {d : List ν} (hd : fs.node d = some .directory) (hs : fs.searchable d = true)
    (s : Segment ν) : fs.step d s = match s with
      | .empty | .dot => .ok d
      | .dotdot => .ok d.dropLast
      | .name n => if fs.node (d ++ [n]) = none then .error .ENOENT else .ok (d ++ [n]) := by
  unfold State.step
  simp only [hd, hs, Bool.true_eq_false, if_false]

/-- An entry is missing only under its name, in a directory in which the process may search. -/
theorem State.step_missing {fs : State ν} {d : List ν} {s : Segment ν} (hd : fs.node d ≠ none)
    (h : fs.step d s = .error .ENOENT) : ∃ n, s = .name n ∧ fs.node d = some .directory ∧ fs.node (d ++ [n]) = none := by
  unfold State.step at h
  rcases hk : fs.node d with _ | _ | _
  · exact absurd hk hd
  · simp only [hk] at h
    cases hs : fs.searchable d with
    | false => simp [hs] at h
    | true =>
      cases s with
      | empty | dot | dotdot => simp [hs] at h
      | name n =>
        refine ⟨n, rfl, rfl, ?_⟩
        by_contra hn
        simp [hs, hn] at h
  · simp [hk] at h

/-- Something stands at the place to which a walk leads. -/
theorem State.node_walk {fs : State ν} {d d' : List ν} {segs : List (Segment ν)} (hd : fs.node d ≠ none)
    (h : fs.walk d segs = .ok d') : fs.node d' ≠ none := by
  induction segs generalizing d with
  | nil =>
    obtain rfl := Except.ok.inj h
    exact hd
  | cons s segs ih =>
    rw [State.walk] at h
    cases hs : fs.step d s with
    | error e => simp [hs, Except.bind] at h
    | ok d1 =>
      rw [hs] at h
      exact ih (State.step_ok hs).2.2 h

/-- A path begins where a directory stands. -/
theorem State.node_start {fs : State ν} {path : List (Segment ν)} {d : List ν} (h : fs.start path = some d) :
    fs.node d = some .directory := by
  unfold State.start at h
  split at h
  · obtain rfl := Option.some.inj h
    exact fs.node_root
  · exact fs.node_working d h

/-- All that stands in `fs` stands in `fs'`, for the same process. -/
structure State.Extends (fs fs' : State ν) : Prop where
  node : ∀ x, fs.node x ≠ none → fs'.node x = fs.node x
  workingDirectory : fs'.workingDirectory = fs.workingDirectory
  searchable : fs'.searchable = fs.searchable

/-- A walk that succeeds succeeds where more stands. -/
theorem State.Extends.walk {fs fs' : State ν} (h : fs.Extends fs') {d d' : List ν} {segs : List (Segment ν)}
    (hwalk : fs.walk d segs = .ok d') : fs'.walk d segs = .ok d' := by
  induction segs generalizing d with
  | nil => exact hwalk
  | cons s segs ih =>
    rw [State.walk] at hwalk ⊢
    cases hs : fs.step d s with
    | error e => simp [hs, Except.bind] at hwalk
    | ok d1 =>
      rw [hs] at hwalk
      obtain ⟨hd, hsearch, hd1⟩ := State.step_ok hs
      have hstep : fs'.step d s = .ok d1 := by
        rw [State.step_directory hd hsearch] at hs
        rw [State.step_directory ((h.node d (by simp [hd])).trans hd) (by rw [h.searchable]; exact hsearch)]
        cases s with
        | empty | dot | dotdot => exact hs
        | name n =>
          by_cases hn : fs.node (d ++ [n]) = none
          · simp [hn] at hs
          · simp only [if_neg hn] at hs
            rw [← h.node _ hn] at hn
            simpa only [if_neg hn] using hs
      rw [hstep]
      exact ih hwalk

/-- A path begins where its first part does. -/
theorem State.start_append (fs : State ν) {way : List (Segment ν)} (hne : way ≠ []) (rest : List (Segment ν)) :
    fs.start (way ++ rest) = fs.start way := by
  obtain ⟨s, way, rfl⟩ := List.exists_cons_of_ne_nil hne
  cases s <;> rfl

/-- Where a path begins is a matter of the working directory only. -/
theorem State.start_congr {fs fs' : State ν} (h : fs'.workingDirectory = fs.workingDirectory) (path : List (Segment ν)) :
    fs'.start path = fs.start path := by
  unfold State.start
  split
  · rfl
  · exact h

/-- Slashes lead nowhere. -/
theorem State.walk_slashes {fs : State ν} {d : List ν} (hd : fs.node d = some .directory) (hs : fs.searchable d = true)
    {slashes : List (Segment ν)} (h : ∀ s ∈ slashes, s = .empty) : fs.walk d slashes = .ok d := by
  induction slashes with
  | nil => rfl
  | cons s slashes ih =>
    obtain rfl := h s List.mem_cons_self
    rw [State.walk, State.step_directory hd hs]
    exact ih fun s hs => h s (List.mem_cons_of_mem _ hs)

/-! ## What is missing -/

/-- The process may search and write everywhere, and there is room. -/
structure State.Unrestricted (fs : State ν) : Prop where
  searchable : ∀ d, fs.searchable d = true
  refuses : ∀ d, fs.refuses d = none

/-- The first entry that is missing on a path: its directory, its name, and the path behind it and its slashes. -/
structure Missing (ν : Type) where
  place : List ν
  name : ν
  rest : List (Segment ν)

/-- The way from `d` to the entry `n` of the directory `place`, with the slashes behind it, where the entry is missing. -/
structure State.Lacks (fs : State ν) (d place : List ν) (n : ν) (way : List (Segment ν)) : Prop where
  way_eq : ∃ before slashes, way = before ++ .name n :: slashes ∧ (∀ s ∈ slashes, s = .empty) ∧ fs.walk d before = .ok place
  directory : fs.node place = some .directory
  missing : fs.node (place ++ [n]) = none

/-- A way to a missing entry is not empty. -/
theorem State.Lacks.ne_nil {fs : State ν} {d place : List ν} {n : ν} {way : List (Segment ν)}
    (h : fs.Lacks d place n way) : way ≠ [] := by
  obtain ⟨⟨before, slashes, rfl, -⟩, -, -⟩ := h
  simp

/-- The names with which segments begin. -/
def leadingNames : List (Segment ν) → List ν
  | .name n :: segs => n :: leadingNames segs
  | _ => []

/-- The segment is the name of an entry. -/
def Segment.isName : Segment ν → Bool
  | .name _ => true
  | _ => false

/-- Segments that are all names are the names with which they begin. -/
theorem map_leadingNames {segs : List (Segment ν)} (h : segs.all Segment.isName = true) : (leadingNames segs).map .name = segs := by
  induction segs with
  | nil => rfl
  | cons s segs ih =>
    simp only [List.all_cons, Bool.and_eq_true] at h
    cases s with
    | name n => rw [leadingNames, List.map_cons, ih h.2]
    | empty | dot | dotdot => simp [Segment.isName] at h

/-- The names with which segments begin are segments at their beginning. -/
theorem map_leadingNames_initial (segs : List (Segment ν)) : (leadingNames segs).map .name <+: segs := by
  induction segs with
  | nil => exact List.nil_prefix
  | cons s segs ih =>
    cases s with
    | name n => exact List.cons_prefix_cons.mpr ⟨rfl, ih⟩
    | empty | dot | dotdot => exact List.nil_prefix

/-- The names at the beginning go on if all that stands before is a name. -/
theorem leadingNames_append (a b : List (Segment ν)) :
    leadingNames (a ++ b) = if a.all Segment.isName = true then leadingNames a ++ leadingNames b else leadingNames a := by
  induction a with
  | nil => rfl
  | cons s a ih =>
    cases s with
    | name n =>
      simp only [List.cons_append, leadingNames, ih, List.all_cons, Segment.isName, Bool.true_and]
      split <;> rfl
    | empty | dot | dotdot => rfl

/-- A walk fails at the first entry that is missing. -/
theorem State.walk_missing {fs : State ν} (hfree : fs.Unrestricted) {d place : List ν} {n : ν} {before : List (Segment ν)}
    (hwalk : fs.walk d before = .ok place) (hdir : fs.node place = some .directory) (hnone : fs.node (place ++ [n]) = none)
    (tail : List (Segment ν)) : fs.walk d (before ++ .name n :: tail) = .error .ENOENT := by
  have hstep : fs.step place (.name n) = .error .ENOENT := by
    rw [State.step_directory hdir (hfree.searchable _)]
    exact if_pos hnone
  rw [State.walk_append, hwalk]
  simp only [Except.bind, State.walk, hstep]

/-- Without restrictions a walk fails for what is missing or for a file on the way. -/
theorem State.walk_error {fs : State ν} (hfree : fs.Unrestricted) {d : List ν} {segs : List (Segment ν)} {e : Errno}
    (h : fs.walk d segs = .error e) : e = .ENOENT ∨ e = .ENOTDIR := by
  induction segs generalizing d with
  | nil => simp [State.walk] at h
  | cons s segs ih =>
    rw [State.walk] at h
    rcases hk : fs.node d with _ | _ | _
    · left
      simpa [State.step, hk, Except.bind, eq_comm] using h
    · rw [State.step_directory hk (hfree.searchable d)] at h
      cases s with
      | empty | dot | dotdot => exact ih h
      | name n =>
        by_cases hn : fs.node (d ++ [n]) = none
        · left
          simpa [hn, Except.bind, eq_comm] using h
        · simp only [if_neg hn] at h
          exact ih h
    · right
      simpa [State.step, hk, Except.bind, eq_comm] using h

end FileSystem
