import BitzServer.Lib.Fields
import BitzServer.Lib.FileSystem

/-!
# New directories

Directories that are added to the tree, and `mkdir`: which directory it makes, and which error it gives instead. What it does behind the
first missing entry of a path is said for the path as a whole.
-/

namespace FileSystem

variable {ν : Type}

/-! ## Making directories -/

/-- The places of the new directories. -/
def Made (d names x : List ν) : Prop := ∃ p, p ≠ [] ∧ p <+: names ∧ x = d ++ p

/-- The new places are below a missing entry, so that nothing stood there. -/
theorem State.node_of_made {fs : State ν} {d : List ν} {n : ν} (hn : fs.node (d ++ [n]) = none) {names x : List ν}
    (hx : Made d (n :: names) x) : fs.node x = none := by
  obtain ⟨p, hp, hpre, rfl⟩ := hx
  obtain ⟨m, p, rfl⟩ := List.exists_cons_of_ne_nil hp
  obtain ⟨rfl, -⟩ := List.cons_prefix_cons.mp hpre
  simpa using State.node_below hn p

/-- Below the last new place nothing is new. -/
theorem not_made (d names : List ν) (k : ν) : ¬Made d names (d ++ names ++ [k]) := by
  rintro ⟨p, -, hpre, heq⟩
  rw [List.append_assoc] at heq
  have hlen := (List.append_cancel_left heq ▸ hpre).length_le
  simp only [List.length_append, List.length_cons, List.length_nil] at hlen
  omega

section Make

variable [DecidableEq ν]

/-- The state with a new directory. -/
def State.make (fs : State ν) (d : List ν) (n : ν) : State ν :=
  if h : fs.node d = some .directory then
    { fs with
      node := fun x => if x = d ++ [n] then some .directory else fs.node x
      node_root := by simp [fs.node_root]
      node_parent := by
        intro d' n' hne
        by_cases hd : d' = d ++ [n]
        · simp [hd]
        · rw [if_neg hd]
          by_cases hx : d' ++ [n'] = d ++ [n]
          · rw [(List.append_inj' hx rfl).1]
            exact h
          · rw [if_neg hx] at hne
            exact fs.node_parent d' n' hne
      node_working := by
        intro d' hd'
        simp [fs.node_working d' hd'] }
  else fs

/-- The state with new directories, each in the one before it. -/
def State.makeAll (fs : State ν) (d : List ν) : List ν → State ν
  | [] => fs
  | n :: names => (fs.make d n).makeAll (d ++ [n]) names

theorem State.node_make {fs : State ν} {d : List ν} (hd : fs.node d = some .directory) (n : ν) (x : List ν) :
    (fs.make d n).node x = if x = d ++ [n] then some .directory else fs.node x := by
  rw [State.make, dif_pos hd]

@[simp]
theorem State.make_workingDirectory (fs : State ν) (d : List ν) (n : ν) :
    (fs.make d n).workingDirectory = fs.workingDirectory := by
  unfold State.make
  split <;> rfl

@[simp]
theorem State.make_searchable (fs : State ν) (d : List ν) (n : ν) : (fs.make d n).searchable = fs.searchable := by
  unfold State.make
  split <;> rfl

@[simp]
theorem State.make_refuses (fs : State ν) (d : List ν) (n : ν) : (fs.make d n).refuses = fs.refuses := by
  unfold State.make
  split <;> rfl

theorem State.makeAll_append_singleton (fs : State ν) (d names : List ν) (n : ν) :
    fs.makeAll d (names ++ [n]) = (fs.makeAll d names).make (d ++ names) n := by
  induction names generalizing fs d with
  | nil => simp [State.makeAll]
  | cons m names ih =>
    rw [List.cons_append, State.makeAll, ih, State.makeAll, List.append_assoc]
    rfl

/-- Of the process and of the permissions nothing changes. -/
theorem State.makeAll_same (fs : State ν) (d names : List ν) : (fs.makeAll d names).workingDirectory = fs.workingDirectory ∧
    (fs.makeAll d names).searchable = fs.searchable ∧ (fs.makeAll d names).refuses = fs.refuses := by
  induction names generalizing fs d with
  | nil => exact ⟨rfl, rfl, rfl⟩
  | cons n names ih => simpa [State.makeAll] using ih (fs.make d n) (d ++ [n])

/-- Directories stand at the new places, and elsewhere nothing changes. -/
theorem State.node_makeAll {fs : State ν} {d : List ν} (hd : fs.node d = some .directory) (names x : List ν) :
    (Made d names x → (fs.makeAll d names).node x = some .directory) ∧
      (¬Made d names x → (fs.makeAll d names).node x = fs.node x) := by
  induction names using List.reverseRecOn generalizing x with
  | nil =>
    refine ⟨?_, fun _ => rfl⟩
    rintro ⟨p, hp, hpre, -⟩
    exact absurd (List.prefix_nil.mp hpre) hp
  | append_singleton names n ih =>
    have hlast : (fs.makeAll d names).node (d ++ names) = some .directory := by
      by_cases hnil : names = []
      · simpa [hnil, State.makeAll] using hd
      · exact (ih _).1 ⟨names, hnil, List.prefix_refl _, rfl⟩
    rw [State.makeAll_append_singleton, State.node_make hlast]
    constructor
    · rintro ⟨p, hp, hpre, rfl⟩
      rcases List.prefix_concat_iff.mp hpre with rfl | hpre
      · rw [if_pos (List.append_assoc ..).symm]
      · rw [(ih _).1 ⟨p, hp, hpre, rfl⟩]
        simp
    · intro hno
      rw [if_neg, (ih x).2]
      · rintro ⟨p, hp, hpre, heq⟩
        exact hno ⟨p, hp, hpre.trans (List.prefix_append _ _), heq⟩
      · rintro rfl
        exact hno ⟨names ++ [n], by simp, List.prefix_refl _, List.append_assoc ..⟩

/-- Directories stand all the way down. -/
theorem State.node_makeAll_down {fs : State ν} {d : List ν} (hd : fs.node d = some .directory) {names p : List ν}
    (hp : p <+: names) : (fs.makeAll d names).node (d ++ p) = some .directory := by
  by_cases hmade : Made d names (d ++ p)
  · exact (State.node_makeAll hd names _).1 hmade
  · rw [(State.node_makeAll hd names _).2 hmade]
    by_cases hnil : p = []
    · simpa [hnil] using hd
    · exact absurd ⟨p, hnil, hp, rfl⟩ hmade

/-- Making a missing entry and entries below it changes nothing of what stands. -/
theorem State.extends_makeAll {fs : State ν} {d : List ν} {n : ν} (hd : fs.node d = some .directory)
    (hn : fs.node (d ++ [n]) = none) (names : List ν) : fs.Extends (fs.makeAll d (n :: names)) := by
  obtain ⟨hcwd, hsearch, -⟩ := fs.makeAll_same d (n :: names)
  refine ⟨fun x hx => ?_, hcwd, hsearch⟩
  exact (State.node_makeAll hd _ x).2 fun hmade => hx (State.node_of_made hn hmade)

/-- The walk down the new directories. -/
theorem State.walk_makeAll {fs : State ν} {d : List ν} (hd : fs.node d = some .directory) (hsearch : ∀ x, fs.searchable x = true)
    {names p : List ν} (hp : p <+: names) : (fs.makeAll d names).walk d (p.map .name) = .ok (d ++ p) := by
  induction p using List.reverseRecOn with
  | nil => simp [State.walk]
  | append_singleton p n ih =>
    have hpre : p <+: names := (List.prefix_append _ _).trans hp
    rw [List.map_append, State.walk_append, ih hpre]
    have hs : (fs.makeAll d names).searchable (d ++ p) = true := by rw [(fs.makeAll_same d names).2.1, hsearch]
    have hn := State.node_makeAll_down hd hp
    simp [Except.bind, State.step_directory (State.node_makeAll_down hd hpre) hs, hn]

/-- `mkdir` once the directory is found in which the entry is to be made. -/
def State.makeEntry (fs : State ν) (d : List ν) (s : Segment ν) : Except Errno (State ν) :=
  match fs.node d with
  | none => .error .ENOENT
  | some .regular => .error .ENOTDIR
  | some .directory =>
    if fs.searchable d = false then .error .EACCES
    else
      match s with
      | .name n =>
        if fs.node (d ++ [n]) ≠ none then .error .EEXIST
        else
          match fs.refuses d with
          | some e => .error e.val
          | none => .ok (fs.make d n)
      | _ => .error .EEXIST

/-- A path without the slashes at its end. -/
def bare (path : List (Segment ν)) : List (Segment ν) := path.rdropWhile (· == .empty)

/-- `mkdir`: slashes at the end of the path are passed over, and the last name is made. The empty path has one empty segment; a path of
slashes alone names the root. -/
def State.mkdir (fs : State ν) (path : List (Segment ν)) : Except Errno (State ν) :=
  if path.length ≤ 1 ∧ bare path = [] then .error .ENOENT
  else
    match fs.start path with
    | none => .error .ENOENT
    | some d =>
      match (bare path).getLast? with
      | none => .error .EEXIST
      | some s => (fs.walk d (bare path).dropLast).bind fun d' => fs.makeEntry d' s

/-- What `mkdir` does in a directory in which the process may search. -/
theorem State.makeEntry_directory {fs : State ν} {d : List ν} (hd : fs.node d = some .directory) (hs : fs.searchable d = true)
    (s : Segment ν) : fs.makeEntry d s = match s with
      | .name n =>
        if fs.node (d ++ [n]) ≠ none then .error .EEXIST
        else
          match fs.refuses d with
          | some e => .error e.val
          | none => .ok (fs.make d n)
      | _ => .error .EEXIST := by
  unfold State.makeEntry
  simp only [hd, hs, Bool.true_eq_false, if_false]

/-- An entry is not refused for a missing one. -/
theorem State.makeEntry_ne {fs : State ν} {d : List ν} (hd : fs.node d ≠ none) (s : Segment ν) :
    fs.makeEntry d s ≠ .error .ENOENT := by
  unfold State.makeEntry
  rcases hk : fs.node d with _ | _ | _
  · exact absurd hk hd
  · cases hs : fs.searchable d with
    | false => simp
    | true =>
      cases s with
      | empty | dot | dotdot => simp
      | name n =>
        by_cases hn : fs.node (d ++ [n]) ≠ none
        · simp [hn]
        · rcases hr : fs.refuses d with _ | e
          · simp [hn]
          · simpa [hn] using e.property.1
  · simp

theorem bare_append_empty (path : List (Segment ν)) : bare (path ++ [.empty]) = bare path :=
  List.rdropWhile_concat_pos _ _ _ (by simp)

theorem bare_append_singleton (path : List (Segment ν)) {s : Segment ν} (hs : s ≠ .empty) : bare (path ++ [s]) = path ++ [s] :=
  List.rdropWhile_concat_neg _ _ _ (by simpa using hs)

theorem bare_append_slashes (path : List (Segment ν)) {slashes : List (Segment ν)} (h : ∀ s ∈ slashes, s = .empty) :
    bare (path ++ slashes) = bare path :=
  Fields.rdropWhile_append_blanks path (by simpa using h)

theorem bare_name (before : List (Segment ν)) (n : ν) {slashes : List (Segment ν)} (h : ∀ s ∈ slashes, s = .empty) :
    bare (before ++ .name n :: slashes) = before ++ [.name n] := by
  rw [List.append_cons, bare_append_slashes _ h, bare_append_singleton before (by simp)]

/-- Only the slashes behind the last name are passed over. -/
theorem bare_append (path : List (Segment ν)) {rest : List (Segment ν)} (hne : rest ≠ []) (hhead : rest.head? ≠ some .empty) :
    bare (path ++ rest) = path ++ bare rest ∧ bare rest ≠ [] := by
  have hrest : bare rest ≠ [] := by
    obtain ⟨s, rest, rfl⟩ := List.exists_cons_of_ne_nil hne
    intro hnil
    have hs := List.rdropWhile_eq_nil_iff.mp hnil s List.mem_cons_self
    exact hhead (by simpa using hs)
  refine ⟨?_, hrest⟩
  unfold bare at hrest ⊢
  rw [Fields.rdropWhile_append, if_neg hrest]

/-- `mkdir` by the segments that are left without the slashes at the end. -/
theorem State.mkdir_of_bare {fs : State ν} {path pre : List (Segment ν)} {s : Segment ν} {d : List ν}
    (h : bare path = pre ++ [s]) (hstart : fs.start path = some d) :
    fs.mkdir path = (fs.walk d pre).bind fun d' => fs.makeEntry d' s := by
  have hne : bare path ≠ [] := by simp [h]
  rw [State.mkdir, if_neg (fun hempty => hne hempty.2), hstart, h]
  simp

/-- `mkdir` misses no entry if the way to the last name stands. -/
theorem State.mkdir_ne {fs : State ν} {path : List (Segment ν)} {d : List ν} (hstart : fs.start path = some d)
    (hlen : ¬(path.length ≤ 1 ∧ bare path = [])) (hwalk : fs.walk d (bare path).dropLast ≠ .error .ENOENT) :
    fs.mkdir path ≠ .error .ENOENT := by
  rw [State.mkdir, if_neg hlen, hstart]
  rcases (bare path).getLast? with _ | s
  · simp
  · have hd := State.node_start hstart
    simp only
    cases hw : fs.walk d (bare path).dropLast with
    | error e =>
      rw [hw] at hwalk
      simpa [Except.bind] using hwalk
    | ok d' => exact State.makeEntry_ne (State.node_walk (by simp [hd]) hw) s

/-! ## The first missing entry -/

/-- The first entry that is missing on the way. -/
def State.firstMissing (fs : State ν) (d : List ν) : List (Segment ν) → Option (Missing ν)
  | [] => none
  | s :: segs =>
    match fs.step d s, s with
    | .ok d', _ => fs.firstMissing d' segs
    | .error .ENOENT, .name n => some ⟨d, n, segs.dropWhile (· == .empty)⟩
    | .error _, _ => none

/-- What is called missing is: the way there stands, and the entry does not. -/
theorem State.firstMissing_spec {fs : State ν} {d : List ν} {segs : List (Segment ν)} {m : Missing ν} (hd : fs.node d ≠ none)
    (h : fs.firstMissing d segs = some m) :
    ∃ way, segs = way ++ m.rest ∧ fs.Lacks d m.place m.name way ∧ m.rest.head? ≠ some .empty := by
  induction segs generalizing d with
  | nil => simp [State.firstMissing] at h
  | cons s segs ih =>
    unfold State.firstMissing at h
    cases hs : fs.step d s with
    | ok d' =>
      rw [hs] at h
      obtain ⟨way, rfl, ⟨⟨before, slashes, rfl, hslashes, hwalk⟩, hdir, hnone⟩, hrest⟩ := ih (State.step_ok hs).2.2 h
      refine ⟨s :: (before ++ .name m.name :: slashes), rfl, ⟨⟨s :: before, slashes, rfl, hslashes, ?_⟩, hdir, hnone⟩, hrest⟩
      rw [State.walk, hs]
      exact hwalk
    | error e =>
      by_cases he : e = .ENOENT
      · subst he
        obtain ⟨n, rfl, hdir, hnone⟩ := State.step_missing hd hs
        rw [hs] at h
        obtain rfl := Option.some.inj h
        refine ⟨.name n :: segs.takeWhile (· == .empty), ?_, ⟨⟨[], segs.takeWhile (· == .empty), rfl, ?_, rfl⟩, hdir, hnone⟩, ?_⟩
        · rw [List.cons_append, List.takeWhile_append_dropWhile]
        · intro s hs
          simpa using List.mem_takeWhile_imp hs
        · intro hhead
          have hnot := List.head?_dropWhile_not (· == Segment.empty) segs
          rw [hhead] at hnot
          simp at hnot
      · cases e <;> simp [hs] at h he

/-- If nothing is missing then the walk does not fail for a missing entry. -/
theorem State.walk_of_firstMissing_eq_none {fs : State ν} {d : List ν} {segs : List (Segment ν)} (hd : fs.node d ≠ none)
    (h : fs.firstMissing d segs = none) : fs.walk d segs ≠ .error .ENOENT := by
  induction segs generalizing d with
  | nil => simp [State.walk]
  | cons s segs ih =>
    rw [State.walk]
    unfold State.firstMissing at h
    cases hs : fs.step d s with
    | ok d' =>
      rw [hs] at h
      exact ih (State.step_ok hs).2.2 h
    | error e =>
      intro hwalk
      obtain rfl : e = .ENOENT := by simpa [Except.bind] using hwalk
      obtain ⟨n, rfl, -⟩ := State.step_missing hd hs
      simp [hs] at h

/-- The path, without the slashes at its end, names a regular file. -/
def State.NamesRegular (fs : State ν) (path : List (Segment ν)) : Prop :=
  ∃ x, fs.resolve (bare path) = .ok x ∧ fs.node x = some .regular

/-- The slashes at its end aside, a path ends in no slash. -/
theorem exists_bare_append (path : List (Segment ν)) : ∃ slashes, path = bare path ++ slashes ∧ (∀ s ∈ slashes, s = .empty) ∧
    ∀ pre s, bare path = pre ++ [s] → s ≠ .empty := by
  refine ⟨path.rtakeWhile (· == .empty), ?_, ?_, ?_⟩
  · exact (List.rdropWhile_append_rtakeWhile ..).symm
  · intro s hs
    simpa using List.mem_rtakeWhile_imp hs
  · rintro pre s heq rfl
    have hne : bare path ≠ [] := by simp [heq]
    have hlast := List.rdropWhile_last_not (· == Segment.empty) path hne
    simp only [bare] at heq
    simp [heq] at hlast

/-- A path names a directory if it does so without the slashes at its end. -/
theorem State.isDirectory_bare {fs : State ν} (hfree : fs.Unrestricted) {path : List (Segment ν)} (hne : bare path ≠ []) :
    fs.IsDirectory path ↔ fs.IsDirectory (bare path) := by
  obtain ⟨slashes, hpath, hslashes, -⟩ := exists_bare_append path
  have hstart : fs.start path = fs.start (bare path) := by
    conv_lhs => rw [hpath]
    exact fs.start_append hne slashes
  unfold State.IsDirectory State.resolve
  rw [hstart]
  rcases fs.start (bare path) with _ | d
  · simp
  · have hwalk : fs.walk d path = (fs.walk d (bare path)).bind fun x => fs.walk x slashes := by
      conv_lhs => rw [hpath]
      exact fs.walk_append d _ _
    simp only [hwalk]
    rcases fs.walk d (bare path) with e | x
    · simp [Except.bind]
    · by_cases hx : fs.node x = some .directory
      · simp [Except.bind, State.walk_slashes hx (hfree.searchable x) hslashes]
      · -- a slash behind a regular file
        constructor
        · rintro ⟨y, hy, hdir⟩
          simp only [Except.bind] at hy
          rcases slashes with _ | ⟨s, slashes⟩
          · exact ⟨y, hy, hdir⟩
          · rw [State.walk] at hy
            cases hs : fs.step x s with
            | error e => simp [hs, Except.bind] at hy
            | ok x' => exact absurd (State.step_ok hs).1 hx
        · rintro ⟨y, hy, hdir⟩
          obtain rfl := Except.ok.inj hy
          exact absurd hdir hx

/-- What `mkdir` answers in a directory where the entry stands: that it exists, whether as a directory or as a file. -/
theorem State.makeEntry_exists {fs : State ν} (hfree : fs.Unrestricted) {d : List ν} {s : Segment ν}
    (hd : fs.node d = some .directory) (hs : s ≠ .empty) (hstep : fs.step d s ≠ .error .ENOENT) :
    fs.makeEntry d s = .error .EEXIST ∧ ((∃ x, fs.step d s = .ok x ∧ fs.node x = some .directory) ↔
      ¬∃ x, fs.step d s = .ok x ∧ fs.node x = some .regular) := by
  rw [State.makeEntry_directory hd (hfree.searchable d)]
  rw [State.step_directory hd (hfree.searchable d)] at hstep ⊢
  cases s with
  | empty => exact absurd rfl hs
  | dot => simp [hd]
  | dotdot =>
    have hup := fs.node_directory_dropLast hd
    simp [hup]
  | name k =>
    by_cases hn : fs.node (d ++ [k]) = none
    · exact absurd (if_pos hn) hstep
    · rcases hnode : fs.node (d ++ [k]) with _ | _ | _
      · exact absurd hnode hn
      · simp [hnode]
      · simp [hnode]

/-- `mkdir` on slashes alone, which name the root. -/
theorem State.mkdir_slashes {fs : State ν} (hfree : fs.Unrestricted) {path : List (Segment ν)} {d : List ν}
    (hstart : fs.start path = some d) (hlen : ¬(path.length ≤ 1 ∧ bare path = [])) (hnil : bare path = []) :
    fs.mkdir path = .error .EEXIST ∧ fs.IsDirectory path ∧ ¬fs.NamesRegular path := by
  obtain ⟨slashes, hpath, hslashes, -⟩ := exists_bare_append path
  have hd := State.node_start hstart
  refine ⟨?_, ⟨d, ?_, hd⟩, ?_⟩
  · rw [State.mkdir, if_neg hlen, hstart, hnil]
    rfl
  · rw [State.resolve, hstart]
    simp only
    rw [hpath, hnil, List.nil_append]
    exact State.walk_slashes hd (hfree.searchable d) hslashes
  · rintro ⟨x, hx, hreg⟩
    rw [hnil] at hx
    unfold State.resolve at hx
    cases hcwd : fs.start [] with
    | none => simp [hcwd] at hx
    | some c =>
      simp only [hcwd, State.walk, Except.ok.injEq] at hx
      rw [← hx, State.node_start hcwd] at hreg
      simp at hreg

/-- Where nothing is missing nothing is made: the answer is that the entry exists, or that a file is on the way. It does not depend on
what exists. -/
theorem State.mkdir_of_firstMissing_eq_none {fs : State ν} (hfree : fs.Unrestricted) {path : List (Segment ν)} {d : List ν}
    (hstart : fs.start path = some d) (hlen : ¬(path.length ≤ 1 ∧ bare path = [])) (h : fs.firstMissing d path = none) :
    fs.mkdir path = .error .EEXIST ∧ (fs.IsDirectory path ↔ ¬fs.NamesRegular path) ∨
      fs.mkdir path = .error .ENOTDIR ∧ ¬fs.IsDirectory path ∧ ¬fs.NamesRegular path := by
  obtain ⟨slashes, hpath, -, hlast⟩ := exists_bare_append path
  have hd := State.node_start hstart
  rcases List.eq_nil_or_concat' (bare path) with hnil | ⟨pre, s, hbare⟩
  · obtain ⟨hexists, hdir, hreg⟩ := State.mkdir_slashes hfree hstart hlen hnil
    exact .inl ⟨hexists, iff_of_true hdir hreg⟩
  · have hne : bare path ≠ [] := by simp [hbare]
    have hstart' : fs.start (bare path) = some d := by
      rw [← fs.start_append hne slashes, ← hpath]
      exact hstart
    have hresolve : fs.resolve (bare path) = (fs.walk d pre).bind fun d' => fs.step d' s := by
      rw [State.resolve, hstart', hbare]
      refine (fs.walk_append d pre [s]).trans ?_
      congr 1
      funext d'
      rw [State.walk_singleton]
    have hmissing : fs.resolve (bare path) ≠ .error .ENOENT := by
      intro herr
      refine State.walk_of_firstMissing_eq_none (by simp [hd]) h ?_
      rw [hpath, State.walk_append]
      rw [State.resolve, hstart'] at herr
      simp only at herr
      rw [herr]
      rfl
    rw [State.mkdir_of_bare hbare hstart, State.isDirectory_bare hfree hne]
    unfold State.IsDirectory State.NamesRegular
    rw [hresolve] at hmissing ⊢
    cases hwalk : fs.walk d pre with
    | error e =>
      rw [hwalk] at hmissing
      rcases State.walk_error hfree hwalk with rfl | rfl
      · exact absurd rfl hmissing
      · right
        simp [Except.bind]
    | ok d' =>
      rw [hwalk] at hmissing
      simp only [Except.bind] at hmissing ⊢
      rcases hk : fs.node d' with _ | _ | _
      · exact absurd hk (State.node_walk (by simp [hd]) hwalk)
      · exact .inl (State.makeEntry_exists hfree hk (hlast _ _ hbare) hmissing)
      · right
        simp [State.makeEntry, State.step, hk]

section Way

variable {fs : State ν} {d place : List ν} {n : ν} {way : List (Segment ν)}

/-- A path on which an entry is missing names nothing, with or without the slashes at its end. -/
theorem State.Lacks.resolve_bare (h : fs.Lacks d place n way) (hfree : fs.Unrestricted) (hstart : fs.start way = some d)
    {rest : List (Segment ν)} (hhead : rest.head? ≠ some .empty) : fs.resolve (bare (way ++ rest)) = .error .ENOENT := by
  obtain ⟨⟨before, slashes, rfl, hslashes, hwalk⟩, hdir, hnone⟩ := h
  obtain ⟨tail, htail⟩ : ∃ tail, bare (before ++ .name n :: slashes ++ rest) = before ++ .name n :: tail := by
    by_cases hrest : rest = []
    · exact ⟨[], by rw [hrest, List.append_nil, bare_name before n hslashes]⟩
    · exact ⟨slashes ++ bare rest, by rw [(bare_append _ hrest hhead).1, List.append_assoc, List.cons_append]⟩
  have hstart' : fs.start (before ++ .name n :: tail) = some d := by
    rw [List.append_cons, fs.start_append (by simp), ← fs.start_append (by simp) slashes, ← List.append_cons]
    exact hstart
  rw [htail, State.resolve, hstart']
  exact State.walk_missing hfree hwalk hdir hnone tail

/-- Behind a missing entry nothing is made. -/
theorem State.Lacks.mkdir_eq_error (h : fs.Lacks d place n way) (hfree : fs.Unrestricted) (hstart : fs.start way = some d)
    {rest : List (Segment ν)} (hne : rest ≠ []) (hhead : rest.head? ≠ some .empty) : fs.mkdir (way ++ rest) = .error .ENOENT := by
  obtain ⟨hbare, hrest⟩ := bare_append way hne hhead
  obtain ⟨pre, s, hlast⟩ := (List.eq_nil_or_concat' (bare rest)).resolve_left hrest
  rw [hlast, ← List.append_assoc] at hbare
  rw [State.mkdir_of_bare hbare ((fs.start_append h.ne_nil rest).trans hstart)]
  obtain ⟨⟨before, slashes, rfl, -, hwalk⟩, hdir, hnone⟩ := h
  rw [List.append_assoc, List.cons_append, State.walk_missing hfree hwalk hdir hnone]
  rfl

/-- A missing entry is made. -/
theorem State.Lacks.mkdir_eq_ok (h : fs.Lacks d place n way) (hfree : fs.Unrestricted) (hstart : fs.start way = some d) :
    fs.mkdir way = .ok (fs.makeAll place [n]) := by
  obtain ⟨⟨before, slashes, rfl, hslashes, hwalk⟩, hdir, hnone⟩ := h
  rw [State.mkdir_of_bare (bare_name before n hslashes) hstart, hwalk]
  simp [Except.bind, State.makeEntry_directory hdir (hfree.searchable _), hnone, hfree.refuses, State.makeAll]

/-- The walk along the way and down the new directories, once they are made. -/
theorem State.Lacks.walk_makeAll (h : fs.Lacks d place n way) (hfree : fs.Unrestricted) {names p : List ν} (hp : p <+: names) :
    (fs.makeAll place (n :: names)).walk d (way ++ p.map .name) = .ok (place ++ n :: p) := by
  have hext := State.extends_makeAll h.directory h.missing names
  obtain ⟨⟨before, slashes, rfl, hslashes, hwalk⟩, hdir, hnone⟩ := h
  have hone : [n] <+: n :: names := ⟨names, rfl⟩
  have hcons : n :: p <+: n :: names := List.cons_prefix_cons.mpr ⟨rfl, hp⟩
  have hfirst := State.walk_makeAll hdir hfree.searchable hone
  have hall := State.walk_makeAll hdir hfree.searchable hcons
  have hsplit : (n :: p).map Segment.name = [n].map .name ++ p.map .name := rfl
  rw [hsplit, State.walk_append, hfirst] at hall
  have hstay := State.walk_slashes (State.node_makeAll_down hdir hone)
    (by rw [hext.searchable]; exact hfree.searchable _) hslashes
  have hway : before ++ .name n :: slashes ++ p.map .name = before ++ ([n].map .name ++ (slashes ++ p.map .name)) := by simp
  rw [hway, State.walk_append, hext.walk hwalk]
  simp only [Except.bind]
  rw [State.walk_append, hfirst]
  simp only [Except.bind]
  rw [State.walk_append, hstay]
  exact hall

/-- The path still begins where it did, and the process may search everywhere. -/
theorem State.Lacks.start_makeAll (h : fs.Lacks d place n way) (hfree : fs.Unrestricted) (hstart : fs.start way = some d)
    (names : List ν) (rest : List (Segment ν)) : (fs.makeAll place (n :: names)).start (way ++ rest) = some d ∧
      ∀ x, (fs.makeAll place (n :: names)).searchable x = true := by
  obtain ⟨hcwd, hsearch, -⟩ := fs.makeAll_same place (n :: names)
  refine ⟨?_, fun x => by rw [hsearch, hfree.searchable]⟩
  rw [State.start_congr hcwd, fs.start_append h.ne_nil]
  exact hstart

/-- When the directories are made down to some place, then the next name is made there. -/
theorem State.Lacks.mkdir_makeAll_name (h : fs.Lacks d place n way) (hfree : fs.Unrestricted) (hstart : fs.start way = some d)
    (names : List ν) (k : ν) : (fs.makeAll place (n :: names)).mkdir (way ++ (names.map .name ++ [.name k])) =
      .ok (fs.makeAll place (n :: (names ++ [k]))) := by
  obtain ⟨hstart', hmay⟩ := h.start_makeAll hfree hstart names (names.map .name ++ [.name k])
  have hdir := State.node_makeAll_down h.directory (List.prefix_refl (n :: names))
  have hbare : bare (way ++ (names.map .name ++ [.name k])) = way ++ names.map .name ++ [.name k] := by
    rw [← List.append_assoc, bare_append_singleton _ (by simp)]
  have hno : (fs.makeAll place (n :: names)).node (place ++ n :: names ++ [k]) = none := by
    rw [(State.node_makeAll h.directory _ _).2 (not_made _ _ _)]
    simpa using State.node_below h.missing (names ++ [k])
  have hrefuses : (fs.makeAll place (n :: names)).refuses (place ++ n :: names) = none := by
    rw [(fs.makeAll_same _ _).2.2, hfree.refuses]
  rw [State.mkdir_of_bare hbare hstart', h.walk_makeAll hfree (List.prefix_refl names)]
  simp only [Except.bind, State.makeEntry_directory hdir (hmay _), hno, ne_eq, not_true_eq_false, if_false, hrefuses]
  rw [← List.cons_append, State.makeAll_append_singleton]

/-- What is no name, a dot, two dots or one more slash, is there already. -/
theorem State.Lacks.mkdir_makeAll_exists (h : fs.Lacks d place n way) (hfree : fs.Unrestricted) (hstart : fs.start way = some d)
    {names : List ν} {s : Segment ν} (hs : ∀ k, s ≠ .name k) (hhead : names = [] → s ≠ .empty) :
    (fs.makeAll place (n :: names)).mkdir (way ++ (names.map .name ++ [s])) = .error .EEXIST := by
  obtain ⟨hstart', hmay⟩ := h.start_makeAll hfree hstart names (names.map .name ++ [s])
  have hdir := State.node_makeAll_down h.directory (List.prefix_refl (n :: names))
  cases s with
  | name k => exact absurd rfl (hs k)
  | dot | dotdot =>
    rw [State.mkdir_of_bare (by rw [← List.append_assoc, bare_append_singleton _ (by simp)]) hstart',
      h.walk_makeAll hfree (List.prefix_refl names)]
    simp only [Except.bind, State.makeEntry_directory hdir (hmay _)]
  | empty =>
    -- the path names the directory that was made last
    obtain ⟨pre, k, rfl⟩ := (List.eq_nil_or_concat' names).resolve_left fun hnil => hhead hnil rfl
    have hpre : pre <+: pre ++ [k] := List.prefix_append _ _
    have hbare : bare (way ++ ((pre ++ [k]).map .name ++ [.empty])) = way ++ pre.map .name ++ [.name k] := by
      rw [← List.append_assoc, bare_append_empty, List.map_append, ← List.append_assoc]
      exact bare_append_singleton _ (by simp)
    have hup := State.node_makeAll_down h.directory (List.cons_prefix_cons.mpr ⟨rfl, hpre⟩ : n :: pre <+: n :: (pre ++ [k]))
    have hthere : (fs.makeAll place (n :: (pre ++ [k]))).node (place ++ n :: pre ++ [k]) ≠ none := by
      have hassoc : place ++ n :: pre ++ [k] = place ++ n :: (pre ++ [k]) := by simp
      rw [hassoc, hdir]
      simp
    rw [State.mkdir_of_bare hbare hstart', h.walk_makeAll hfree hpre]
    simp only [Except.bind, State.makeEntry_directory hup (hmay _), if_pos hthere]

end Way

end Make

end FileSystem
