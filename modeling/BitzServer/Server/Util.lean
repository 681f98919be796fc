import BitzServer.Icap.Text
import BitzServer.Lib.NewDirectories

/-!
# Directories of the server

The path functions of `bitz/util.cpp`, `dirpath` and `mkdirp`, over the `mkdir` of the system.
-/

namespace BitzServer

open FileSystem

/-- The file system of the process, with names of bytes. -/
abbrev Files := FileSystem.State Bytes

/-! ## Paths as strings -/

def slash : Byte := 47

/-- `string::find_last_of` for one character, none for `npos`. -/
def findLastOf (str : Bytes) (c : Byte) : Option Nat := (str.reverse.findIdx? (· == c)).map fun i => str.length - 1 - i

/-- `string::c_str`, as the C library reads it: up to the first NUL. -/
def cStr (str : Bytes) : Bytes := str.takeWhile (· != 0)

/-- What stands between two slashes. -/
def segment (s : Bytes) : Segment Bytes :=
  if s = [] then .empty
  else if s = bytes "." then .dot
  else if s = bytes ".." then .dotdot
  else .name s

/-- What stands between the slashes of a path. -/
def segments (path : Bytes) : List (Segment Bytes) := (path.splitOnP (· == slash)).map segment

/-- `dirpath`: `substr( 0, npos )` is the whole path. -/
def dirpath (path : Bytes) : Bytes :=
  match findLastOf path slash with
  | some pos => path.take pos
  | none => path

/-! ## Making directories -/

/-- The system call `mkdir`. -/
def mkdir (files : Files) (path : Bytes) : Except Errno Files := files.mkdir (segments (cStr path))

/-- `mkdirp`, which calls itself on the part of the path before the last slash; none if the calls do not end within the fuel. -/
def mkdirp : Nat → Files → Bytes → Option (Bool × Files)
  | 0, _, _ => none
  | fuel + 1, files, path =>
    match mkdir files path with
    | .ok files' => some (true, files')
    | .error .ENOENT => do
      -- parent didn't exist, try to create it
      let (created, files') ← mkdirp fuel files (dirpath path)
      if created then
        -- try creating the dir again: here an error of any kind is a failure
        match mkdir files' path with
        | .ok files'' => some (true, files'')
        | .error _ => some (false, files')
      else
        -- failed to create parent
        some (false, files')
    | .error .EEXIST => some (true, files)
    | .error _ => some (false, files)

/-- The calls of `mkdirp` on the path end. -/
def MkdirpReturns (files : Files) (path : Bytes) : Prop := ∃ fuel result, mkdirp fuel files path = some result

/-! ## The part before the last slash -/

/-- Without a slash the directory part is the whole path. -/
theorem dirpath_of_not_mem {path : Bytes} (h : slash ∉ path) : dirpath path = path := by
  have hnone : findLastOf path slash = none := by
    simpa [findLastOf, List.findIdx?_eq_none_iff] using fun c hc (heq : c = slash) => h (heq ▸ hc)
  rw [dirpath, hnone]

/-- With a slash it is what stands before the last one. -/
theorem dirpath_append (path : Bytes) {name : Bytes} (h : slash ∉ name) : dirpath (path ++ slash :: name) = path := by
  have hname : name.reverse.findIdx? (· == slash) = none := by
    simpa [List.findIdx?_eq_none_iff] using fun c hc (heq : c = slash) => h (heq ▸ hc)
  have hpos : findLastOf (path ++ slash :: name) slash = some path.length := by
    simp [findLastOf, List.findIdx?_append, hname, List.findIdx?_cons]
  rw [dirpath, hpos]
  simp

/-- A path is a name, or a path and a name behind a slash. -/
theorem path_cases (path : Bytes) : slash ∉ path ∨ ∃ dir name, slash ∉ name ∧ path = dir ++ slash :: name := by
  by_cases h : slash ∈ path
  · obtain ⟨u, v, heq, hu⟩ := List.eq_append_cons_of_mem (List.mem_reverse.mpr h)
    refine .inr ⟨v.reverse, u.reverse, by simpa using hu, ?_⟩
    have hrev := congrArg List.reverse heq
    simpa using hrev
  · exact .inl h

/-- Induction on the directory part. -/
theorem path_induction {P : Bytes → Prop} (name : ∀ name, slash ∉ name → P name)
    (append : ∀ dir name, slash ∉ name → P dir → P (dir ++ slash :: name)) (path : Bytes) : P path := by
  induction hlen : path.length using Nat.strong_induction_on generalizing path with
  | _ n ih =>
    rcases path_cases path with h | ⟨dir, s, hs, rfl⟩
    · exact name path h
    · refine append dir s hs (ih dir.length ?_ dir rfl)
      rw [← hlen, List.length_append, List.length_cons]
      omega

theorem segments_of_not_mem {name : Bytes} (h : slash ∉ name) : segments name = [segment name] := by
  rw [segments, List.splitOnP_eq_singleton]
  · rfl
  · intro c hc
    simpa using fun heq : c = slash => h (heq ▸ hc)

theorem segments_append (path : Bytes) {name : Bytes} (h : slash ∉ name) :
    segments (path ++ slash :: name) = segments path ++ [segment name] := by
  rw [segments, List.splitOnP_append_cons path name (by simp [slash]), List.map_append]
  exact congrArg _ (segments_of_not_mem h)

/-- A path of more than one segment is a path and a name behind a slash. -/
theorem exists_of_segments_eq {path : Bytes} {segs : List (Segment Bytes)} {s : Segment Bytes} (hne : segs ≠ [])
    (h : segments path = segs ++ [s]) :
    ∃ dir name, slash ∉ name ∧ path = dir ++ slash :: name ∧ segments dir = segs ∧ segment name = s := by
  rcases path_cases path with hname | ⟨dir, name, hname, rfl⟩
  · have hlen := congrArg List.length h
    have hpos := List.length_pos_iff.mpr hne
    rw [segments_of_not_mem hname, List.length_append, List.length_singleton, List.length_singleton] at hlen
    omega
  · rw [segments_append dir hname] at h
    obtain ⟨hdir, hseg⟩ := List.append_inj' h rfl
    exact ⟨dir, name, hname, rfl, hdir, by simpa using hseg⟩

theorem segments_ne_nil (path : Bytes) : segments path ≠ [] := by simp [segments]

/-- Only nothing is between two slashes that follow each other. -/
theorem segment_eq_empty {s : Bytes} : segment s = .empty ↔ s = [] := by
  unfold segment
  by_cases h : s = []
  · simp [h]
  · rw [if_neg h]
    split
    · simp [h]
    · split <;> simp [h]

/-! ## The calls of `mkdirp` -/

section Calls

variable {files : Files} {path : Bytes}

theorem mkdirp_of_ok {files' : Files} (h : mkdir files path = .ok files') (fuel : Nat) :
    mkdirp (fuel + 1) files path = some (true, files') := by
  simp only [mkdirp, h]

theorem mkdirp_of_error {e : Errno} (h : mkdir files path = .error e) (he : e ≠ .ENOENT) (fuel : Nat) :
    mkdirp (fuel + 1) files path = some (e == .EEXIST, files) := by
  simp only [mkdirp, h]
  cases e <;> first | rfl | exact absurd rfl he

/-- What `mkdirp` returns when something is missing, from what it returns for the parent. -/
theorem mkdirp_of_missing (h : mkdir files path = .error .ENOENT) (fuel : Nat) :
    mkdirp (fuel + 1) files path = (mkdirp fuel files (dirpath path)).bind fun r =>
      if r.1 then
        match mkdir r.2 path with
        | .ok files'' => some (true, files'')
        | .error _ => some (false, r.2)
      else some (false, r.2) := by
  simp only [mkdirp, h]
  rfl

/-- More fuel does not change what is returned. -/
theorem mkdirp_mono {fuel fuel' : Nat} {result : Bool × Files} (h : mkdirp fuel files path = some result) (hle : fuel ≤ fuel') :
    mkdirp fuel' files path = some result := by
  induction fuel generalizing fuel' files path result with
  | zero => simp [mkdirp] at h
  | succ fuel ih =>
    obtain ⟨fuel', rfl⟩ : ∃ k, fuel' = k + 1 := ⟨fuel' - 1, by omega⟩
    rcases hm : mkdir files path with e | files'
    · by_cases he : e = .ENOENT
      · subst he
        rw [mkdirp_of_missing hm] at h ⊢
        obtain ⟨r, hr, hagain⟩ := Option.bind_eq_some_iff.mp h
        rw [ih hr (by omega)]
        exact hagain
      · rw [mkdirp_of_error hm he] at h ⊢
        exact h
    · rw [mkdirp_of_ok hm] at h ⊢
      exact h

/-- All calls that return return the same. -/
theorem mkdirp_unique {fuel fuel' : Nat} {result result' : Bool × Files} (h : mkdirp fuel files path = some result)
    (h' : mkdirp fuel' files path = some result') : result = result' := by
  have hmax := mkdirp_mono h (le_max_left fuel fuel')
  rw [mkdirp_mono h' (le_max_right fuel fuel')] at hmax
  exact (Option.some.inj hmax).symm

/-- Without a missing entry there are no further calls. -/
theorem mkdirpReturns_of_ne (h : mkdir files path ≠ .error .ENOENT) : MkdirpReturns files path := by
  rcases hm : mkdir files path with e | files'
  · exact ⟨1, _, mkdirp_of_error hm (fun he => h (he ▸ hm)) 0⟩
  · exact ⟨1, _, mkdirp_of_ok hm 0⟩

/-- With a missing entry the calls end if those for the parent do. -/
theorem mkdirpReturns_iff_dirpath (h : mkdir files path = .error .ENOENT) :
    MkdirpReturns files path ↔ MkdirpReturns files (dirpath path) := by
  constructor
  · rintro ⟨fuel, result, hr⟩
    rcases fuel with _ | fuel
    · simp [mkdirp] at hr
    · rw [mkdirp_of_missing h] at hr
      obtain ⟨r, hr, -⟩ := Option.bind_eq_some_iff.mp hr
      exact ⟨fuel, r, hr⟩
  · rintro ⟨fuel, r, hr⟩
    refine ⟨fuel + 1, ?_⟩
    rw [mkdirp_of_missing h, hr, Option.bind_some]
    split
    · split <;> exact ⟨_, rfl⟩
    · exact ⟨_, rfl⟩

/-- A call for the path itself does not end. -/
theorem not_mkdirpReturns (h : mkdir files path = .error .ENOENT) (hself : dirpath path = path) : ¬MkdirpReturns files path := by
  rintro ⟨fuel, result, hr⟩
  induction fuel generalizing result with
  | zero => simp [mkdirp] at hr
  | succ fuel ih =>
    rw [mkdirp_of_missing h, hself] at hr
    obtain ⟨r, hr, -⟩ := Option.bind_eq_some_iff.mp hr
    exact ih r hr

end Calls

end BitzServer
