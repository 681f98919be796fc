import BitzServer.Server.Util

/-!
# The directories made at the start

`main` calls `mkdirp` on the directory parts of the configured paths. The calls of `mkdirp` end unless the path begins nowhere. When they
have ended, the directories down to the first name that is no name of an entry are made, and the answer is whether that is the whole path;
a path without a slash is its own directory part, and what exists is taken for a directory.
-/

namespace BitzServer

open FileSystem

/-- The path begins somewhere: at the root, or in a working directory that has not been removed. -/
def Anchored (files : Files) (path : Bytes) : Prop := path ≠ [] ∧ (path.head? = some slash ∨ files.workingDirectory ≠ none)

/-- What the server needs of a call for the file `path`: the answer is whether the directory that is to contain the file is there
afterwards, and of all entries only missing directories on the way to the file are new, and not the file itself. -/
structure StartupDirectory (files : Files) (path : Bytes) (success : Bool) (files' : Files) : Prop where
  answer : success = true ↔ files'.IsDirectory (segments path).dropLast
  apart : ∀ d n, files'.resolve (segments path).dropLast = .ok d → (segments path).getLast? = some (.name n) →
    files'.node (d ++ [n]) = files.node (d ++ [n])
  ancestors : ∀ x, files'.node x ≠ files.node x → files.node x = none ∧ files'.node x = some .directory ∧
    ∃ cut, cut <+: (segments path).dropLast ∧ files'.resolve cut = .ok x

/-- A path that `mkdirp` handles. Without a slash, it names something already. With a slash, its directory part names no regular file,
and if something is missing on it then only names follow (no dots, and slashes do not follow each other there), or the directory is not
there either when the directories before the first that is no name are made. -/
def Suits (files : Files) (path : Bytes) : Prop :=
  if slash ∈ path then
    ¬files.NamesRegular (segments (dirpath path)) ∧
      ∀ d ∈ files.start (segments (dirpath path)), ∀ m ∈ files.firstMissing d (segments (dirpath path)),
        m.rest.all Segment.isName = true ∨
          ¬(files.makeAll m.place (m.name :: leadingNames m.rest)).IsDirectory (segments (dirpath path))
  else ∃ x, files.resolve (segments path) = .ok x

/-- A file system with the root only. -/
def rootOnly : Files where
  node x := if x = [] then some .directory else none
  workingDirectory := some []
  searchable _ := true
  refuses _ := none
  node_root := rfl
  node_parent d n h := absurd (if_neg (by simp)) h
  node_working d h := by
    obtain rfl := Option.some.inj h
    rfl

namespace StartupAux

variable {files : Files}

/-! ## Where the path begins -/

theorem start_segments (files : Files) {path : Bytes} (hne : path ≠ []) :
    files.start (segments path) = if path.head? = some slash then some [] else files.workingDirectory := by
  induction path using path_induction with
  | name name hname =>
    rw [segments_of_not_mem hname]
    obtain ⟨c, name, rfl⟩ := List.exists_cons_of_ne_nil hne
    have hc : c ≠ slash := fun heq => hname (heq ▸ List.mem_cons_self)
    have hseg : segment (c :: name) ≠ .empty := fun h => hne (segment_eq_empty.mp h)
    rw [List.head?_cons, if_neg (by simpa using hc)]
    cases hs : segment (c :: name) with
    | empty => exact absurd hs hseg
    | dot | dotdot | name => rfl
  | append dir name hname ih =>
    rw [segments_append dir hname]
    by_cases hdir : dir = []
    · subst hdir
      rfl
    · rw [files.start_append (segments_ne_nil dir), ih hdir]
      obtain ⟨c, dir, rfl⟩ := List.exists_cons_of_ne_nil hdir
      rfl

/-- Only the empty path has one empty segment. -/
theorem segments_of_ne_nil {path : Bytes} (hne : path ≠ []) : ¬((segments path).length ≤ 1 ∧ bare (segments path) = []) := by
  rintro ⟨hlen, hbare⟩
  rcases path_cases path with hname | ⟨dir, name, hname, rfl⟩
  · rw [segments_of_not_mem hname] at hbare
    have hlast : bare [segment path] = [segment path] := bare_append_singleton [] fun h => hne (segment_eq_empty.mp h)
    simp [hlast] at hbare
  · have hpos := List.length_pos_iff.mpr (segments_ne_nil dir)
    rw [segments_append dir hname, List.length_append, List.length_singleton] at hlen
    omega

/-- On a path that begins nowhere `mkdir` finds nothing. -/
theorem mkdir_of_not_anchored {path : Bytes} (h : ¬Anchored files (cStr path)) : mkdir files path = .error .ENOENT := by
  unfold mkdir
  by_cases hnil : cStr path = []
  · rw [hnil]
    rfl
  · obtain ⟨hhead, hcwd⟩ : (cStr path).head? ≠ some slash ∧ files.workingDirectory = none := by
      simpa [Anchored, hnil] using h
    rw [State.mkdir, start_segments files hnil, if_neg hhead, hcwd]
    split <;> rfl

/-- A name without a slash in front of it is looked up in the working directory itself. -/
theorem mkdir_name {path : Bytes} (hpath : slash ∉ cStr path) (h : Anchored files (cStr path)) : mkdir files path ≠ .error .ENOENT := by
  unfold mkdir
  obtain ⟨hne, hbegin⟩ := h
  have hhead : (cStr path).head? ≠ some slash := fun heq => hpath (List.mem_of_mem_head? heq)
  obtain ⟨d, hd⟩ := Option.ne_none_iff_exists'.mp (hbegin.resolve_left hhead)
  have hseg : segment (cStr path) ≠ .empty := fun heq => hne (segment_eq_empty.mp heq)
  have hstart := start_segments files hne
  rw [if_neg hhead, hd] at hstart
  rw [segments_of_not_mem hpath] at hstart ⊢
  have hbare : bare [segment (cStr path)] = [segment (cStr path)] := bare_append_singleton [] hseg
  refine State.mkdir_ne hstart (by simp [hbare]) ?_
  simp [hbare, State.walk]

/-- A name behind the first slash is looked up in the root. -/
theorem mkdir_root {path name : Bytes} (hname : slash ∉ name) (hpath : cStr path = slash :: name) :
    mkdir files path ≠ .error .ENOENT := by
  have hsegs : segments (cStr path) = [.empty, segment name] := by
    rw [hpath]
    exact segments_append [] hname
  have hstart : files.start [.empty, segment name] = some [] := rfl
  rw [mkdir, hsegs]
  refine State.mkdir_ne hstart (by simp) ?_
  by_cases hs : segment name = .empty
  · have hbare : bare [.empty, segment name] = [] := by
      rw [hs]
      exact bare_append_slashes [] (by simp)
    simp [hbare, State.walk]
  · have hbare : bare [.empty, segment name] = [.empty, segment name] := bare_append_singleton [.empty] hs
    rw [hbare]
    intro hwalk
    obtain ⟨n, hn, -⟩ := State.step_missing (by simp [files.node_root]) ((files.walk_singleton [] .empty).symm.trans hwalk)
    simp at hn

/-! ## The C string of a path -/

theorem cStr_of_not_mem {dir : Bytes} (h : (0 : Byte) ∉ dir) (rest : Bytes) : cStr (dir ++ rest) = dir ++ cStr rest :=
  List.takeWhile_append_of_pos (by simpa using fun c hc (heq : c = 0) => h (heq ▸ hc))

theorem cStr_eq_self {path : Bytes} (h : (0 : Byte) ∉ path) : cStr path = path := by
  simpa [cStr] using cStr_of_not_mem h []

/-- What follows the first NUL is not read. -/
theorem cStr_of_mem {dir : Bytes} (h : (0 : Byte) ∈ dir) (rest : Bytes) : cStr (dir ++ rest) = cStr dir := by
  obtain ⟨u, v, rfl, hu⟩ := List.eq_append_cons_of_mem h
  rw [List.append_assoc, cStr_of_not_mem hu, cStr_of_not_mem hu]
  rfl

/-- Where something is missing on a path, the path and its directory part begin at the same place. -/
theorem anchored_dirpath {dir name : Bytes} (hname : slash ∉ name) (h : mkdir files (dir ++ slash :: name) = .error .ENOENT) :
    Anchored files (cStr dir) ↔ Anchored files (cStr (dir ++ slash :: name)) := by
  by_cases hnul : (0 : Byte) ∈ dir
  · rw [cStr_of_mem hnul]
  · have hcstr : cStr (slash :: name) = slash :: cStr name := rfl
    have hrest := cStr_of_not_mem hnul (slash :: name)
    rw [hcstr] at hrest
    rcases dir with _ | ⟨c, dir⟩
    · have hfree : slash ∉ cStr name := fun hmem => hname ((List.takeWhile_prefix _).subset hmem)
      exact absurd h (mkdir_root hfree hrest)
    · rw [hrest, cStr_eq_self hnul]
      simp [Anchored]

/-- The calls end only for a path that begins somewhere. -/
theorem anchored_of_mkdirpReturns {path : Bytes} (h : MkdirpReturns files path) : Anchored files (cStr path) := by
  induction path using path_induction with
  | name name hname =>
    by_contra hno
    exact not_mkdirpReturns (mkdir_of_not_anchored hno) (dirpath_of_not_mem hname) h
  | append dir name hname ih =>
    by_cases hm : mkdir files (dir ++ slash :: name) = .error .ENOENT
    · rw [mkdirpReturns_iff_dirpath hm, dirpath_append dir hname] at h
      exact (anchored_dirpath hname hm).mp (ih h)
    · exact by_contra fun hno => hm (mkdir_of_not_anchored hno)

/-! ## What the calls make -/

/-- The calls for a path with a missing entry. They make the directories down to the first segment that is no name; the answer is
whether that is the whole path. -/
theorem mkdirp_of_lacks {d place : List Bytes} {n : Bytes} {way rest : List (Segment Bytes)} {path : Bytes}
    (hlacks : files.Lacks d place n way) (hfree : files.Unrestricted) (hstart : files.start way = some d) (hnul : (0 : Byte) ∉ path)
    (hpath : segments path = way ++ rest) (hhead : rest.head? ≠ some .empty) :
    ∃ fuel, mkdirp fuel files path =
      some (rest.all Segment.isName, files.makeAll place (n :: leadingNames rest)) := by
  induction rest using List.reverseRecOn generalizing path with
  | nil =>
    refine ⟨1, mkdirp_of_ok ?_ 0⟩
    rw [mkdir, cStr_eq_self hnul, hpath, List.append_nil]
    exact hlacks.mkdir_eq_ok hfree hstart
  | append_singleton rest s ih =>
    rw [← List.append_assoc] at hpath
    obtain ⟨dir, name, hname, rfl, hdir, rfl⟩ := exists_of_segments_eq (by simp [hlacks.ne_nil]) hpath
    rw [List.append_assoc] at hpath
    have hcall : ∀ f : Files, mkdir f (dir ++ slash :: name) = f.mkdir (way ++ (rest ++ [segment name])) := by
      intro f
      rw [mkdir, cStr_eq_self hnul, hpath]
    have hm : mkdir files (dir ++ slash :: name) = .error .ENOENT := by
      rw [hcall]
      exact hlacks.mkdir_eq_error hfree hstart (by simp) hhead
    have hnil : rest = [] → segment name ≠ .empty := by
      rintro rfl
      simpa using hhead
    have hhead' : rest.head? ≠ some .empty := by
      cases rest with
      | nil => simp
      | cons s rest => simpa using hhead
    obtain ⟨fuel, hfuel⟩ := ih (fun h => hnul (List.mem_append_left _ h)) hdir hhead'
    refine ⟨fuel + 1, ?_⟩
    rw [mkdirp_of_missing hm, dirpath_append dir hname, hfuel, Option.bind_some, List.all_append, leadingNames_append, hcall]
    by_cases hall : rest.all Segment.isName = true
    · have hmap := map_leadingNames hall
      have hnames : leadingNames rest = [] → segment name ≠ .empty := by
        intro h
        rw [h, List.map_nil] at hmap
        exact hnil hmap.symm
      rw [hall, if_pos rfl, if_pos rfl]
      generalize leadingNames rest = names at hmap hnames ⊢
      rw [← hmap]
      cases hs : segment name with
      | name k =>
        rw [hlacks.mkdir_makeAll_name hfree hstart]
        rfl
      | empty | dot | dotdot =>
        rw [hlacks.mkdir_makeAll_exists hfree hstart (by simp) (hs ▸ hnames)]
        simp [Segment.isName, leadingNames]
    · simp [hall]

/-- Where nothing is made only the answer is to be right. -/
theorem startupDirectory_self (path : Bytes) (success : Bool) :
    StartupDirectory files path success files ↔ (success = true ↔ files.IsDirectory (segments path).dropLast) :=
  ⟨fun h => h.answer, fun h => ⟨h, fun _ _ _ _ => rfl, fun _ hx => absurd rfl hx⟩⟩

section Made

variable {d place : List Bytes} {n : Bytes} {way rest : List (Segment Bytes)}

/-- Where directories are made along the path only the answer is to be right. -/
theorem startupDirectory_makeAll {path : Bytes} (hlacks : files.Lacks d place n way) (hfree : files.Unrestricted)
    (hstart : files.start way = some d) (hpath : (segments path).dropLast = way ++ rest) :
    StartupDirectory files path (rest.all Segment.isName) (files.makeAll place (n :: leadingNames rest)) ↔
      (rest.all Segment.isName = true ∨ ¬(files.makeAll place (n :: leadingNames rest)).IsDirectory (way ++ rest)) := by
  have hext := State.extends_makeAll hlacks.directory hlacks.missing (leadingNames rest)
  have hresolve : ∀ p, p <+: leadingNames rest →
      (files.makeAll place (n :: leadingNames rest)).resolve (way ++ p.map .name) = .ok (place ++ n :: p) := by
    intro p hp
    rw [State.resolve, (hlacks.start_makeAll hfree hstart _ _).1]
    exact hlacks.walk_makeAll hfree hp
  have hmade : rest.all Segment.isName = true →
      (files.makeAll place (n :: leadingNames rest)).resolve (way ++ rest) = .ok (place ++ n :: leadingNames rest) := by
    intro hall
    have hwhole := hresolve _ (List.prefix_refl _)
    rwa [map_leadingNames hall] at hwhole
  have hdir := State.node_makeAll_down hlacks.directory (List.prefix_refl (n :: leadingNames rest))
  constructor
  · intro h
    by_cases hall : rest.all Segment.isName = true
    · exact .inl hall
    · refine .inr fun hthere => hall (h.answer.mpr ?_)
      rwa [hpath]
  · intro h
    have hanswer : rest.all Segment.isName = true ↔ (files.makeAll place (n :: leadingNames rest)).IsDirectory (way ++ rest) :=
      ⟨fun hall => ⟨_, hmade hall, hdir⟩, fun hthere => h.resolve_right fun hno => hno hthere⟩
    refine ⟨?_, ?_, ?_⟩
    · rw [hpath]
      exact hanswer
    · intro e k he _
      rw [hpath] at he
      by_cases hall : rest.all Segment.isName = true
      · -- the file would stand in the directory that was made last
        obtain rfl := Except.ok.inj ((hmade hall).symm.trans he)
        exact (State.node_makeAll hlacks.directory _ _).2 (not_made _ _ _)
      · -- there is no directory for the file
        have hno : (files.makeAll place (n :: leadingNames rest)).node (e ++ [k]) = none := by
          by_contra hne
          exact hall (hanswer.mpr ⟨e, he, State.node_parent _ e k hne⟩)
        by_contra hne
        refine hne ?_
        by_cases hold : files.node (e ++ [k]) = none
        · rw [hno, hold]
        · exact hext.node _ hold
    · intro x hx
      obtain ⟨hthere, hsame⟩ := State.node_makeAll hlacks.directory (n :: leadingNames rest) x
      by_cases hnew : Made place (n :: leadingNames rest) x
      · refine ⟨State.node_of_made hlacks.missing hnew, hthere hnew, ?_⟩
        obtain ⟨p, hp, hpre, rfl⟩ := hnew
        obtain ⟨m, p, rfl⟩ := List.exists_cons_of_ne_nil hp
        obtain ⟨rfl, htail⟩ := List.cons_prefix_cons.mp hpre
        refine ⟨way ++ p.map .name, ?_, hresolve p htail⟩
        rw [hpath]
        exact (List.prefix_append_right_inj way).mpr ((htail.map _).trans (map_leadingNames_initial rest))
      · exact absurd (hsame hnew) hx

end Made

/-- A path without a slash: the directory is made where the file is to be, unless something is there. -/
theorem startup_name {name : Bytes} {fuel : Nat} {result : Bool × Files} (hname : slash ∉ name) (hfree : files.Unrestricted)
    (hnul : (0 : Byte) ∉ name) (h : mkdirp fuel files name = some result) :
    StartupDirectory files name result.1 result.2 ↔ ∃ x, files.resolve (segments name) = .ok x := by
  obtain ⟨hne, hbegin⟩ := anchored_of_mkdirpReturns ⟨fuel, result, h⟩
  rw [cStr_eq_self hnul] at hne hbegin
  have hhead : name.head? ≠ some slash := fun heq => hname (List.mem_of_mem_head? heq)
  obtain ⟨d, hd⟩ := Option.ne_none_iff_exists'.mp (hbegin.resolve_left hhead)
  have hdir := files.node_working d hd
  have hseg : segment name ≠ .empty := fun heq => hne (segment_eq_empty.mp heq)
  have hstart := start_segments files hne
  rw [if_neg hhead, hd, segments_of_not_mem hname] at hstart
  have hcall : mkdir files name = files.makeEntry d (segment name) := by
    rw [mkdir, cStr_eq_self hnul, segments_of_not_mem hname]
    exact State.mkdir_of_bare (bare_append_singleton [] hseg) hstart
  have hresolve : files.resolve (segments name) = files.step d (segment name) := by
    rw [segments_of_not_mem hname, State.resolve, hstart]
    exact files.walk_singleton d _
  have hcontains : ∀ files' : Files, files'.workingDirectory = some d → files'.resolve (segments name).dropLast = .ok d := by
    intro files' hd'
    rw [segments_of_not_mem hname]
    simp [State.resolve, State.start, State.walk, hd']
  rw [State.makeEntry_directory hdir (hfree.searchable d)] at hcall
  rw [hresolve, State.step_directory hdir (hfree.searchable d)]
  have hthere : mkdir files name = .error .EEXIST → StartupDirectory files name result.1 result.2 := by
    intro hexists
    obtain rfl := mkdirp_unique h (mkdirp_of_error hexists (by decide) 0)
    exact (startupDirectory_self name _).mpr (iff_of_true rfl ⟨d, hcontains files hd, hdir⟩)
  cases hs : segment name with
  | empty => exact absurd hs hseg
  | dot | dotdot =>
    rw [hs] at hcall
    exact iff_of_true (hthere hcall) ⟨_, rfl⟩
  | name n =>
    rw [hs] at hcall
    by_cases hn : files.node (d ++ [n]) = none
    · -- the new directory is the entry of the file
      simp only [hn, ne_eq, not_true_eq_false, if_false, hfree.refuses] at hcall
      obtain rfl := mkdirp_unique h (mkdirp_of_ok hcall 0)
      refine iff_of_false (fun hstartup => ?_) (by simp [hn])
      have hlast : (segments name).getLast? = some (.name n) := by
        rw [segments_of_not_mem hname, hs]
        rfl
      have hsame := hstartup.apart d n (hcontains _ (by rw [State.make_workingDirectory, hd])) hlast
      rw [State.node_make hdir, if_pos rfl, hn] at hsame
      simp at hsame
    · simp only [ne_eq, hn, not_false_eq_true, if_true] at hcall
      exact iff_of_true (hthere hcall) ⟨_, if_neg hn⟩

/-- A path with a slash. -/
theorem startup_path {dir name : Bytes} {fuel : Nat} {result : Bool × Files} (hname : slash ∉ name) (hfree : files.Unrestricted)
    (hnul : (0 : Byte) ∉ dir) (h : mkdirp fuel files dir = some result) :
    StartupDirectory files (dir ++ slash :: name) result.1 result.2 ↔ ¬files.NamesRegular (segments dir) ∧
      ∀ d ∈ files.start (segments dir), ∀ m ∈ files.firstMissing d (segments dir), m.rest.all Segment.isName = true ∨
        ¬(files.makeAll m.place (m.name :: leadingNames m.rest)).IsDirectory (segments dir) := by
  obtain ⟨hne, hbegin⟩ := anchored_of_mkdirpReturns ⟨fuel, result, h⟩
  rw [cStr_eq_self hnul] at hne hbegin
  obtain ⟨d, hstart⟩ : ∃ d, files.start (segments dir) = some d := by
    rw [start_segments files hne]
    split
    · exact ⟨_, rfl⟩
    · exact Option.ne_none_iff_exists'.mp (hbegin.resolve_left ‹_›)
  have hdrop : (segments (dir ++ slash :: name)).dropLast = segments dir := by
    rw [segments_append dir hname, List.dropLast_concat]
  have hcall : mkdir files dir = files.mkdir (segments dir) := by rw [mkdir, cStr_eq_self hnul]
  rw [hstart]
  rcases hm : files.firstMissing d (segments dir) with _ | m
  · -- nothing is missing
    rcases State.mkdir_of_firstMissing_eq_none hfree hstart (segments_of_ne_nil hne) hm with ⟨hexists, hiff⟩ | ⟨hfile, hno, hreg⟩
    · obtain rfl := mkdirp_unique h (mkdirp_of_error (hcall.trans hexists) (by decide) 0)
      rw [startupDirectory_self, hdrop, hiff]
      simp [hm]
    · obtain rfl := mkdirp_unique h (mkdirp_of_error (hcall.trans hfile) (by decide) 0)
      rw [startupDirectory_self, hdrop]
      simp [hm, hno, hreg]
  · obtain ⟨way, hway, hlacks, hhead⟩ := State.firstMissing_spec (by simp [State.node_start hstart]) hm
    have hstart' : files.start way = some d := by
      rw [← files.start_append hlacks.ne_nil m.rest, ← hway]
      exact hstart
    obtain ⟨fuel', hfuel⟩ := mkdirp_of_lacks hlacks hfree hstart' hnul hway hhead
    obtain rfl := mkdirp_unique h hfuel
    have hreg : ¬files.NamesRegular (segments dir) := by
      rintro ⟨x, hx, -⟩
      rw [hway, hlacks.resolve_bare hfree hstart' hhead] at hx
      simp at hx
    rw [startupDirectory_makeAll hlacks hfree hstart' (hdrop.trans hway), ← hway]
    simp [hm, hreg]

end StartupAux

open StartupAux

/-- `mkdirp` returns if and only if the path begins somewhere. -/
theorem mkdirp_returns_iff (files : Files) (path : Bytes) : MkdirpReturns files path ↔ Anchored files (cStr path) := by
  refine ⟨anchored_of_mkdirpReturns, ?_⟩
  induction path using path_induction with
  | name name hname =>
    have hcstr : slash ∉ cStr name := fun h => hname ((List.takeWhile_prefix _).subset h)
    exact fun h => mkdirpReturns_of_ne (mkdir_name hcstr h)
  | append dir name hname ih =>
    intro h
    by_cases hm : mkdir files (dir ++ slash :: name) = .error .ENOENT
    · rw [mkdirpReturns_iff_dirpath hm, dirpath_append dir hname]
      exact ih ((anchored_dirpath hname hm).mpr h)
    · exact mkdirpReturns_of_ne hm

/-- The directory part of a file in the root is the empty path, on which `mkdirp` does not return. -/
theorem mkdirp_returns_false : ¬MkdirpReturns rootOnly (dirpath (bytes "/bitz.pid")) := by
  have hnil : dirpath (bytes "/bitz.pid") = [] := by decide
  rw [hnil]
  exact not_mkdirpReturns (mkdir_of_not_anchored fun h => h.1 rfl) (by decide)

/-- The call for a configured file keeps the directories as the server needs it if and only if the path suits. The strings of the
configuration are C strings. -/
theorem startupDirectory_iff {files : Files} {path : Bytes} {fuel : Nat} {result : Bool × Files} (hfree : files.Unrestricted)
    (hnul : (0 : Byte) ∉ path) (h : mkdirp fuel files (dirpath path) = some result) :
    StartupDirectory files path result.1 result.2 ↔ Suits files path := by
  rcases path_cases path with hname | ⟨dir, name, hname, rfl⟩
  · rw [dirpath_of_not_mem hname] at h
    rw [Suits, if_neg hname]
    exact startup_name hname hfree hnul h
  · have hmem : slash ∈ dir ++ slash :: name := by simp
    rw [Suits, if_pos hmem]
    rw [dirpath_append dir hname] at h ⊢
    exact startup_path hname hfree (fun h => hnul (List.mem_append_left _ h)) h

namespace StartupAux

/-- A path of two names suits where there is only the root. -/
theorem suits_names : Suits rootOnly (bytes "run/bitz/bitz.pid") := by
  have hmem : slash ∈ bytes "run/bitz/bitz.pid" := by decide
  have hsegments : segments (dirpath (bytes "run/bitz/bitz.pid")) = [.name (bytes "run"), .name (bytes "bitz")] := by decide
  rw [Suits, if_pos hmem, hsegments]
  refine ⟨?_, fun d hd m hm => .inl ?_⟩
  · rintro ⟨x, hx, -⟩
    have hmissing : rootOnly.resolve (bare [.name (bytes "run"), .name (bytes "bitz")]) = .error .ENOENT := by decide
    rw [hmissing] at hx
    simp at hx
  · have hstart : rootOnly.start [.name (bytes "run"), .name (bytes "bitz")] = some [] := by decide
    obtain rfl := Option.some.inj (hstart.symm.trans hd)
    have hmissing : rootOnly.firstMissing [] [.name (bytes "run"), .name (bytes "bitz")] =
        some ⟨[], bytes "run", [.name (bytes "bitz")]⟩ := by rfl
    obtain rfl := Option.some.inj (hmissing.symm.trans hm)
    decide

end StartupAux

/-- Two directories are made for a file. -/
theorem startupDirectory_run : ∃ result, mkdirp 3 rootOnly (dirpath (bytes "run/bitz/bitz.pid")) = some result ∧
    Suits rootOnly (bytes "run/bitz/bitz.pid") ∧ StartupDirectory rootOnly (bytes "run/bitz/bitz.pid") result.1 result.2 := by
  have hsome : (mkdirp 3 rootOnly (dirpath (bytes "run/bitz/bitz.pid"))).isSome = true := by decide +kernel
  obtain ⟨result, hresult⟩ := Option.isSome_iff_exists.mp hsome
  have hiff := startupDirectory_iff ⟨fun _ => rfl, fun _ => rfl⟩ (by decide) hresult
  exact ⟨result, hresult, suits_names, hiff.mpr suits_names⟩

/-- For a file named without a directory, a directory is made in its place. -/
theorem startupDirectory_false : ∃ result, mkdirp 1 rootOnly (dirpath (bytes "bitz.pid")) = some result ∧
    ¬StartupDirectory rootOnly (bytes "bitz.pid") result.1 result.2 := by
  have hsome : (mkdirp 1 rootOnly (bytes "bitz.pid")).isSome = true := by decide +kernel
  obtain ⟨result, hresult⟩ := Option.isSome_iff_exists.mp hsome
  have hname : slash ∉ bytes "bitz.pid" := by decide
  have hmissing : rootOnly.resolve (segments (bytes "bitz.pid")) = .error .ENOENT := rfl
  refine ⟨result, hresult, fun h => ?_⟩
  obtain ⟨x, hx⟩ := (startup_name hname ⟨fun _ => rfl, fun _ => rfl⟩ (by decide) hresult).mp h
  rw [hmissing] at hx
  simp at hx

end BitzServer
