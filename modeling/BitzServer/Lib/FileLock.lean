import Mathlib.Data.List.Basic

/-!
# Locked files

A file that processes lock as a whole, with the record locks of POSIX: a lock belongs to a process, and it is gone when this process
closes any descriptor of the file, or ends. Processes that have forked, or never had the lock, take nothing away by that.
-/

namespace FileLock

/-- A file of one name: its content if it is there, and the process that has locked it. -/
structure File (ι α : Type) where
  content : Option (List α)
  owner : Option ι

variable {ι α : Type} [DecidableEq ι]

namespace File

/-- `open` with `O_CREAT` and without `O_TRUNC` -/
def create (f : File ι α) : File ι α := { f with content := some (f.content.getD []) }

/-- `lockf` with `F_TLOCK`: none where another process has the lock -/
def tryLock (f : File ι α) (p : ι) : Option (File ι α) :=
  match f.owner with
  | none => some { f with owner := some p }
  | some q => if q = p then some f else none

/-- `close` of a descriptor in a process, or the end of the process -/
def release (f : File ι α) (p : ι) : File ι α := if f.owner = some p then { f with owner := none } else f

/-- `write` through a new descriptor: what stands behind the data stays. -/
def overwrite (f : File ι α) (data : List α) : File ι α := { f with content := f.content.map (fun c => data ++ c.drop data.length) }

omit [DecidableEq ι] in
@[simp]
theorem create_owner (f : File ι α) : f.create.owner = f.owner := rfl

omit [DecidableEq ι] in
@[simp]
theorem overwrite_owner (f : File ι α) (data : List α) : (f.overwrite data).owner = f.owner := rfl

@[simp]
theorem release_content (f : File ι α) (p : ι) : (f.release p).content = f.content := by
  rw [release]
  split <;> rfl

theorem release_owner (f : File ι α) (p q : ι) : (f.release p).owner = some q ↔ f.owner = some q ∧ q ≠ p := by
  rw [release]
  by_cases hp : f.owner = some p
  · rw [if_pos hp, hp]
    exact ⟨nofun, fun ⟨h, hne⟩ => absurd (Option.some.inj h).symm hne⟩
  · rw [if_neg hp]
    exact ⟨fun h => ⟨h, fun hqp => hp (hqp ▸ h)⟩, And.left⟩

theorem tryLock_spec {f f' : File ι α} {p : ι} (h : f.tryLock p = some f') : f'.owner = some p ∧ f'.content = f.content := by
  unfold tryLock at h
  cases howner : f.owner with
  | none =>
    rw [howner] at h
    obtain rfl := Option.some.inj h
    exact ⟨rfl, rfl⟩
  | some q =>
    rw [howner] at h
    dsimp only at h
    by_cases hq : q = p
    · rw [if_pos hq] at h
      obtain rfl := Option.some.inj h
      exact ⟨hq ▸ howner, rfl⟩
    · rw [if_neg hq] at h
      exact absurd h nofun

end File

/-- The lock is with those processes that take themselves to have it. -/
def Owned (holds : ι → Prop) (f : File ι α) : Prop := ∀ p, holds p ↔ f.owner = some p

variable {holds holds' : ι → Prop} {f f' : File ι α} {p q : ι}

omit [DecidableEq ι] in
/-- Two processes do not have it. -/
theorem Owned.unique (h : Owned holds f) (hp : holds p) (hq : holds q) : p = q :=
  Option.some.inj (((h p).mp hp).symm.trans ((h q).mp hq))

omit [DecidableEq ι] in
/-- As long as the same processes take themselves to have the lock and it stays where it is, it is with them. -/
theorem Owned.same (h : Owned holds f) (hholds : ∀ q, holds' q ↔ holds q) (howner : f'.owner = f.owner) : Owned holds' f' :=
  fun q => by rw [hholds, h q, howner]

/-- A process without the lock gets it exactly if no process has it. -/
theorem Owned.tryLock_iff (h : Owned holds f) (hp : ¬holds p) : (f.tryLock p).isSome ↔ ∀ q, ¬holds q := by
  unfold File.tryLock
  cases howner : f.owner with
  | none =>
    refine ⟨fun _ q hq => ?_, fun _ => rfl⟩
    rw [h q, howner] at hq
    exact absurd hq nofun
  | some q =>
    have hq : holds q := (h q).mpr howner
    have hne : q ≠ p := fun hqp => hp (hqp ▸ hq)
    dsimp only
    rw [if_neg hne]
    exact ⟨nofun, fun hnone => absurd hq (hnone q)⟩

/-- What a process that has got the lock may take itself to have. -/
theorem Owned.locked (h : Owned holds f) (hlock : f.tryLock p = some f') (hnot : ¬holds p) (hp : holds' p)
    (hothers : ∀ q, q ≠ p → (holds' q ↔ holds q)) : Owned holds' f' := by
  have hnone : ∀ q, ¬holds q := (h.tryLock_iff hnot).mp (by rw [hlock]; rfl)
  intro q
  rw [(File.tryLock_spec hlock).1]
  by_cases hqp : q = p
  · subst hqp
    exact ⟨fun _ => rfl, fun _ => hp⟩
  · rw [hothers q hqp]
    exact ⟨fun hq => absurd hq (hnone q), fun hpq => absurd (Option.some.inj hpq).symm hqp⟩

/-- A process that releases the file has no lock, and the others have what they had. -/
theorem Owned.released (h : Owned holds f) (hp : ¬holds' p) (hothers : ∀ q, q ≠ p → (holds' q ↔ holds q)) :
    Owned holds' (f.release p) := by
  intro q
  rw [File.release_owner]
  by_cases hqp : q = p
  · subst hqp
    exact ⟨fun hq => absurd hq hp, fun hq => absurd rfl hq.2⟩
  · rw [hothers q hqp, h q]
    exact ⟨fun hq => ⟨hq, hqp⟩, And.left⟩

end FileLock
