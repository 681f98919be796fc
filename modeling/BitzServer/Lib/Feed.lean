import Mathlib.Data.List.Basic
import Mathlib.Order.Defs.Unbundled

/-!
# Readers over a feed

A reader is a program of `StateT σ (Except ε)` on a state that holds some input. Three kinds of facts are composed along a
program: what it reads (`Consumes p w a`: given input that starts with `w`, the reader consumes exactly `w` and returns `a`),
what every run of it keeps (`Returns R Q p`: on every state the program returns a value with `Q`, and the states before and
after are related by `R`), and what its runs keep if they return (`Keeps R p`). A program may also be compared with one on a part of
its state (`Simulates`).
-/

namespace Feed

/-- A state with unread input, which it delivers while it is `ready`. -/
class Source (σ : Type) (β : outParam Type) where
  unread : σ → List β
  ready : σ → Prop
  withUnread : σ → List β → σ
  unread_withUnread : ∀ s l, unread (withUnread s l) = l
  ready_withUnread : ∀ s l, ready s → ready (withUnread s l)
  withUnread_unread : ∀ s, withUnread s (unread s) = s
  withUnread_withUnread : ∀ s l l', withUnread (withUnread s l) l' = withUnread s l'

open Source

/-- The rest of a program runs from where a first part that returned has left the state. -/
theorem run_bind_of_ok {σ ε α γ : Type} {p : StateT σ (Except ε) α} {f : α → StateT σ (Except ε) γ} {s s' : σ} {a : α}
    (h : p.run s = .ok (a, s')) : (p >>= f).run s = (f a).run s' := by
  rw [StateT.run_bind, h]
  rfl

/-- A program that has returned has run its parts one after another. -/
theorem exists_of_run_bind {σ ε α γ : Type} {p : StateT σ (Except ε) α} {f : α → StateT σ (Except ε) γ} {s : σ} {r : γ × σ}
    (h : (p >>= f).run s = .ok r) : ∃ a s', p.run s = .ok (a, s') ∧ (f a).run s' = .ok r := by
  cases hrun : p.run s with
  | error e =>
    rw [StateT.run_bind, hrun] at h
    cases h
  | ok r₁ =>
    obtain ⟨a, s'⟩ := r₁
    exact ⟨a, s', rfl, (run_bind_of_ok hrun).symm.trans h⟩

theorem eq_of_run_pure {σ ε α : Type} {a c : α} {s s' : σ} (h : (Pure.pure a : StateT σ (Except ε) α).run s = .ok (c, s')) :
    a = c ∧ s = s' :=
  Prod.mk.inj (Except.ok.inj h)

section Consumes

variable {σ β ε α γ : Type} [Source σ β]

/-- Given input that starts with `w`, the reader `p` consumes exactly `w`, returns `a` and changes nothing else. -/
def Consumes (p : StateT σ (Except ε) α) (w : List β) (a : α) : Prop :=
  ∀ (s : σ) (rest : List β), ready s → unread s = w ++ rest → p.run s = .ok (a, withUnread s rest)

/-- Returning a value reads nothing. -/
theorem Consumes.pure (a : α) : Consumes (pure a : StateT σ (Except ε) α) [] a := by
  intro s rest _ hu
  rw [List.nil_append] at hu
  subst hu
  rw [withUnread_unread]
  rfl

/-- One reader after another reads one word after the other. -/
theorem Consumes.bind {p : StateT σ (Except ε) α} {f : α → StateT σ (Except ε) γ} {u v : List β} {a : α} {c : γ}
    (hp : Consumes p u a) (hf : Consumes (f a) v c) : Consumes (p >>= f) (u ++ v) c := by
  intro s rest hr hu
  have h1 := hp s (v ++ rest) hr (by rw [hu, List.append_assoc])
  have h2 := hf (withUnread s (v ++ rest)) rest (ready_withUnread _ _ hr) (unread_withUnread _ _)
  rw [withUnread_withUnread] at h2
  rw [run_bind_of_ok h1]
  exact h2

/-- A reader followed by a pure function of its result. -/
theorem Consumes.map {p : StateT σ (Except ε) α} {u : List β} {a : α} (f : α → γ) (hp : Consumes p u a) :
    Consumes (p >>= fun x => Pure.pure (f x)) u (f a) := by
  have h := hp.bind (f := fun x => Pure.pure (f x)) (Consumes.pure (f a))
  rwa [List.append_nil] at h

/-- A computation without the state that succeeds reads nothing. -/
theorem Consumes.lift {e : Except ε α} {a : α} (h : e = .ok a) : Consumes (liftM e : StateT σ (Except ε) α) [] a := by
  subst h
  exact Consumes.pure a

/-- The word a reader reads may be given in another form. -/
theorem Consumes.cast {p : StateT σ (Except ε) α} {u v : List β} {a : α} (hp : Consumes p u a) (h : u = v) : Consumes p v a :=
  h ▸ hp

end Consumes

section Returns

variable {σ ε α γ : Type} {R R' : σ → σ → Prop} {Q : α → Prop} {Q' : γ → Prop}

/-- On every state the program returns a value with `Q`, and `R` relates the state before and the state after. -/
def Returns (R : σ → σ → Prop) (Q : α → Prop) (p : StateT σ (Except ε) α) : Prop :=
  ∀ s, ∃ a s', p.run s = .ok (a, s') ∧ R s s' ∧ Q a

/-- Returning a value keeps every reflexive relation. -/
theorem Returns.pure [Std.Refl R] {a : α} (h : Q a) : Returns R Q (pure a : StateT σ (Except ε) α) :=
  fun s => ⟨a, s, rfl, Std.Refl.refl s, h⟩

/-- Two programs in a row keep every transitive relation that each of them keeps; the second starts from a value the first
returns. -/
theorem Returns.bind [IsTrans σ R] {p : StateT σ (Except ε) α} {f : α → StateT σ (Except ε) γ} (hp : Returns R Q p)
    (hf : ∀ a, Q a → Returns R Q' (f a)) : Returns R Q' (p >>= f) := by
  intro s
  obtain ⟨a, s1, h1, hR1, hQ⟩ := hp s
  obtain ⟨c, s2, h2, hR2, hQ'⟩ := hf a hQ s1
  exact ⟨c, s2, by rw [run_bind_of_ok h1, h2], IsTrans.trans _ _ _ hR1 hR2, hQ'⟩

/-- A computation without the state that succeeds keeps every reflexive relation. -/
theorem Returns.lift [Std.Refl R] {e : Except ε α} {a : α} (he : e = .ok a) (h : Q a) :
    Returns R Q (liftM e : StateT σ (Except ε) α) := by
  subst he
  exact Returns.pure h

/-- What a program keeps and returns may be weakened. -/
theorem Returns.mono {p : StateT σ (Except ε) α} {Q₁ : α → Prop} (hp : Returns R Q p) (hR : ∀ s t, R s t → R' s t)
    (hQ : ∀ a, Q a → Q₁ a) : Returns R' Q₁ p := by
  intro s
  obtain ⟨a, s', h1, h2, h3⟩ := hp s
  exact ⟨a, s', h1, hR s s' h2, hQ a h3⟩

/-- On every state the program returns, and `R` relates the state before and the state after. -/
abbrev Within (R : σ → σ → Prop) (p : StateT σ (Except ε) α) : Prop := Returns R (fun _ => True) p

theorem Within.pure [Std.Refl R] (a : α) : Within R (pure a : StateT σ (Except ε) α) := Returns.pure trivial

theorem Within.bind [IsTrans σ R] {p : StateT σ (Except ε) α} {f : α → StateT σ (Except ε) γ} (hp : Within R p)
    (hf : ∀ a, Within R (f a)) : Within R (p >>= f) :=
  Returns.bind hp (fun a _ => hf a)

theorem Within.lift [Std.Refl R] {e : Except ε α} {a : α} (h : e = .ok a) :
    Within R (liftM e : StateT σ (Except ε) α) :=
  Returns.lift h trivial

theorem Within.mono {p : StateT σ (Except ε) α} (hp : Within R p) (h : ∀ s t, R s t → R' s t) : Within R' p :=
  Returns.mono hp h (fun _ _ => trivial)

end Returns

section Keeps

variable {σ ε α γ : Type} {R : σ → σ → Prop}

/-- Where the program returns, `R` relates the state before and the state after. -/
def Keeps (R : σ → σ → Prop) (p : StateT σ (Except ε) α) : Prop := ∀ s a s', p.run s = .ok (a, s') → R s s'

theorem Keeps.pure [Std.Refl R] (a : α) : Keeps R (pure a : StateT σ (Except ε) α) := by
  intro s b s' h
  obtain ⟨-, rfl⟩ := Prod.mk.inj (Except.ok.inj h)
  exact Std.Refl.refl s

theorem Keeps.throw (e : ε) : Keeps R (throw e : StateT σ (Except ε) α) := fun _ _ _ h => absurd h nofun

/-- Two programs in a row keep every transitive relation that each of them keeps. -/
theorem Keeps.bind [IsTrans σ R] {p : StateT σ (Except ε) α} {f : α → StateT σ (Except ε) γ} (hp : Keeps R p)
    (hf : ∀ a, Keeps R (f a)) : Keeps R (p >>= f) := by
  intro s c s' h
  cases hrun : p.run s with
  | error e =>
    rw [StateT.run_bind, hrun] at h
    exact absurd h nofun
  | ok r =>
    rw [run_bind_of_ok hrun] at h
    exact IsTrans.trans _ _ _ (hp s r.1 r.2 hrun) (hf r.1 r.2 c s' h)

/-- A computation without the state keeps every reflexive relation. -/
theorem Keeps.lift [Std.Refl R] (e : Except ε α) : Keeps R (liftM e : StateT σ (Except ε) α) := by
  cases e with
  | error e => exact Keeps.throw e
  | ok a => exact Keeps.pure a

/-- What a program keeps may be weakened. -/
theorem Keeps.mono {R' : σ → σ → Prop} {p : StateT σ (Except ε) α} (hp : Keeps R p) (h : ∀ s t, R s t → R' s t) : Keeps R' p :=
  fun s a s' hrun => h s s' (hp s a s' hrun)

/-- What every run keeps, it keeps if it returns. -/
theorem Returns.keeps {Q : α → Prop} {p : StateT σ (Except ε) α} (hp : Returns R Q p) : Keeps R p := by
  intro s a s' h
  obtain ⟨a', s1, hrun, hR, -⟩ := hp s
  obtain ⟨-, rfl⟩ := Prod.mk.inj (Except.ok.inj (hrun.symm.trans h))
  exact hR

end Keeps

section Simulates

variable {σ τ ε α β γ δ : Type} {view : σ → τ}

/-- Where the program `q` on a part of the state returns, the program `p` returns what `f` makes of it, and leaves the part of the state
as `q` does. -/
def Simulates (view : σ → τ) (f : γ → α) (p : StateT σ (Except ε) α) (q : StateT τ (Except ε) γ) : Prop :=
  ∀ s c t, q.run (view s) = .ok (c, t) → ∃ s', p.run s = .ok (f c, s') ∧ view s' = t

theorem Simulates.pure {f : γ → α} {a : α} {c : γ} (h : f c = a) :
    Simulates view f (pure a : StateT σ (Except ε) α) (pure c : StateT τ (Except ε) γ) := by
  intro s d t hrun
  obtain ⟨rfl, rfl⟩ := Prod.mk.inj (Except.ok.inj hrun)
  exact ⟨s, by rw [h]; rfl, rfl⟩

/-- Programs in a row simulate programs in a row. -/
theorem Simulates.bind {f : γ → α} {g : δ → β} {p : StateT σ (Except ε) α} {q : StateT τ (Except ε) γ}
    {k : α → StateT σ (Except ε) β} {l : γ → StateT τ (Except ε) δ} (hp : Simulates view f p q)
    (hk : ∀ c, Simulates view g (k (f c)) (l c)) : Simulates view g (p >>= k) (q >>= l) := by
  intro s d t hrun
  cases hq : q.run (view s) with
  | error e =>
    rw [StateT.run_bind, hq] at hrun
    nomatch hrun
  | ok r =>
    obtain ⟨c, t₁⟩ := r
    rw [run_bind_of_ok hq] at hrun
    obtain ⟨s₁, hrun₁, rfl⟩ := hp s c t₁ hq
    obtain ⟨s₂, hrun₂, hview⟩ := hk c s₁ d t hrun
    exact ⟨s₂, by rw [run_bind_of_ok hrun₁, hrun₂], hview⟩

/-- What leaves the part of the state alone needs no counterpart. -/
theorem Simulates.stutter {g : δ → β} {p : StateT σ (Except ε) α} {k : α → StateT σ (Except ε) β} {l : StateT τ (Except ε) δ} {a : α}
    (hp : ∀ s, ∃ s', p.run s = .ok (a, s') ∧ view s' = view s) (hk : Simulates view g (k a) l) : Simulates view g (p >>= k) l := by
  intro s d t hrun
  obtain ⟨s₁, hrun₁, hview₁⟩ := hp s
  rw [← hview₁] at hrun
  obtain ⟨s₂, hrun₂, hview₂⟩ := hk s₁ d t hrun
  exact ⟨s₂, by rw [run_bind_of_ok hrun₁, hrun₂], hview₂⟩

/-- A value that is returned counts as what `f` makes of it. -/
theorem Simulates.pure_congr {f : γ → α} {p : StateT σ (Except ε) α} {c c' : γ} (hc : f c = f c')
    (h : Simulates view f p (Pure.pure c : StateT τ (Except ε) γ)) : Simulates view f p (Pure.pure c' : StateT τ (Except ε) γ) := by
  intro s d t hrun
  obtain ⟨rfl, rfl⟩ := Prod.mk.inj (Except.ok.inj hrun)
  rw [← hc]
  exact h s c (view s) rfl

/-- What `q` makes of its value at the end is left to `g`. -/
theorem Simulates.map {h : γ → δ} {g : δ → α} {p : StateT σ (Except ε) α} {q : StateT τ (Except ε) γ} {l : γ → StateT τ (Except ε) δ}
    (hp : Simulates view (fun c => g (h c)) p q) (hl : ∀ c, l c = Pure.pure (h c)) : Simulates view g p (q >>= l) := by
  intro s d t hrun
  cases hq : q.run (view s) with
  | error e =>
    rw [StateT.run_bind, hq] at hrun
    nomatch hrun
  | ok r =>
    obtain ⟨c, t₁⟩ := r
    rw [run_bind_of_ok hq, hl] at hrun
    obtain ⟨rfl, rfl⟩ := Prod.mk.inj (Except.ok.inj hrun)
    exact hp s c t₁ hq

end Simulates

end Feed
