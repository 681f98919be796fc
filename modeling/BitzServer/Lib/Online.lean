import BitzServer.Lib.Feed
import Mathlib.Data.List.Infix

/-!
# Programs that do not look ahead

A program with input and output runs on an input that ends, and on a longer one. `Online t R p q` compares the two runs: as long as the
end of the shorter input has not been met, `q` on the input with `t` behind it does what `p` does on the input without it; where `p` has
met the end, what it has output till then stands at the beginning of what `q` outputs. A peer that waits for output before it sends more
input can then be served in rounds, each of them a run on all the input so far.
-/

namespace Feed

/-- A state with input, which may have ended, and output. -/
class Channel (σ : Type) (β γ : outParam Type) where
  /-- the end of the input has not been met -/
  live : σ → Prop
  /-- the state with more input behind what is there -/
  more : List β → σ → σ
  output : σ → List γ
  output_more : ∀ t s, output (more t s) = output s
  more_append : ∀ t u s, more (t ++ u) s = more u (more t s)

open Channel

section Relations

variable {σ β γ : Type} [Channel σ β γ]

/-- After the end of the input nothing is output. -/
def Silent (s s' : σ) : Prop := ¬live s → ¬live s' ∧ output s' = output s

/-- What is output is not taken back. -/
def Grows (s s' : σ) : Prop := output s <+: output s'

instance : Std.Refl (Silent (σ := σ)) := ⟨fun _ h => ⟨h, rfl⟩⟩

instance : IsTrans σ Silent := by
  refine ⟨fun s s₁ s₂ h h' hs => ?_⟩
  obtain ⟨hs₁, hout₁⟩ := h hs
  obtain ⟨hs₂, hout₂⟩ := h' hs₁
  exact ⟨hs₂, hout₂.trans hout₁⟩

instance : Std.Refl (Grows (σ := σ)) := ⟨fun s => List.prefix_refl (output s)⟩

instance : IsTrans σ Grows := ⟨fun _ _ _ h h' => List.IsPrefix.trans h h'⟩

end Relations

section Online

variable {σ β γ ε α α' δ δ' : Type} [Channel σ β γ]

/-- Programs in a row return if the first one returns, and the second one after it. -/
theorem exists_run_of_bind {p : StateT σ (Except ε) α} {f : α → StateT σ (Except ε) δ} {s s' : σ} {c : δ}
    (h : (p >>= f).run s = .ok (c, s')) : ∃ a s₁, p.run s = .ok (a, s₁) ∧ (f a).run s₁ = .ok (c, s') := by
  cases hp : p.run s with
  | error e =>
    rw [StateT.run_bind, hp] at h
    nomatch h
  | ok r =>
    rw [run_bind_of_ok hp] at h
    exact ⟨r.1, r.2, rfl, h⟩

/-- The program `q` on an input with `t` behind it, against the program `p` on the input alone; the values are related by `R`. -/
structure Online (t : List β) (R : α → α' → Prop) (p : StateT σ (Except ε) α) (q : StateT σ (Except ε) α') : Prop where
  /-- before the end of the shorter input both do the same -/
  live : ∀ {s a s'}, live s → p.run s = .ok (a, s') → live s' → ∃ b, q.run (more t s) = .ok (b, more t s') ∧ R a b
  /-- what has been output at the end of the shorter input is output on the longer one as well -/
  ended : ∀ {s a s' b s₂}, Channel.live s → p.run s = .ok (a, s') → ¬Channel.live s' → q.run (more t s) = .ok (b, s₂) →
    output s' <+: output s₂
  silent : Keeps Silent p
  grows : Keeps Grows q

variable {t : List β} {R : α → α' → Prop} {R' : δ → δ' → Prop}

namespace Online

theorem pure {a : α} {b : α'} (h : R a b) :
    Online t R (pure a : StateT σ (Except ε) α) (pure b : StateT σ (Except ε) α') where
  live := by
    intro s a' s' _ hrun _
    obtain ⟨rfl, rfl⟩ := Prod.mk.inj (Except.ok.inj hrun)
    exact ⟨b, rfl, h⟩
  ended := by
    intro s a' s' b' s₂ hlive hrun hdead _
    obtain ⟨-, rfl⟩ := Prod.mk.inj (Except.ok.inj hrun)
    exact absurd hlive hdead
  silent := Keeps.pure a
  grows := Keeps.pure b

/-- What does not return on the shorter input is compared with nothing. -/
theorem throw (e : ε) {q : StateT σ (Except ε) α'} (hq : Keeps Grows q) :
    Online t R (throw e : StateT σ (Except ε) α) q where
  live := fun _ hrun => absurd hrun nofun
  ended := fun _ hrun => absurd hrun nofun
  silent := Keeps.throw e
  grows := hq

/-- What is said of the values may be weakened. -/
theorem mono {R₁ : α → α' → Prop} {p : StateT σ (Except ε) α} {q : StateT σ (Except ε) α'} (h : Online t R p q)
    (hR : ∀ a b, R a b → R₁ a b) : Online t R₁ p q where
  live := by
    intro s a s' hs hrun hs'
    obtain ⟨b, hq, hab⟩ := h.live hs hrun hs'
    exact ⟨b, hq, hR a b hab⟩
  ended := h.ended
  silent := h.silent
  grows := h.grows

/-- Programs in a row. -/
theorem bind {p : StateT σ (Except ε) α} {q : StateT σ (Except ε) α'} {f : α → StateT σ (Except ε) δ}
    {g : α' → StateT σ (Except ε) δ'} (hp : Online t R p q) (hsilent : ∀ a, Keeps Silent (f a)) (hgrows : ∀ b, Keeps Grows (g b))
    (hf : ∀ a b, R a b → Online t R' (f a) (g b)) : Online t R' (p >>= f) (q >>= g) where
  live := by
    intro s c s' hs hrun hs'
    obtain ⟨a, s₁, hrun₁, hrun₂⟩ := exists_run_of_bind hrun
    have hs₁ : Channel.live s₁ := by
      by_contra hdead
      exact (hsilent a s₁ c s' hrun₂ hdead).1 hs'
    obtain ⟨b, hq, hab⟩ := hp.live hs hrun₁ hs₁
    obtain ⟨d, hg, hcd⟩ := (hf a b hab).live hs₁ hrun₂ hs'
    exact ⟨d, by rw [run_bind_of_ok hq, hg], hcd⟩
  ended := by
    intro s c s' d s₂ hs hrun hs' hlong
    obtain ⟨a, s₁, hrun₁, hrun₂⟩ := exists_run_of_bind hrun
    by_cases hs₁ : Channel.live s₁
    · obtain ⟨b, hq, hab⟩ := hp.live hs hrun₁ hs₁
      rw [run_bind_of_ok hq] at hlong
      exact (hf a b hab).ended hs₁ hrun₂ hs' hlong
    · -- the end is met in the first program: the second one is silent on the shorter input
      obtain ⟨b, s₃, hq, hg⟩ := exists_run_of_bind hlong
      rw [(hsilent a s₁ c s' hrun₂ hs₁).2]
      exact (hp.ended hs hrun₁ hs₁ hq).trans (hgrows b s₃ d s₂ hg)
  silent := Keeps.bind hp.silent hsilent
  grows := Keeps.bind hp.grows hgrows

/-- Programs in a row, the second ones compared at all values of the first ones. -/
theorem bind_eq {p q : StateT σ (Except ε) α} {f : α → StateT σ (Except ε) δ} {g : α → StateT σ (Except ε) δ'}
    (hp : Online t Eq p q) (hf : ∀ a, Online t R' (f a) (g a)) : Online t R' (p >>= f) (q >>= g) := by
  refine bind hp (fun a => (hf a).silent) (fun a => (hf a).grows) ?_
  rintro a _ rfl
  exact hf a

/-- Programs in a row, where the value of the first one grows with the input as `m` says. -/
theorem bind_grown {p : StateT σ (Except ε) α} {f : α → StateT σ (Except ε) δ} {m : List β → α → α} {r : List β → δ → δ → Prop}
    (hm : ∀ a, m [] a = a) (hp : Online t (fun a b => b = m t a) p p) (hf : ∀ u a, Online u (r u) (f a) (f (m u a))) :
    Online t (r t) (p >>= f) (p >>= f) := by
  refine bind hp (fun a => (hf [] a).silent) (fun a => ?_) ?_
  · have hgrows := (hf [] a).grows
    rwa [hm] at hgrows
  · rintro a _ rfl
    exact hf t a

/-- A computation without the state. -/
theorem lift (e : Except ε α) : Online t Eq (liftM e : StateT σ (Except ε) α) (liftM e : StateT σ (Except ε) α) := by
  cases e with
  | error e => exact throw e (Keeps.throw e)
  | ok a => exact pure rfl

/-- A loop whose fuel is taken from the state it starts from. -/
theorem ofFuel {r : α → α → Prop} {p : Nat → StateT σ (Except ε) α} {f : σ → Nat}
    (h : ∀ n m, n ≤ m → Online t r (p n) (p m)) (hf : ∀ s, f s ≤ f (more t s)) :
    Online (ε := ε) t r (fun s => p (f s) s) (fun s => p (f s) s) where
  live := fun {s} => (h (f s) (f (more t s)) (hf s)).live
  ended := fun {s} => (h (f s) (f (more t s)) (hf s)).ended
  silent := fun s => (h (f s) (f s) (Nat.le_refl _)).silent s
  grows := fun s => (h (f s) (f s) (Nat.le_refl _)).grows s

/-- What neither outputs nor is kept from going on by the end of the input: it is enough to compare the runs before the end. -/
theorem of_quiet {p q : StateT σ (Except ε) α} (hp : Keeps (fun s s' => output s' = output s ∧ (¬Channel.live s → ¬Channel.live s')) p)
    (hq : Keeps (fun s s' => output s' = output s) q)
    (hlive : ∀ {s a s'}, Channel.live s → p.run s = .ok (a, s') → Channel.live s' → q.run (more t s) = .ok (a, more t s')) :
    Online t Eq p q where
  live := fun hs hrun hs' => ⟨_, hlive hs hrun hs', rfl⟩
  ended := by
    intro s a s' b s₂ _ hrun _ hlong
    rw [(hp s a s' hrun).1, hq _ b s₂ hlong, output_more]
  silent := fun s a s' hrun hdead => ⟨(hp s a s' hrun).2 hdead, (hp s a s' hrun).1⟩
  grows := fun s b s' hrun => by rw [Grows, hq s b s' hrun]

/-- On every input, what is output on the input alone stands at the beginning of what is output on the longer one. -/
theorem output_grows {p : StateT σ (Except ε) α} {q : StateT σ (Except ε) α'} (h : Online t R p q) {s s' s₂ : σ} {a : α} {b : α'}
    (hp : p.run s = .ok (a, s')) (hq : q.run (more t s) = .ok (b, s₂)) : output s' <+: output s₂ := by
  by_cases hs : Channel.live s
  · by_cases hs' : Channel.live s'
    · obtain ⟨b', hq', -⟩ := h.live hs hp hs'
      obtain ⟨-, rfl⟩ := Prod.mk.inj (Except.ok.inj (hq'.symm.trans hq))
      rw [output_more]
    · exact h.ended hs hp hs' hq
  · rw [(h.silent s a s' hp hs).2, ← output_more t s]
    exact h.grows _ b s₂ hq

end Online

end Online

section Rounds

variable {σ β γ ε α : Type} [Channel σ β γ]

/-- A peer that decides by what it has seen what it sends, all of it; when it sees more, it goes on sending. -/
structure Peer (β γ : Type) where
  sends : List γ → List β
  goesOn : ∀ {seen seen' : List γ}, seen <+: seen' → sends seen <+: sends seen'

/-- What a program has output when it has met the end of this input. -/
def outputOn (p : StateT σ (Except ε) α) (s : σ) (input : List β) : List γ :=
  match p.run (more input s) with
  | .ok (_, s') => output s'
  | .error _ => output s

/-- What the peer has seen after a number of rounds: in each of them the program runs on all that the peer has sent. -/
def rounds (p : StateT σ (Except ε) α) (s : σ) (peer : Peer β γ) : Nat → List γ
  | 0 => output s
  | n + 1 => outputOn p s (peer.sends (rounds p s peer n))

theorem outputOn_of_run {p : StateT σ (Except ε) α} {s s' : σ} {input : List β} {a : α} (h : p.run (more input s) = .ok (a, s')) :
    outputOn p s input = output s' := by
  rw [outputOn, h]

/-- What a program that returns and does not look ahead has output grows with its input. -/
theorem outputOn_grows {p : StateT σ (Except ε) α} {R : List β → α → α → Prop} (hp : ∀ t, Online t (R t) p p)
    (hreturns : ∀ s, ∃ a s', p.run s = .ok (a, s')) (s : σ) {input input' : List β} (h : input <+: input') :
    outputOn p s input <+: outputOn p s input' := by
  obtain ⟨t, rfl⟩ := h
  obtain ⟨a, s', hrun⟩ := hreturns (more input s)
  obtain ⟨b, s₂, hrun₂⟩ := hreturns (more (input ++ t) s)
  rw [outputOn_of_run hrun, outputOn_of_run hrun₂]
  rw [more_append] at hrun₂
  exact (hp t).output_grows hrun hrun₂

/-- In no round is anything taken back that the peer has seen. -/
theorem rounds_grow {p : StateT σ (Except ε) α} {R : List β → α → α → Prop} (hp : ∀ t, Online t (R t) p p)
    (hreturns : ∀ s, ∃ a s', p.run s = .ok (a, s')) (s : σ) (peer : Peer β γ) (n : Nat) :
    rounds p s peer n <+: rounds p s peer (n + 1) := by
  induction n with
  | zero =>
    obtain ⟨a, s', hrun⟩ := hreturns (more (peer.sends (output s)) s)
    rw [rounds, rounds, rounds, outputOn_of_run hrun]
    have hgrows := (hp []).grows _ a s' hrun
    rwa [Grows, output_more] at hgrows
  | succ n ih => exact outputOn_grows hp hreturns s (peer.goesOn ih)

end Rounds

end Feed
