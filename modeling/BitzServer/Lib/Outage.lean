import BitzServer.Lib.Feed
import Mathlib.Data.List.Infix

/-!
# Programs whose output breaks off

A write of a program may fail, and one that fails severs the output: nothing is output from then on. `Severs p` compares a run with one whose
writes do not fail: until a write fails both are the same, and what has been output when one fails stands at the beginning of what is output
without failures, whatever the program does when it learns of the failure.
-/

namespace Feed

/-- A state with output that may be severed. -/
class Outlet (σ : Type) (γ : outParam Type) where
  output : σ → List γ
  /-- a write has failed -/
  Severed : σ → Prop
  /-- each of the next writes that fails severs the output -/
  Fragile : σ → Prop
  /-- the state in which no write fails from now on -/
  repaired : σ → σ
  output_repaired : ∀ s, output (repaired s) = output s

open Outlet

section Severs

variable {σ γ ε α δ : Type} [Outlet σ γ]

/-- Nothing is output once the output is severed. -/
def Mute (s s' : σ) : Prop := Severed s → Severed s' ∧ output s' = output s

/-- What has been output stays. -/
def Extends (s s' : σ) : Prop := output s <+: output s'

instance : Std.Refl (Mute (σ := σ)) := ⟨fun _ h => ⟨h, rfl⟩⟩

instance : IsTrans σ Mute := by
  refine ⟨fun s s₁ s₂ h h' hs => ?_⟩
  obtain ⟨hs₁, hout₁⟩ := h hs
  obtain ⟨hs₂, hout₂⟩ := h' hs₁
  exact ⟨hs₂, hout₂.trans hout₁⟩

instance : Std.Refl (Extends (σ := σ)) := ⟨fun s => List.prefix_refl (output s)⟩

instance : IsTrans σ Extends := ⟨fun _ _ _ h h' => List.IsPrefix.trans h h'⟩

/-- The program where a write may fail, against itself where none does. -/
structure Severs (p : StateT σ (Except ε) α) : Prop where
  /-- no write has failed and both do the same, or one has, and what has been output is output without failures as well -/
  breaks : ∀ {s a s'}, Fragile s → p.run s = .ok (a, s') →
    (p.run (repaired s) = .ok (a, repaired s') ∧ Fragile s') ∨
      (Severed s' ∧ ∀ b s₂, p.run (repaired s) = .ok (b, s₂) → output s' <+: output s₂)
  mute : Keeps Mute p
  grows : Keeps Extends p

namespace Severs

/-- What does not write and does not look whether writes fail. -/
theorem of_quiet {p : StateT σ (Except ε) α} (h : ∀ {s a s'}, p.run s = .ok (a, s') →
    p.run (repaired s) = .ok (a, repaired s') ∧ (Fragile s → Fragile s') ∧ (Severed s → Severed s') ∧ output s' = output s) :
    Severs p where
  breaks := by
    intro s a s' hs hrun
    obtain ⟨hrepaired, hfragile, -, -⟩ := h hrun
    exact .inl ⟨hrepaired, hfragile hs⟩
  mute := by
    intro s a s' hrun hs
    obtain ⟨-, -, hsevered, houtput⟩ := h hrun
    exact ⟨hsevered hs, houtput⟩
  grows := by
    intro s a s' hrun
    rw [Extends, (h hrun).2.2.2]

theorem pure (a : α) : Severs (pure a : StateT σ (Except ε) α) := by
  refine of_quiet fun hrun => ?_
  obtain ⟨⟨⟩, rfl⟩ := eq_of_run_pure hrun
  exact ⟨rfl, id, id, rfl⟩

/-- A computation without the state. -/
theorem lift (e : Except ε α) : Severs (liftM e : StateT σ (Except ε) α) := by
  cases e with
  | error e => exact of_quiet fun hrun => by cases hrun
  | ok a => exact pure a

/-- Programs in a row. -/
theorem bind {p : StateT σ (Except ε) α} {f : α → StateT σ (Except ε) δ} (hp : Severs p) (hf : ∀ a, Severs (f a)) :
    Severs (p >>= f) where
  breaks := by
    intro s c s' hs hrun
    obtain ⟨a, s₁, hrun₁, hrun₂⟩ := exists_of_run_bind hrun
    rcases hp.breaks hs hrun₁ with ⟨hsame, hs₁⟩ | ⟨hs₁, hgrown⟩
    · rw [run_bind_of_ok hsame]
      exact (hf a).breaks hs₁ hrun₂
    · -- a write fails in the first program: the second one outputs nothing
      obtain ⟨hs', hout⟩ := (hf a).mute s₁ c s' hrun₂ hs₁
      refine .inr ⟨hs', fun d s₂ hwhole => ?_⟩
      obtain ⟨b, s₃, hwhole₁, hwhole₂⟩ := exists_of_run_bind hwhole
      rw [hout]
      exact (hgrown b s₃ hwhole₁).trans ((hf b).grows s₃ d s₂ hwhole₂)
  mute := Keeps.bind hp.mute fun a => (hf a).mute
  grows := Keeps.bind hp.grows fun a => (hf a).grows

/-- A loop whose fuel is taken from the state it starts from. -/
theorem ofFuel {p : Nat → StateT σ (Except ε) α} {f : σ → Nat} (h : ∀ n, Severs (p n)) (hf : ∀ s, f (repaired s) = f s) :
    Severs (fun s => p (f s) s : StateT σ (Except ε) α) where
  breaks := by
    intro s a s' hs hrun
    have hrepaired : StateT.run (fun s => p (f s) s : StateT σ (Except ε) α) (repaired s) = (p (f s)).run (repaired s) := by
      show p (f (repaired s)) (repaired s) = _
      rw [hf]
      rfl
    rw [hrepaired]
    exact (h (f s)).breaks hs hrun
  mute := fun s => (h (f s)).mute s
  grows := fun s => (h (f s)).grows s

/-- What has been output is output without failures as well, and if no write has failed both runs are the same. -/
theorem output_prefix {p : StateT σ (Except ε) α} (hp : Severs p) {s s' s₂ : σ} {a b : α} (hs : Fragile s)
    (hrun : p.run s = .ok (a, s')) (hwhole : p.run (repaired s) = .ok (b, s₂)) :
    output s' <+: output s₂ ∧ (¬Severed s' → b = a ∧ s₂ = repaired s') := by
  rcases hp.breaks hs hrun with ⟨hsame, -⟩ | ⟨hs', hgrown⟩
  · obtain ⟨rfl, rfl⟩ := Prod.mk.inj (Except.ok.inj (hwhole.symm.trans hsame))
    rw [output_repaired]
    exact ⟨List.prefix_refl _, fun _ => ⟨rfl, rfl⟩⟩
  · exact ⟨hgrown b s₂ hwhole, fun hnot => absurd hs' hnot⟩

end Severs

end Severs

end Feed
