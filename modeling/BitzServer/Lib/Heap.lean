import BitzServer.Lib.Feed
import Mathlib.Algebra.Order.Group.Multiset
import Mathlib.Data.List.AList

/-!
# Objects on a heap

Programs that make objects, read and write them through their addresses, and delete them. To use an address where no object is, or no
object any more, is an error. A framed triple says what a program that owns some objects does, whatever else is on the heap: it returns,
it leaves the objects of others as they are, and it owns what it has made and not deleted.
-/

/-- The objects that are there, by their addresses, and the next address. No address is given out twice. -/
structure Heap (ο : Type) where
  objects : AList (fun _ : Nat => ο)
  next : Nat
  below : ∀ p ∈ objects, p < next

/-- Some objects with their addresses, in any order. -/
abbrev Heap.Objects (ο : Type) : Type := Multiset (Σ _ : Nat, ο)

namespace Heap

variable {ο σ ε ε' α γ : Type}

/-- One more object. -/
def insert (h : Heap ο) (o : ο) : Heap ο where
  objects := h.objects.insert h.next o
  next := h.next + 1
  below := by
    intro p hp
    rcases (AList.mem_insert _).mp hp with rfl | hp
    · exact Nat.lt_succ_self _
    · exact Nat.lt_succ_of_lt (h.below p hp)

/-- The object at an address is another one. -/
def replace (h : Heap ο) (p : Nat) (o : ο) : Heap ο where
  objects := h.objects.replace p o
  next := h.next
  below := fun q hq => h.below q (AList.mem_replace.mp hq)

/-- One object less. -/
def remove (h : Heap ο) (p : Nat) : Heap ο where
  objects := h.objects.erase p
  next := h.next
  below := fun q hq => h.below q (AList.mem_erase.mp hq).2

/-- All objects of the heap. -/
def owned (h : Heap ο) : Objects ο := h.objects.entries

theorem owned_insert (h : Heap ο) (o : ο) : (h.insert o).owned = ⟨h.next, o⟩ ::ₘ h.owned := by
  rw [owned, insert, AList.entries_insert_of_notMem fun hmem => absurd (h.below _ hmem) (Nat.lt_irrefl _)]
  rfl

section Owned

variable {h : Heap ο} {p : Nat} {o : ο} {rest : Objects ο}

theorem lookup_of_owned (hown : h.owned = ⟨p, o⟩ ::ₘ rest) : h.objects.lookup p = some o := by
  have hmem : ⟨p, o⟩ ∈ h.owned := hown ▸ Multiset.mem_cons_self _ _
  exact AList.mem_lookup_iff.mpr hmem

theorem owned_replace (hown : h.owned = ⟨p, o⟩ ::ₘ rest) (o' : ο) : (h.replace p o').owned = ⟨p, o'⟩ ::ₘ rest := by
  induction rest using Quotient.inductionOn with
  | h l =>
    have hcons : List.kreplace p o' (⟨p, o⟩ :: l) = ⟨p, o'⟩ :: l := List.lookmap_cons_some _ _ (if_pos rfl)
    have hperm := (Multiset.coe_eq_coe.mp hown).kreplace (a := p) (b := o') h.objects.nodupKeys
    rw [hcons] at hperm
    exact Multiset.coe_eq_coe.mpr hperm

theorem owned_remove (hown : h.owned = ⟨p, o⟩ ::ₘ rest) : (h.remove p).owned = rest := by
  induction rest using Quotient.inductionOn with
  | h l =>
    have hcons : List.kerase p (⟨p, o⟩ :: l) = l := List.kerase_cons_eq rfl
    have hperm := (Multiset.coe_eq_coe.mp hown).kerase (a := p) h.objects.nodupKeys
    rw [hcons] at hperm
    exact Multiset.coe_eq_coe.mpr hperm

end Owned

/-! ## Programs -/

/-- `new`: the address of the object -/
def alloc (o : ο) : StateT (Heap ο × σ) (Except ε) Nat := fun s => .ok (s.1.next, (s.1.insert o, s.2))

/-- The object at an address. -/
def load (dangling : ε) (p : Nat) : StateT (Heap ο × σ) (Except ε) ο := fun s =>
  match s.1.objects.lookup p with
  | some o => .ok (o, s)
  | none => .error dangling

/-- An assignment to the object at an address. -/
def store (dangling : ε) (p : Nat) (o : ο) : StateT (Heap ο × σ) (Except ε) Unit := fun s =>
  match s.1.objects.lookup p with
  | some _ => .ok ((), (s.1.replace p o, s.2))
  | none => .error dangling

/-- `delete` -/
def free (dangling : ε) (p : Nat) : StateT (Heap ο × σ) (Except ε) Unit := fun s =>
  match s.1.objects.lookup p with
  | some _ => .ok ((), (s.1.remove p, s.2))
  | none => .error dangling

/-- A program on the rest of the state, with errors of its own. -/
def onRest (wrap : ε' → ε) (p : StateT σ (Except ε') α) : StateT (Heap ο × σ) (Except ε) α := fun s =>
  match p.run s.2 with
  | .ok (a, rest) => .ok (a, (s.1, rest))
  | .error e => .error (wrap e)

/-! ## Triples -/

section Triple

variable {own : Objects ο} {s s' : σ} {post : α → Objects ο → σ → Prop} {post' : γ → Objects ο → σ → Prop} {p : Nat} {o : ο}
  {dangling : ε}

/-- On every heap with the objects `own`, and from `s`, the program returns; the other objects are there as before, and what it returns, what
there is instead of `own` and the rest of the state are as `post` says. -/
def Triple (own : Objects ο) (s : σ) (prog : StateT (Heap ο × σ) (Except ε) α) (post : α → Objects ο → σ → Prop) : Prop :=
  ∀ (h : Heap ο) (frame : Objects ο), h.owned = own + frame →
    ∃ a h' own' s', prog.run (h, s) = .ok (a, (h', s')) ∧ h'.owned = own' + frame ∧ post a own' s'

theorem Triple.pure {a : α} (h : post a own s) : Triple own s (Pure.pure a : StateT (Heap ο × σ) (Except ε) α) post :=
  fun heap _ hown => ⟨a, heap, own, s, rfl, hown, h⟩

/-- The second program owns what the first one leaves. -/
theorem Triple.bind {prog : StateT (Heap ο × σ) (Except ε) α} {k : α → StateT (Heap ο × σ) (Except ε) γ}
    (hprog : Triple own s prog post) (hk : ∀ a own' s', post a own' s' → Triple own' s' (k a) post') :
    Triple own s (prog >>= k) post' := by
  intro h others hown
  obtain ⟨a, h₁, own₁, s₁, hrun₁, hown₁, hpost⟩ := hprog h others hown
  obtain ⟨c, h₂, own₂, s₂, hrun₂, hrest⟩ := hk a own₁ s₁ hpost h₁ others hown₁
  exact ⟨c, h₂, own₂, s₂, (Feed.run_bind_of_ok hrun₁).trans hrun₂, hrest⟩

theorem Triple.mono {prog : StateT (Heap ο × σ) (Except ε) α} {post₁ : α → Objects ο → σ → Prop} (hprog : Triple own s prog post)
    (h : ∀ a own' s', post a own' s' → post₁ a own' s') : Triple own s prog post₁ := by
  intro heap others hown
  obtain ⟨a, h', own', s', hrun, hown', hpost⟩ := hprog heap others hown
  exact ⟨a, h', own', s', hrun, hown', h a own' s' hpost⟩

/-- The program owns what it makes. -/
theorem Triple.alloc {k : Nat → StateT (Heap ο × σ) (Except ε) γ} (hk : ∀ p, Triple (⟨p, o⟩ ::ₘ own) s (k p) post') :
    Triple own s (Heap.alloc o >>= k) post' := by
  intro h others hown
  obtain ⟨c, h', own', s', hrun, hrest⟩ :=
    hk h.next (h.insert o) others (by rw [owned_insert, hown, Multiset.cons_add])
  exact ⟨c, h', own', s', (Feed.run_bind_of_ok rfl).trans hrun, hrest⟩

/-- An object of its own can be read. -/
theorem Triple.load {k : ο → StateT (Heap ο × σ) (Except ε) γ} (hmem : ⟨p, o⟩ ∈ own) (hk : Triple own s (k o) post') :
    Triple own s (Heap.load dangling p >>= k) post' := by
  intro h others hown
  obtain ⟨rest, rfl⟩ := Multiset.exists_cons_of_mem hmem
  have hrun : (Heap.load dangling p).run (h, s) = .ok (o, (h, s)) := by
    simp only [Heap.load, StateT.run, lookup_of_owned (hown.trans (Multiset.cons_add _ _ _))]
  obtain ⟨c, h', own', s', hrun', hrest⟩ := hk h others hown
  exact ⟨c, h', own', s', (Feed.run_bind_of_ok hrun).trans hrun', hrest⟩

/-- An object of its own can be written. -/
theorem Triple.store {o' : ο} {k : Unit → StateT (Heap ο × σ) (Except ε) γ} (hk : Triple (⟨p, o'⟩ ::ₘ own) s (k ()) post') :
    Triple (⟨p, o⟩ ::ₘ own) s (Heap.store dangling p o' >>= k) post' := by
  intro h others hown
  rw [Multiset.cons_add] at hown
  have hrun : (Heap.store dangling p o').run (h, s) = .ok ((), (h.replace p o', s)) := by
    simp only [Heap.store, StateT.run, lookup_of_owned hown]
  obtain ⟨c, h', own', s', hrun', hrest⟩ := hk (h.replace p o') others (by rw [owned_replace hown, Multiset.cons_add])
  exact ⟨c, h', own', s', (Feed.run_bind_of_ok hrun).trans hrun', hrest⟩

/-- An object of its own can be deleted, once. -/
theorem Triple.free {k : Unit → StateT (Heap ο × σ) (Except ε) γ} (hk : Triple own s (k ()) post') :
    Triple (⟨p, o⟩ ::ₘ own) s (Heap.free dangling p >>= k) post' := by
  intro h others hown
  rw [Multiset.cons_add] at hown
  have hrun : (Heap.free dangling p).run (h, s) = .ok ((), (h.remove p, s)) := by
    simp only [Heap.free, StateT.run, lookup_of_owned hown]
  obtain ⟨c, h', own', s', hrun', hrest⟩ := hk (h.remove p) others (owned_remove hown)
  exact ⟨c, h', own', s', (Feed.run_bind_of_ok hrun).trans hrun', hrest⟩

/-- What a program on the rest of the state does. -/
theorem Triple.onRest {wrap : ε' → ε} {q : StateT σ (Except ε') α} {a : α} {k : α → StateT (Heap ο × σ) (Except ε) γ}
    (hrun : q.run s = .ok (a, s')) (hk : Triple own s' (k a) post') : Triple own s (Heap.onRest wrap q >>= k) post' := by
  intro h others hown
  have hrun₁ : (Heap.onRest wrap q).run (h, s) = .ok (a, (h, s')) := by
    have hq : q s = .ok (a, s') := hrun
    simp only [Heap.onRest, StateT.run, hq]
  obtain ⟨c, h', own', s'', hrun', hrest⟩ := hk h others hown
  exact ⟨c, h', own', s'', (Feed.run_bind_of_ok hrun₁).trans hrun', hrest⟩

end Triple

end Heap
