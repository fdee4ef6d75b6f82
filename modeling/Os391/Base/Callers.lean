/-
Processes that start each other. Each of several consoles has one process in front; a process that started
another one waits until that one has ended, and only then is in front again. Processes are known by numbers
that are used again, and the rules here say when no number stands for two of them.
-/
import Mathlib.Tactic

namespace Callers

variable {τ π : Type}

/-- An updated map gives the new value or an old one. -/
theorem update_eq_some {α β : Type} [DecidableEq α] {f : α → Option β} {a x : α} {b y : β}
    (h : Function.update f a (some b) x = some y) : (x = a ∧ y = b) ∨ (x ≠ a ∧ f x = some y) := by
  by_cases hx : x = a
  · rw [hx, Function.update_self] at h
    exact Or.inl ⟨hx, (Option.some.inj h).symm⟩
  · rw [Function.update_of_ne hx] at h
    exact Or.inr ⟨hx, h⟩

/-- The process in front of each console, the caller that waits for each process, and the numbers that are
taken. The `root` ones return to no caller; the numbers in `E` never stand for two processes. -/
structure Owned (root E : π → Prop) (front : τ → Option π) (caller : π → Option π) (taken : π → Prop) : Prop where
  alive : ∀ {u m}, front u = some m → E m → taken m
  apart : ∀ {u v m}, front u = some m → front v = some m → E m → u = v
  known : ∀ {u m}, front u = some m → ¬ root m → caller m ≠ none
  notRoot : ∀ {c k}, caller c = some k → ¬ root c
  child : ∀ {c k}, caller c = some k → taken c
  waiting : ∀ {c k}, caller c = some k → E k → taken k
  callerKnown : ∀ {c k}, caller c = some k → ¬ root k → caller k ≠ none
  idle : ∀ {c k u}, caller c = some k → E k → front u ≠ some k
  once : ∀ {c c' k}, caller c = some k → caller c' = some k → E k → c = c'

variable {root E : π → Prop} {front : τ → Option π} {caller : π → Option π} {taken taken' : π → Prop}

namespace Owned

/-- Nothing runs yet. -/
theorem empty : Owned root E (fun _ : τ => none) (fun _ => none) taken where
  alive hf := by cases hf
  apart hf := by cases hf
  known hf := by cases hf
  notRoot hc := by cases hc
  child hc := by cases hc
  waiting hc := by cases hc
  callerKnown hc := by cases hc
  idle hc := by cases hc
  once hc := by cases hc

/-- More numbers may be taken. -/
theorem mono (h : Owned root E front caller taken) (ht : ∀ m, taken m → taken' m) :
    Owned root E front caller taken' where
  alive hf hE := ht _ (h.alive hf hE)
  apart := h.apart
  known := h.known
  notRoot := h.notRoot
  child hc := ht _ (h.child hc)
  waiting hc hE := ht _ (h.waiting hc hE)
  callerKnown := h.callerKnown
  idle := h.idle
  once := h.once

theorem update_ne_none [DecidableEq π] {n m p : π} (h : caller m ≠ none) : Function.update caller n (some p) m ≠ none := by
  by_cases hm : m = n
  · rw [hm, Function.update_self]
    exact Option.some_ne_none p
  · rwa [Function.update_of_ne hm]

/-- The process in front starts one that returns to it, under a number that is not taken. -/
theorem push [DecidableEq τ] [DecidableEq π] {u : τ} {n p : π} (h : Owned root E front caller taken)
    (hp : front u = some p) (hn : ¬ root n) (hfree : ¬ taken n) (ht : ∀ m, taken m → taken' m) (htn : taken' n) :
    Owned root E (Function.update front u (some n)) (Function.update caller n (some p)) taken' := by
  constructor
  · intro v m hv hm
    rcases update_eq_some hv with ⟨rfl, rfl⟩ | ⟨-, hv⟩
    · exact htn
    · exact ht m (h.alive hv hm)
  · intro v w m hv hw hm
    rcases update_eq_some hv with ⟨rfl, rfl⟩ | ⟨-, hv'⟩ <;> rcases update_eq_some hw with ⟨rfl, hmn⟩ | ⟨-, hw'⟩
    · rfl
    · exact absurd (h.alive hw' hm) hfree
    · subst hmn
      exact absurd (h.alive hv' hm) hfree
    · exact h.apart hv' hw' hm
  · intro v m hv hm
    rcases update_eq_some hv with ⟨rfl, rfl⟩ | ⟨-, hv⟩
    · rw [Function.update_self]
      exact Option.some_ne_none p
    · exact update_ne_none (h.known hv hm)
  · intro c k hc
    rcases update_eq_some hc with ⟨rfl, rfl⟩ | ⟨-, hc⟩
    · exact hn
    · exact h.notRoot hc
  · intro c k hc
    rcases update_eq_some hc with ⟨rfl, rfl⟩ | ⟨-, hc⟩
    · exact htn
    · exact ht c (h.child hc)
  · intro c k hc hk
    rcases update_eq_some hc with ⟨rfl, rfl⟩ | ⟨-, hc⟩
    · exact ht k (h.alive hp hk)
    · exact ht k (h.waiting hc hk)
  · intro c k hc hk
    rcases update_eq_some hc with ⟨rfl, rfl⟩ | ⟨-, hc⟩
    · exact update_ne_none (h.known hp hk)
    · exact update_ne_none (h.callerKnown hc hk)
  · intro c k v hc hk hv
    rcases update_eq_some hc with ⟨rfl, rfl⟩ | ⟨-, hc'⟩ <;> rcases update_eq_some hv with ⟨rfl, hkn⟩ | ⟨huv, hv'⟩
    · subst hkn
      exact hfree (h.alive hp hk)
    · exact huv (h.apart hv' hp hk)
    · subst hkn
      exact hfree (h.waiting hc' hk)
    · exact h.idle hc' hk hv'
  · intro c c' k hc hc' hk
    rcases update_eq_some hc with ⟨rfl, rfl⟩ | ⟨-, h1⟩ <;> rcases update_eq_some hc' with ⟨rfl, hkp⟩ | ⟨-, h2⟩
    · rfl
    · exact absurd hp (h.idle h2 hk)
    · subst hkp
      exact absurd hp (h.idle h1 hk)
    · exact h.once h1 h2 hk

/-- A root is put in front, in the place of what was there. Only a root that was in front there may give up
its number. -/
theorem plant [DecidableEq τ] {u : τ} {n : π} (h : Owned root E front caller taken) (hn : root n)
    (hfree : E n → ¬ taken n ∨ front u = some n)
    (ht : ∀ m, taken m → taken' m ∨ (front u = some m ∧ root m)) (htn : taken' n) :
    Owned root E (Function.update front u (some n)) caller taken' := by
  -- the new root is in front nowhere else
  have hnew : ∀ {v}, v ≠ u → E n → front v ≠ some n := by
    intro v huv hE hv
    rcases hfree hE with hf | hf
    · exact hf (h.alive hv hE)
    · exact huv (h.apart hv hf hE)
  constructor
  · intro v m hv hm
    rcases update_eq_some hv with ⟨rfl, rfl⟩ | ⟨huv, hv⟩
    · exact htn
    · rcases ht m (h.alive hv hm) with ht | ⟨hu, -⟩
      · exact ht
      · exact absurd (h.apart hv hu hm) huv
  · intro v w m hv hw hm
    rcases update_eq_some hv with ⟨rfl, rfl⟩ | ⟨hvu, hv'⟩ <;> rcases update_eq_some hw with ⟨rfl, hmn⟩ | ⟨hwu, hw'⟩
    · rfl
    · exact absurd hw' (hnew hwu hm)
    · subst hmn
      exact absurd hv' (hnew hvu hm)
    · exact h.apart hv' hw' hm
  · intro v m hv hm
    rcases update_eq_some hv with ⟨rfl, rfl⟩ | ⟨-, hv⟩
    · exact absurd hn hm
    · exact h.known hv hm
  · exact h.notRoot
  · intro c k hc
    rcases ht c (h.child hc) with ht | ⟨-, hr⟩
    · exact ht
    · exact absurd hr (h.notRoot hc)
  · intro c k hc hk
    rcases ht k (h.waiting hc hk) with ht | ⟨hu, -⟩
    · exact ht
    · exact absurd hu (h.idle hc hk)
  · exact h.callerKnown
  · intro c k v hc hk hv
    rcases update_eq_some hv with ⟨rfl, rfl⟩ | ⟨-, hv⟩
    · rcases hfree hk with hf | hf
      · exact hf (h.waiting hc hk)
      · exact h.idle hc hk hf
    · exact h.idle hc hk hv
  · exact h.once

/-- The process in front ends, and its caller is in front again. -/
theorem pop [DecidableEq τ] [DecidableEq π] {u : τ} {c k : π} (h : Owned root E front caller taken) (hE : ∀ m, ¬ root m → E m)
    (hu : front u = some c) (hc : caller c = some k) (ht : ∀ m, m ≠ c → taken m → taken' m) :
    Owned root E (Function.update front u (some k)) (Function.update caller c none) taken' := by
  have hEc : E c := hE c (h.notRoot hc)
  have hcaller : ∀ {c' k'}, Function.update caller c none c' = some k' → c' ≠ c ∧ caller c' = some k' := by
    intro c' k' hc'
    by_cases hcc : c' = c
    · rw [hcc, Function.update_self] at hc'
      cases hc'
    · rw [Function.update_of_ne hcc] at hc'
      exact ⟨hcc, hc'⟩
  -- nobody waits as `c`, and `c` is in front nowhere else
  have hwait : ∀ {c' k'}, caller c' = some k' → k' ≠ c := by
    rintro c' k' hc' rfl
    exact h.idle hc' hEc hu
  have helse : ∀ {v m}, v ≠ u → front v = some m → m ≠ c := by
    rintro v m huv hv rfl
    exact huv (h.apart hv hu hEc)
  constructor
  · intro v m hv hm
    rcases update_eq_some hv with ⟨rfl, rfl⟩ | ⟨huv, hv⟩
    · exact ht m (hwait hc) (h.waiting hc hm)
    · exact ht m (helse huv hv) (h.alive hv hm)
  · intro v w m hv hw hm
    rcases update_eq_some hv with ⟨rfl, rfl⟩ | ⟨-, hv'⟩ <;> rcases update_eq_some hw with ⟨rfl, hmk⟩ | ⟨-, hw'⟩
    · rfl
    · exact absurd hw' (h.idle hc hm)
    · subst hmk
      exact absurd hv' (h.idle hc hm)
    · exact h.apart hv' hw' hm
  · intro v m hv hm
    rcases update_eq_some hv with ⟨rfl, rfl⟩ | ⟨huv, hv⟩
    · rw [Function.update_of_ne (hwait hc)]
      exact h.callerKnown hc hm
    · rw [Function.update_of_ne (helse huv hv)]
      exact h.known hv hm
  · intro c' k' hc'
    exact h.notRoot (hcaller hc').2
  · intro c' k' hc'
    obtain ⟨hne, hc'⟩ := hcaller hc'
    exact ht c' hne (h.child hc')
  · intro c' k' hc' hk'
    obtain ⟨-, hc'⟩ := hcaller hc'
    exact ht k' (hwait hc') (h.waiting hc' hk')
  · intro c' k' hc' hk'
    obtain ⟨-, hc'⟩ := hcaller hc'
    rw [Function.update_of_ne (hwait hc')]
    exact h.callerKnown hc' hk'
  · intro c' k' v hc' hk' hv
    obtain ⟨hne, hc'⟩ := hcaller hc'
    rcases update_eq_some hv with ⟨rfl, rfl⟩ | ⟨-, hv⟩
    · exact hne (h.once hc' hc hk')
    · exact h.idle hc' hk' hv
  · intro c1 c2 k' h1 h2 hk'
    exact h.once (hcaller h1).2 (hcaller h2).2 hk'

end Owned

end Callers
