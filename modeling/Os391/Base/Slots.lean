/-
A table of numbered slots: a partial map whose keys lie in a fixed finite range. A new entry goes
to the least free slot, and an entry can be dropped.
-/
import Mathlib.Tactic
import Mathlib.Order.Bounds.Basic
import Mathlib.Data.Finset.Max

namespace Slots

variable {α β : Type} [LinearOrder α] {dom : Finset α}

/-- The entries, with none outside the range. -/
structure Table (dom : Finset α) (β : Type) where
  entry : α → Option β
  outside : ∀ a, a ∉ dom → entry a = none

namespace Table

/-- The table without entries. -/
def empty : Table dom β := ⟨fun _ => none, fun _ _ => rfl⟩

/-- The free slots. -/
def free (T : Table dom β) : Finset α := dom.filter fun a => (T.entry a).isNone

omit [LinearOrder α] in
theorem mem_free {T : Table dom β} {a : α} : a ∈ T.free ↔ a ∈ dom ∧ T.entry a = none := by
  simp [free]

/-- An entry stored in a slot of the range. -/
def put (T : Table dom β) (a : α) (b : β) : Table dom β :=
  ⟨fun x => if x = a ∧ a ∈ dom then some b else T.entry x, fun x hx => by
    rw [if_neg (by rintro ⟨rfl, h⟩; exact hx h)]
    exact T.outside x hx⟩

/-- An entry for the least free slot, with the slot; nothing when the table is full. -/
def take (T : Table dom β) (b : β) : Option (α × Table dom β) :=
  if h : T.free.Nonempty then some (T.free.min' h, T.put (T.free.min' h) b) else none

/-- A slot freed. -/
def drop (T : Table dom β) (a : α) : Table dom β :=
  ⟨Function.update T.entry a none, fun x hx => by
    by_cases h : x = a
    · rw [h, Function.update_self]
    · rw [Function.update_of_ne h]; exact T.outside x hx⟩

@[simp] theorem drop_entry (T : Table dom β) (a : α) : (T.drop a).entry = Function.update T.entry a none := rfl

theorem put_entry {T : Table dom β} {a : α} (b : β) (h : a ∈ dom) :
    (T.put a b).entry = Function.update T.entry a (some b) := by
  funext x
  by_cases hx : x = a
  · rw [hx, Function.update_self]; exact if_pos ⟨rfl, h⟩
  · rw [Function.update_of_ne hx]; exact if_neg fun hc => hx hc.1

theorem take_of_isLeast {T : Table dom β} {a : α} (b : β) (h : IsLeast {x | x ∈ dom ∧ T.entry x = none} a) :
    T.take b = some (a, T.put a b) := by
  have hne : T.free.Nonempty := ⟨a, mem_free.2 h.1⟩
  have hmin : T.free.min' hne = a := by
    apply le_antisymm
    · exact T.free.min'_le a (mem_free.2 h.1)
    · exact h.2 (mem_free.1 (T.free.min'_mem hne))
  unfold take
  rw [dif_pos hne, hmin]

theorem take_of_full {T : Table dom β} (b : β) (h : ∀ a ∈ dom, T.entry a ≠ none) : T.take b = none := by
  unfold take
  rw [dif_neg]
  rintro ⟨a, ha⟩
  exact h a (mem_free.1 ha).1 (mem_free.1 ha).2

end Table

end Slots
