/-
Singly linked lists: the elements that hang on a pointer. They are told by the links, so none of them comes twice, and
walks along the links end. The rules are those for an element put in front, one taken out, and walks.
-/
import Mathlib.Tactic

namespace Chain

variable {α : Type} {next : α → Option α} {p : Option α} {a : α} {l : List α}

/-- The elements that hang on a pointer, in their order. -/
def Linked (next : α → Option α) : Option α → List α → Prop
  | p, [] => p = none
  | p, a :: l => p = some a ∧ Linked next (next a) l

theorem Linked.unique : ∀ {p : Option α} {l l' : List α}, Linked next p l → Linked next p l' → l = l'
  | _, [], [], _, _ => rfl
  | _, [], _ :: _, h, h' => by rw [h] at h'; cases h'.1
  | _, _ :: _, [], h, h' => by rw [h'] at h; cases h.1
  | _, a :: l, b :: l', h, h' => by
    obtain rfl : a = b := Option.some.inj (h.1.symm.trans h'.1)
    rw [h.2.unique h'.2]

/-- From each element on hangs the rest of the list. -/
theorem Linked.split : ∀ {p : Option α} {l1 l2 : List α}, Linked next p (l1 ++ a :: l2) → Linked next (some a) (a :: l2)
  | _, [], _, h => ⟨rfl, h.2⟩
  | _, _ :: _, _, h => h.2.split

theorem Linked.nodup : ∀ {p : Option α} {l : List α}, Linked next p l → l.Nodup
  | _, [], _ => List.nodup_nil
  | p, a :: l, h => by
    refine List.nodup_cons.2 ⟨fun hmem => ?_, h.2.nodup⟩
    obtain ⟨l1, l2, rfl⟩ := List.append_of_mem hmem
    -- the same pointer has the whole list and the rest behind `a` hanging on it
    have hsame := (show Linked next (some a) (a :: (l1 ++ a :: l2)) from ⟨rfl, h.2⟩).unique h.2.split
    have hlen := congrArg List.length hsame
    simp only [List.length_cons, List.length_append] at hlen
    omega

theorem Linked.length_le [Fintype α] (h : Linked next p l) : l.length ≤ Fintype.card α := h.nodup.length_le_card

theorem Linked.congr {next' : α → Option α} : ∀ {p : Option α} {l : List α}, Linked next p l →
    (∀ a ∈ l, next' a = next a) → Linked next' p l
  | _, [], h, _ => h
  | _, a :: l, h, hn => by
    refine ⟨h.1, ?_⟩
    rw [hn a List.mem_cons_self]
    exact h.2.congr fun b hb => hn b (List.mem_cons_of_mem _ hb)

/-- An element put in front. -/
theorem Linked.push [DecidableEq α] (h : Linked next p l) (ha : a ∉ l) :
    Linked (Function.update next a p) (some a) (a :: l) := by
  refine ⟨rfl, ?_⟩
  rw [Function.update_self]
  exact h.congr fun b hb => Function.update_of_ne (ne_of_mem_of_not_mem hb ha) _ _

/-! ## Pointers -/

/-- What a pointer holds: that on which the list hangs, or that of an element. -/
def value (next : α → Option α) (p : Option α) : Option α → Option α
  | none => p
  | some a => next a

/-- The pointer on which the list hangs, after a store to a pointer. -/
def storeHead (p : Option α) (c v : Option α) : Option α := if c.isNone then v else p

/-- The pointers of the elements, after a store to a pointer. -/
def storeNext [DecidableEq α] (next : α → Option α) (c v : Option α) : α → Option α :=
  match c with
  | none => next
  | some b => Function.update next b v

theorem getLast?_cons_or (a : α) (l : List α) (c : Option α) : (a :: l).getLast?.or c = l.getLast?.or (some a) := by
  rw [List.getLast?_cons]
  rcases l.getLast? with _ | b <;> rfl

theorem Linked.unlink_behind [DecidableEq α] {b : α} : ∀ {p : Option α} {l1 l2 : List α},
    Linked next p (l1 ++ b :: a :: l2) → Linked (Function.update next b (next a)) p (l1 ++ b :: l2)
  | p, [], l2, h => by
    have hb : b ∉ l2 := fun hmem => (List.nodup_cons.1 h.nodup).1 (List.mem_cons_of_mem _ hmem)
    refine ⟨h.1, ?_⟩
    rw [Function.update_self]
    exact h.2.2.congr fun c hc => Function.update_of_ne (ne_of_mem_of_not_mem hc hb) _ _
  | p, c :: l1, l2, h => by
    have hc : c ≠ b := by
      rintro rfl
      exact (List.nodup_cons.1 h.nodup).1 (List.mem_append_right _ List.mem_cons_self)
    refine ⟨h.1, ?_⟩
    rw [Function.update_of_ne hc]
    exact h.2.unlink_behind

/-- An element taken out: the pointer that led to it leads to the one behind it. -/
theorem Linked.unlink [DecidableEq α] {l1 l2 : List α} (h : Linked next p (l1 ++ a :: l2)) :
    Linked (storeNext next l1.getLast? (next a)) (storeHead p l1.getLast? (next a)) (l1 ++ l2) := by
  rcases List.eq_nil_or_concat l1 with rfl | ⟨l, b, rfl⟩
  · exact h.2
  · rw [List.concat_eq_append, List.append_assoc] at h
    rw [List.concat_eq_append, List.getLast?_concat, List.append_assoc]
    exact h.unlink_behind

/-! ## Walks -/

/-- The first element for which `q` holds, from a pointer on; `none` when the walk has not ended after so many
elements. -/
def search (next : α → Option α) (q : α → Bool) : Nat → Option α → Option (Option α)
  | 0, _ => none
  | _ + 1, none => some none
  | n + 1, some a => if q a then some (some a) else search next q n (next a)

theorem Linked.search {q : α → Bool} : ∀ {n : Nat} {p : Option α} {l : List α}, Linked next p l → l.length < n →
    search next q n p = some (l.find? q)
  | 0, _, _, _, hn => absurd hn (Nat.not_lt_zero _)
  | n + 1, p, [], h, _ => by rw [show p = none from h]; rfl
  | n + 1, p, a :: l, h, hn => by
    rw [h.1, List.find?_cons]
    unfold Chain.search
    cases q a with
    | true => rfl
    | false => exact h.2.search (Nat.lt_of_succ_lt_succ hn)

/-- The pointer that leads to an element, from the pointer `c` on. -/
def pointerTo [DecidableEq α] (next : α → Option α) (p : Option α) (a : α) : Nat → Option α → Option (Option α)
  | 0, _ => none
  | n + 1, c =>
    if value next p c = some a then some c
    else (value next p c).bind fun b => pointerTo next p a n (some b)

theorem pointerTo_from [DecidableEq α] {p : Option α} : ∀ {n : Nat} {c : Option α} {l1 l2 : List α},
    Linked next (value next p c) (l1 ++ a :: l2) → l1.length < n → pointerTo next p a n c = some (l1.getLast?.or c)
  | 0, _, _, _, _, hn => absurd hn (Nat.not_lt_zero _)
  | n + 1, c, [], l2, h, _ => if_pos h.1
  | n + 1, c, b :: l1, l2, h, hn => by
    have hb : b ≠ a := by
      rintro rfl
      exact (List.nodup_cons.1 h.nodup).1 (List.mem_append_right _ List.mem_cons_self)
    rw [pointerTo, if_neg (by rw [h.1]; exact fun heq => hb (Option.some.inj heq)), h.1, Option.bind_some,
      getLast?_cons_or]
    exact pointerTo_from (c := some b) h.2 (Nat.lt_of_succ_lt_succ hn)

theorem Linked.pointerTo [DecidableEq α] {n : Nat} {l1 l2 : List α} (h : Linked next p (l1 ++ a :: l2))
    (hn : l1.length < n) : pointerTo next p a n none = some l1.getLast? := by
  rw [pointerTo_from (c := none) h hn, Option.or_none]

section

variable {σ : Type} {links : σ → α → Option α} {f : α → σ → σ}

/-- `f` done to the elements from a pointer on, the links read as they are then. -/
def traverse (links : σ → α → Option α) (f : α → σ → σ) : Nat → Option α → σ → Option σ
  | 0, _, _ => none
  | _ + 1, none, s => some s
  | n + 1, some a, s => traverse links f n (links (f a s) a) (f a s)

/-- Where the links stay, this is a fold over the list. -/
theorem Linked.traverse (hf : ∀ a s, links (f a s) = links s) : ∀ {n : Nat} {p : Option α} {l : List α} {s : σ},
    Linked (links s) p l → l.length < n → traverse links f n p s = some (l.foldl (fun s a => f a s) s)
  | 0, _, _, _, _, hn => absurd hn (Nat.not_lt_zero _)
  | n + 1, p, [], s, h, _ => by rw [show p = none from h]; rfl
  | n + 1, p, a :: l, s, h, hn => by
    have hrest : Linked (links (f a s)) (links (f a s) a) l := by
      rw [hf]
      exact h.2
    rw [h.1, Chain.traverse, hrest.traverse hf (Nat.lt_of_succ_lt_succ hn)]
    rfl

end

end Chain
