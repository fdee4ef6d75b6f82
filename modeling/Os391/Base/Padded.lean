/-
Lists read as endless sequences: past the end stands a fixed value. A list and what a filter leaves of
it give the same sequence exactly when nothing but that value follows what the filter takes out.
-/
import Mathlib.Tactic

namespace Padded

variable {α β : Type} {p : α → Bool} {f : α → β} {e : β}

/-- From the first element that the filter takes out on, all values are the fixed one. -/
def OnlyAfter (p : α → Bool) (f : α → β) (e : β) (l : List α) : Prop :=
  l.Pairwise (fun a b => p a = false → f b = e) ∧ ∀ a ∈ l, p a = false → f a = e

theorem getD_of_all {l : List α} (h : ∀ a ∈ l, f a = e) (m : Nat) : (l.map f).getD m e = e := by
  rw [List.getD_eq_getElem?_getD, List.getElem?_map]
  rcases hm : l[m]? with _ | a
  · rfl
  · exact h a (List.mem_of_getElem? hm)

theorem onlyAfter_cons {a : α} {l : List α} (ha : p a = true) :
    OnlyAfter p f e (a :: l) ↔ OnlyAfter p f e l := by
  unfold OnlyAfter
  simp [ha]

theorem onlyAfter_cons_dropped {a : α} {l : List α} (ha : p a = false) :
    OnlyAfter p f e (a :: l) ↔ f a = e ∧ ∀ b ∈ l, f b = e := by
  unfold OnlyAfter
  constructor
  · rintro ⟨h1, h2⟩
    exact ⟨h2 a (List.mem_cons_self ..) ha, fun b hb => (List.pairwise_cons.1 h1).1 b hb ha⟩
  · rintro ⟨h1, h2⟩
    refine ⟨List.pairwise_cons.2 ⟨fun b hb _ => h2 b hb, ?_⟩, ?_⟩
    · exact List.Pairwise.imp_of_mem (fun _ hb _ _ => h2 _ hb) (List.pairwise_of_forall fun _ _ => trivial)
    · intro b hb _
      rcases List.mem_cons.1 hb with rfl | hb
      · exact h1
      · exact h2 b hb

/-- A filtered list that runs one step ahead of the whole one holds nothing but the fixed value. -/
theorem all_of_ahead {l : List α} (h : ∀ m, ((l.filter p).map f).getD (m + 1) e = (l.map f).getD m e) :
    ∀ b ∈ l, f b = e := by
  -- from the end of the list on downwards
  have hdown : ∀ n m, l.length ≤ m + n → (l.map f).getD m e = e := by
    intro n
    induction n with
    | zero =>
      intro m hm
      rw [List.getD_eq_getElem?_getD, List.getElem?_eq_none (by simpa using hm)]
      rfl
    | succ n ih =>
      intro m hm
      rw [← h m, List.getD_eq_getElem?_getD, List.getElem?_map]
      obtain ⟨g, hg⟩ := List.sublist_iff_exists_orderEmbedding_getElem?_eq.1 (List.filter_sublist (l := l) (p := p))
      rw [hg]
      have hle : m + 1 ≤ g (m + 1) := g.strictMono.le_apply
      have hi := ih (g (m + 1)) (by omega)
      rwa [List.getD_eq_getElem?_getD, List.getElem?_map] at hi
  intro b hb
  obtain ⟨m, hm, rfl⟩ := List.mem_iff_getElem.1 hb
  have := hdown l.length m (by omega)
  rwa [List.getD_eq_getElem?_getD, List.getElem?_map, List.getElem?_eq_getElem hm] at this

/-- When a list and its filtered part are the same sequence. -/
theorem filter_getD_iff : ∀ {l : List α},
    (∀ m, ((l.filter p).map f).getD m e = (l.map f).getD m e) ↔ OnlyAfter p f e l
  | [] => by simp [OnlyAfter]
  | a :: l => by
    rcases ha : p a with _ | _
    · rw [onlyAfter_cons_dropped ha, List.filter_cons_of_neg (by simp [ha])]
      constructor
      · intro h
        have hl : ∀ b ∈ l, f b = e := all_of_ahead fun m => h (m + 1)
        refine ⟨?_, hl⟩
        have h0 := h 0
        rw [getD_of_all fun b hb => hl b (List.mem_of_mem_filter hb)] at h0
        exact h0.symm
      · rintro ⟨h1, h2⟩ m
        rw [getD_of_all fun b hb => h2 b (List.mem_of_mem_filter hb)]
        refine (getD_of_all ?_ m).symm
        intro b hb
        rcases List.mem_cons.1 hb with rfl | hb
        · exact h1
        · exact h2 b hb
    · rw [onlyAfter_cons ha, List.filter_cons_of_pos ha, ← filter_getD_iff]
      constructor
      · intro h m
        exact h (m + 1)
      · rintro h (_ | m)
        · rfl
        · exact h m

/-- Lists that give the same sequence agree as far as the first fixed value. -/
theorem takeWhile_of_getD [DecidableEq β] : ∀ {as bs : List β}, (∀ m, as.getD m e = bs.getD m e) →
    as.takeWhile (· ≠ e) = bs.takeWhile (· ≠ e)
  | [], [], _ => rfl
  | [], b :: bs, h => by
    rw [List.takeWhile_cons_of_neg (by simpa using (h 0).symm)]
    rfl
  | a :: as, [], h => by
    rw [List.takeWhile_cons_of_neg (by simpa using h 0)]
    rfl
  | a :: as, b :: bs, h => by
    obtain rfl : a = b := h 0
    have ih := takeWhile_of_getD fun m => h (m + 1)
    rw [List.takeWhile_cons, List.takeWhile_cons, ih]

/-- Two lists side by side, the shorter one filled up: what comes first, and the rest. -/
theorem flatMap_range_max (e : α) (f : Nat → α → α → List β) {as bs : List α} (h : ¬ (as = [] ∧ bs = [])) :
    ((List.range (max as.length bs.length)).flatMap fun i => f i (as.getD i e) (bs.getD i e)) =
      f 0 (as.headD e) (bs.headD e) ++
        (List.range (max as.tail.length bs.tail.length)).flatMap fun i => f (i + 1) (as.tail.getD i e) (bs.tail.getD i e) := by
  have hmax : max as.length bs.length = max as.tail.length bs.tail.length + 1 := by
    cases as <;> cases bs <;> simp_all
  have hget : ∀ (l : List α) (i : Nat), l.getD (i + 1) e = l.tail.getD i e := by
    intro l i
    cases l <;> simp
  have hhead : ∀ l : List α, l.getD 0 e = l.headD e := by
    intro l
    cases l <;> rfl
  rw [hmax, List.range_succ_eq_map, List.flatMap_cons, List.flatMap_map]
  simp only [hget, hhead]

end Padded
