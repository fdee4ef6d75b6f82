/-
Runs of a partial machine: a step function from a state and an input to an outcome and a next
state, or to nothing when the step has no outcome. A property of single steps is followed along
a run (`Along`), and the rules here carry it over whole runs with an invariant.
-/
import Mathlib.Tactic

namespace Machine

variable {σ ι ρ : Type}

/-- The state after a list of inputs; `none` when a step on the way has no outcome. -/
def run (step : σ → ι → Option (ρ × σ)) : σ → List ι → Option σ
  | s, [] => some s
  | s, i :: is => (step s i).bind fun r => run step r.2 is

/-- `P` holds at every step of the run, of the state before it and its input. -/
def Along (step : σ → ι → Option (ρ × σ)) (P : σ → ι → Prop) : σ → List ι → Prop
  | _, [] => True
  | s, i :: is => P s i ∧ ∀ r, step s i = some r → Along step P r.2 is

/-- A decidable step property is decidable along a run. -/
instance Along.decidable (step : σ → ι → Option (ρ × σ)) (P : σ → ι → Prop) [∀ s i, Decidable (P s i)] :
    ∀ (s : σ) (is : List ι), Decidable (Along step P s is)
  | _, [] => isTrue trivial
  | s, i :: is =>
    match h : step s i with
    | none => decidable_of_iff (P s i) ⟨fun hp => ⟨hp, fun r hr => by rw [h] at hr; cases hr⟩, fun ha => ha.1⟩
    | some r =>
      have := Along.decidable step P r.2 is
      decidable_of_iff (P s i ∧ Along step P r.2 is)
        ⟨fun ha => ⟨ha.1, fun r' hr => by rw [h] at hr; cases hr; exact ha.2⟩, fun ha => ⟨ha.1, ha.2 r h⟩⟩

variable {step : σ → ι → Option (ρ × σ)} {P Q : σ → ι → Prop} {I : σ → Prop}

theorem run_cons_some {s : σ} {i : ι} {is : List ι} {s' : σ} (h : run step s (i :: is) = some s') :
    ∃ r, step s i = some r ∧ run step r.2 is = some s' := by
  simpa [run, Option.bind_eq_some_iff] using h

theorem run_append : ∀ (is js : List ι) (s : σ), run step s (is ++ js) = (run step s is).bind fun s' => run step s' js
  | [], _, _ => rfl
  | i :: is, js, s => by
    rw [List.cons_append, run, run]
    rcases step s i with _ | r
    · rfl
    · exact run_append is js r.2

/-- A run that goes through ends in the state its evaluation gives. -/
theorem run_getD {s : σ} {is : List ι} (h : (run step s is).isSome = true) :
    run step s is = some ((run step s is).getD s) := by
  obtain ⟨s', hs⟩ := Option.isSome_iff_exists.1 h
  rw [hs]
  rfl

/-- The invariant rule: what the good steps keep holds wherever a run of good steps ends. -/
theorem run_inv (hstep : ∀ s i r, I s → P s i → step s i = some r → I r.2) :
    ∀ {is : List ι} {s s' : σ}, I s → Along step P s is → run step s is = some s' → I s'
  | [], s, s', hs, _, h => by cases h; exact hs
  | i :: is, s, s', hs, ⟨hp, hr⟩, h => by
    obtain ⟨r, hr1, hr2⟩ := run_cons_some h
    exact run_inv hstep (hstep s i r hs hp hr1) (hr r hr1) hr2

theorem along_true : ∀ (is : List ι) (s : σ), Along step (fun _ _ => True) s is
  | [], _ => trivial
  | _ :: is, _ => ⟨trivial, fun r _ => along_true is r.2⟩

/-- Two step properties that agree on the invariant, which the second keeps, hold along the same
runs, of those along which a third one holds. -/
theorem along_iff_under {R : σ → ι → Prop} (hiff : ∀ s i, I s → R s i → (P s i ↔ Q s i))
    (hstep : ∀ s i r, I s → R s i → Q s i → step s i = some r → I r.2) :
    ∀ {is : List ι} {s : σ}, I s → Along step R s is → (Along step P s is ↔ Along step Q s is)
  | [], _, _, _ => Iff.rfl
  | i :: is, s, hs, ⟨hR, hRs⟩ => by
    constructor
    · rintro ⟨hp, hr⟩
      have hq := (hiff s i hs hR).1 hp
      exact ⟨hq, fun r hr1 => (along_iff_under hiff hstep (hstep s i r hs hR hq hr1) (hRs r hr1)).1 (hr r hr1)⟩
    · rintro ⟨hq, hr⟩
      exact ⟨(hiff s i hs hR).2 hq,
        fun r hr1 => (along_iff_under hiff hstep (hstep s i r hs hR hq hr1) (hRs r hr1)).2 (hr r hr1)⟩

/-- The same for all runs. -/
theorem along_iff (hiff : ∀ s i, I s → (P s i ↔ Q s i))
    (hstep : ∀ s i r, I s → Q s i → step s i = some r → I r.2) {is : List ι} {s : σ} (hs : I s) :
    Along step P s is ↔ Along step Q s is :=
  along_iff_under (R := fun _ _ => True) (fun s i hi _ => hiff s i hi) (fun s i r hi _ => hstep s i r hi) hs (along_true is s)

/-- A step property follows along a run from another one that keeps the invariant. -/
theorem along_mono (himp : ∀ s i, I s → Q s i → P s i)
    (hstep : ∀ s i r, I s → Q s i → step s i = some r → I r.2) :
    ∀ {is : List ι} {s : σ}, I s → Along step Q s is → Along step P s is
  | [], _, _, _ => trivial
  | i :: _, s, hs, ⟨hq, hr⟩ =>
    ⟨himp s i hs hq, fun r hr1 => along_mono himp hstep (hstep s i r hs hq hr1) (hr r hr1)⟩

/-- Two step properties hold together along a run. -/
theorem along_and : ∀ {is : List ι} {s : σ}, Along step P s is → Along step Q s is →
    Along step (fun s i => P s i ∧ Q s i) s is
  | [], _, _, _ => trivial
  | _ :: _, _, ⟨hp, hr⟩, ⟨hq, hr'⟩ => ⟨⟨hp, hq⟩, fun r hr1 => along_and (hr r hr1) (hr' r hr1)⟩

/-- A property of the inputs alone holds along a run when it holds of each of them. -/
theorem along_of_mem {R : ι → Prop} :
    ∀ {is : List ι} (s : σ), (∀ i ∈ is, R i) → Along step (fun _ i => R i) s is
  | [], _, _ => trivial
  | i :: _, _, hm =>
    ⟨hm i (List.mem_cons_self ..), fun r _ => along_of_mem r.2 fun j hj => hm j (List.mem_cons_of_mem _ hj)⟩

/-! ## Notes -/

/-- A machine with a value noted along its runs. -/
def noting {γ : Type} (step : σ → ι → Option (ρ × σ)) (note : σ → γ → ι → γ) (x : σ × γ) (i : ι) : Option (ρ × σ × γ) :=
  (step x.1 i).map fun y => (y.1, y.2, note x.1 x.2 i)

/-- Each run can be noted. -/
theorem run_noting {γ : Type} (note : σ → γ → ι → γ) :
    ∀ {is : List ι} {s s' : σ}, run step s is = some s' → ∀ g, ∃ g', run (noting step note) (s, g) is = some (s', g')
  | [], _, _, h, g => ⟨g, by cases h; rfl⟩
  | i :: is, s, s', h, g => by
    obtain ⟨r, hr, hrun⟩ := run_cons_some h
    obtain ⟨g', hg⟩ := run_noting note hrun (note s g i)
    refine ⟨g', ?_⟩
    have hstep : noting step note (s, g) i = some (r.1, r.2, note s g i) := by rw [noting, hr, Option.map_some]
    rw [run, hstep, Option.bind_some]
    exact hg

end Machine
