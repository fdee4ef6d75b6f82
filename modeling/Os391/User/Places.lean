/-
Where the blinking characters stand: the calls write to the screen only at the places of the elements put in, and
structures at places of their own can be put in until `blink_array` is full.
-/
import Os391.User.Period

namespace Os391

open X86 Chain Machine

namespace Blink

variable {s : Blink} {l : List Slot}

/-! ## The screen besides -/

/-- All elements of the list are at some places, and besides these the screen is as it was. -/
structure Within (places : UInt16 → Prop) (screen : Nat → UInt8) (s : Blink) : Prop where
  listed : ∃ l, Listed s l ∧ ∀ m ∈ l, places (s.array m).location
  screen : ∀ a, (∀ p, places p → a ≠ 2 * p.toNat) → s.screen a = screen a

/-- An operation that puts elements at these places only. -/
def PutsAt (places : UInt16 → Prop) : Op → Prop
  | .add arg => places arg.location ∧ arg.location ≠ 0
  | _ => True

variable {places : UInt16 → Prop} {screen : Nat → UInt8}

theorem screen_taskletNode (n : Slot) (s : Blink) {a : Nat} (ha : a ≠ 2 * (s.array n).location.toNat) :
    (taskletNode n s).screen a = s.screen a := by
  rw [(taskletNode_self n s).2]
  split_ifs
  · exact Function.update_of_ne ha _ _
  · rfl

/-- The tasklet's walk. -/
theorem Within.foldl : ∀ {s : Blink} (ns : List Slot), Within places screen s → (∀ m ∈ ns, places (s.array m).location) →
    Within places screen (ns.foldl (fun s n => taskletNode n s) s)
  | _, [], h, _ => h
  | s, n :: ns, h, hns => by
    obtain ⟨⟨l, hl, hplaces⟩, hscreen⟩ := h
    have hlocation := fun m => (taskletNode_node n m s).2
    refine Within.foldl ns ⟨⟨l, hl.taskletNode n, fun m hm => ?_⟩, fun a ha => ?_⟩ fun m hm => ?_
    · rw [hlocation]
      exact hplaces m hm
    · rw [screen_taskletNode n s (ha _ (hns n List.mem_cons_self))]
      exact hscreen a ha
    · rw [hlocation]
      exact hns m (List.mem_cons_of_mem _ hm)

theorem Within.add {n : Slot} {arg : BlinkStruct} (h : Within places screen s) (hm : s.mp1Malloc = some n)
    (harg : places arg.location) (h0 : arg.location ≠ 0) : Within places screen (added arg n s) := by
  obtain ⟨⟨l, hl, hplaces⟩, hscreen⟩ := h
  refine ⟨⟨n :: l, hl.add hm h0, fun m hmem => ?_⟩, fun a ha => ?_⟩
  · rcases List.mem_cons.1 hmem with rfl | hml
    · rw [added_self]
      exact harg
    · rw [added_other arg s (ne_of_mem_of_not_mem hml (hl.not_mem_free hm))]
      exact hplaces m hml
  · exact (Function.update_of_ne (ha _ harg) _ _).trans (hscreen a ha)

/-- One operation. -/
theorem Within.step {op : Op} (h : Within places screen s) (hop : PutsAt places op) :
    ∃ r, Blink.step s op = some r ∧ Within places screen r.2 := by
  obtain ⟨⟨l, hl, hplaces⟩, hscreen⟩ := h
  cases op with
  | add arg =>
    refine ⟨_, rfl, ?_⟩
    rcases mp1IoctlAdd_cases arg s with ⟨-, hadd⟩ | ⟨n, -, hm, hadd⟩
    · rw [hadd]
      exact ⟨⟨l, hl, hplaces⟩, hscreen⟩
    · rw [hadd]
      exact Within.add ⟨⟨l, hl, hplaces⟩, hscreen⟩ hm hop.1 hop.2
  | remove arg =>
    rcases mp1IoctlRemove_eq hl arg with ⟨-, hremove⟩ | ⟨l1, n, l2, rfl, -, hremove⟩
    · exact ⟨_, hremove, ⟨_, hl, hplaces⟩, hscreen⟩
    · have hn : n ∉ l1 ++ l2 := (List.nodup_cons.1 (List.nodup_middle.1 hl.linked.nodup)).1
      have hsub := ((List.sublist_cons_self n l2).append_left l1).subset
      refine ⟨_, hremove, ⟨l1 ++ l2, hl.remove, fun m hm => ?_⟩, fun a ha => ?_⟩
      · rw [removed_node _ s (ne_of_mem_of_not_mem hm hn)]
        exact hplaces m (hsub hm)
      · rw [← hscreen a ha]
        show (s.storeLink l1.getLast? (s.next n)).screen a = s.screen a
        cases l1.getLast? <;> rfl
  | find location =>
    obtain ⟨answer, hfind⟩ := mp1IoctlFind_eq hl location
    exact ⟨_, hfind, ⟨l, hl, hplaces⟩, hscreen⟩
  | sync arg =>
    rcases mp1IoctlSync_eq hl arg with hsync | ⟨esi, edi, hedi, -, -, hsync⟩
    · exact ⟨_, hsync, ⟨l, hl, hplaces⟩, hscreen⟩
    · refine ⟨_, hsync, ⟨l, hl.sync esi edi, fun m hm => ?_⟩, fun a ha => ?_⟩
      · rw [(syncNodes_node esi edi m s).2]
        exact hplaces m hm
      · rw [syncNodes_screen, Function.update_of_ne (ha _ (hplaces edi hedi))]
        exact hscreen a ha
  | tasklet => exact ⟨_, congrArg (Option.map _) (mp1RtcTasklet_eq hl), Within.foldl l ⟨⟨l, hl, hplaces⟩, hscreen⟩ hplaces⟩

/-- A run. -/
theorem Within.run : ∀ {s : Blink} {ops : List Op}, Within places screen s → (∀ op ∈ ops, PutsAt places op) →
    ∃ x, Machine.run Blink.step s ops = some x ∧ Within places screen x
  | s, [], h, _ => ⟨s, rfl, h⟩
  | s, op :: ops, h, hops => by
    obtain ⟨r, hr, hstep⟩ := h.step (hops op List.mem_cons_self)
    obtain ⟨x, hx, hwithin⟩ := hstep.run fun o ho => hops o (List.mem_cons_of_mem _ ho)
    exact ⟨x, by rw [Machine.run, hr]; exact hx, hwithin⟩

/-- ADDs one after the other. -/
theorem Within.adds : ∀ {args : List BlinkStruct} {s : Blink}, Within places screen s →
    (∀ arg ∈ args, places arg.location ∧ arg.location ≠ 0) →
      Within places screen (args.foldl (fun s arg => (s.mp1IoctlAdd arg).2) s)
  | [], _, h, _ => h
  | arg :: args, s, h, hargs => by
    obtain ⟨r, hr, hadd⟩ := h.step (show PutsAt places (.add arg) from hargs arg List.mem_cons_self)
    obtain rfl := Option.some.inj hr
    exact hadd.adds fun a ha => hargs a (List.mem_cons_of_mem _ ha)

/-! ## Structures put in one after the other -/

/-- Every structure put in blinks, in an element of its own, and the other elements are free. -/
structure Filled (args : List BlinkStruct) (s : Blink) (l : List Slot) : Prop extends Listed s l where
  length : l.length = args.length
  free : ∀ m, m ∉ l → (s.array m).location = 0
  places : ∀ m ∈ l, ∃ arg ∈ args, (s.array m).location = arg.location
  blinking : ∀ arg ∈ args, ∃ n, Blinking arg n 0 s

theorem filled_start (screen : Nat → UInt8) : Filled [] (start screen) [] :=
  ⟨listed_start screen, rfl, fun _ _ => rfl, fun _ hm => absurd hm List.not_mem_nil, fun _ hm => absurd hm List.not_mem_nil⟩

/-- While the array is not full an element is handed out. -/
theorem exists_mp1Malloc (hfree : ∀ m, m ∉ l → (s.array m).location = 0) (hlen : l.length < 2000) :
    ∃ n, s.mp1Malloc = some n := by
  have hex : ∃ m, m ∉ l := by
    by_contra hall
    have hcard : (Finset.univ : Finset Slot).card ≤ l.toFinset.card :=
      Finset.card_le_card fun m _ => List.mem_toFinset.2 (not_not.1 fun hm => hall ⟨m, hm⟩)
    have hle := l.toFinset_card_le
    rw [Finset.card_univ, Fintype.card_fin] at hcard
    omega
  obtain ⟨m, hm⟩ := hex
  exact Option.isSome_iff_exists.1 (List.find?_isSome.2 ⟨m, List.mem_finRange m, by simpa using hfree m hm⟩)

theorem Filled.add {args : List BlinkStruct} {arg : BlinkStruct} (h : Filled args s l) (hlen : args.length < 2000)
    (hloc : arg.location.toNat < 2000) (h0 : arg.location ≠ 0) (hnew : ∀ a ∈ args, a.location ≠ arg.location) :
    ∃ n, Filled (arg :: args) (s.mp1IoctlAdd arg).2 (n :: l) := by
  obtain ⟨n, hm⟩ := exists_mp1Malloc h.free (h.length ▸ hlen)
  have hfree := h.not_mem_free hm
  rw [mp1IoctlAdd_eq hm hloc]
  refine ⟨n, h.toListed.add hm h0, congrArg Nat.succ h.length, fun m hmem => ?_, fun m hmem => ?_, fun a ha => ?_⟩
  · obtain ⟨hne, hml⟩ := not_or.1 (List.mem_cons.not.1 hmem)
    show ((added arg n s).array m).location = 0
    rw [added_other arg s hne]
    exact h.free m hml
  · show ∃ a ∈ arg :: args, ((added arg n s).array m).location = a.location
    rcases List.mem_cons.1 hmem with rfl | hml
    · refine ⟨arg, List.mem_cons_self, ?_⟩
      rw [added_self]
    · obtain ⟨a, ha, hloc'⟩ := h.places m hml
      refine ⟨a, List.mem_cons_of_mem _ ha, ?_⟩
      rw [added_other arg s (ne_of_mem_of_not_mem hml hfree)]
      exact hloc'
  · rcases List.mem_cons.1 ha with rfl | ha
    · refine ⟨n, Blinking.start h.toListed hm h0 fun m hml heq => ?_⟩
      obtain ⟨b, hb, hloc'⟩ := h.places m hml
      exact hnew b hb (hloc'.symm.trans heq)
    · obtain ⟨k, hk⟩ := h.blinking a ha
      have halone : LeavesAlone a.location s (.add arg) := fun hor => absurd hor (not_or.2 ⟨(hnew a ha).symm, h0⟩)
      obtain ⟨r, hr, hkeeps⟩ := hk.step halone
      obtain rfl := Option.some.inj hr
      rw [mp1IoctlAdd_eq hm hloc] at hkeeps
      exact ⟨k, hkeeps⟩

/-- Structures at places of their own, put in one after the other. -/
theorem Filled.foldl : ∀ {args done : List BlinkStruct} {s : Blink} {l : List Slot}, Filled done s l →
    (∀ arg ∈ args, arg.location.toNat < 2000 ∧ arg.location ≠ 0) →
    ((args ++ done).map (·.location)).Nodup → (args ++ done).length ≤ 2000 →
      ∃ l', Filled (args.reverse ++ done) (args.foldl (fun s arg => (s.mp1IoctlAdd arg).2) s) l'
  | [], _, _, l, h, _, _, _ => ⟨l, h⟩
  | arg :: args, done, s, l, h, hargs, hnd, hlen => by
    have hmid : ((args ++ arg :: done).map (·.location)).Nodup := by
      rw [List.map_append, List.map_cons, List.nodup_middle]
      simpa using hnd
    have hnew : ∀ a ∈ done, a.location ≠ arg.location := by
      intro a ha heq
      rw [List.cons_append, List.map_cons, List.nodup_cons] at hnd
      exact hnd.1 (List.mem_map.2 ⟨a, List.mem_append_right _ ha, heq⟩)
    obtain ⟨hloc, h0⟩ := hargs arg List.mem_cons_self
    simp only [List.cons_append, List.length_cons, List.length_append] at hlen
    obtain ⟨n, hn⟩ := h.add (by omega) hloc h0 hnew
    obtain ⟨l', hl'⟩ := Filled.foldl hn (fun a ha => hargs a (List.mem_cons_of_mem _ ha)) hmid
      (by simp only [List.length_append, List.length_cons]; omega)
    exact ⟨l', by simpa using hl'⟩

end Blink

end Os391
