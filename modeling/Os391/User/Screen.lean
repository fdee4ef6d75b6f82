/-
What the blinking characters show. The tasklet, ADD and SYNC each write an element's status and its character to the
screen; the first two agree, and SYNC always writes `off_char`.
-/
import Os391.User.Blink

namespace Os391

open X86 Chain Machine

/-! ## A tick of one element -/

/-- The character that an element should show. -/
def BlinkStruct.shown (b : BlinkStruct) : UInt8 := if b.status &&& 1 = 1 then b.onChar else b.offChar

/-- The status bit is changed at a tick. -/
def BlinkStruct.flips (b : BlinkStruct) : Bool := !(Flags.cmp (b.countdown - 1).toBitVec 0).g

/-- What a tick makes of an element. -/
def BlinkStruct.tick (b : BlinkStruct) : BlinkStruct :=
  if b.flips then
    { b with
      status := b.status ^^^ 1
      countdown := if b.status &&& 1 = 1 then b.offLength else b.onLength }
  else { b with countdown := b.countdown - 1 }

theorem and_one_cases (v : UInt16) : v &&& 1 = 0 ∨ v &&& 1 = 1 := by
  have hmod : (v &&& 1).toNat = v.toNat % 2 := by
    rw [UInt16.toNat_and]
    exact Nat.and_one_is_mod _
  rcases Nat.mod_two_eq_zero_or_one v.toNat with h | h
  · exact Or.inl (UInt16.toNat_inj.1 (hmod.trans h))
  · exact Or.inr (UInt16.toNat_inj.1 (hmod.trans h))

theorem xor_one_and_one (v : UInt16) : (v ^^^ 1) &&& 1 = 1 ↔ ¬ v &&& 1 = 1 := by
  have hxor : (v ^^^ 1) &&& 1 = (v &&& 1) ^^^ 1 := by
    refine UInt16.toNat_inj.1 ?_
    rw [UInt16.toNat_and, UInt16.toNat_xor, UInt16.toNat_xor, UInt16.toNat_and]
    exact Nat.and_xor_distrib_right
  rw [hxor]
  rcases and_one_cases v with h | h <;> rw [h] <;> decide

theorem zf_test_one (v : UInt16) : (Flags.test (1 : UInt16).toBitVec v.toBitVec).zf = true ↔ ¬ v &&& 1 = 1 := by
  rw [Flags.zf_test, BitVec.and_comm]
  have hzero : v.toBitVec &&& (1 : UInt16).toBitVec = 0 ↔ v &&& 1 = 0 := UInt16.toBitVec_inj (a := v &&& 1) (b := 0)
  rw [hzero]
  rcases and_one_cases v with h | h <;> rw [h] <;> decide

namespace Blink

variable {s : Blink} {l : List Slot}

/-- The screen shows what it should of an element. -/
def ShownAt (s : Blink) (n : Slot) : Prop :=
  s.screen (2 * (s.array n).location.toNat) = (s.array n).toBlinkStruct.shown

theorem taskletNode_self (n : Slot) (s : Blink) :
    ((taskletNode n s).array n).toBlinkStruct = (s.array n).toBlinkStruct.tick ∧
      (taskletNode n s).screen = if (s.array n).toBlinkStruct.flips then
        Function.update s.screen (2 * (s.array n).location.toNat) (s.array n).toBlinkStruct.tick.shown else s.screen := by
  unfold taskletNode mp1Poke
  dsimp only
  by_cases hg : (Flags.cmp ((s.array n).countdown - 1).toBitVec 0).g = true
  · have hflips : (s.array n).toBlinkStruct.flips = false := by rw [BlinkStruct.flips, hg]; rfl
    rw [if_pos hg, BlinkStruct.tick, hflips]
    simp only [Function.update_self, Bool.false_eq_true, if_false, and_self]
  · have hflips : (s.array n).toBlinkStruct.flips = true := by
      rw [BlinkStruct.flips, Bool.eq_false_iff.2 hg]
      rfl
    rw [if_neg hg, BlinkStruct.tick, hflips]
    by_cases hbit : (s.array n).status &&& 1 = 1
    · have hzf : (Flags.test (1 : UInt16).toBitVec (s.array n).status.toBitVec).zf = false :=
        Bool.eq_false_iff.2 fun h => (zf_test_one _).1 h hbit
      simp only [hzf, hbit, Function.update_self, BlinkStruct.shown, xor_one_and_one, Bool.false_eq_true, if_true,
        if_false, not_true_eq_false, and_self]
    · have hzf : (Flags.test (1 : UInt16).toBitVec (s.array n).status.toBitVec).zf = true := (zf_test_one _).2 hbit
      simp only [hzf, hbit, Function.update_self, BlinkStruct.shown, xor_one_and_one, if_true, if_false,
        not_false_eq_true, and_self]

theorem taskletNode_other {n m : Slot} (s : Blink) (hm : m ≠ n) :
    ((taskletNode n s).array m).toBlinkStruct = (s.array m).toBlinkStruct := by
  unfold taskletNode mp1Poke
  dsimp only
  split_ifs <;> simp only [Function.update_of_ne hm]

/-! ## Locations apart -/

/-- The linked elements have locations that are not 0 and pairwise distinct. -/
def Distinct (s : Blink) : Prop :=
  ∃ l, Linked s.next s.head l ∧ (l.map fun n => (s.array n).location).Nodup ∧ ∀ n ∈ l, (s.array n).location ≠ 0

/-- The same of the list. -/
structure Apart (s : Blink) (l : List Slot) : Prop extends Listed s l where
  distinct : ∀ m ∈ l, ∀ n ∈ l, (s.array m).location = (s.array n).location → m = n

theorem Distinct.apart (h : Distinct s) : ∃ l, Apart s l := by
  obtain ⟨l, hl, hnd, hused⟩ := h
  exact ⟨l, ⟨hl, hused⟩, fun m hm n hn heq => List.inj_on_of_nodup_map hnd hm hn heq⟩

/-- An element of the list is the only one at its location. -/
structure Alone (s : Blink) (l : List Slot) (n : Slot) : Prop extends Listed s l where
  mem : n ∈ l
  alone : ∀ m ∈ l, (s.array m).location = (s.array n).location → m = n

theorem Apart.alone {n : Slot} (h : Apart s l) (hn : n ∈ l) : Alone s l n :=
  ⟨h.toListed, hn, fun m hm => h.distinct m hm n hn⟩

theorem Alone.screen_ne {m n : Slot} (h : Alone s l n) (hm : m ∈ l) (hne : n ≠ m) :
    2 * (s.array n).location.toNat ≠ 2 * (s.array m).location.toNat := fun heq =>
  hne (h.alone m hm (UInt16.toNat_inj.1 (by omega))).symm

/-- The same list with the same locations. -/
theorem Alone.of_locations {s' : Blink} {n : Slot} (h : Alone s l n) (h' : Listed s' l)
    (hlocation : ∀ m, (s'.array m).location = (s.array m).location) : Alone s' l n := by
  refine ⟨h', h.mem, fun m hm heq => h.alone m hm ?_⟩
  rwa [hlocation m, hlocation n] at heq

/-! ## The tasklet -/

theorem Alone.taskletNode {n : Slot} (h : Alone s l n) (m : Slot) : Alone (taskletNode m s) l n :=
  h.of_locations (h.toListed.taskletNode m) fun k => (taskletNode_node m k s).2

theorem Alone.foldl {n : Slot} : ∀ {s : Blink} (ns : List Slot), Alone s l n →
    Alone (ns.foldl (fun s n => Blink.taskletNode n s) s) l n
  | _, [], h => h
  | _, m :: ns, h => (h.taskletNode m).foldl ns

/-- The turn of one element of the list leaves the screen right for any of them. -/
theorem ShownAt.taskletNode {m n : Slot} (h : Alone s l n) (hm : m ∈ l) (hs : ShownAt s n) :
    ShownAt (Blink.taskletNode m s) n := by
  obtain ⟨hnode, hscreen⟩ := taskletNode_self m s
  unfold ShownAt
  rw [(taskletNode_node m n s).2, hscreen]
  by_cases heq : n = m
  · subst heq
    rw [hnode]
    split_ifs with hflips
    · rw [Function.update_self]
    · rw [hs, BlinkStruct.tick, if_neg hflips]
      rfl
  · rw [taskletNode_other s heq, ← hs]
    split_ifs
    · exact Function.update_of_ne (h.screen_ne hm heq) _ _
    · rfl

theorem ShownAt.foldl {n : Slot} : ∀ {s : Blink} (ns : List Slot), Alone s l n → (∀ m ∈ ns, m ∈ l) → ShownAt s n →
    ShownAt (ns.foldl (fun s n => Blink.taskletNode n s) s) n
  | _, [], _, _, hs => hs
  | _, m :: ns, h, hns, hs =>
    ShownAt.foldl ns (h.taskletNode m) (fun k hk => hns k (List.mem_cons_of_mem _ hk))
      (hs.taskletNode h (hns m List.mem_cons_self))

/-- Each element has one tick. -/
theorem foldl_node {n : Slot} : ∀ {s : Blink} (ns : List Slot), ns.Nodup →
    ((ns.foldl (fun s n => taskletNode n s) s).array n).toBlinkStruct =
      if n ∈ ns then (s.array n).toBlinkStruct.tick else (s.array n).toBlinkStruct
  | _, [], _ => rfl
  | s, m :: ns, hnd => by
    obtain ⟨hm, hns⟩ := List.nodup_cons.1 hnd
    rw [List.foldl_cons, foldl_node ns hns]
    by_cases heq : n = m
    · subst heq
      rw [if_neg hm, if_pos List.mem_cons_self, (taskletNode_self n s).1]
    · rw [taskletNode_other s heq]
      exact if_congr (by simp [heq]) rfl rfl

/-! ## ADD, REMOVE and SYNC -/

theorem added_self (arg : BlinkStruct) (n : Slot) (s : Blink) :
    ((added arg n s).array n).toBlinkStruct = { arg with status := 1, countdown := arg.onLength } := by
  simp only [added, mp1Poke, Function.update_self]

theorem added_other {m n : Slot} (arg : BlinkStruct) (s : Blink) (hm : m ≠ n) :
    (added arg n s).array m = s.array m := by
  simp only [added, mp1Poke, Function.update_of_ne hm]

theorem Listed.not_mem_free {n : Slot} (h : Listed s l) (hm : s.mp1Malloc = some n) : n ∉ l := fun hn =>
  h.used n hn (mp1Malloc_location hm)

/-- Locations that are apart after an ADD were so with the new one. -/
theorem Distinct.added_apart {n : Slot} {arg : BlinkStruct} (hd : Distinct (added arg n s)) (h : Apart s l)
    (hm : s.mp1Malloc = some n) : Apart (added arg n s) (n :: l) := by
  obtain ⟨l', hl'⟩ := hd.apart
  have hlinked : Linked (added arg n s).next (added arg n s).head (n :: l) := by
    rw [next_added]
    exact h.linked.push (h.toListed.not_mem_free hm)
  rwa [hl'.linked.unique hlinked] at hl'

theorem added_shown_self (arg : BlinkStruct) (n : Slot) (s : Blink) : ShownAt (added arg n s) n := by
  have hlocation : ((added arg n s).array n).location = arg.location := congrArg (·.location) (added_self arg n s)
  have hscreen : (added arg n s).screen = Function.update s.screen (2 * arg.location.toNat) arg.onChar := rfl
  unfold ShownAt
  rw [hlocation, added_self, hscreen, Function.update_self, BlinkStruct.shown]
  exact (if_pos (show (1 : UInt16) &&& 1 = 1 by decide)).symm

theorem ShownAt.add {m n : Slot} {arg : BlinkStruct} (hne : m ≠ n) (hloc : (s.array m).location ≠ arg.location)
    (hs : ShownAt s m) : ShownAt (added arg n s) m := by
  have hoffset : 2 * (s.array m).location.toNat ≠ 2 * arg.location.toNat := fun heq =>
    hloc (UInt16.toNat_inj.1 (by omega))
  have hscreen : (added arg n s).screen = Function.update s.screen (2 * arg.location.toNat) arg.onChar := rfl
  unfold ShownAt
  rw [added_other arg s hne, hscreen, Function.update_of_ne hoffset, hs]

theorem Alone.remove {m n : Slot} {l1 l2 : List Slot} (h : Alone s (l1 ++ m :: l2) n) (hne : n ≠ m) :
    Alone (removed l1.getLast? m s) (l1 ++ l2) n := by
  have hm : m ∉ l1 ++ l2 := (List.nodup_cons.1 (List.nodup_middle.1 h.linked.nodup)).1
  have hsub := ((List.sublist_cons_self m l2).append_left l1).subset
  refine ⟨h.toListed.remove, ?_, fun k hk heq => h.alone k (hsub hk) ?_⟩
  · have hmem := h.mem
    rw [List.mem_append] at hmem ⊢
    exact hmem.imp_right (List.mem_of_ne_of_mem hne)
  · rwa [removed_node _ s (ne_of_mem_of_not_mem hk hm), removed_node _ s hne] at heq

theorem ShownAt.remove {m n : Slot} (edx : Option Slot) (hne : m ≠ n) (hs : ShownAt s m) :
    ShownAt (removed edx n s) m := by
  have hscreen : (removed edx n s).screen = s.screen := by
    unfold removed mp1Free storeLink
    cases edx <;> rfl
  unfold ShownAt
  rw [removed_node edx s hne, hscreen, hs]

theorem syncNodes_screen (esi edi : Slot) (s : Blink) :
    (syncNodes esi edi s).screen =
      Function.update s.screen (2 * (s.array edi).location.toNat) (s.array edi).offChar := by
  have hl : (Flags.test (1 : UInt8).toBitVec (s.array esi).status.toUInt8.toBitVec).l = false := Flags.l_test (by decide)
  simp only [syncNodes, mp1Poke, hl, Bool.false_eq_true, if_false]

theorem syncNodes_self (esi edi : Slot) (s : Blink) :
    ((syncNodes esi edi s).array edi).toBlinkStruct =
      { (s.array edi).toBlinkStruct with
        onLength := (s.array esi).onLength, offLength := (s.array esi).offLength
        countdown := (s.array esi).countdown, status := (s.array esi).status } := by
  simp only [syncNodes, mp1Poke, Function.update_self]

theorem syncNodes_other {edi m : Slot} (esi : Slot) (s : Blink) (hm : m ≠ edi) :
    (syncNodes esi edi s).array m = s.array m := by
  simp only [syncNodes, mp1Poke, Function.update_of_ne hm]

theorem ShownAt.sync {m edi : Slot} (esi : Slot) (h : Alone s l m) (hedi : edi ∈ l) (hne : m ≠ edi)
    (hs : ShownAt s m) : ShownAt (syncNodes esi edi s) m := by
  unfold ShownAt
  rw [syncNodes_other esi s hne, syncNodes_screen, Function.update_of_ne (h.screen_ne hedi hne), hs]

/-- SYNC leaves the screen right exactly when `off_char` is what the new status calls for. -/
theorem syncNodes_shown_iff (esi edi : Slot) (s : Blink) :
    ShownAt (syncNodes esi edi s) edi ↔
      ((s.array esi).status &&& 1 = 1 → (s.array edi).onChar = (s.array edi).offChar) := by
  unfold ShownAt
  rw [(syncNodes_node esi edi edi s).2, syncNodes_screen, Function.update_self, syncNodes_self]
  unfold BlinkStruct.shown
  dsimp only
  split_ifs with hbit
  · exact ⟨fun h _ => h.symm, fun h => (h hbit).symm⟩
  · exact ⟨fun _ h => absurd h hbit, fun _ => rfl⟩

/-! ## Whole runs -/

/-- The screen shows what it should of all linked elements. -/
def Shown (s : Blink) : Prop := ∀ l, Linked s.next s.head l → ∀ n ∈ l, ShownAt s n

theorem Shown.of_linked (h : Linked s.next s.head l) (hs : ∀ n ∈ l, ShownAt s n) : Shown s := fun _ hl n hn =>
  hs n (hl.unique h ▸ hn)

/-- The linked elements are apart before and after the operation. -/
def DistinctAround (s : Blink) (op : Op) : Prop := Distinct s ∧ ∀ r, step s op = some r → Distinct r.2

/-- After the operation the screen is right. -/
def ShowsAfter (s : Blink) (op : Op) : Prop := ∀ r, step s op = some r → Shown r.2

/-- A SYNC that copies a set status bit finds the same character twice. -/
def SyncsSame (s : Blink) (op : Op) : Prop :=
  ∀ arg esi edi, op = .sync arg → s.mp1FindHelper (arg >>> 16).toUInt16 = some (some esi) →
    s.mp1FindHelper (arg &&& 0xFFFF).toUInt16 = some (some edi) → (s.array esi).status &&& 1 = 1 →
      (s.array edi).onChar = (s.array edi).offChar

/-- A SYNC shows what it should exactly when it copies no set status bit or finds the same character twice. -/
theorem showsAfter_sync_iff {arg : UInt32} (h : Apart s l) (hs : Shown s) :
    ShowsAfter s (.sync arg) ↔ SyncsSame s (.sync arg) := by
  constructor
  · intro hshows arg' esi edi hop hfirst hsecond
    obtain rfl := Op.sync.inj hop
    exact (syncNodes_shown_iff esi edi s).1
      (hshows _ (mp1IoctlSync_found hfirst hsecond) l (h.toListed.sync esi edi).linked edi
        (mp1FindHelper_mem h.toListed hsecond))
  · intro hsame r hr
    rcases mp1IoctlSync_eq h.toListed arg with hsync | ⟨esi, edi, hedi, hfirst, hsecond, hsync⟩
    · rw [step, hsync] at hr
      exact Option.some.inj hr ▸ hs
    · rw [step, hsync] at hr
      obtain rfl := Option.some.inj hr
      refine Shown.of_linked (h.toListed.sync esi edi).linked fun n hn => ?_
      by_cases hne : n = edi
      · subst hne
        exact (syncNodes_shown_iff esi n s).2 (hsame arg esi n rfl hfirst hsecond)
      · exact (hs l h.linked n hn).sync esi (h.alone hn) hedi hne

/-- An ADD shows its element, and the others at their own locations. -/
theorem Shown.added {n : Slot} {arg : BlinkStruct} (hs : Shown s) (h : Apart s l) (hm : s.mp1Malloc = some n)
    (hd : Distinct (added arg n s)) : Shown (added arg n s) := by
  have hnew : Apart (Blink.added arg n s) (n :: l) := hd.added_apart h hm
  refine Shown.of_linked hnew.linked fun m hmem => ?_
  rcases List.mem_cons.1 hmem with rfl | hml
  · exact added_shown_self arg m s
  · have hne := ne_of_mem_of_not_mem hml (h.toListed.not_mem_free hm)
    refine (hs l h.linked m hml).add hne fun heq => hne (hnew.distinct m hmem n List.mem_cons_self ?_)
    rw [added_other arg s hne, heq, added_self arg n s]

/-- A REMOVE leaves the screen as it is. -/
theorem Shown.removed {n : Slot} {l1 l2 : List Slot} (hs : Shown s) (h : Listed s (l1 ++ n :: l2)) :
    Shown (removed l1.getLast? n s) := by
  refine Shown.of_linked h.remove.linked fun m hm => ?_
  have hn : n ∉ l1 ++ l2 := (List.nodup_cons.1 (List.nodup_middle.1 h.linked.nodup)).1
  have hmem : m ∈ l1 ++ n :: l2 := ((List.sublist_cons_self n l2).append_left l1).subset hm
  exact (hs _ h.linked m hmem).remove _ (ne_of_mem_of_not_mem hm hn)

/-- One operation. -/
theorem showsAfter_iff {op : Op} (hs : Shown s) (hd : DistinctAround s op) : ShowsAfter s op ↔ SyncsSame s op := by
  obtain ⟨⟨l, h⟩, hafter⟩ := And.imp_left Distinct.apart hd
  cases op with
  | sync arg => exact showsAfter_sync_iff h hs
  | add arg =>
    refine iff_of_true (fun r hr => ?_) (fun _ _ _ hop => by cases hop)
    have hdist := hafter _ rfl
    obtain rfl := Option.some.inj hr
    rcases mp1IoctlAdd_cases arg s with ⟨-, hadd⟩ | ⟨n, -, hm, hadd⟩
    · rw [hadd]
      exact hs
    · rw [hadd] at hdist ⊢
      exact hs.added h hm hdist
  | remove arg =>
    refine iff_of_true (fun r hr => ?_) (fun _ _ _ hop => by cases hop)
    rcases mp1IoctlRemove_eq h.toListed arg with ⟨-, hremove⟩ | ⟨l1, n, l2, rfl, -, hremove⟩
    · rw [step, hremove] at hr
      exact Option.some.inj hr ▸ hs
    · rw [step, hremove] at hr
      exact Option.some.inj hr ▸ hs.removed h.toListed
  | find location =>
    refine iff_of_true (fun r hr => ?_) (fun _ _ _ hop => by cases hop)
    obtain ⟨answer, hfind⟩ := mp1IoctlFind_eq h.toListed location
    rw [step, hfind] at hr
    exact Option.some.inj hr ▸ hs
  | tasklet =>
    refine iff_of_true (fun r hr => ?_) (fun _ _ _ hop => by cases hop)
    rw [step, mp1RtcTasklet_eq h.toListed] at hr
    obtain rfl := Option.some.inj hr
    exact Shown.of_linked (h.toListed.foldl l).linked fun n hn =>
      (hs l h.linked n hn).foldl l (h.alone hn) fun _ hm => hm

theorem shown_start (screen : Nat → UInt8) : Shown (start screen) :=
  Shown.of_linked (l := []) rfl fun _ hn => absurd hn List.not_mem_nil

/-- In every run whose linked elements are apart the screen is right after every operation exactly when every SYNC that
copies a set status bit finds the same character twice. -/
theorem shown_along_iff (screen : Nat → UInt8) (ops : List Op) (h : Along step DistinctAround (start screen) ops) :
    Along step ShowsAfter (start screen) ops ↔ Along step SyncsSame (start screen) ops :=
  along_iff_under (I := Shown) (P := ShowsAfter) (Q := SyncsSame) (R := DistinctAround)
    (fun _ _ hs hd => showsAfter_iff hs hd) (fun _ _ r hs hd hsame hr => (showsAfter_iff hs hd).2 hsame r hr)
    (shown_start screen) h

/-- A character that blinks between A and B. -/
def pair : BlinkStruct := ⟨60, 65, 66, 15, 15, 0, 0⟩

/-- It is linked, and synchronised with itself. -/
def pairSynced : List Op := [.add pair, .sync 0x003C003C]

theorem step_pair (screen : Nat → UInt8) : step (start screen) (.add pair) = some ({ ret := 0 }, added pair 0 (start screen)) :=
  congrArg some (mp1IoctlAdd_eq (mp1Malloc_start screen) (by decide))

theorem listed_pair (screen : Nat → UInt8) : Listed (added pair 0 (start screen)) [0] :=
  (listed_start screen).add (mp1Malloc_start screen) (by decide)

theorem Listed.distinct_single {n : Slot} (h : Listed s [n]) : Distinct s :=
  ⟨[n], h.linked, List.nodup_singleton _, h.used⟩

theorem find_pair (screen : Nat → UInt8) : (added pair 0 (start screen)).mp1FindHelper 60 = some (some 0) := by
  rw [mp1FindHelper_eq (listed_pair screen)]
  exact congrArg some (List.find?_cons_of_pos (by simp only [added_self]; decide))

theorem step_pair_sync (screen : Nat → UInt8) :
    step (added pair 0 (start screen)) (.sync 0x003C003C) =
      some ({ ret := 0 }, syncNodes 0 0 (added pair 0 (start screen))) :=
  mp1IoctlSync_found (find_pair screen) (find_pair screen)

theorem distinctAround_pair (screen : Nat → UInt8) : Along step DistinctAround (start screen) pairSynced := by
  have hlisted := listed_pair screen
  refine ⟨⟨⟨[], rfl, List.nodup_nil, fun _ hn => absurd hn List.not_mem_nil⟩, fun r hr => ?_⟩, fun r hr => ?_⟩
  · obtain rfl := Option.some.inj ((step_pair screen).symm.trans hr)
    exact hlisted.distinct_single
  obtain rfl := Option.some.inj ((step_pair screen).symm.trans hr)
  refine ⟨⟨hlisted.distinct_single, fun r hr => ?_⟩, fun r hr => trivial⟩
  obtain rfl := Option.some.inj ((step_pair_sync screen).symm.trans hr)
  exact (hlisted.sync 0 0).distinct_single

/-- The run of `pairSynced` shows B although the status bit is set. -/
theorem pair_not_shown : Along step DistinctAround (start fun _ => 32) pairSynced ∧
    ¬ Along step ShowsAfter (start fun _ => 32) pairSynced ∧
    ∃ x, run step (start fun _ => 32) pairSynced = some x ∧ (x.array 0).status &&& 1 = 1 ∧ x.screen 120 = 66 := by
  have hadd := step_pair fun _ => 32
  have hsync := step_pair_sync fun _ => 32
  have hlisted := listed_pair fun _ => 32
  refine ⟨distinctAround_pair _, fun ⟨_, hshows⟩ => ?_, syncNodes 0 0 (added pair 0 (start fun _ => 32)), ?_, ?_, ?_⟩
  · have hshown := (hshows _ hadd).1 _ hsync [0] (hlisted.sync 0 0).linked 0 List.mem_cons_self
    have hsame := (syncNodes_shown_iff 0 0 _).1 hshown (by rw [added_self]; decide)
    rw [added_self] at hsame
    exact absurd hsame (by decide)
  · simp only [pairSynced, run, hadd, hsync, Option.bind_some]
  · rw [syncNodes_self, added_self]
    decide
  · rw [syncNodes_screen, added_self]
    exact Function.update_self _ _ _

/-- The same run from a blank screen has a SYNC that differs. -/
theorem shown_along_iff_pair :
    Along step ShowsAfter (start fun _ => 32) pairSynced ↔ Along step SyncsSame (start fun _ => 32) pairSynced :=
  shown_along_iff (fun _ => 32) pairSynced (distinctAround_pair _)

end Blink

end Os391
