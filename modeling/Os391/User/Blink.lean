/-
The blinking characters of `blink.S` and their allocator in `fish.c`: a list of elements of `blink_array`, and the
calls that put elements in, take them out and go through them.
-/
import Os391.Base.Chain
import Os391.Base.Run
import Os391.Base.X86

namespace Os391

open X86 Chain Machine

/-! ## Data -/

/-- An element of `blink_array`. -/
abbrev Slot := Fin 2000

/-- `struct mp1_blink_struct` without its pointer. -/
structure BlinkStruct where
  location : UInt16
  onChar : UInt8
  offChar : UInt8
  onLength : UInt16
  offLength : UInt16
  countdown : UInt16
  status : UInt16
  deriving DecidableEq

/-- `struct mp1_blink_struct`. -/
structure BlinkNode extends BlinkStruct where
  next : Option Slot
  deriving DecidableEq

/-- `blink_array`, `mp1_list_head` and the mapped screen, by byte offset. -/
structure Blink where
  array : Slot → BlinkNode
  head : Option Slot
  screen : Nat → UInt8

namespace Blink

/-- The pointers of the elements. -/
def next (s : Blink) : Slot → Option Slot := fun n => (s.array n).next

/-- More elements than `blink_array` has: a walk that has not ended after these has come to an element twice, and
never ends. -/
def walk : Nat := 2001

/-! ## The allocator -/

/-- `mp1_malloc`. -/
def mp1Malloc (s : Blink) : Option Slot := (List.finRange 2000).find? fun i => (s.array i).location = 0

/-- A cleared element. -/
def zeroNode : BlinkNode := ⟨⟨0, 0, 0, 0, 0, 0, 0⟩, none⟩

/-- `mp1_free`. -/
def mp1Free (n : Slot) (s : Blink) : Blink := { s with array := Function.update s.array n zeroNode }

/-! ## The screen and the clock -/

/-- `mp1_poke` at a location. -/
def mp1Poke (location : UInt16) (c : UInt8) (s : Blink) : Blink :=
  { s with screen := Function.update s.screen (2 * location.toNat) c }

/-- The part of `tasklet_loop` for one element. -/
def taskletNode (n : Slot) (s : Blink) : Blink :=
  let node := s.array n
  let node := { node with countdown := node.countdown - 1 }
  if (Flags.cmp node.countdown.toBitVec 0).g then { s with array := Function.update s.array n node }
  else
    let off := (Flags.test (1 : UInt16).toBitVec node.status.toBitVec).zf
    let cl := if off then node.onChar else node.offChar
    let s := s.mp1Poke node.location cl
    let dx := if off then node.onLength else node.offLength
    let node := { node with countdown := dx, status := node.status ^^^ 1 }
    { s with array := Function.update s.array n node }

/-- `mp1_rtc_tasklet`. -/
def mp1RtcTasklet (s : Blink) : Option Blink := traverse next taskletNode walk s.head s

/-! ## mp1_ioctl -/

/-- `mp1_find_helper`. -/
def mp1FindHelper (location : UInt16) (s : Blink) : Option (Option Slot) :=
  search s.next (fun n => (s.array n).location = location) walk s.head

/-- What a call returns, and the structure that `mp1_ioctl_find` copies to its caller. -/
structure Answer where
  ret : Int
  found : Option BlinkNode := none

/-- `mp1_ioctl_add`. -/
def mp1IoctlAdd (arg : BlinkStruct) (s : Blink) : Answer × Blink :=
  if (Flags.cmp arg.location.toBitVec (80 * 25 : UInt16).toBitVec).ae then ({ ret := -1 }, s)
  else
    let arg := { arg with status := 1, countdown := arg.onLength }
    match s.mp1Malloc with
    | none => ({ ret := -1 }, s)
    | some n =>
      let s := { s with array := Function.update s.array n ⟨arg, s.head⟩, head := some n }
      ({ ret := 0 }, s.mp1Poke arg.location arg.onChar)

/-- The store of a link to a pointer. -/
def storeLink (c v : Option Slot) (s : Blink) : Blink :=
  match c with
  | none => { s with head := v }
  | some m => { s with array := Function.update s.array m { s.array m with next := v } }

/-- `mp1_ioctl_remove`. -/
def mp1IoctlRemove (arg : UInt32) (s : Blink) : Option (Answer × Blink) :=
  (s.mp1FindHelper arg.toUInt16).bind fun eax =>
    match eax with
    | none => some ({ ret := -1 }, s)
    | some n => (pointerTo s.next s.head n walk none).map fun edx =>
        ({ ret := 0 }, (s.storeLink edx (s.next n)).mp1Free n)

/-- `mp1_ioctl_sync`, once both elements are found. -/
def syncNodes (esi edi : Slot) (s : Blink) : Blink :=
  let src := s.array esi
  let node := { s.array edi with
    onLength := src.onLength, offLength := src.offLength, countdown := src.countdown, status := src.status }
  let s := { s with array := Function.update s.array edi node }
  let ecx := node.offChar
  let ebx := node.onChar
  let ecx := if (Flags.test (1 : UInt8).toBitVec node.status.toUInt8.toBitVec).l then ebx else ecx
  s.mp1Poke node.location ecx

/-- `mp1_ioctl_sync`. -/
def mp1IoctlSync (arg : UInt32) (s : Blink) : Option (Answer × Blink) :=
  (s.mp1FindHelper (arg >>> 16).toUInt16).bind fun first =>
    match first with
    | none => some ({ ret := -1 }, s)
    | some esi =>
      (s.mp1FindHelper (arg &&& 0xFFFF).toUInt16).map fun second =>
        match second with
        | none => ({ ret := -1 }, s)
        | some edi => ({ ret := 0 }, syncNodes esi edi s)

/-- `mp1_ioctl_find`, for the location in its argument. -/
def mp1IoctlFind (location : UInt16) (s : Blink) : Option (Answer × Blink) :=
  (s.mp1FindHelper location).map fun eax =>
    match eax with
    | none => ({ ret := -1 }, s)
    | some n => ({ ret := 0, found := some (s.array n) }, s)

/-- The calls of `mp1_ioctl`, and `mp1_rtc_tasklet`. -/
inductive Op
  | add (arg : BlinkStruct)
  | remove (arg : UInt32)
  | find (location : UInt16)
  | sync (arg : UInt32)
  | tasklet
  deriving DecidableEq

/-- One of these; `none` when it does not come back. -/
def step (s : Blink) : Op → Option (Answer × Blink)
  | .add arg => some (s.mp1IoctlAdd arg)
  | .remove arg => s.mp1IoctlRemove arg
  | .find location => s.mp1IoctlFind location
  | .sync arg => s.mp1IoctlSync arg
  | .tasklet => s.mp1RtcTasklet.map fun s => ({ ret := 0 }, s)

/-- No element linked, `blink_array` cleared. -/
def start (screen : Nat → UInt8) : Blink := ⟨fun _ => zeroNode, none, screen⟩

/-! ## The list -/

/-- The list of a state: what hangs on `mp1_list_head`, no element of it free. -/
structure Listed (s : Blink) (l : List Slot) : Prop where
  linked : Linked s.next s.head l
  used : ∀ n ∈ l, (s.array n).location ≠ 0

variable {s : Blink} {l : List Slot}

theorem Listed.length_lt (h : Listed s l) : l.length < walk :=
  Nat.lt_succ_of_le (h.linked.length_le.trans (by rw [Fintype.card_fin]))

/-- Another state with the same links and locations. -/
theorem Listed.congr {s' : Blink} (h : Listed s l) (hhead : s'.head = s.head)
    (hnode : ∀ n, s'.next n = s.next n ∧ (s'.array n).location = (s.array n).location) : Listed s' l := by
  refine ⟨?_, fun n hn => ?_⟩
  · rw [hhead]
    exact h.linked.congr fun n _ => (hnode n).1
  · rw [(hnode n).2]
    exact h.used n hn

theorem mp1FindHelper_eq (h : Listed s l) (location : UInt16) :
    s.mp1FindHelper location = some (l.find? fun n => (s.array n).location = location) :=
  h.linked.search h.length_lt

theorem mp1FindHelper_mem {location : UInt16} {n : Slot} (h : Listed s l)
    (hfind : s.mp1FindHelper location = some (some n)) : n ∈ l := by
  rw [mp1FindHelper_eq h, Option.some.injEq] at hfind
  exact List.mem_of_find?_eq_some hfind

theorem mp1FindHelper_location {location : UInt16} {n : Slot} (h : Listed s l)
    (hfind : s.mp1FindHelper location = some (some n)) : (s.array n).location = location := by
  rw [mp1FindHelper_eq h, Option.some.injEq] at hfind
  simpa using List.find?_some hfind

/-! ## The tasklet -/

theorem taskletNode_node (n m : Slot) (s : Blink) :
    (taskletNode n s).next m = s.next m ∧ ((taskletNode n s).array m).location = (s.array m).location := by
  unfold taskletNode mp1Poke next
  by_cases hm : m = n
  · subst hm
    dsimp only
    split_ifs <;> simp only [Function.update_self, and_self]
  · dsimp only
    split_ifs <;> simp only [Function.update_of_ne hm, and_self]

theorem taskletNode_head (n : Slot) (s : Blink) : (taskletNode n s).head = s.head := by
  unfold taskletNode mp1Poke
  dsimp only
  split_ifs <;> rfl

/-- The tasklet goes through the list once. -/
theorem mp1RtcTasklet_eq (h : Listed s l) :
    s.mp1RtcTasklet = some (l.foldl (fun s n => taskletNode n s) s) :=
  h.linked.traverse (fun n s => funext fun m => (taskletNode_node n m s).1) h.length_lt

theorem Listed.taskletNode (h : Listed s l) (n : Slot) : Listed (taskletNode n s) l :=
  h.congr (taskletNode_head n s) fun m => taskletNode_node n m s

theorem Listed.foldl : ∀ {s : Blink} (ns : List Slot), Listed s l →
    Listed (ns.foldl (fun s n => Blink.taskletNode n s) s) l
  | _, [], h => h
  | _, n :: ns, h => (h.taskletNode n).foldl ns

/-! ## ADD -/

theorem mp1Malloc_location {n : Slot} (h : s.mp1Malloc = some n) : (s.array n).location = 0 := by
  simpa using List.find?_some h

/-- An element handed out is handed out again as long as its location stays 0 and nothing before it changes. -/
theorem mp1Malloc_again {s' : Blink} {n : Slot} (h : s.mp1Malloc = some n) (hn : (s'.array n).location = 0)
    (hother : ∀ m, m ≠ n → s'.array m = s.array m) : s'.mp1Malloc = some n := by
  obtain ⟨-, as, bs, hsplit, has⟩ := List.find?_eq_some_iff_append.1 h
  refine List.find?_eq_some_iff_append.2 ⟨by simpa using hn, as, bs, hsplit, fun m hm => ?_⟩
  have hne : m ≠ n := by
    rintro rfl
    have hnd := hsplit ▸ List.nodup_finRange 2000
    exact (List.nodup_append.1 hnd).2.2 m hm m List.mem_cons_self rfl
  rw [hother m hne]
  exact has m hm

/-- The state after an ADD that succeeds. -/
def added (arg : BlinkStruct) (n : Slot) (s : Blink) : Blink :=
  mp1Poke arg.location arg.onChar
    { s with
      array := Function.update s.array n ⟨{ arg with status := 1, countdown := arg.onLength }, s.head⟩
      head := some n }

theorem mp1IoctlAdd_cases (arg : BlinkStruct) (s : Blink) :
    (2000 ≤ arg.location.toNat ∨ s.mp1Malloc = none) ∧ s.mp1IoctlAdd arg = ({ ret := -1 }, s) ∨
      ∃ n, arg.location.toNat < 2000 ∧ s.mp1Malloc = some n ∧ s.mp1IoctlAdd arg = ({ ret := 0 }, added arg n s) := by
  have hae : (Flags.cmp arg.location.toBitVec (80 * 25 : UInt16).toBitVec).ae = true ↔ 2000 ≤ arg.location.toNat :=
    Flags.ae_cmp _ _
  unfold mp1IoctlAdd
  by_cases hloc : 2000 ≤ arg.location.toNat
  · exact Or.inl ⟨Or.inl hloc, if_pos (hae.2 hloc)⟩
  · rw [if_neg (fun h => hloc (hae.1 h))]
    rcases hm : s.mp1Malloc with _ | n
    · exact Or.inl ⟨Or.inr rfl, rfl⟩
    · exact Or.inr ⟨n, Nat.lt_of_not_le hloc, rfl, rfl⟩

theorem mp1IoctlAdd_eq {arg : BlinkStruct} {n : Slot} (hm : s.mp1Malloc = some n) (hloc : arg.location.toNat < 2000) :
    s.mp1IoctlAdd arg = ({ ret := 0 }, added arg n s) := by
  rcases mp1IoctlAdd_cases arg s with ⟨hge | hnone, -⟩ | ⟨n', -, hm', hadd⟩
  · exact absurd hloc (Nat.not_lt_of_le hge)
  · rw [hm] at hnone
    cases hnone
  · obtain rfl := Option.some.inj (hm.symm.trans hm')
    exact hadd

theorem next_added (arg : BlinkStruct) (n : Slot) (s : Blink) : (added arg n s).next = Function.update s.next n s.head := by
  funext m
  by_cases hm : m = n
  · subst hm
    simp only [next, added, mp1Poke, Function.update_self]
  · simp only [next, added, mp1Poke, Function.update_of_ne hm]

/-- An ADD links an element that was free. -/
theorem Listed.add {n : Slot} {arg : BlinkStruct} (h : Listed s l) (hm : s.mp1Malloc = some n) (hloc : arg.location ≠ 0) :
    Listed (added arg n s) (n :: l) := by
  have hfree : n ∉ l := fun hn => h.used n hn (mp1Malloc_location hm)
  refine ⟨?_, fun m hmem => ?_⟩
  · rw [next_added]
    exact h.linked.push hfree
  · rcases List.mem_cons.1 hmem with rfl | hmem
    · simpa only [added, mp1Poke, Function.update_self] using hloc
    · simpa only [added, mp1Poke, Function.update_of_ne (ne_of_mem_of_not_mem hmem hfree)] using h.used m hmem

/-! ## REMOVE -/

/-- The state after a REMOVE that succeeds. -/
def removed (edx : Option Slot) (n : Slot) (s : Blink) : Blink := (s.storeLink edx (s.next n)).mp1Free n

theorem storeLink_head (c v : Option Slot) (s : Blink) : (s.storeLink c v).head = storeHead s.head c v := by
  cases c <;> rfl

theorem storeLink_next (c v : Option Slot) (s : Blink) : (s.storeLink c v).next = storeNext s.next c v := by
  cases c with
  | none => rfl
  | some m =>
    funext k
    by_cases hk : k = m
    · subst hk
      simp only [next, storeLink, storeNext, Function.update_self]
    · simp only [next, storeLink, storeNext, Function.update_of_ne hk]

theorem storeLink_node (c v : Option Slot) (s : Blink) (k : Slot) :
    ((s.storeLink c v).array k).toBlinkStruct = (s.array k).toBlinkStruct := by
  cases c with
  | none => rfl
  | some m =>
    by_cases hk : k = m
    · subst hk
      simp only [storeLink, Function.update_self]
    · simp only [storeLink, Function.update_of_ne hk]

/-- What the other elements hold besides their pointers stays. -/
theorem removed_node {n k : Slot} (edx : Option Slot) (s : Blink) (hk : k ≠ n) :
    ((removed edx n s).array k).toBlinkStruct = (s.array k).toBlinkStruct := by
  have hfree : (removed edx n s).array k = (s.storeLink edx (s.next n)).array k := Function.update_of_ne hk _ _
  rw [hfree, storeLink_node]

/-- A REMOVE takes the element out of the list. -/
theorem Listed.remove {n : Slot} {l1 l2 : List Slot} (h : Listed s (l1 ++ n :: l2)) :
    Listed (removed l1.getLast? n s) (l1 ++ l2) := by
  have hn : n ∉ l1 ++ l2 := (List.nodup_cons.1 (List.nodup_middle.1 h.linked.nodup)).1
  refine ⟨?_, fun m hm => ?_⟩
  · have hunlinked := h.linked.unlink
    rw [← storeLink_next, ← storeLink_head] at hunlinked
    refine hunlinked.congr fun m hm => ?_
    simp only [next, removed, mp1Free, Function.update_of_ne (ne_of_mem_of_not_mem hm hn)]
  · rw [removed_node _ _ (ne_of_mem_of_not_mem hm hn)]
    refine h.used m ?_
    rw [List.mem_append] at hm ⊢
    exact hm.imp_right (List.mem_cons_of_mem _)

/-- What a REMOVE does: nothing when no element has the location, or the first one that has it goes. -/
theorem mp1IoctlRemove_eq (h : Listed s l) (arg : UInt32) :
    (s.mp1FindHelper arg.toUInt16 = some none ∧ s.mp1IoctlRemove arg = some ({ ret := -1 }, s)) ∨
      ∃ l1 n l2, l = l1 ++ n :: l2 ∧ s.mp1FindHelper arg.toUInt16 = some (some n) ∧
        s.mp1IoctlRemove arg = some ({ ret := 0 }, removed l1.getLast? n s) := by
  unfold mp1IoctlRemove
  rw [mp1FindHelper_eq h, Option.bind_some]
  rcases hf : l.find? fun n => (s.array n).location = arg.toUInt16 with _ | n
  · exact Or.inl ⟨rfl, rfl⟩
  · obtain ⟨-, l1, l2, hl, -⟩ := List.find?_eq_some_iff_append.1 hf
    subst hl
    refine Or.inr ⟨l1, n, l2, rfl, rfl, ?_⟩
    have hlen : l1.length < walk := lt_of_le_of_lt (by simp) h.length_lt
    dsimp only
    rw [h.linked.pointerTo hlen]
    rfl

/-! ## SYNC and FIND -/

theorem mp1IoctlSync_found {arg : UInt32} {esi edi : Slot} (hfirst : s.mp1FindHelper (arg >>> 16).toUInt16 = some (some esi))
    (hsecond : s.mp1FindHelper (arg &&& 0xFFFF).toUInt16 = some (some edi)) :
    s.mp1IoctlSync arg = some ({ ret := 0 }, syncNodes esi edi s) := by
  unfold mp1IoctlSync
  rw [hfirst, Option.bind_some]
  dsimp only
  rw [hsecond, Option.map_some]

theorem mp1IoctlSync_eq (h : Listed s l) (arg : UInt32) :
    s.mp1IoctlSync arg = some ({ ret := -1 }, s) ∨
      ∃ esi, ∃ edi ∈ l, s.mp1FindHelper (arg >>> 16).toUInt16 = some (some esi) ∧
        s.mp1FindHelper (arg &&& 0xFFFF).toUInt16 = some (some edi) ∧
        s.mp1IoctlSync arg = some ({ ret := 0 }, syncNodes esi edi s) := by
  have hfirst := mp1FindHelper_eq h (arg >>> 16).toUInt16
  have hsecond := mp1FindHelper_eq h (arg &&& 0xFFFF).toUInt16
  rcases hf : l.find? fun n => (s.array n).location = (arg >>> 16).toUInt16 with _ | esi
  · refine Or.inl ?_
    rw [mp1IoctlSync, hfirst, hf]
    rfl
  rcases hf' : l.find? fun n => (s.array n).location = (arg &&& 0xFFFF).toUInt16 with _ | edi
  · refine Or.inl ?_
    rw [mp1IoctlSync, hfirst, hf, Option.bind_some]
    dsimp only
    rw [hsecond, hf']
    rfl
  · rw [hf] at hfirst
    rw [hf'] at hsecond
    exact Or.inr ⟨esi, edi, List.mem_of_find?_eq_some hf', hfirst, hsecond, mp1IoctlSync_found hfirst hsecond⟩

theorem syncNodes_node (esi edi m : Slot) (s : Blink) :
    (syncNodes esi edi s).next m = s.next m ∧ ((syncNodes esi edi s).array m).location = (s.array m).location := by
  unfold syncNodes mp1Poke next
  by_cases hm : m = edi
  · subst hm
    simp only [Function.update_self, and_self]
  · simp only [Function.update_of_ne hm, and_self]

theorem Listed.sync (h : Listed s l) (esi edi : Slot) : Listed (syncNodes esi edi s) l :=
  h.congr rfl fun m => syncNodes_node esi edi m s

theorem mp1IoctlFind_eq (h : Listed s l) (location : UInt16) :
    ∃ answer, s.mp1IoctlFind location = some (answer, s) := by
  unfold mp1IoctlFind
  rw [mp1FindHelper_eq h, Option.map_some]
  split <;> exact ⟨_, rfl⟩

/-! ## Whole runs -/

/-- The list with the successful ADDs and REMOVEs counted. -/
structure Tally where
  blink : Blink
  adds : Nat
  removes : Nat

/-- One operation, counted. -/
def tallyStep (x : Tally) (op : Op) : Option (Answer × Tally) :=
  (x.blink.step op).map fun r =>
    (r.1,
      match op with
      | .add _ => ⟨r.2, if r.1.ret = 0 then x.adds + 1 else x.adds, x.removes⟩
      | .remove _ => ⟨r.2, x.adds, if r.1.ret = 0 then x.removes + 1 else x.removes⟩
      | _ => ⟨r.2, x.adds, x.removes⟩)

/-- The list is finite and holds no element twice, none of its elements is the one that `mp1_malloc` hands out next, and
its length is that of the ADDs less the REMOVEs. -/
def Sound (x : Tally) : Prop :=
  ∃ l, Linked x.blink.next x.blink.head l ∧ l.Nodup ∧ (∀ n ∈ l, x.blink.mp1Malloc ≠ some n) ∧
    l.length + x.removes = x.adds

/-- The operation comes back, and the list is sound then. -/
def ComesBackSound (x : Tally) (op : Op) : Prop := ∃ r, tallyStep x op = some r ∧ Sound r.2

/-- An ADD at location 0 finds no free element. -/
def SparesZero (x : Tally) (op : Op) : Prop := ∀ arg, op = .add arg → arg.location = 0 → x.blink.mp1Malloc = none

/-- No element of the list is free, and the counts are right. -/
def Counted (x : Tally) : Prop := ∃ l, Listed x.blink l ∧ l.length + x.removes = x.adds

theorem Counted.sound {x : Tally} : Counted x → Sound x
  | ⟨l, hl, hcount⟩ => ⟨l, hl.linked, hl.linked.nodup, fun n hn hm => hl.used n hn (mp1Malloc_location hm), hcount⟩

theorem listed_start (screen : Nat → UInt8) : Listed (start screen) [] :=
  ⟨rfl, fun _ hn => absurd hn List.not_mem_nil⟩

theorem counted_start (screen : Nat → UInt8) : Counted ⟨start screen, 0, 0⟩ := ⟨[], listed_start screen, rfl⟩

/-- An operation that spares location 0 comes back and keeps the list. -/
theorem tallyStep_counted {x : Tally} {op : Op} (hx : Counted x) (hop : SparesZero x op) :
    ∃ r, tallyStep x op = some r ∧ Counted r.2 := by
  obtain ⟨l, hl, hcount⟩ := hx
  unfold tallyStep
  cases op with
  | add arg =>
    refine ⟨_, rfl, ?_⟩
    rcases mp1IoctlAdd_cases arg x.blink with ⟨-, hadd⟩ | ⟨n, -, hm, hadd⟩
    · simp only [hadd]
      exact ⟨l, hl, hcount⟩
    · have hloc : arg.location ≠ 0 := fun h0 => by
        have hnone := hop arg rfl h0
        rw [hm] at hnone
        cases hnone
      simp only [hadd]
      refine ⟨n :: l, hl.add hm hloc, ?_⟩
      simp only [List.length_cons, if_true]
      omega
  | remove arg =>
    rcases mp1IoctlRemove_eq hl arg with ⟨-, hremove⟩ | ⟨l1, n, l2, rfl, -, hremove⟩
    · refine ⟨_, by rw [step, hremove]; rfl, l, hl, hcount⟩
    · refine ⟨_, by rw [step, hremove]; rfl, l1 ++ l2, hl.remove, ?_⟩
      simp only [List.length_append, List.length_cons, if_true] at hcount ⊢
      omega
  | find location =>
    obtain ⟨answer, hfind⟩ := mp1IoctlFind_eq hl location
    exact ⟨_, by rw [step, hfind]; rfl, l, hl, hcount⟩
  | sync arg =>
    rcases mp1IoctlSync_eq hl arg with hsync | ⟨esi, edi, -, -, -, hsync⟩
    · exact ⟨_, by rw [step, hsync]; rfl, l, hl, hcount⟩
    · exact ⟨_, by rw [step, hsync]; rfl, l, hl.sync esi edi, hcount⟩
  | tasklet => exact ⟨_, by rw [step, mp1RtcTasklet_eq hl]; rfl, l, hl.foldl l, hcount⟩

/-- After an ADD at location 0 the element just linked is the next to be handed out. -/
theorem mp1Malloc_added {arg : BlinkStruct} {n : Slot} (hm : s.mp1Malloc = some n) (h0 : arg.location = 0) :
    (added arg n s).mp1Malloc = some n := by
  refine mp1Malloc_again hm ?_ fun m hne => ?_
  · simpa only [added, mp1Poke, Function.update_self] using h0
  · simp only [added, mp1Poke, Function.update_of_ne hne]

theorem mp1IoctlAdd_zero {arg : BlinkStruct} {n : Slot} (hm : s.mp1Malloc = some n) (h0 : arg.location = 0) :
    s.mp1IoctlAdd arg = ({ ret := 0 }, added arg n s) :=
  mp1IoctlAdd_eq hm (by rw [h0]; decide)

theorem not_sound_zero {x : Tally} {arg : BlinkStruct} {n : Slot} (hm : x.blink.mp1Malloc = some n)
    (h0 : arg.location = 0) : ¬ ComesBackSound x (.add arg) := by
  rintro ⟨r, hr, l, hlinked, -, hfree, -⟩
  simp only [tallyStep, step, mp1IoctlAdd_zero hm h0, Option.map_some, Option.some.injEq] at hr
  subst hr
  cases l with
  | nil => cases hlinked
  | cons m l =>
    obtain rfl := Option.some.inj hlinked.1
    exact hfree _ List.mem_cons_self (mp1Malloc_added hm h0)

/-- In every run the operations come back with a sound list exactly when no ADD at location 0 finds a free element. -/
theorem list_along_iff (screen : Nat → UInt8) (ops : List Op) :
    Along tallyStep ComesBackSound ⟨start screen, 0, 0⟩ ops ↔ Along tallyStep SparesZero ⟨start screen, 0, 0⟩ ops := by
  refine along_iff (I := Counted) (fun x op hx => ⟨fun hback arg hop h0 => ?_, fun hop => ?_⟩)
    (fun x op r hx hop hr => ?_) (counted_start screen)
  · subst hop
    rcases hm : x.blink.mp1Malloc with _ | n
    · rfl
    · exact absurd hback (not_sound_zero hm h0)
  · obtain ⟨r, hr, hc⟩ := tallyStep_counted hx hop
    exact ⟨r, hr, hc.sound⟩
  · obtain ⟨r', hr', hc⟩ := tallyStep_counted hx hop
    rw [hr] at hr'
    exact Option.some.inj hr' ▸ hc

theorem mp1Malloc_start (screen : Nat → UInt8) : (start screen).mp1Malloc = some 0 := by
  rw [mp1Malloc, List.finRange_succ, List.find?_cons_of_pos]
  rfl

/-- An element that leads to itself holds the tasklet for ever. -/
theorem traverse_loop {n : Slot} : ∀ (k : Nat) {s : Blink}, s.next n = some n →
    traverse next taskletNode k (some n) s = none
  | 0, _, _ => rfl
  | k + 1, s, h => by
    have hnext : (taskletNode n s).next n = some n := (taskletNode_node n n s).1.trans h
    show traverse next taskletNode k ((taskletNode n s).next n) (taskletNode n s) = none
    rw [hnext]
    exact traverse_loop k hnext

/-- A character at location 0. -/
def corner : BlinkStruct := ⟨0, 65, 66, 15, 15, 0, 0⟩

/-- Two ADDs at location 0 link one element to itself: the next tasklet does not come back. -/
theorem tasklet_stuck :
    ¬ Along tallyStep ComesBackSound ⟨start fun _ => 32, 0, 0⟩ [.add corner, .add corner, .tasklet] ∧
      ∃ x, run tallyStep ⟨start fun _ => 32, 0, 0⟩ [.add corner, .add corner] = some x ∧ tallyStep x .tasklet = none := by
  have h0 : corner.location = 0 := rfl
  have hm := mp1Malloc_start fun _ => 32
  have hm' := mp1Malloc_added hm h0
  constructor
  · rintro ⟨hback, -⟩
    exact not_sound_zero (x := ⟨start fun _ => 32, 0, 0⟩) hm h0 hback
  refine ⟨⟨added corner 0 (added corner 0 (start fun _ => 32)), 2, 0⟩, ?_, ?_⟩
  · simp only [run, tallyStep, step, mp1IoctlAdd_zero hm h0, mp1IoctlAdd_zero hm' h0, Option.map_some, Option.bind_some,
      if_true]
  · have hnext : (added corner 0 (added corner 0 (start fun _ => 32))).next 0 = some 0 := by
      rw [next_added, Function.update_self]
      rfl
    have hstuck : (added corner 0 (added corner 0 (start fun _ => 32))).mp1RtcTasklet = none := traverse_loop walk hnext
    simp only [tallyStep, step, hstuck, Option.map_none]

end Blink

end Os391
