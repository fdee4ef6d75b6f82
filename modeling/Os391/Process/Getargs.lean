/-
What `getargs` gives of the argument in the block. It clears 1024 bytes of a buffer of any size, and what
does not fit in the buffer is cut off without a word.
-/
import Os391.Kernel.Terminal
import Os391.Process.Words

namespace Os391

open Bytes

/-! ## The argument in the block -/

/-- The stores of an argument, where they all stay in the block: they go one byte past `arg_name` at most, into
the size, which `parse_cmd` writes last. -/
theorem storeAll_argName_some : ∀ {bs : List UInt8} {k : Nat} {p q : Pcb}, storeAll (storesAt .argName k bs) p = some q →
    (bs = [] ∨ k + bs.length ≤ 41) ∧ q.argName = putWord p.argName k bs
  | [], k, p, q, h => by
    obtain rfl : p = q := Option.some.inj h
    exact ⟨Or.inl rfl, (putWord_nil _ _).symm⟩
  | b :: bs, k, p, q, h => by
    rw [storeAll, storesAt, List.foldlM_cons, WordStore.offset_argName] at h
    obtain ⟨p', hp', h⟩ := Option.bind_eq_some_iff.1 h
    obtain ⟨hle, harg⟩ := storeAll_argName_some h
    unfold Pcb.storeByte at hp'
    rw [dif_neg (by omega)] at hp'
    -- in the array, on the size behind it, or past the block
    rcases Nat.lt_trichotomy k 40 with hk | rfl | hk
    · rw [dif_pos (by omega)] at hp'
      obtain rfl := Option.some.inj hp'
      refine ⟨Or.inr ?_, ?_⟩
      · rw [List.length_cons]
        rcases hle with rfl | hle
        · rw [List.length_nil]
          omega
        · omega
      · rw [harg, ← putWord_cons _ hk]
        simp only [Nat.add_sub_cancel_left]
    · rw [dif_neg (by omega), if_pos rfl] at hp'
      obtain rfl := Option.some.inj hp'
      have hpast : ∀ (f : Fin 40 → UInt8) (k : Nat) (bs : List UInt8), 40 ≤ k → putWord f k bs = f := by
        intro f k bs hk
        funext j
        exact if_neg (by omega)
      refine ⟨Or.inr ?_, ?_⟩
      · rw [List.length_cons]
        rcases hle with rfl | hle
        · rw [List.length_nil]
        · omega
      · rw [harg, hpast _ _ _ (by omega), hpast _ _ _ (by omega)]
    · rw [dif_neg (by omega), if_neg (by omega)] at hp'
      cases hp'

/-- What `parse_cmd` leaves of the argument of a line. -/
theorem parseCmd_argument {input : CString} {p q : Pcb} (h : parseCmd input p = some q) :
    let arg := argumentOf (scanned input)
    arg.length ≤ 41 ∧ q.dataArgSize.toNat = arg.length ∧
      ∀ i : Fin 40, i.val < arg.length → q.argName i = arg.getD i.val 0 := by
  intro arg
  rw [parseCmd_stores, commandStores_eq, List.countP_append, storesAt_countP, storesAt_countP, storeAll,
    List.foldlM_append] at h
  obtain ⟨q', hq', rfl⟩ := Option.map_eq_some_iff.1 h
  obtain ⟨q1, -, hq1⟩ := Option.bind_eq_some_iff.1 hq'
  obtain ⟨hle, harg⟩ := storeAll_argName_some hq1
  have hlen : arg.length ≤ 41 := by
    rcases hle with hnil | hle
    · simp [arg, hnil]
    · simpa using hle
  refine ⟨hlen, ?_, ?_⟩
  · show (UInt8.ofNat (0 + arg.length)).toNat = arg.length
    rw [UInt8.toNat_ofNat', Nat.zero_add, Nat.mod_eq_of_lt (by omega)]
  · intro i hi
    show q'.argName i = _
    rw [harg, putWord, if_pos (Nat.zero_le _), Nat.sub_zero, List.getElem?_eq_getElem hi, List.getD_eq_getElem _ _ hi]
    rfl

namespace Kernel

/-! ## getargs -/

/-- `getargs` clears 1024 bytes, and copies what the buffer has room for. -/
theorem getargs_puts {s : Kernel} {buf : Int} (hbuf : buf ≠ 0) (hsize : s.pcblock.dataArgSize.toNat ≤ 41) (nbytes : Nat) :
    let n := min s.pcblock.dataArgSize.toNat nbytes
    ∃ s', getargs buf nbytes s = some (0, s') ∧ s'.cr3 = s.cr3 ∧
      (∀ dir a, ¬ (dir = s.cr3 ∧ buf ≤ a ∧ a < buf + 1024) → s'.user dir a = s.user dir a) ∧
      (∀ i (hi : i < 40), i < n → s'.userView buf i = s.pcblock.argName ⟨i, hi⟩) ∧
      (40 < n → s'.userView buf 40 = s.pcblock.dataArgSize) ∧
      ∀ i, n ≤ i → i < 1024 → s'.userView buf i = 0 := by
  intro n
  let arg : Buf := fun i => if h : i < 40 then s.pcblock.argName ⟨i, h⟩ else s.pcblock.dataArgSize
  have hn : (if (s.pcblock.dataArgSize.toNat : Int) < nbytes then s.pcblock.dataArgSize.toNat else (nbytes : Int).toNat) =
      n := by
    rw [Int.toNat_natCast]
    split <;> omega
  refine ⟨(s.userPut buf 1024 fun _ => 0).userPut buf n arg, ?_, rfl, ?_, ?_, ?_, ?_⟩
  · unfold getargs
    rw [if_neg (by omega)]
    simp only
    rw [hn, if_pos (by omega)]
  · rintro dir a ha
    have hcopied := userPut_frame (s.userPut buf 1024 fun _ => 0) buf n arg dir a fun h => ha ⟨h.1, h.2.1, by omega⟩
    exact hcopied.trans (userPut_frame s buf 1024 _ dir a ha)
  · intro i hi hin
    rw [userView_userPut _ _ _ hin]
    exact dif_pos hi
  · intro h40
    rw [userView_userPut _ _ _ h40]
    rfl
  · intro i hin hi
    rw [userView_userPut_of_le _ _ _ hin, userView_userPut _ _ _ hi]

/-- With the argument `arg` in `pcblock`: what fits of it, with the terminator. -/
theorem getargs_string {s : Kernel} {arg : List UInt8} {buf nbytes : Int} (hbuf : buf ≠ 0) (hn : 1 ≤ nbytes)
    (hle : arg.length ≤ 40) (h0 : 0 ∉ arg) (harg : s.pcblock.argName = putWord (fun _ => 0) 0 arg)
    (hsize : s.pcblock.dataArgSize = UInt8.ofNat arg.length) :
    ∃ s', getargs buf nbytes s = some (0, s') ∧ IsString (s'.userView buf) (arg.take nbytes.toNat) := by
  obtain ⟨n, rfl⟩ : ∃ n : Nat, nbytes = n := ⟨nbytes.toNat, by omega⟩
  rw [Int.toNat_natCast]
  have hto : s.pcblock.dataArgSize.toNat = arg.length := by
    rw [hsize, UInt8.toNat_ofNat', Nat.mod_eq_of_lt (by omega)]
  obtain ⟨s', hget, -, -, hinside, -, hclear⟩ := getargs_puts (s := s) hbuf (by omega) n
  have hlen : (arg.take n).length = min s.pcblock.dataArgSize.toNat n := by
    rw [List.length_take, hto, Nat.min_comm]
  refine ⟨s', hget, fun hm => h0 (List.mem_of_mem_take hm), ?_⟩
  intro i hi
  rcases Nat.eq_or_lt_of_le hi with rfl | hlt
  · rw [hclear _ (by omega) (by omega), List.getD_eq_default _ _ (le_refl _)]
  · rw [hinside i (by omega) (by omega), harg, putWord_zero]
    simp only [List.getD_eq_getElem?_getD]
    rw [List.getElem?_take, if_pos (by omega)]

/-- `getargs` gives the argument `arg`, which the block `q` holds: it stores in the `nbytes` bytes of the buffer
only, when it returns 0 these hold the argument and a NUL, and it returns -1 when they cannot. -/
def GivesArgument (q : Pcb) (arg : List UInt8) (nbytes : Nat) : Prop :=
  ∀ (s : Kernel) (buf : Int), s.pcblock = q → ∃ v s', getargs buf nbytes s = some (v, s') ∧
    (∀ dir a, ¬ (dir = s.cr3 ∧ buf ≤ a ∧ a < buf + nbytes) → s'.user dir a = s.user dir a) ∧
    (v = 0 → arg.length < nbytes ∧ ∀ i, i ≤ arg.length → s'.userView buf i = arg.getD i 0) ∧
    (nbytes ≤ arg.length → v = -1)

theorem getLast_iff {arg : List UInt8} (h : arg.length = 41) (b : UInt8) : arg.getLast? = some b ↔ arg.getD 40 0 = b := by
  rw [List.getLast?_eq_getElem?, h, List.getElem?_eq_getElem (by omega), List.getD_eq_getElem _ _ (by omega)]
  exact Option.some_inj

/-- `getargs` serves the argument of a parsed line exactly in buffers of the 1024 bytes it clears, where the
argument fits in `arg_name`, or passes it by one byte that is the size again. -/
theorem getargs_gives_iff (input : CString) (p q : Pcb) (nbytes : Nat) (h : parseCmd input p = some q) :
    let arg := argumentOf (scanned input)
    GivesArgument q arg nbytes ↔ 1024 ≤ nbytes ∧ (arg.length ≤ 40 ∨ arg.length = 41 ∧ arg.getLast? = some 41) := by
  intro arg
  obtain ⟨hlen, hsize, hname⟩ := parseCmd_argument h
  change arg.length ≤ 41 at hlen
  change q.dataArgSize.toNat = arg.length at hsize
  constructor
  · intro hgives
    -- memory without a zero shows what is cleared
    let s : Kernel := { boot with pcblock := q, user := fun _ _ => 1 }
    obtain ⟨s', hget, hcr3, -, -, hbyte, hclear⟩ := getargs_puts (s := s) one_ne_zero (hsize ▸ hlen) nbytes
    obtain ⟨v, s'', hget', hframe, hzero, -⟩ := hgives s 1 rfl
    obtain ⟨rfl, rfl⟩ := Prod.mk.inj (Option.some.inj (hget.symm.trans hget'))
    have hroom : 1024 ≤ nbytes := by
      -- in a smaller buffer the byte behind it would have been cleared
      by_contra hlt
      have hsame : s'.userView 1 nbytes = 1 := by
        show s'.user s'.cr3 (1 + nbytes) = 1
        rw [hcr3, hframe s.cr3 (1 + nbytes) (by omega)]
      rw [hclear nbytes (Nat.min_le_right _ _) (by omega)] at hsame
      cases hsame
    refine ⟨hroom, ?_⟩
    by_cases h41 : arg.length = 41
    · right
      refine ⟨h41, (getLast_iff h41 41).2 ?_⟩
      rw [← (hzero rfl).2 40 (by omega), hbyte (by show 40 < min q.dataArgSize.toNat nbytes; omega)]
      exact UInt8.toNat_inj.1 (hsize.trans h41)
    · left
      omega
  · rintro ⟨hroom, hfit⟩ s buf rfl
    by_cases hbuf : buf = 0
    · refine ⟨-1, s, if_pos (Or.inl hbuf), fun _ _ _ => rfl, fun hv => absurd hv (by decide), fun _ => rfl⟩
    obtain ⟨s', hget, -, hframe, hinside, hbyte, hclear⟩ := getargs_puts hbuf (hsize ▸ hlen) nbytes
    have hn : min s.pcblock.dataArgSize.toNat nbytes = arg.length := by omega
    rw [hn] at hinside hbyte hclear
    refine ⟨0, s', hget, ?_, fun _ => ⟨by omega, ?_⟩, fun hle => by omega⟩
    · rintro dir a ha
      exact hframe dir a fun h => ha ⟨h.1, h.2.1, by omega⟩
    · intro i hi
      rcases Nat.eq_or_lt_of_le hi with rfl | hi
      · rw [hclear _ (le_refl _) (by omega), List.getD_eq_default _ _ (le_refl _)]
      by_cases h40 : i < 40
      · rw [hinside i h40 hi]
        exact hname ⟨i, h40⟩ hi
      · -- the byte behind `arg_name`
        obtain rfl : i = 40 := by omega
        obtain ⟨h41, hlast⟩ := hfit.resolve_left (by omega)
        rw [hbyte (by omega), (getLast_iff h41 41).1 hlast]
        exact UInt8.toNat_inj.1 (hsize.trans h41)

/-- The command `cat frame0.txt`. -/
def catFrame0 : CString := ⟨ascii ['c', 'a', 't', ' '] ++ frame0.bytes, by decide +kernel⟩

theorem catFrame0_argument : argumentOf (scanned catFrame0) = frame0.bytes := by decide +kernel

/-- The argument of `cat frame0.txt` in a buffer of 1024 bytes. -/
theorem getargs_gives_cat :
    ∃ q, parseCmd catFrame0 .zero = some q ∧ GivesArgument q frame0.bytes 1024 := by
  have hq := parseCmd_fits (show Fits catFrame0 by decide +kernel) .zero
  refine ⟨_, hq, ?_⟩
  have h := (getargs_gives_iff catFrame0 .zero _ 1024 hq).2
  rw [catFrame0_argument] at h
  exact h ⟨le_refl _, Or.inl (by decide)⟩

/-- A buffer of 4 bytes has no room for the ten characters: `getargs` returns 0, after it has cleared 1024
bytes. -/
theorem getargs_short_buffer :
    ∃ q s', parseCmd catFrame0 .zero = some q ∧
      getargs 1 4 { boot with pcblock := q, user := fun _ _ => 1 } = some (0, s') ∧ s'.userView 1 1023 = 0 ∧
      ¬ GivesArgument q (argumentOf (scanned catFrame0)) 4 := by
  have hq := parseCmd_fits (show Fits catFrame0 by decide +kernel) .zero
  obtain ⟨-, hsize, -⟩ := parseCmd_argument hq
  have h10 : frame0.bytes.length = 10 := by decide
  generalize { Pcb.zero with
    cmdName := putWord (fun _ => 0) 0 (commandOf (scanned catFrame0))
    argName := putWord (fun _ => 0) 0 (argumentOf (scanned catFrame0))
    dataArgSize := UInt8.ofNat (argumentOf (scanned catFrame0)).length } = q at hq hsize
  rw [catFrame0_argument, h10] at hsize
  let s : Kernel := { boot with pcblock := q, user := fun _ _ => 1 }
  obtain ⟨s', hget, -, -, -, -, hclear⟩ := getargs_puts (s := s) one_ne_zero
    (show q.dataArgSize.toNat ≤ 41 by omega) 4
  refine ⟨q, s', hq, hget, hclear 1023 (le_trans (Nat.min_le_right _ _) (by decide)) (by decide), ?_⟩
  intro h
  obtain ⟨v, s'', hget', -, -, hshort⟩ := h s 1 rfl
  obtain ⟨rfl, -⟩ := Prod.mk.inj (Option.some.inj (hget.symm.trans hget'))
  rw [catFrame0_argument, h10] at hshort
  exact absurd (hshort (by decide)) (by decide)

end Kernel

end Os391
