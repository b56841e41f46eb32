import SqueezeOS.Arm.Machine

/- Rules for running straight-line code, for addresses a number of words from a
   base, and for loops that produce one result after another. -/
namespace Arm

attribute [simp] Operand.value Address.target Address.writeback Mode.start Mode.finish
  loadRegs storeRegs Cond.holds offset

@[simp] theorem set_reg (s : State) (q r : Reg) (w : Word) :
    (s.set r w).reg q = if q = r then w else s.reg q := by
  simp [State.set, Function.update_apply]

@[simp] theorem set_mem (s : State) (r : Reg) (w : Word) : (s.set r w).mem = s.mem := rfl
@[simp] theorem set_z (s : State) (r : Reg) (w : Word) : (s.set r w).z = s.z := rfl
@[simp] theorem set_c (s : State) (r : Reg) (w : Word) : (s.set r w).c = s.c := rfl
@[simp] theorem store_reg (s : State) (a w : Word) : (s.store a w).reg = s.reg := rfl
@[simp] theorem store_mem (s : State) (a w : Word) :
    (s.store a w).mem = Function.update s.mem a w := rfl
@[simp] theorem store_z (s : State) (a w : Word) : (s.store a w).z = s.z := rfl
@[simp] theorem store_c (s : State) (a w : Word) : (s.store a w).c = s.c := rfl

@[simp] theorem addr_zero (base : Word) : addr base 0 = base := by simp [addr]

@[simp] theorem addr_addr (base : Word) (m n : Nat) : addr (addr base m) n = addr base (m + n) := by
  simp only [addr, BitVec.add_assoc, BitVec.ofNat_add_ofNat, Nat.mul_add]

@[simp] theorem below_addr (base : Word) {m n : Nat} (le : n ≤ m) :
    below (addr base m) n = addr base (m - n) := by
  obtain ⟨k,rfl⟩ := Nat.exists_eq_add_of_le le
  simp only [below, addr, Nat.add_sub_cancel_left, Nat.mul_add, BitVec.ofNat_add]
  ring

@[simp] theorem addr_below (base : Word) {m n : Nat} (le : m ≤ n) :
    addr (below base m) n = addr base (n - m) := by
  obtain ⟨k,rfl⟩ := Nat.exists_eq_add_of_le le
  simp only [below, addr, Nat.add_sub_cancel_left, Nat.mul_add, BitVec.ofNat_add]
  ring

@[simp] theorem addr_add (base : Word) (m : Nat) {n : Nat} (words : n % 4 = 0) :
    addr base m + BitVec.ofNat 32 n = addr base (m + n / 4) := by
  have whole : n = 4 * (n / 4) := by omega
  rw [addr, addr, Nat.mul_add, BitVec.ofNat_add, ← whole, BitVec.add_assoc]

@[simp] theorem addr_sub (base : Word) {m n : Nat} (words : n % 4 = 0) (le : n / 4 ≤ m) :
    addr base m - BitVec.ofNat 32 n = addr base (m - n / 4) := by
  have whole : n = 4 * (n / 4) := by omega
  rw [← below_addr base le, below, ← whole]

theorem addr_injective (base : Word) {m n : Nat} (hm : m < 2 ^ 30) (hn : n < 2 ^ 30)
    (same : addr base m = addr base n) : m = n := by
  have h := congrArg BitVec.toNat (add_left_cancel same)
  simp only [BitVec.toNat_ofNat] at h
  omega

structure Region (base : Word) (words : Nat) : Prop where
  aligned : base.toNat % 4 = 0
  fits : base.toNat + 4 * words ≤ 2 ^ 32

def Apart (base : Word) (words : Nat) (other : Word) (count : Nat) : Prop :=
  base.toNat + 4 * words ≤ other.toNat ∨ other.toNat + 4 * count ≤ base.toNat

theorem Region.toNat_addr {base : Word} {words k : Nat} (region : Region base words)
    (hk : k < words) : (addr base k).toNat = base.toNat + 4 * k := by
  have fits := region.fits
  rw [addr, BitVec.toNat_add, BitVec.toNat_ofNat]
  omega

theorem Region.addr_ne {base other : Word} {words count k n : Nat} (region : Region base words)
    (region' : Region other count) (apart : Apart base words other count) (hk : k < words)
    (hn : n < count) : addr base k ≠ addr other n := by
  intro same
  have h := congrArg BitVec.toNat same
  rw [region.toNat_addr hk, region'.toNat_addr hn] at h
  unfold Apart at apart
  omega

theorem exec_when {L : Type} {cond : Cond} {i : Instr L} {s : State} (h : cond.holds s = true) :
    exec (.when cond i) s = exec i s := by
  simp only [exec, h, ↓reduceIte]

theorem exec_unless {L : Type} {cond : Cond} {i : Instr L} {s : State}
    (h : cond.holds s = false) : exec (.when cond i) s = .next s := by
  simp only [exec, h, Bool.false_eq_true, ↓reduceIte]

/-- Straight-line execution: stops with nothing at a transfer of control. -/
def execs {L : Type} : List (Instr L) → State → Option State
  | [], s => some s
  | i :: is, s => match exec i s with
    | .next t => execs is t
    | _ => none

theorem execs_append {L : Type} {is js : List (Instr L)} {s t : State}
    (run : execs is s = some t) : execs (is ++ js) s = execs js t := by
  induction is generalizing s with
  | nil =>
    cases Option.some.inj run
    rfl
  | cons i is ih =>
    rw [List.cons_append, execs]
    unfold execs at run
    split at run
    · exact ih run
    · contradiction

section
variable {L : Type} [DecidableEq L] {p : Program L}

theorem steps_execs (rest : List (Instr L)) {is : List (Instr L)} {s t : State}
    (run : execs is s = some t) :
    Steps p (.running (is ++ rest) s) (.running rest t) := by
  induction is generalizing s with
  | nil =>
    cases Option.some.inj run
    exact .refl
  | cons i is ih =>
    unfold execs at run
    split at run
    · rename_i u next
      exact .head (Step.next next) (ih run)
    · contradiction

theorem steps_take (n : Nat) {code : List (Instr L)} {s t : State}
    (run : execs (code.take n) s = some t) :
    Steps p (.running code s) (.running (code.drop n) t) := by
  have whole : code = code.take n ++ code.drop n := (List.take_append_drop n code).symm
  conv => lhs; rw [whole]
  exact steps_execs _ run

theorem steps_jump {i : Instr L} {rest : List (Instr L)} {s t : State} {l : L}
    (h : exec i s = .jump l t) :
    Steps p (.running (i :: rest) s) (.running (Program.after l p) t) :=
  .single (Step.jump h)

theorem steps_next {i : Instr L} {rest : List (Instr L)} {s t : State}
    (h : exec i s = .next t) : Steps p (.running (i :: rest) s) (.running rest t) :=
  .single (Step.next h)

theorem steps_return {i : Instr L} {rest : List (Instr L)} {s t : State} {pc : Word}
    (h : exec i s = .ret pc t) : Steps p (.running (i :: rest) s) (.returned pc t) :=
  .single (Step.ret h)

/-- A loop that makes progress towards its bound, several rounds at a time if it
    likes, reaches a final configuration. -/
theorem loop_finishes (good : Nat → Config L → Prop) {final : Config L → Prop} {bound : Nat}
    (progress : ∀ i c, i < bound → good i c → ∃ c', Steps p c c' ∧
      (final c' ∨ ∃ j, i < j ∧ j < bound ∧ good j c')) :
    ∀ i c, i < bound → good i c → ∃ c', Steps p c c' ∧ final c' := by
  intro i
  induction h : bound - i using Nat.strongRecOn generalizing i with
  | ind k ih =>
    intro c hi start
    obtain ⟨c',steps,done | ⟨j,more,inside,next⟩⟩ := progress i c hi start
    · exact ⟨c',steps,done⟩
    · obtain ⟨c'',rest,done⟩ := ih (bound - j) (by omega) j rfl c' inside next
      exact ⟨c'',steps.trans rest,done⟩

end

theorem loadRegs_mem (m : Mem) (a : Word) (k : Nat) (rs : List Reg) (s : State) :
    (loadRegs m a k rs s).mem = s.mem := by
  induction rs generalizing k s with
  | nil => rfl
  | cons r rs ih => exact ih (k + 1) (s.set r (m (addr a k)))

theorem storeRegs_frame (regs : Reg → Word) (base : Word) (rs : List Reg) (m : Mem) (a : Word)
    (k : Nat) (outside : ∀ n < rs.length, a ≠ addr base (k + n)) :
    storeRegs regs base k rs m a = m a := by
  induction rs generalizing k m with
  | nil => rfl
  | cons r rs ih =>
    have first : a ≠ addr base k := outside 0 (by simp)
    rw [storeRegs, ih, Function.update_of_ne first]
    intro n hn
    have next := outside (n + 1) (by simpa using hn)
    rwa [show k + 1 + n = k + (n + 1) by omega]

theorem storeRegs_at (regs : Reg → Word) (base : Word) (rs : List Reg) (m : Mem) (k n : Nat)
    (small : k + rs.length ≤ 2 ^ 30) (hn : n < rs.length) :
    storeRegs regs base k rs m (addr base (k + n)) = regs (rs.get ⟨n,hn⟩) := by
  induction rs generalizing k n m with
  | nil => contradiction
  | cons r rs ih =>
    simp only [List.length_cons] at small hn
    cases n with
    | zero =>
      rw [storeRegs, storeRegs_frame, Nat.add_zero, Function.update_self]
      · rfl
      · intro j hj same
        have := addr_injective base (by omega) (by omega) same
        omega
    | succ n =>
      rw [storeRegs, show k + (n + 1) = k + 1 + n by omega]
      exact ih _ (k + 1) n (by omega) (by omega)

theorem count_down {n k : Nat} (le : k ≤ n) :
    BitVec.ofNat 32 n - BitVec.ofNat 32 k = BitVec.ofNat 32 (n - k) := by
  obtain ⟨d,rfl⟩ := Nat.exists_eq_add_of_le le
  rw [Nat.add_sub_cancel_left, BitVec.ofNat_add]
  ring

theorem count_zero {n : Nat} (small : n < 2 ^ 32) :
    (BitVec.ofNat 32 n == 0#32) = decide (n = 0) := by
  rw [Bool.eq_iff_iff, beq_iff_eq, decide_eq_true_iff]
  constructor
  · intro h
    have := congrArg BitVec.toNat h
    simp only [BitVec.toNat_ofNat] at this
    omega
  · intro h; rw [h]

theorem wide_extract (v : BitVec 64) : wide (v.extractLsb' 32 32) (v.extractLsb' 0 32) = v := by
  unfold wide
  rw [BitVec.extractLsb'_append_extractLsb'_eq_extractLsb' (by rfl)]
  exact BitVec.extractLsb'_eq_self

theorem words_asl (n : Nat) : BitVec.ofNat 32 n <<< 2 = BitVec.ofNat 32 (4 * n) := by
  apply BitVec.eq_of_toNat_eq
  simp only [BitVec.toNat_shiftLeft, BitVec.toNat_ofNat, Nat.shiftLeft_eq]
  omega

theorem eighths_up {n : Nat} (small : n + 7 < 2 ^ 32) :
    (BitVec.ofNat 32 n + 7#32) >>> 3 = BitVec.ofNat 32 ((n + 7) / 8) := by
  apply BitVec.eq_of_toNat_eq
  simp only [BitVec.toNat_ushiftRight, BitVec.toNat_add, BitVec.toNat_ofNat,
    Nat.shiftRight_eq_div_pow]
  omega

theorem low_bits (n k : Nat) :
    BitVec.ofNat 32 n &&& BitVec.ofNat 32 (2 ^ k - 1) = BitVec.ofNat 32 (n % 2 ^ k) := by
  apply BitVec.eq_of_getLsbD_eq
  intro i hi
  simp only [BitVec.getLsbD_and, BitVec.getLsbD_ofNat, Nat.testBit_two_pow_sub_one,
    Nat.testBit_mod_two_pow, hi, decide_true, Bool.true_and, Bool.and_comm]

theorem cmp_ls (s : State) (a b : Word) :
    Cond.ls.holds { s with z := a - b == 0, c := decide (b ≤ a) } = decide (a ≤ b) := by
  rw [Bool.eq_iff_iff]
  simp only [Cond.holds, Bool.or_eq_true, Bool.not_eq_true', decide_eq_false_iff_not, beq_iff_eq,
    decide_eq_true_eq, BitVec.le_def, BitVec.sub_eq_iff_eq_add]
  constructor
  · rintro (above | same)
    · omega
    · rw [same]
      simp
  · intro le
    by_cases same : a = b
    · right
      simp [same]
    · left
      have := BitVec.toNat_ne.mp same
      omega

theorem exec_table {L : Type} {s : State} {r : Reg} {table : List L} {l : L}
    (inside : Cond.ls.holds s = true) (entry : table[(s.reg r).toNat]? = some l) :
    exec (.when .ls (.ldrPc r table)) s = .jump l s := by
  rw [exec_when inside, exec, entry]

end Arm
