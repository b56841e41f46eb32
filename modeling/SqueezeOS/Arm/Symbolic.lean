import SqueezeOS.Arm.Accesses

/- Running ARM code on symbols: what a register holds is known as a number, or as a distance in
   bytes from a base whose value is left open. Where a condition is not decided by what is known,
   both ways are followed. Bases and labels are arbitrary types. -/
namespace Arm

inductive Value (B : Type) where
  | unknown
  | number (n : Nat)
  | point (b : B) (k : Int)
  deriving DecidableEq, Repr

/-- What is known of the zero flag: whether it tells that a value is zero, or that some low bits
    of one are. -/
inductive Flag (B : Type) where
  | unknown
  | is (z : Bool)
  | isZero (b : B) (k : Int)
  | lowZero (b : B) (k : Int) (mask : Nat)
  deriving DecidableEq, Repr

structure Symbols (B : Type) where
  reg : Reg → Value B
  zero : Flag B
  carry : Option Bool

structure Touch (B : Type) where
  write : Bool
  base : Reg
  address : Value B
  deriving DecidableEq, Repr

section
variable {B L : Type}

def Value.add : Value B → Value B → Value B
  | .number m, .number n => .number (m + n)
  | .point b k, .number n => .point b (k + n)
  | _, _ => .unknown

def Value.sub : Value B → Value B → Value B
  | .number m, .number n => if n ≤ m then .number (m - n) else .unknown
  | .point b k, .number n => .point b (k - n)
  | _, _ => .unknown

def Value.and : Value B → Value B → Value B
  | .number m, .number n => .number (m &&& n)
  | _, _ => .unknown

def Value.shift (v : Value B) (off : Int) : Value B :=
  match v with
  | .point b k => .point b (k + off)
  | _ => .unknown

def Symbols.set (σ : Symbols B) (r : Reg) (v : Value B) : Symbols B :=
  { σ with reg := Function.update σ.reg r v }

def Symbols.forget (σ : Symbols B) (rs : List Reg) : Symbols B :=
  rs.foldl (fun σ r => σ.set r .unknown) σ

def Operand.symbol (σ : Symbols B) : Operand → Value B
  | .imm n => .number n
  | .reg r => σ.reg r
  | .asl r n => match σ.reg r with
    | .number m => .number (m * 2 ^ n)
    | _ => .unknown
  | .lsr r n => match σ.reg r with
    | .number m => if m < 2 ^ 32 then .number (m / 2 ^ n) else .unknown
    | _ => .unknown
  | _ => .unknown

def Address.symbol (σ : Symbols B) : Address → Value B
  | .at rn off => (σ.reg rn).shift off
  | .pre rn off => (σ.reg rn).shift off
  | .post rn _ => σ.reg rn

def Address.moved (σ : Symbols B) : Address → Symbols B
  | .at _ _ => σ
  | .pre rn off => σ.set rn ((σ.reg rn).shift off)
  | .post rn off => σ.set rn ((σ.reg rn).shift off)

def Mode.first (n : Nat) : Mode → Int
  | .ia => 0
  | .da => -(4 * (n - 1 : Nat))
  | .db => -(4 * n)

def Mode.last (n : Nat) : Mode → Int
  | .ia => 4 * n
  | .da => -(4 * n)
  | .db => -(4 * n)

def compared : Value B → Value B → Flag B × Option Bool
  | .number m, .number n =>
      if m < 2 ^ 32 ∧ n < 2 ^ 32 then (.is (decide (m = n)), some (decide (n ≤ m)))
      else (.unknown, none)
  | .point b k, .number n => (.isZero b (k - n), none)
  | _, _ => (.unknown, none)

def tested : Value B → Value B → Flag B
  | .point b k, .number n => .lowZero b k n
  | _, _ => .unknown

def Cond.decided (σ : Symbols B) : Cond → Option Bool
  | .eq => match σ.zero with
    | .is z => some z
    | _ => none
  | .ne => match σ.zero with
    | .is z => some !z
    | _ => none
  | .ls => match σ.zero, σ.carry with
    | .is z, some c => some (!c || z)
    | _, _ => none

def touched (write : Bool) (rn : Reg) (v : Value B) (n : Nat) : List (Touch B) :=
  (List.range n).map fun k : Nat => { write := write, base := rn, address := v.shift (4 * (k : Int)) }

inductive Effect (L B : Type) where
  | next (σ : Symbols B)
  | jump (l : L) (σ : Symbols B)
  | ret

def Instr.symbolic : Instr L → Symbols B → Option (List (Touch B) × Effect L B)
  | .mov rd op, σ => some ([], .next (σ.set rd (op.symbol σ)))
  | .add rd rn op, σ => some ([], .next (σ.set rd ((σ.reg rn).add (op.symbol σ))))
  | .sub rd rn op, σ => some ([], .next (σ.set rd ((σ.reg rn).sub (op.symbol σ))))
  | .rsb rd _ _, σ => some ([], .next (σ.set rd .unknown))
  | .orr rd _ _, σ => some ([], .next (σ.set rd .unknown))
  | .and rd rn op, σ => some ([], .next (σ.set rd ((σ.reg rn).and (op.symbol σ))))
  | .subs rd rn op, σ =>
      let flags := compared (σ.reg rn) (op.symbol σ)
      some ([], .next { σ.set rd ((σ.reg rn).sub (op.symbol σ)) with
        zero := flags.1, carry := flags.2 })
  | .ands rd _ _, σ => some ([], .next { σ.set rd .unknown with zero := .unknown })
  | .cmp rn op, σ =>
      let flags := compared (σ.reg rn) (op.symbol σ)
      some ([], .next { σ with zero := flags.1, carry := flags.2 })
  | .tst rn op, σ => some ([], .next { σ with zero := tested (σ.reg rn) (op.symbol σ) })
  | .mul rd _ _, σ => some ([], .next (σ.set rd .unknown))
  | .mla rd _ _ _, σ => some ([], .next (σ.set rd .unknown))
  | .smlal lo hi _ _, σ => some ([], .next ((σ.set lo .unknown).set hi .unknown))
  | .ldr rd a, σ =>
      some ([{ write := false, base := a.base, address := a.symbol σ }],
        .next ((a.moved σ).set rd .unknown))
  | .str _ a, σ =>
      some ([{ write := true, base := a.base, address := a.symbol σ }], .next (a.moved σ))
  | .ldm mode rn wb rs, σ =>
      let v := σ.reg rn
      let τ := σ.forget rs
      some (touched false rn (v.shift (mode.first rs.length)) rs.length,
        .next (if wb then τ.set rn (v.shift (mode.last rs.length)) else τ))
  | .stm mode rn wb rs, σ =>
      let v := σ.reg rn
      some (touched true rn (v.shift (mode.first rs.length)) rs.length,
        .next (if wb then σ.set rn (v.shift (mode.last rs.length)) else σ))
  | .ldmfdPc rn rs, σ => some (touched false rn (σ.reg rn) (rs.length + 1), .ret)
  | .ldrPc index table, σ => match σ.reg index with
    | .number n => if n < 2 ^ 32 then table[n]?.map fun l => ([], .jump l σ) else none
    | _ => none
  | .b l, σ => some ([], .jump l σ)
  | .when _ _, _ => none

/-- One way on from an instruction, with what it takes the zero flag to be. -/
structure Way (L B : Type) where
  guesses : List (Flag B × Bool)
  touches : List (Touch B)
  effect : Effect L B

def Instr.way (i : Instr L) (σ : Symbols B) (guesses : List (Flag B × Bool)) : Option (Way L B) :=
  (i.symbolic σ).map fun done => { guesses := guesses, touches := done.1, effect := done.2 }

def passed (σ : Symbols B) (guesses : List (Flag B × Bool)) : Way L B :=
  { guesses := guesses, touches := [], effect := .next σ }

def bothWays (cond : Cond) (i : Instr L) (σ : Symbols B) : Option (List (Way L B)) :=
  match cond with
  | .eq => (i.way σ [(σ.zero, true)]).map ([·, passed σ [(σ.zero, false)]])
  | .ne => (i.way σ [(σ.zero, false)]).map ([·, passed σ [(σ.zero, true)]])
  | .ls => none

def whenWays (cond : Cond) (i : Instr L) (σ : Symbols B) : Option (List (Way L B)) :=
  match cond.decided σ with
  | some true => (i.way σ []).map ([·])
  | some false => some [passed σ []]
  | none => bothWays cond i σ

def Instr.ways : Instr L → Symbols B → Option (List (Way L B))
  | .when cond i, σ => whenWays cond i σ
  | i, σ => (i.way σ []).map ([·])

/-- Where following the code ends: at a marked position, or behind the return. -/
inductive End (L B : Type) where
  | at (l : L) (k : Nat) (σ : Symbols B)
  | returned

structure Leaf (L B : Type) where
  guesses : List (Flag B × Bool)
  touches : List (Touch B)
  ending : End L B

def Leaf.behind (way : Way L B) (leaf : Leaf L B) : Leaf L B :=
  { leaf with guesses := way.guesses ++ leaf.guesses, touches := way.touches ++ leaf.touches }

def gather {α β : Type} (f : α → Option (List β)) : List α → Option (List β)
  | [] => some []
  | a :: as => match f a, gather f as with
    | some here, some later => some (here ++ later)
    | _, _ => none

variable [DecidableEq L]

-- Under one name for all modules that look for a position in a list.
instance lawfulPosition : LawfulBEq (L × Nat) := inferInstance

/-- Every way through the code up to the marked positions. A position is a label and the number of
    instructions behind it. -/
def leaves (p : Program L) (marks : List (L × Nat)) :
    Nat → L → Nat → List (Instr L) → Symbols B → Option (List (Leaf L B))
  | 0, _, _, _, _ => none
  | _ + 1, _, _, [], _ => none
  | fuel + 1, l, k, i :: rest, σ => (i.ways σ).bind (gather fun way =>
      Option.map (List.map (Leaf.behind way)) (match way.effect with
        | .ret => some [⟨[], [], .returned⟩]
        | .next τ =>
            if (l, k + 1) ∈ marks then some [⟨[], [], .at l (k + 1) τ⟩]
            else leaves p marks fuel l (k + 1) rest τ
        | .jump l' τ =>
            if (l', 0) ∈ marks then some [⟨[], [], .at l' 0 τ⟩]
            else leaves p marks fuel l' 0 (Program.after l' p) τ))

end

/- What the symbols say of a state, for given values of the bases. -/
section
variable {B L : Type} (ρ : B → Word)

def Value.Holds : Value B → Word → Prop
  | .unknown, _ => True
  | .number n, w => w = BitVec.ofNat 32 n
  | .point b k, w => w = ρ b + BitVec.ofInt 32 k

def Flag.Holds : Flag B → Bool → Prop
  | .unknown, _ => True
  | .is y, z => z = y
  | .isZero b k, z => z = (ρ b + BitVec.ofInt 32 k == 0)
  | .lowZero b k mask, z => z = ((ρ b + BitVec.ofInt 32 k) &&& BitVec.ofNat 32 mask == 0)

structure Symbols.Holds (σ : Symbols B) (s : State) : Prop where
  reg : ∀ r, (σ.reg r).Holds ρ (s.reg r)
  zero : σ.zero.Holds ρ s.z
  carry : ∀ c, σ.carry = some c → s.c = c

structure Touch.Holds (t : Touch B) (a : Access) : Prop where
  write : a.write = t.write
  base : a.base = t.base
  address : t.address.Holds ρ a.address

def Effect.Holds : Effect L B → Outcome L → Prop
  | .next σ, o => ∃ t, o = .next t ∧ σ.Holds ρ t
  | .jump l σ, o => ∃ t, o = .jump l t ∧ σ.Holds ρ t
  | .ret, o => ∃ pc t, o = .ret pc t

def Guessed (guesses : List (Flag B × Bool)) : Prop := ∀ g ∈ guesses, g.1.Holds ρ g.2

end

section
variable {B L : Type} {ρ : B → Word}

theorem holds_unknown (w : Word) : (.unknown : Value B).Holds ρ w := trivial

theorem holds_number {n : Nat} {w : Word} :
    (.number n : Value B).Holds ρ w ↔ w = BitVec.ofNat 32 n := Iff.rfl

theorem holds_point {b : B} {k : Int} {w : Word} :
    (.point b k : Value B).Holds ρ w ↔ w = ρ b + BitVec.ofInt 32 k := Iff.rfl

theorem ofInt_ofNat (n : Nat) : BitVec.ofInt 32 (n : Int) = BitVec.ofNat 32 n := BitVec.ofInt_natCast 32 n

theorem offset_eq (w : Word) (off : Int) : offset w off = w + BitVec.ofInt 32 off := by
  unfold offset
  split
  · rename_i negative
    have same : off = -((-off).toNat : Int) := by omega
    conv => rhs; rw [same, BitVec.ofInt_neg, ofInt_ofNat]
    exact BitVec.sub_eq_add_neg _ _
  · rename_i positive
    have same : off = (off.toNat : Int) := by omega
    conv => rhs; rw [same, ofInt_ofNat]

theorem addr_eq (w : Word) (n : Nat) : addr w n = w + BitVec.ofInt 32 (4 * n) := by
  have same : (4 * n : Int) = ((4 * n : Nat) : Int) := by omega
  rw [same, ofInt_ofNat]
  rfl

theorem below_eq (w : Word) (n : Nat) : below w n = w + BitVec.ofInt 32 (-(4 * n)) := by
  have same : (4 * n : Int) = ((4 * n : Nat) : Int) := by omega
  rw [BitVec.ofInt_neg, same, ofInt_ofNat, below, BitVec.sub_eq_add_neg]

theorem Value.shift_holds {v : Value B} {w : Word} (holds : v.Holds ρ w) (off : Int) :
    (v.shift off).Holds ρ (w + BitVec.ofInt 32 off) := by
  cases v with
  | unknown => trivial
  | number n => trivial
  | point b k =>
    rw [holds_point] at holds
    rw [Value.shift, holds_point, holds, BitVec.ofInt_add, BitVec.add_assoc]

theorem Value.add_holds {u v : Value B} {x y : Word} (left : u.Holds ρ x) (right : v.Holds ρ y) :
    (u.add v).Holds ρ (x + y) := by
  cases u with
  | unknown => trivial
  | number m =>
    cases v with
    | number n =>
      rw [holds_number] at left right
      rw [Value.add, holds_number, left, right, BitVec.ofNat_add]
    | unknown => trivial
    | point b k => trivial
  | point b k =>
    cases v with
    | number n =>
      rw [holds_point] at left
      rw [holds_number] at right
      rw [Value.add, holds_point, left, right, BitVec.ofInt_add, ofInt_ofNat, BitVec.add_assoc]
    | unknown => trivial
    | point c j => trivial

theorem Value.sub_holds {u v : Value B} {x y : Word} (left : u.Holds ρ x) (right : v.Holds ρ y) :
    (u.sub v).Holds ρ (x - y) := by
  cases u with
  | unknown => trivial
  | number m =>
    cases v with
    | number n =>
      rw [holds_number] at left right
      rw [Value.sub]
      split
      · rename_i le
        rw [holds_number, left, right, count_down le]
      · trivial
    | unknown => trivial
    | point b k => trivial
  | point b k =>
    cases v with
    | number n =>
      rw [holds_point] at left
      rw [holds_number] at right
      rw [Value.sub, holds_point, left, right, Int.sub_eq_add_neg, BitVec.ofInt_add, BitVec.ofInt_neg,
        ofInt_ofNat, BitVec.sub_eq_add_neg, BitVec.add_assoc]
    | unknown => trivial
    | point c j => trivial

theorem Value.and_holds {u v : Value B} {x y : Word} (left : u.Holds ρ x) (right : v.Holds ρ y) :
    (u.and v).Holds ρ (x &&& y) := by
  cases u with
  | number m =>
    cases v with
    | number n =>
      rw [holds_number] at left right
      rw [Value.and, holds_number, left, right, BitVec.ofNat_and]
    | unknown => trivial
    | point b k => trivial
  | unknown => trivial
  | point b k => trivial

theorem compared_holds {u v : Value B} {x y : Word} (left : u.Holds ρ x) (right : v.Holds ρ y) :
    (compared u v).1.Holds ρ (x - y == 0) ∧
      ∀ c, (compared u v).2 = some c → decide (y ≤ x) = c := by
  cases u with
  | unknown => exact ⟨trivial,by simp [compared]⟩
  | number m =>
    cases v with
    | number n =>
      rw [holds_number] at left right
      rw [compared, left, right]
      split
      · rename_i small
        have toNat : ∀ k < 2 ^ 32, (BitVec.ofNat 32 k).toNat = k := fun k less =>
          BitVec.toNat_ofNat k 32 ▸ Nat.mod_eq_of_lt less
        constructor
        · have same : BitVec.ofNat 32 m - BitVec.ofNat 32 n = 0 ↔ m = n := by
            rw [sub_eq_zero, ← BitVec.toNat_inj, toNat m small.1, toNat n small.2]
          rw [Flag.Holds, Bool.eq_iff_iff, beq_iff_eq, decide_eq_true_iff]
          exact same
        · rintro _ ⟨⟩
          simp only [BitVec.le_def, toNat m small.1, toNat n small.2]
      · exact ⟨trivial,by simp⟩
    | unknown => exact ⟨trivial,by simp [compared]⟩
    | point b k => exact ⟨trivial,by simp [compared]⟩
  | point b k =>
    cases v with
    | number n =>
      have difference := Value.sub_holds left right
      rw [Value.sub, holds_point] at difference
      exact ⟨by rw [compared, Flag.Holds, difference],by simp [compared]⟩
    | unknown => exact ⟨trivial,by simp [compared]⟩
    | point c j => exact ⟨trivial,by simp [compared]⟩

theorem tested_holds {u v : Value B} {x y : Word} (left : u.Holds ρ x) (right : v.Holds ρ y) :
    (tested u v).Holds ρ (x &&& y == 0) := by
  cases u with
  | unknown => trivial
  | number m => trivial
  | point b k =>
    cases v with
    | number n =>
      rw [holds_point] at left
      rw [holds_number] at right
      rw [tested, Flag.Holds, left, right]
    | unknown => trivial
    | point c j => trivial

theorem Symbols.Holds.set {σ : Symbols B} {s : State} (holds : σ.Holds ρ s) {v : Value B} {w : Word}
    (r : Reg) (value : v.Holds ρ w) : (σ.set r v).Holds ρ (s.set r w) := by
  refine ⟨?_,holds.zero,holds.carry⟩
  intro q
  simp only [Symbols.set, set_reg, Function.update_apply]
  split
  · exact value
  · exact holds.reg q

theorem Symbols.Holds.memory {σ : Symbols B} {s : State} (holds : σ.Holds ρ s) (m : Mem) :
    σ.Holds ρ { s with mem := m } := ⟨holds.reg,holds.zero,holds.carry⟩

theorem Symbols.Holds.forget {σ : Symbols B} {s : State} (holds : σ.Holds ρ s) (m : Mem) (a : Word)
    (k : Nat) (rs : List Reg) : (σ.forget rs).Holds ρ (loadRegs m a k rs s) := by
  induction rs generalizing σ s k with
  | nil => exact holds
  | cons r rs ih => exact ih (holds.set r (holds_unknown _)) (k + 1)

theorem Operand.symbol_holds {σ : Symbols B} {s : State} (holds : σ.Holds ρ s) (op : Operand) :
    (op.symbol σ).Holds ρ (op.value s) := by
  cases op with
  | imm n => rfl
  | reg r => exact holds.reg r
  | asl r n =>
    have value := holds.reg r
    rw [Operand.symbol, Operand.value]
    cases held : σ.reg r with
    | number m =>
      rw [held, holds_number] at value
      rw [holds_number, value]
      apply BitVec.eq_of_toNat_eq
      simp [Nat.shiftLeft_eq]
    | unknown => trivial
    | point b k => trivial
  | lsr r n =>
    have value := holds.reg r
    rw [Operand.symbol, Operand.value]
    cases held : σ.reg r with
    | number m =>
      rw [held, holds_number] at value
      dsimp only
      split
      · rename_i small
        have less : m / 2 ^ n < 2 ^ 32 := Nat.lt_of_le_of_lt (Nat.div_le_self m _) small
        rw [holds_number, value]
        apply BitVec.eq_of_toNat_eq
        rw [BitVec.toNat_ushiftRight, BitVec.toNat_ofNat, BitVec.toNat_ofNat, Nat.mod_eq_of_lt small,
          Nat.mod_eq_of_lt less, Nat.shiftRight_eq_div_pow]
      · trivial
    | unknown => trivial
    | point b k => trivial
  | lslBy r amount => trivial
  | lsrBy r amount => trivial
  | asrBy r amount => trivial

theorem Address.symbol_holds {σ : Symbols B} {s : State} (holds : σ.Holds ρ s) (a : Address) :
    (a.symbol σ).Holds ρ (a.target s) := by
  cases a with
  | «at» rn off =>
    rw [Address.target, offset_eq]
    exact Value.shift_holds (holds.reg rn) off
  | pre rn off =>
    rw [Address.target, offset_eq]
    exact Value.shift_holds (holds.reg rn) off
  | post rn off => exact holds.reg rn

theorem Address.moved_holds {σ : Symbols B} {s : State} (holds : σ.Holds ρ s) (a : Address) :
    (a.moved σ).Holds ρ (a.writeback s) := by
  cases a with
  | «at» rn off => exact holds
  | pre rn off =>
    rw [Address.writeback, offset_eq]
    exact holds.set rn (Value.shift_holds (holds.reg rn) off)
  | post rn off =>
    rw [Address.writeback, offset_eq]
    exact holds.set rn (Value.shift_holds (holds.reg rn) off)

theorem Mode.first_holds {v : Value B} {w : Word} (holds : v.Holds ρ w) (mode : Mode) (n : Nat) :
    (v.shift (mode.first n)).Holds ρ (mode.start w n) := by
  have shifted := Value.shift_holds holds (mode.first n)
  cases mode with
  | ia => simpa [Mode.first] using shifted
  | da =>
    rw [Mode.start, below_eq]
    exact shifted
  | db =>
    rw [Mode.start, below_eq]
    exact shifted

theorem Mode.last_holds {v : Value B} {w : Word} (holds : v.Holds ρ w) (mode : Mode) (n : Nat) :
    (v.shift (mode.last n)).Holds ρ (mode.finish w n) := by
  have shifted := Value.shift_holds holds (mode.last n)
  cases mode with
  | ia =>
    rw [Mode.finish, addr_eq]
    exact shifted
  | da =>
    rw [Mode.finish, below_eq]
    exact shifted
  | db =>
    rw [Mode.finish, below_eq]
    exact shifted

theorem touched_holds {v : Value B} {w : Word} (holds : v.Holds ρ w) (write : Bool) (rn : Reg)
    (n : Nat) : List.Forall₂ (Touch.Holds ρ) (touched write rn v n) (transfers write rn w n) := by
  rw [touched, transfers, List.forall₂_map_left_iff, List.forall₂_map_right_iff, List.forall₂_same]
  intro k _
  refine ⟨rfl,rfl,?_⟩
  rw [addr_eq]
  exact Value.shift_holds holds (4 * k)

theorem Cond.decided_holds {σ : Symbols B} {s : State} (holds : σ.Holds ρ s) {cond : Cond} {b : Bool}
    (decided : cond.decided σ = some b) : cond.holds s = b := by
  have zero := holds.zero
  cases cond with
  | eq =>
    rw [Cond.decided] at decided
    split at decided
    · rename_i z is
      cases decided
      rw [is] at zero
      exact zero
    · contradiction
  | ne =>
    rw [Cond.decided] at decided
    split at decided
    · rename_i z is
      cases decided
      rw [is] at zero
      rw [Cond.holds, zero]
    · contradiction
  | ls =>
    rw [Cond.decided] at decided
    split at decided
    · rename_i z c is known
      cases decided
      rw [is] at zero
      rw [Cond.holds, zero, holds.carry c known]
    · contradiction

theorem Symbols.Holds.flags {σ : Symbols B} {s : State} (holds : σ.Holds ρ s) {zero : Flag B} {z c : Bool}
    {carry : Option Bool} (flag : zero.Holds ρ z) (above : ∀ b, carry = some b → c = b) :
    { σ with zero := zero, carry := carry }.Holds ρ { s with z := z, c := c } :=
  ⟨holds.reg,flag,above⟩

theorem Symbols.Holds.zeroFlag {σ : Symbols B} {s : State} (holds : σ.Holds ρ s) {zero : Flag B}
    {z : Bool} (flag : zero.Holds ρ z) : { σ with zero := zero }.Holds ρ { s with z := z } :=
  ⟨holds.reg,flag,holds.carry⟩

theorem ldrPc_holds {σ : Symbols B} {s : State} (holds : σ.Holds ρ s) {index : Reg} {table : List L}
    {ts : List (Touch B)} {e : Effect L B}
    (done : (Instr.ldrPc index table).symbolic σ = some (ts, e)) :
    ts = [] ∧ e.Holds ρ (exec (.ldrPc index table) s) := by
  have value := holds.reg index
  rw [Instr.symbolic] at done
  cases held : σ.reg index with
  | unknown => simp [held] at done
  | point b k => simp [held] at done
  | number n =>
    simp only [held] at done
    split at done
    · rename_i small
      obtain ⟨l,entry,same⟩ := Option.map_eq_some_iff.mp done
      cases same
      rw [held, holds_number] at value
      have here : table[(s.reg index).toNat]? = some l := by
        rw [value, BitVec.toNat_ofNat, Nat.mod_eq_of_lt small]
        exact entry
      refine ⟨rfl,s,?_,holds⟩
      rw [exec, here]
    · contradiction

theorem Instr.symbolic_holds {σ : Symbols B} {s : State} (holds : σ.Holds ρ s) {i : Instr L}
    {ts : List (Touch B)} {e : Effect L B} (done : i.symbolic σ = some (ts, e)) :
    List.Forall₂ (Touch.Holds ρ) ts (i.accesses s) ∧ e.Holds ρ (exec i s) := by
  have op := fun o : Operand => o.symbol_holds holds
  cases i with
  | mov rd o =>
    cases done
    exact ⟨.nil,_,rfl,holds.set rd (op o)⟩
  | add rd rn o =>
    cases done
    exact ⟨.nil,_,rfl,holds.set rd (Value.add_holds (holds.reg rn) (op o))⟩
  | sub rd rn o =>
    cases done
    exact ⟨.nil,_,rfl,holds.set rd (Value.sub_holds (holds.reg rn) (op o))⟩
  | rsb rd rn o =>
    cases done
    exact ⟨.nil,_,rfl,holds.set rd (holds_unknown _)⟩
  | orr rd rn o =>
    cases done
    exact ⟨.nil,_,rfl,holds.set rd (holds_unknown _)⟩
  | and rd rn o =>
    cases done
    exact ⟨.nil,_,rfl,holds.set rd (Value.and_holds (holds.reg rn) (op o))⟩
  | subs rd rn o =>
    cases done
    obtain ⟨zero,carry⟩ := compared_holds (holds.reg rn) (op o)
    exact ⟨.nil,_,rfl,(holds.set rd (Value.sub_holds (holds.reg rn) (op o))).flags zero carry⟩
  | ands rd rn o =>
    cases done
    exact ⟨.nil,_,rfl,(holds.set rd (holds_unknown _)).zeroFlag trivial⟩
  | cmp rn o =>
    cases done
    obtain ⟨zero,carry⟩ := compared_holds (holds.reg rn) (op o)
    exact ⟨.nil,_,rfl,holds.flags zero carry⟩
  | tst rn o =>
    cases done
    exact ⟨.nil,_,rfl,holds.zeroFlag (tested_holds (holds.reg rn) (op o))⟩
  | mul rd rm rs =>
    cases done
    exact ⟨.nil,_,rfl,holds.set rd (holds_unknown _)⟩
  | mla rd rm rs rn =>
    cases done
    exact ⟨.nil,_,rfl,holds.set rd (holds_unknown _)⟩
  | smlal lo hi rm rs =>
    cases done
    exact ⟨.nil,_,rfl,(holds.set lo (holds_unknown _)).set hi (holds_unknown _)⟩
  | ldr rd a =>
    cases done
    exact ⟨.cons ⟨rfl,rfl,a.symbol_holds holds⟩ .nil,_,rfl,(a.moved_holds holds).set rd (holds_unknown _)⟩
  | str rd a =>
    cases done
    exact ⟨.cons ⟨rfl,rfl,a.symbol_holds holds⟩ .nil,_,rfl,a.moved_holds (holds.memory _)⟩
  | ldm mode rn wb rs =>
    cases done
    refine ⟨touched_holds (mode.first_holds (holds.reg rn) _) _ _ _,_,rfl,?_⟩
    have loaded := holds.forget s.mem (mode.start (s.reg rn) rs.length) 0 rs
    cases wb with
    | false => exact loaded
    | true => exact loaded.set rn (mode.last_holds (holds.reg rn) _)
  | stm mode rn wb rs =>
    cases done
    refine ⟨touched_holds (mode.first_holds (holds.reg rn) _) _ _ _,_,rfl,?_⟩
    have stored := holds.memory (storeRegs s.reg (mode.start (s.reg rn) rs.length) 0 rs s.mem)
    cases wb with
    | false => exact stored
    | true => exact stored.set rn (mode.last_holds (holds.reg rn) _)
  | ldmfdPc rn rs =>
    cases done
    exact ⟨touched_holds (holds.reg rn) _ _ _,_,_,rfl⟩
  | ldrPc index table =>
    obtain ⟨rfl,jumps⟩ := ldrPc_holds holds done
    exact ⟨.nil,jumps⟩
  | b l =>
    cases done
    exact ⟨.nil,s,rfl,holds⟩
  | «when» cond i => contradiction

structure Way.Holds (ρ : B → Word) (way : Way L B) (i : Instr L) (s : State) : Prop where
  guesses : Guessed ρ way.guesses
  touches : List.Forall₂ (Touch.Holds ρ) way.touches (i.accesses s)
  effect : way.effect.Holds ρ (exec i s)

theorem Instr.way_holds {σ : Symbols B} {s : State} (holds : σ.Holds ρ s) {i : Instr L}
    {guesses : List (Flag B × Bool)} (guessed : Guessed ρ guesses) {way : Way L B}
    (done : i.way σ guesses = some way) : way.Holds ρ i s := by
  obtain ⟨result,symbolic,rfl⟩ := Option.map_eq_some_iff.mp done
  obtain ⟨touches,effect⟩ := Instr.symbolic_holds holds symbolic
  exact ⟨guessed,touches,effect⟩

theorem way_when {way : Way L B} {i : Instr L} {s : State} {cond : Cond} (taken : cond.holds s = true)
    (holds : way.Holds ρ i s) : way.Holds ρ (.when cond i) s := by
  refine ⟨holds.guesses,?_,?_⟩
  · rw [Instr.accesses, if_pos taken]
    exact holds.touches
  · rw [exec_when taken]
    exact holds.effect

theorem passed_when {σ : Symbols B} {i : Instr L} {s : State} {cond : Cond}
    {guesses : List (Flag B × Bool)} (holds : σ.Holds ρ s) (left : cond.holds s = false)
    (guessed : Guessed ρ guesses) : (passed σ guesses).Holds ρ (.when cond i) s := by
  refine ⟨guessed,?_,?_⟩
  · rw [Instr.accesses, if_neg (by rw [left]; exact Bool.false_ne_true)]
    exact .nil
  · rw [exec_unless left]
    exact ⟨s,rfl,holds⟩

theorem Symbols.Holds.guess {σ : Symbols B} {s : State} (holds : σ.Holds ρ s) {z : Bool}
    (flag : s.z = z) : Guessed ρ [(σ.zero, z)] := by
  intro g member
  cases List.mem_singleton.mp member
  rw [← flag]
  exact holds.zero

theorem bothWays_holds {σ : Symbols B} {s : State} (holds : σ.Holds ρ s) {cond : Cond} {i : Instr L}
    {ways : List (Way L B)} (done : bothWays cond i σ = some ways) :
    ∃ way ∈ ways, way.Holds ρ (.when cond i) s := by
  cases cond with
  | eq =>
    obtain ⟨way,taken,rfl⟩ := Option.map_eq_some_iff.mp done
    cases flag : s.z with
    | true => exact ⟨way,by simp,way_when flag (Instr.way_holds holds (holds.guess flag) taken)⟩
    | false => exact ⟨_,by simp,passed_when holds flag (holds.guess flag)⟩
  | ne =>
    obtain ⟨way,taken,rfl⟩ := Option.map_eq_some_iff.mp done
    cases flag : s.z with
    | true => exact ⟨_,by simp,passed_when holds (by simp [flag]) (holds.guess flag)⟩
    | false =>
      exact ⟨way,by simp,way_when (by simp [flag]) (Instr.way_holds holds (holds.guess flag) taken)⟩
  | ls => contradiction

theorem whenWays_holds {σ : Symbols B} {s : State} (holds : σ.Holds ρ s) {cond : Cond} {i : Instr L}
    {ways : List (Way L B)} (done : whenWays cond i σ = some ways) :
    ∃ way ∈ ways, way.Holds ρ (.when cond i) s := by
  have free : Guessed ρ ([] : List (Flag B × Bool)) := by simp [Guessed]
  rw [whenWays] at done
  split at done
  · rename_i decided
    obtain ⟨way,taken,rfl⟩ := Option.map_eq_some_iff.mp done
    exact ⟨way,by simp,way_when (Cond.decided_holds holds decided) (Instr.way_holds holds free taken)⟩
  · rename_i decided
    cases done
    exact ⟨_,by simp,passed_when holds (Cond.decided_holds holds decided) free⟩
  · exact bothWays_holds holds done

theorem Instr.ways_holds {σ : Symbols B} {s : State} (holds : σ.Holds ρ s) {i : Instr L}
    {ways : List (Way L B)} (done : i.ways σ = some ways) : ∃ way ∈ ways, way.Holds ρ i s := by
  rw [Instr.ways.eq_def] at done
  split at done
  · exact whenWays_holds holds done
  · obtain ⟨way,taken,rfl⟩ := Option.map_eq_some_iff.mp done
    exact ⟨way,by simp,Instr.way_holds holds (by simp [Guessed]) taken⟩

theorem gather_mem {α β : Type} {f : α → Option (List β)} {as : List α} {bs : List β}
    (all : gather f as = some bs) {a : α} (member : a ∈ as) :
    ∃ part, f a = some part ∧ ∀ b ∈ part, b ∈ bs := by
  induction as generalizing bs with
  | nil => contradiction
  | cons c as ih =>
    rw [gather] at all
    split at all
    · rename_i here later first rest
      cases all
      rcases List.mem_cons.mp member with rfl | inside
      · exact ⟨here,first,fun b => List.mem_append_left later⟩
      · obtain ⟨part,found,among⟩ := ih rest inside
        exact ⟨part,found,fun b inPart => List.mem_append_right here (among b inPart)⟩
    · contradiction

end

section
variable {B L : Type} [DecidableEq L] {ρ : B → Word} {p : Program L}

def End.Holds (ρ : B → Word) (p : Program L) : End L B → Config L → Prop
  | .at l k σ, c => ∃ t, c = .running ((Program.after l p).drop k) t ∧ σ.Holds ρ t
  | .returned, c => ∃ pc t, c = .returned pc t

structure Leaf.Holds (ρ : B → Word) (p : Program L) (leaf : Leaf L B) (c : Config L)
    (as : List Access) (d : Config L) : Prop where
  guesses : Guessed ρ leaf.guesses
  touches : List.Forall₂ (Touch.Holds ρ) leaf.touches as
  trace : Trace p c as d
  ending : leaf.ending.Holds ρ p d

theorem Leaf.behind_holds {way : Way L B} {leaf : Leaf L B} {i : Instr L} {rest : List (Instr L)}
    {s : State} {as : List Access} {c d : Config L} (first : way.Holds ρ i s)
    (step : Step p (.running (i :: rest) s) c) (later : leaf.Holds ρ p c as d) :
    (leaf.behind way).Holds ρ p (.running (i :: rest) s) (i.accesses s ++ as) d := by
  refine ⟨?_,List.rel_append first.touches later.touches,.step step later.trace,later.ending⟩
  intro g member
  rcases List.mem_append.mp member with here | there
  · exact first.guesses g here
  · exact later.guesses g there

theorem leaf_here (e : End L B) {c : Config L} (ends : e.Holds ρ p c) :
    (⟨[], [], e⟩ : Leaf L B).Holds ρ p c [] c :=
  ⟨by simp [Guessed],.nil,.done,ends⟩

/-- The code runs to the end of one of its leaves. -/
theorem leaves_holds {marks : List (L × Nat)} {fuel : Nat} {l : L} {k : Nat} {code : List (Instr L)}
    {σ : Symbols B} {s : State} {ls : List (Leaf L B)} (holds : σ.Holds ρ s)
    (place : code = (Program.after l p).drop k) (done : leaves p marks fuel l k code σ = some ls) :
    ∃ leaf ∈ ls, ∃ as d, leaf.Holds ρ p (.running code s) as d := by
  induction fuel generalizing l k code σ s ls with
  | zero => contradiction
  | succ fuel ih =>
    cases code with
    | nil => contradiction
    | cons i rest =>
      have behind : rest = (Program.after l p).drop (k + 1) := by
        rw [← List.drop_drop, ← place]
        rfl
      rw [leaves] at done
      obtain ⟨ways,found,done⟩ := Option.bind_eq_some_iff.mp done
      obtain ⟨way,member,first⟩ := Instr.ways_holds holds found
      obtain ⟨part,taken,among⟩ := gather_mem done member
      obtain ⟨ends,follows,rfl⟩ := Option.map_eq_some_iff.mp taken
      -- Whatever the instruction leads to, the leaves behind it are those of this way.
      have follow : ∀ c, Step p (.running (i :: rest) s) c →
          (∃ leaf ∈ ends, ∃ as d, leaf.Holds ρ p c as d) →
          ∃ leaf ∈ ls, ∃ as d, leaf.Holds ρ p (.running (i :: rest) s) as d := by
        rintro c step ⟨leaf,inside,as,d,later⟩
        exact ⟨leaf.behind way,among _ (List.mem_map_of_mem inside),_,d,Leaf.behind_holds first step later⟩
      have effect := first.effect
      split at follows
      · rename_i same
        rw [same] at effect
        obtain ⟨pc,t,ran⟩ := effect
        cases follows
        exact follow _ (.ret ran) ⟨_,by simp,[],_,leaf_here .returned ⟨pc,t,rfl⟩⟩
      · rename_i τ same
        rw [same] at effect
        obtain ⟨t,ran,next⟩ := effect
        apply follow _ (.next ran)
        split at follows
        · cases follows
          exact ⟨_,by simp,[],_,leaf_here (.at l (k + 1) τ) ⟨t,by rw [behind],next⟩⟩
        · exact ih next behind follows
      · rename_i l' τ same
        rw [same] at effect
        obtain ⟨t,ran,next⟩ := effect
        apply follow _ (.jump ran)
        split at follows
        · cases follows
          exact ⟨_,by simp,[],_,leaf_here (.at l' 0 τ) ⟨t,rfl,next⟩⟩
        · have start : Program.after l' p = (Program.after l' p).drop 0 := rfl
          exact ih next start follows

end

end Arm
