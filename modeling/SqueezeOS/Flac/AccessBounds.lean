import SqueezeOS.Arm.Symbolic

/- Which words the FLAC restorers read and write. Each of them goes over the samples in turns of
   one, two, eight or sixteen; the code between the heads of its loops is followed on symbols, and
   what a turn transfers is checked against the samples that are left. -/
namespace RestoreBounds
open Arm

/-- What the registers of a restorer point to: its arguments as they stand in the current turn, and
    the registers it has saved on the stack. -/
inductive Base where
  | residual | coeff | data | count | frame
  deriving DecidableEq, Repr

structure Block where
  residual : Word
  coeff : Word
  data : Word
  sp : Word
  order : Nat
  taps : Nat
  len : Nat
  small : len < 2 ^ 32

def Block.values (block : Block) (i : Nat) : Base → Word
  | .residual => addr block.residual i
  | .coeff => block.coeff
  | .data => addr block.data i
  | .count => BitVec.ofNat 32 (block.len - i)
  | .frame => below block.sp 10

/-- residual[0 .. len-1], qlp_coeff[0 .. taps-1] and data[-order .. len-1] may be read, and
    data[0 .. len-1] written. Through the stack pointer a restorer saves ten registers, and reads
    them and two arguments behind them. -/
def Block.Allows (block : Block) (a : Access) : Prop :=
  if a.base = .r13 then
    ∃ k < 12, a.address = addr (below block.sp 10) k ∧ (a.write = true → k < 10)
  else if a.write then ∃ j < block.len, a.address = addr block.data j
  else (∃ j < block.len, a.address = addr block.residual j) ∨
    (∃ j < block.taps, a.address = addr block.coeff j) ∨
    ∃ j < block.order + block.len, a.address = addr (below block.data block.order) j

def advanced (n : Nat) : Value Base → Value Base
  | .point .residual k => .point .residual (k + 4 * n)
  | .point .data k => .point .data (k + 4 * n)
  | .point .count k => .point .count (k - n)
  | v => v

def symbols (regs : List (Reg × Value Base)) : Symbols Base where
  reg r := (regs.lookup r).getD .unknown
  zero := .unknown
  carry := none

/-- The head of a loop: where it is, what the registers hold there, and that a multiple of
    2 ^ bits samples is left. Code that falls into it is at one of the `others`. -/
structure Head (L : Type) where
  spot : L × Nat
  others : List (L × Nat)
  regs : List (Reg × Value Base)
  bits : Nat

def within (order taps reach : Nat) (t : Touch Base) : Bool :=
  match t.address with
  | .point b k => decide (k % 4 = 0) &&
      if t.base = .r13 then decide (b = .frame ∧ 0 ≤ k ∧ k < if t.write then 40 else 48)
      else match b with
        | .residual => !t.write && decide (0 ≤ k ∧ k < 4 * reach)
        | .coeff => !t.write && decide (0 ≤ k ∧ k < 4 * taps)
        | .data => decide ((if t.write then 0 else -4 * (order : Int)) ≤ k ∧ k < 4 * reach)
        | _ => false
  | _ => false

def writesFirst (t : Touch Base) : Bool :=
  t.write && decide (t.base ≠ .r13 ∧ t.address = .point .data 0)

/-- The end of a turn over `n` samples is at a head that goes on with those that are left, of which
    there are a multiple of 2 ^ bits by `whole` or by what the turn has tested. -/
def goesOn {L : Type} [DecidableEq L] (heads : List (Head L)) (whole : Option Nat) (n : Nat)
    (guesses : List (Flag Base × Bool)) (l : L) (k : Nat) (σ : Symbols Base) : Bool :=
  heads.any fun h => decide ((l, k) ∈ h.spot :: h.others) &&
    h.regs.all (fun e => decide (σ.reg e.1 = advanced n e.2)) &&
    (decide (h.bits = 0) || decide (whole = some h.bits) ||
      decide ((.lowZero .count (-n) (2 ^ h.bits - 1), true) ∈ guesses))

def reach (bits : Nat) (guesses : List (Flag Base × Bool)) : Nat :=
  if (.isZero .count (-(2 ^ bits : Nat)), false) ∈ guesses then 2 ^ bits + 1 else 2 ^ bits

def counted (σ : Symbols Base) : Nat :=
  match σ.reg .r1 with
  | .point .count k => (-k).toNat
  | _ => 0

structure Loops (L : Type) where
  program : Program L
  heads : List (Head L)
  order : Nat
  taps : Nat

section
variable {L : Type} [DecidableEq L]

def Loops.code (loops : Loops L) (spot : L × Nat) : List (Instr L) :=
  (Program.after spot.1 loops.program).drop spot.2

def Loops.follow (loops : Loops L) (spot : L × Nat) (regs : List (Reg × Value Base)) :
    Option (List (Leaf L Base)) :=
  leaves loops.program (loops.heads.flatMap fun h => h.spot :: h.others) 400 spot.1 spot.2
    (loops.code spot) (symbols regs)

def Loops.turnOk (loops : Loops L) (h : Head L) (leaf : Leaf L Base) : Bool :=
  leaf.touches.all (within loops.order loops.taps (reach h.bits leaf.guesses)) &&
  leaf.touches.any writesFirst &&
  match leaf.ending with
  | .returned => true
  | .at l k σ =>
      decide (0 < counted σ ∧ counted σ ≤ reach h.bits leaf.guesses ∧
        (.isZero .count (-(counted σ)), false) ∈ leaf.guesses) &&
      goesOn loops.heads (if counted σ = 2 ^ h.bits then some h.bits else none) (counted σ)
        leaf.guesses l k σ

def Loops.entryOk (loops : Loops L) (leaf : Leaf L Base) : Bool :=
  leaf.touches.all (within loops.order loops.taps 0) &&
  match leaf.ending with
  | .returned => false
  | .at l k σ => goesOn loops.heads none 0 leaf.guesses l k σ

def allLeaves (ok : Leaf L Base → Bool) : Option (List (Leaf L Base)) → Bool
  | none => false
  | some ls => ls.all ok

structure Loops.Checked (loops : Loops L) : Prop where
  turns : ∀ h ∈ loops.heads, allLeaves (loops.turnOk h) (loops.follow h.spot h.regs) = true
  same : ∀ h ∈ loops.heads, ∀ spot ∈ h.others, loops.code spot = loops.code h.spot

end

section
variable {block : Block} {i n : Nat}

theorem advanced_holds {v : Value Base} {w : Word} (left : i + n ≤ block.len)
    (holds : (advanced n v).Holds (block.values i) w) : v.Holds (block.values (i + n)) w := by
  have further : ∀ base : Word, addr base (i + n) = addr base i + BitVec.ofInt 32 (4 * n) := by
    intro base
    rw [← addr_addr, addr_eq (addr base i)]
  cases v with
  | unknown => trivial
  | number m => exact holds
  | point b k =>
    cases b with
    | residual =>
      rw [advanced, holds_point] at holds
      rw [holds_point, holds, Block.values, Block.values, further, BitVec.ofInt_add]
      ring
    | data =>
      rw [advanced, holds_point] at holds
      rw [holds_point, holds, Block.values, Block.values, further, BitVec.ofInt_add]
      ring
    | count =>
      have fewer : BitVec.ofNat 32 (block.len - (i + n)) =
          BitVec.ofNat 32 (block.len - i) - BitVec.ofNat 32 n := by
        rw [count_down (by omega), Nat.sub_sub]
      rw [advanced, holds_point] at holds
      rw [holds_point, holds, Block.values, Block.values, fewer, Int.sub_eq_add_neg, BitVec.ofInt_add,
        BitVec.ofInt_neg, ofInt_ofNat]
      ring
    | coeff => exact holds
    | frame => exact holds

theorem symbols_hold {ρ : Base → Word} {s : State} {regs : List (Reg × Value Base)}
    (each : ∀ e ∈ regs, e.2.Holds ρ (s.reg e.1)) : (symbols regs).Holds ρ s := by
  refine ⟨?_,trivial,by simp [symbols]⟩
  intro r
  change ((regs.lookup r).getD .unknown).Holds ρ (s.reg r)
  cases found : regs.lookup r with
  | none => trivial
  | some v =>
    obtain ⟨before,after,rfl,-⟩ := List.lookup_eq_some_iff.mp found
    exact each (r, v) (by simp)

theorem point_word {ρ : Base → Word} {b : Base} {k : Int} {a : Word}
    (holds : (.point b k : Value Base).Holds ρ a) (words : k % 4 = 0) (up : 0 ≤ k) :
    a = addr (ρ b) (k / 4).toNat := by
  rw [holds_point] at holds
  have whole : k = 4 * ((k / 4).toNat : Int) := by omega
  rw [addr_eq, ← whole]
  exact holds

theorem data_word {k : Int} {a : Word} (holds : (.point .data k : Value Base).Holds (block.values i) a)
    (words : k % 4 = 0) (low : -(4 * ((block.order : Int) + i)) ≤ k) :
    ∃ j : Nat, (j : Int) = block.order + i + k / 4 ∧ a = addr (below block.data block.order) j := by
  obtain ⟨j,place⟩ : ∃ j : Nat, (j : Int) = block.order + i + k / 4 :=
    ⟨_,Int.toNat_of_nonneg (by omega)⟩
  have same : -(4 * (block.order : Int)) + 4 * j = 4 * i + k := by omega
  rw [holds_point, Block.values, addr_eq, BitVec.add_assoc, ← BitVec.ofInt_add, ← same] at holds
  refine ⟨j,place,?_⟩
  rw [holds, addr_eq, below_eq, BitVec.add_assoc, ← BitVec.ofInt_add]

theorem within_allowed {t : Touch Base} {a : Access} {r : Nat}
    (ok : within block.order block.taps r t = true) (left : i + r ≤ block.len)
    (holds : t.Holds (block.values i) a) : block.Allows a := by
  obtain ⟨write,base,address⟩ := holds
  unfold within at ok
  split at ok
  · rename_i b k same
    rw [same] at address
    rw [Bool.and_eq_true, decide_eq_true_iff] at ok
    obtain ⟨words,ok⟩ := ok
    rw [Block.Allows, write, base]
    split at ok
    · rename_i stack
      obtain ⟨rfl,up,bound⟩ := of_decide_eq_true ok
      rw [if_pos stack]
      refine ⟨(k / 4).toNat,by split at bound <;> omega,point_word address words up,?_⟩
      intro writes
      rw [if_pos writes] at bound
      omega
    · rename_i other
      rw [if_neg other]
      cases b with
      | residual =>
        rw [Bool.and_eq_true, Bool.not_eq_true', decide_eq_true_iff] at ok
        obtain ⟨reads,up,bound⟩ := ok
        rw [if_neg (by simp [reads])]
        refine Or.inl ⟨i + (k / 4).toNat,by omega,?_⟩
        rw [point_word address words up, Block.values, addr_addr]
      | coeff =>
        rw [Bool.and_eq_true, Bool.not_eq_true', decide_eq_true_iff] at ok
        obtain ⟨reads,up,bound⟩ := ok
        rw [if_neg (by simp [reads])]
        exact Or.inr (Or.inl ⟨(k / 4).toNat,by omega,point_word address words up⟩)
      | data =>
        obtain ⟨low,bound⟩ := of_decide_eq_true ok
        cases writes : t.write with
        | true =>
          rw [writes, if_pos rfl] at low
          rw [if_pos rfl]
          refine ⟨i + (k / 4).toNat,by omega,?_⟩
          rw [point_word address words low, Block.values, addr_addr]
        | false =>
          rw [writes] at low
          simp only [Bool.false_eq_true, if_false] at low
          rw [if_neg (by simp)]
          obtain ⟨j,place,same⟩ := data_word address words (by omega)
          exact Or.inr (Or.inr ⟨j,by omega,same⟩)
      | count => contradiction
      | frame => contradiction
  · contradiction

theorem related_right {α β : Type} {R : α → β → Prop} {as : List α} {bs : List β}
    (related : List.Forall₂ R as bs) {b : β} (member : b ∈ bs) : ∃ a ∈ as, R a b := by
  induction related with
  | nil => contradiction
  | cons first _ ih =>
    rcases List.mem_cons.mp member with rfl | inside
    · exact ⟨_,by simp,first⟩
    · obtain ⟨a,among,here⟩ := ih inside
      exact ⟨a,List.mem_cons_of_mem _ among,here⟩

theorem count_value (n : Nat) (left : i + n ≤ block.len) :
    block.values i .count + BitVec.ofInt 32 (-n) = BitVec.ofNat 32 (block.len - (i + n)) := by
  rw [Block.values, BitVec.ofInt_neg, ofInt_ofNat, ← BitVec.sub_eq_add_neg, count_down (by omega),
    Nat.sub_sub]

theorem guessed_more {guesses : List (Flag Base × Bool)} (guessed : Guessed (block.values i) guesses)
    (left : i + n ≤ block.len) (more : (.isZero .count (-n), false) ∈ guesses) :
    i + n < block.len := by
  have small := block.small
  have flag := guessed _ more
  rw [Flag.Holds, count_value n left] at flag
  have nonzero := flag.trans (count_zero (by omega))
  simp only [Bool.false_eq, decide_eq_false_iff_not] at nonzero
  omega

theorem guessed_whole {guesses : List (Flag Base × Bool)} (guessed : Guessed (block.values i) guesses)
    {bits : Nat} (left : i + n ≤ block.len)
    (whole : (.lowZero .count (-n) (2 ^ bits - 1), true) ∈ guesses) :
    (block.len - (i + n)) % 2 ^ bits = 0 := by
  have small := block.small
  have flag := guessed _ whole
  rw [Flag.Holds, count_value n left, low_bits] at flag
  have less : (block.len - (i + n)) % 2 ^ bits < 2 ^ 32 :=
    Nat.lt_of_le_of_lt (Nat.mod_le _ _) (by omega)
  have zero := flag.trans (count_zero less)
  simpa using zero

theorem reach_left {guesses : List (Flag Base × Bool)} (guessed : Guessed (block.values i) guesses)
    {bits : Nat} (more : i < block.len) (whole : (block.len - i) % 2 ^ bits = 0) :
    i + reach bits guesses ≤ block.len := by
  have room : 2 ^ bits ≤ block.len - i := Nat.le_of_dvd (by omega) (Nat.dvd_of_mod_eq_zero whole)
  rw [reach]
  split
  · rename_i another
    have := guessed_more guessed (n := 2 ^ bits) (by omega) another
    omega
  · omega

end

section
variable {L : Type} [DecidableEq L] {block : Block} {i n : Nat}

structure Head.Holds (block : Block) (h : Head L) (i : Nat) (s : State) : Prop where
  regs : (symbols h.regs).Holds (block.values i) s
  whole : (block.len - i) % 2 ^ h.bits = 0

theorem goesOn_holds {heads : List (Head L)} {whole : Option Nat} {guesses : List (Flag Base × Bool)}
    {l : L} {k : Nat} {σ : Symbols Base} {s : State}
    (ok : goesOn heads whole n guesses l k σ = true) (guessed : Guessed (block.values i) guesses)
    (holds : σ.Holds (block.values i) s) (left : i + n ≤ block.len)
    (kept : ∀ bits, whole = some bits → (block.len - (i + n)) % 2 ^ bits = 0) :
    ∃ h ∈ heads, (l, k) ∈ h.spot :: h.others ∧ h.Holds block (i + n) s := by
  obtain ⟨h,member,ok⟩ := List.any_eq_true.mp ok
  simp only [Bool.and_eq_true, Bool.or_eq_true, decide_eq_true_iff] at ok
  obtain ⟨⟨spot,regs⟩,bits⟩ := ok
  refine ⟨h,member,spot,symbols_hold ?_,?_⟩
  · intro e inside
    have same := of_decide_eq_true (List.all_eq_true.mp regs e inside)
    apply advanced_holds left
    rw [← same]
    exact holds.reg e.1
  · rcases bits with (none | same) | tested
    · simp [none, Nat.mod_one]
    · exact kept h.bits same
    · exact guessed_whole guessed left tested

theorem touches_allowed {ts : List (Touch Base)} {as : List Access} {r : Nat}
    (each : ts.all (within block.order block.taps r) = true) (left : i + r ≤ block.len)
    (holds : List.Forall₂ (Touch.Holds (block.values i)) ts as) : ∀ a ∈ as, block.Allows a := by
  intro a member
  obtain ⟨t,there,touch⟩ := related_right holds member
  exact within_allowed (List.all_eq_true.mp each t there) left touch

variable {loops : Loops L}

theorem head_code (checked : loops.Checked) {h : Head L} (member : h ∈ loops.heads) {spot : L × Nat}
    (here : spot ∈ h.spot :: h.others) : loops.code spot = loops.code h.spot := by
  rcases List.mem_cons.mp here with rfl | other
  · rfl
  · exact checked.same h member spot other

theorem follow_holds {spot : L × Nat} {regs : List (Reg × Value Base)} {ok : Leaf L Base → Bool}
    {s : State} (each : allLeaves ok (loops.follow spot regs) = true)
    (holds : (symbols regs).Holds (block.values i) s) :
    ∃ leaf as d, ok leaf = true ∧
      leaf.Holds (block.values i) loops.program (.running (loops.code spot) s) as d := by
  cases found : loops.follow spot regs with
  | none =>
    rw [found] at each
    contradiction
  | some ls =>
    rw [found] at each
    obtain ⟨leaf,member,as,d,run⟩ := leaves_holds holds rfl found
    exact ⟨leaf,as,d,List.all_eq_true.mp each leaf member,run⟩

/-- A turn makes allowed transfers only, and ends behind the return or at the head of the next. -/
theorem turn_holds (checked : loops.Checked) (order : block.order = loops.order)
    (taps : block.taps = loops.taps) {h : Head L} (member : h ∈ loops.heads) {s : State}
    (more : i < block.len) (holds : h.Holds block i s) :
    ∃ as d, Trace loops.program (.running (loops.code h.spot) s) as d ∧
      (∀ a ∈ as, block.Allows a) ∧ ((∃ pc t, d = .returned pc t) ∨
        ∃ j h' t, i < j ∧ j < block.len ∧ h' ∈ loops.heads ∧
          d = .running (loops.code h'.spot) t ∧ h'.Holds block j t) := by
  obtain ⟨leaf,as,d,ok,run⟩ := follow_holds (checked.turns h member) holds.regs
  have left := reach_left run.guesses more holds.whole
  simp only [Loops.turnOk, Bool.and_eq_true] at ok
  obtain ⟨⟨inside,-⟩,ends⟩ := ok
  rw [← order, ← taps] at inside
  refine ⟨as,d,run.trace,touches_allowed inside left run.touches,?_⟩
  have ending := run.ending
  split at ends
  · rename_i same
    rw [same] at ending
    exact Or.inl ending
  · rename_i l k σ same
    rw [same] at ending
    obtain ⟨t,rfl,next⟩ := ending
    simp only [Bool.and_eq_true, decide_eq_true_iff] at ends
    obtain ⟨⟨positive,bound,tested⟩,ends⟩ := ends
    have further := guessed_more run.guesses (by omega) tested
    obtain ⟨h',among,spot,here⟩ := goesOn_holds ends run.guesses next further.le (by
      intro bits kept
      split at kept
      · rename_i full
        cases kept
        rw [full, ← Nat.sub_sub, Nat.sub_mod_eq_zero_of_mod_eq (by rw [holds.whole, Nat.mod_self])]
      · contradiction)
    refine Or.inr ⟨i + counted σ,h',t,by omega,further,among,?_,here⟩
    rw [← head_code checked among spot]
    rfl

theorem turn_writes (checked : loops.Checked) {h : Head L} (member : h ∈ loops.heads) {s : State}
    (holds : (symbols h.regs).Holds (block.values 0) s) :
    ∃ c a, Steps loops.program (.running (loops.code h.spot) s) c ∧ a ∈ c.accesses ∧
      a.write = true ∧ a.base ≠ .r13 := by
  obtain ⟨leaf,as,d,ok,run⟩ := follow_holds (checked.turns h member) holds
  simp only [Loops.turnOk, Bool.and_eq_true] at ok
  obtain ⟨t,among,first⟩ := List.any_eq_true.mp ok.1.2
  simp only [writesFirst, Bool.and_eq_true, decide_eq_true_iff] at first
  obtain ⟨a,inside,touch⟩ := related_right (List.Forall₂.flip run.touches) among
  obtain ⟨c,steps,made⟩ := run.trace.made inside
  exact ⟨c,a,steps,made,touch.write.trans first.1,by rw [touch.base]; exact first.2.1⟩

/-- From a head on the loops stay inside the block unless it is empty. -/
theorem heads_inside_iff (checked : loops.Checked) (order : block.order = loops.order)
    (taps : block.taps = loops.taps) {h : Head L} (member : h ∈ loops.heads) {s : State}
    (holds : h.Holds block 0 s) :
    Inside loops.program block.Allows (.running (loops.code h.spot) s) ↔ 0 < block.len := by
  constructor
  · intro inside
    obtain ⟨c,a,steps,made,write,base⟩ := turn_writes checked member holds.regs
    have allowed := inside.2 c steps a made
    rw [Block.Allows, if_neg base, if_pos write] at allowed
    obtain ⟨j,less,-⟩ := allowed
    omega
  · have from_here : ∀ i h s, i < block.len → h ∈ loops.heads → h.Holds block i s →
        Inside loops.program block.Allows (.running (loops.code h.spot) s) := by
      intro i
      induction left : block.len - i using Nat.strongRecOn generalizing i with
      | ind k ih =>
        intro h s more member holds
        obtain ⟨as,d,trace,allowed,ends⟩ := turn_holds checked order taps member more holds
        rw [trace.inside_iff allowed]
        rcases ends with ⟨pc,t,rfl⟩ | ⟨j,h',t,further,less,among,rfl,next⟩
        · exact inside_returned _ pc t
        · exact ih (block.len - j) (by omega) j rfl h' t less among next
    intro positive
    exact from_here 0 h s positive member holds

theorem entry_inside_iff (checked : loops.Checked) (order : block.order = loops.order)
    (taps : block.taps = loops.taps) {spot : L × Nat} {regs : List (Reg × Value Base)} {s : State}
    (entry : allLeaves loops.entryOk (loops.follow spot regs) = true)
    (holds : (symbols regs).Holds (block.values 0) s) :
    Inside loops.program block.Allows (.running (loops.code spot) s) ↔ 0 < block.len := by
  obtain ⟨leaf,as,d,ok,run⟩ := follow_holds entry holds
  simp only [Loops.entryOk, Bool.and_eq_true] at ok
  obtain ⟨inside,ends⟩ := ok
  rw [← order, ← taps] at inside
  rw [run.trace.inside_iff (touches_allowed inside (Nat.zero_le _) run.touches)]
  have ending := run.ending
  split at ends
  · contradiction
  · rename_i l k σ same
    rw [same] at ending
    obtain ⟨t,rfl,next⟩ := ending
    obtain ⟨h,among,spot,here⟩ := goesOn_holds ends run.guesses next (Nat.zero_le _) (by simp)
    have place := head_code checked among spot
    rw [Loops.code] at place
    rw [place]
    exact heads_inside_iff checked order taps among here

end

end RestoreBounds
