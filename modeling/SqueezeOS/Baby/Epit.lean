import SqueezeOS.WrappingCounter
import Mathlib.Data.Nat.Find

/- The EPIT clock source: mxc_epit_get_cycles extends the 32-bit down counter EPITCNT to 64
   bits by counting its wraps, and mxc_epit_sched_clock converts the count to ns. -/
namespace Epit

/-- The static variables of mxc_epit_get_cycles. -/
structure Cycles where
  prevCycles32 : BitVec 32
  upper64 : BitVec 64
  deriving DecidableEq, Repr

def start : Cycles := { prevCycles32 := 0, upper64 := 0 }

def isWrapped (prevCycles32 cycles32 : BitVec 32) : Bool :=
  cycles32 < prevCycles32 && prevCycles32 - cycles32 > 1 <<< 31

/-- A count below the one before that is no wrap has jumped backwards: that is printed, and
    nothing else comes of it. -/
def mxcEpitGetCycles (epitcnt : BitVec 32) (s : Cycles) : BitVec 64 × Cycles :=
  let cycles32 := ~~~epitcnt
  let upper64 := if isWrapped s.prevCycles32 cycles32 then s.upper64 + 1 <<< 32 else s.upper64
  (upper64 ||| cycles32.setWidth 64, { prevCycles32 := cycles32, upper64 := upper64 })

/-- What successive calls return that find `epitcnts` in EPITCNT. -/
def calls (s : Cycles) : List (BitVec 32) → List (BitVec 64)
  | [] => []
  | epitcnt :: rest =>
      (mxcEpitGetCycles epitcnt s).1 :: calls (mxcEpitGetCycles epitcnt s).2 rest

def epitcnt (count : Int) : BitVec 32 := ~~~BitVec.ofInt 32 count

def FallsBack (a b : Int) : Prop := b / 2 ^ 32 < a / 2 ^ 32

def LeapsOver (a b : Int) : Prop := a / 2 ^ 32 < b / 2 ^ 32 ∧ 2 ^ 31 ≤ b - a

instance (a b : Int) : Decidable (FallsBack a b) := inferInstanceAs (Decidable (_ < _))
instance (a b : Int) : Decidable (LeapsOver a b) := inferInstanceAs (Decidable (_ ∧ _))

/-- How many more readings fell back than leapt over, up to `b`. -/
def drift (sofar a b : Int) : Int :=
  sofar + (if FallsBack a b then 1 else 0) - (if LeapsOver a b then 1 else 0)

theorem isWrapped_eq (prevCycles32 cycles32 : BitVec 32) :
    isWrapped prevCycles32 cycles32 = WrappingCounter.wrapped (2 ^ 31) prevCycles32 cycles32 := rfl

theorem drift_eq (sofar a b : Int) : drift sofar a b = WrappingCounter.drift (2 ^ 31) sofar a b := by
  have falls : FallsBack a b ↔ WrappingCounter.FallsBack a b := Iff.rfl
  have leaps : LeapsOver a b ↔ WrappingCounter.LeapsOver (2 ^ 31) a b := Iff.rfl
  simp only [drift, WrappingCounter.drift, falls, leaps]

/-- The wraps counted so far are those of the reading `a`, and `e` more. -/
structure Reads (s : Cycles) (a e : Int) : Prop where
  prev : s.prevCycles32 = BitVec.ofInt 32 a
  upper : s.upper64 = BitVec.ofInt 64 (2 ^ 32 * (a / 2 ^ 32 + e))

theorem start_reads : Reads start 0 0 := ⟨rfl,rfl⟩

theorem getCycles_reads {s : Cycles} {a b e : Int} (reads : Reads s a e)
    (behind : a - b < 2 ^ 31) (ahead : b - a < 2 ^ 32) :
    (mxcEpitGetCycles (epitcnt b) s).1 = BitVec.ofInt 64 (b + 2 ^ 32 * drift e a b) ∧
    Reads (mxcEpitGetCycles (epitcnt b) s).2 b (drift e a b) := by
  have near : WrappingCounter.Near (2 ^ 31) a b := ⟨by omega,ahead⟩
  have before : WrappingCounter.Reads s.prevCycles32 s.upper64 a e := ⟨reads.prev,reads.upper⟩
  have next := before.next near (by decide)
  have cycles32 : ~~~epitcnt b = BitVec.ofInt 32 b := BitVec.not_not
  simp only [mxcEpitGetCycles, cycles32, isWrapped_eq, drift_eq]
  exact ⟨next.count,rfl,next.upper⟩

def drifts (sofar a : Int) : List Int → List Int
  | [] => []
  | b :: rest => drift sofar a b :: drifts (drift sofar a b) b rest

def Near (a b : Int) : Prop := a - b < 2 ^ 31 ∧ b - a < 2 ^ 32

theorem calls_drift {s : Cycles} {a e : Int} (reads : Reads s a e) (readings : List Int)
    (near : (a :: readings).IsChain Near) :
    calls s (readings.map epitcnt) =
      List.zipWith (fun b d => BitVec.ofInt 64 (b + 2 ^ 32 * d)) readings (drifts e a readings) := by
  induction readings generalizing s a e with
  | nil => rfl
  | cons b rest ih =>
    obtain ⟨⟨behind,ahead⟩,later⟩ := List.isChain_cons_cons.mp near
    obtain ⟨returned,next⟩ := getCycles_reads reads behind ahead
    rw [List.map_cons, calls, drifts, List.zipWith_cons_cons, returned, ih next later]

def Steady (a b : Int) : Prop := a ≤ b ∧ (b / 2 ^ 32 = a / 2 ^ 32 ∨ b - a < 2 ^ 31)

theorem Steady.drift_zero {a b : Int} (steady : Steady a b) : drift 0 a b = 0 := by
  obtain ⟨_,_⟩ := steady
  have noFall : ¬ FallsBack a b := by
    unfold FallsBack
    omega
  have noLeap : ¬ LeapsOver a b := by
    unfold LeapsOver
    omega
  simp [drift, noFall, noLeap]

theorem Steady.near {a b : Int} (steady : Steady a b) : Near a b := by
  obtain ⟨_,_⟩ := steady
  exact ⟨by omega,by omega⟩

theorem zipWith_drifts_steady {a : Int} (f : Int → Int → BitVec 64) (readings : List Int)
    (steady : (a :: readings).IsChain Steady) :
    List.zipWith f readings (drifts 0 a readings) = readings.map fun b => f b 0 := by
  induction readings generalizing a with
  | nil => rfl
  | cons b rest ih =>
    obtain ⟨first,later⟩ := List.isChain_cons_cons.mp steady
    rw [drifts, first.drift_zero, List.zipWith_cons_cons, ih later, List.map_cons]

theorem calls_steady (readings : List Int) (steady : (0 :: readings).IsChain Steady) :
    calls start (readings.map epitcnt) = readings.map (BitVec.ofInt 64) := by
  rw [calls_drift start_reads readings (steady.imp fun _ _ => Steady.near),
    zipWith_drifts_steady _ readings steady]
  simp

/-- What the EPIT does between calls: the count starts below 2^32, never decreases and grows
    by less than 2^31. -/
structure Counting (counts : List Nat) : Prop where
  first : ∀ c ∈ counts.head?, c < 2 ^ 32
  grows : counts.IsChain fun a b => a ≤ b ∧ b - a < 2 ^ 31

theorem Counting.steady {counts : List Nat} (counting : Counting counts) :
    ((0 : Int) :: counts.map (Nat.cast : Nat → Int)).IsChain Steady := by
  apply WrappingCounter.isChain_readings counting.grows
  · intro c head _
    have below := counting.first c head
    exact ⟨by omega,by omega⟩
  · rintro a _ b _ ⟨grown,little⟩
    exact ⟨by omega,by omega⟩

/-- Every call returns the count as long as it fits in 64 bits, so that the clock source
    never runs backwards. -/
theorem get_cycles_exact (counts : List Nat) (counting : Counting counts)
    (fits : ∀ c ∈ counts, c < 2 ^ 64) :
    (calls start (counts.map fun (c : Nat) => epitcnt c)).map BitVec.toNat = counts ∧
    (calls start (counts.map fun (c : Nat) => epitcnt c)).IsChain (· ≤ ·) := by
  have returned := calls_steady (counts.map Nat.cast) counting.steady
  rw [List.map_map, List.map_map] at returned
  have same : ∀ c ∈ counts, (BitVec.toNat ∘ BitVec.ofInt 64 ∘ Nat.cast) c = id c := by
    intro c member
    exact (congrArg BitVec.toNat (BitVec.ofInt_natCast 64 c)).trans
      (Nat.mod_eq_of_lt (fits c member))
  have exact : (calls start (counts.map (epitcnt ∘ Nat.cast))).map BitVec.toNat = counts := by
    rw [returned, List.map_map, List.map_congr_left same, List.map_id]
  refine ⟨exact,?_⟩
  apply List.isChain_of_isChain_map BitVec.toNat (fun _ _ le => le)
  rw [show (counts.map fun (c : Nat) => epitcnt c) = counts.map (epitcnt ∘ Nat.cast) from rfl,
    exact]
  exact counting.grows.imp fun _ _ grown => grown.1

theorem two_wraps_exact : (calls start ([4294967293, 6442450940, 8589934587, 8589934600].map
    fun (c : Nat) => epitcnt c)).map BitVec.toNat =
      [4294967293, 6442450940, 8589934587, 8589934600] := by
  refine (get_cycles_exact _ ⟨?_,?_⟩ ?_).1
  · simp
  · simp
  · simp

structure Call where
  count : Nat
  read : Int
  deriving DecidableEq, Repr

structure Glitching (run : List Call) : Prop where
  counting : Counting (run.map Call.count)
  behind : ∀ c ∈ run, c.read ≤ c.count ∧ c.count - c.read < 2 ^ 31

theorem Glitching.near {run : List Call} (glitching : Glitching run) :
    ((0 : Int) :: run.map Call.read).IsChain Near := by
  obtain ⟨⟨first,grows⟩,behind⟩ := glitching
  rw [List.isChain_map] at grows
  apply WrappingCounter.isChain_readings grows
  · intro c head member
    have below := first c.count (by simpa using ⟨c,head,rfl⟩)
    have late := behind c member
    exact ⟨by omega,by omega⟩
  · rintro a ha b hb ⟨grown,little⟩
    have := behind a ha
    have := behind b hb
    exact ⟨by omega,by omega⟩

theorem exact_iff_drift (count : Nat) (d : Int) :
    BitVec.ofInt 64 (count + 2 ^ 32 * d) = BitVec.ofNat 64 count ↔ 2 ^ 32 ∣ d := by
  rw [← BitVec.toNat_inj, BitVec.toNat_ofInt, BitVec.toNat_ofNat]
  omega

theorem zip_zipWith {α β γ : Type} (f : α → β → γ) (as : List α) (bs : List β) :
    as.zip (List.zipWith f as bs) = (as.zip bs).map fun p => (p.1, f p.1 p.2) := by
  induction as generalizing bs with
  | nil => rfl
  | cons a as ih =>
    cases bs with
    | nil => rfl
    | cons b bs => exact congrArg ((a, f a b) :: ·) (ih bs)

/-- Exact readings return the count exactly when, up to each of them, as many readings fell
    back across a wrap as leapt over one (modulo 2^32). -/
theorem exact_again_iff (run : List Call) (glitching : Glitching run) :
    (∀ p ∈ run.zip (calls start (run.map fun c => epitcnt c.read)),
      p.1.read = p.1.count → p.2 = BitVec.ofNat 64 p.1.count) ↔
    ∀ p ∈ run.zip (drifts 0 0 (run.map Call.read)), p.1.read = p.1.count → 2 ^ 32 ∣ p.2 := by
  have returned := calls_drift start_reads (run.map Call.read) glitching.near
  rw [List.map_map, List.zipWith_map_left] at returned
  have paired : run.zip (calls start (run.map fun c => epitcnt c.read)) =
      (run.zip (drifts 0 0 (run.map Call.read))).map
        fun p => (p.1, BitVec.ofInt 64 (p.1.read + 2 ^ 32 * p.2)) := by
    rw [show (run.map fun c => epitcnt c.read) = run.map (epitcnt ∘ Call.read) from rfl, returned]
    exact zip_zipWith _ run _
  rw [paired, List.forall_mem_map]
  constructor
  · intro exact p member same
    have := exact p member same
    rw [same] at this
    exact (exact_iff_drift _ _).mp this
  · intro level p member same
    rw [same]
    exact (exact_iff_drift _ _).mpr (level p member same)

/-- The third call reads the count of the first, and the wrap that the second one saw is
    counted again by the fourth. -/
def straddle : List Call :=
  [⟨4294967293,4294967293⟩, ⟨4294967301,4294967301⟩, ⟨4294967302,4294967293⟩,
    ⟨4294967306,4294967306⟩]

theorem wrap_counted_twice : Glitching straddle ∧
    (calls start (straddle.map fun c => epitcnt c.read)).map BitVec.toNat =
      [4294967293, 4294967301, 8589934589, 8589934602] ∧
    ¬ ∀ p ∈ straddle.zip (calls start (straddle.map fun c => epitcnt c.read)),
      p.1.read = p.1.count → p.2 = BitVec.ofNat 64 p.1.count := by
  refine ⟨⟨⟨?_,?_⟩,?_⟩,?_,?_⟩
  · simp [straddle]
  · simp [straddle]
  · simp [straddle]
  · decide
  · decide

def withinPeriod : List Call :=
  [⟨2147483650,2147483650⟩, ⟨2147483660,13⟩, ⟨2147483670,2147483670⟩]

theorem fall_within_period : Glitching withinPeriod ∧
    ∀ p ∈ withinPeriod.zip (calls start (withinPeriod.map fun c => epitcnt c.read)),
      p.1.read = p.1.count → p.2 = BitVec.ofNat 64 p.1.count := by
  have glitching : Glitching withinPeriod := by
    refine ⟨⟨?_,?_⟩,?_⟩
    · simp [withinPeriod]
    · simp [withinPeriod]
    · simp [withinPeriod]
  refine ⟨glitching,(exact_again_iff withinPeriod glitching).mpr ?_⟩
  decide

structure Clocksource where
  mult : Nat
  shift : Nat
  deriving DecidableEq, Repr

/-- The loop of mxc_epit_init over div; `fuel` bounds its rounds. -/
def findDiv (rate : Nat) : Nat → Nat → Nat
  | 0, div => div
  | fuel + 1, div => if rate / div > 20000000 then findDiv rate fuel (div + 1) else div

def clocksourceHz2mult (hz shift : Nat) : Nat :=
  let tmp := 1000000000 <<< shift % 2 ^ 64
  let tmp := (tmp + hz / 2) % 2 ^ 64
  tmp / hz % 2 ^ 32

def mxcEpitInit (rate : Nat) : Clocksource :=
  { mult := clocksourceHz2mult (rate / findDiv rate rate 1) 18, shift := 18 }

def cyc2ns (cs : Clocksource) (cycles : Nat) : Nat := (cycles * cs.mult % 2 ^ 64) >>> cs.shift

/-- sched_clock at the count `cycles`; 0 before there is a clock source. -/
def mxcEpitSchedClock (clksrc : Option Clocksource) (cycles : Nat) : Nat :=
  match clksrc with
  | none => 0
  | some cs => cyc2ns cs cycles

theorem findDiv_smallest (rate fuel div : Nat) (positive : 0 < div) (enough : rate < fuel + div)
    (larger : ∀ d, 0 < d → d < div → rate / d > 20000000) :
    rate / findDiv rate fuel div ≤ 20000000 ∧
    ∀ d, 0 < d → d < findDiv rate fuel div → rate / d > 20000000 := by
  induction fuel generalizing div with
  | zero =>
    rw [findDiv, Nat.div_eq_of_lt (by omega)]
    exact ⟨by decide,larger⟩
  | succ fuel ih =>
    rw [findDiv]
    split
    · rename_i still
      refine ih (div + 1) (by omega) (by omega) ?_
      intro d above below
      rcases Nat.lt_succ_iff_lt_or_eq.mp below with before | rfl
      · exact larger d above before
      · exact still
    · rename_i slow
      exact ⟨by omega,larger⟩

theorem mxcEpitInit_div (rate : Nat) : rate / findDiv rate rate 1 ≤ 20000000 ∧
    ∀ d, 0 < d → d < findDiv rate rate 1 → rate / d > 20000000 :=
  findDiv_smallest rate rate 1 (by decide) (by omega) (by omega)

theorem mxcEpitInit_mult (rate : Nat) : (mxcEpitInit rate).mult < 2 ^ 32 :=
  Nat.mod_lt _ (by decide)

theorem cyc2ns_monotone {cs : Clocksource} {c d : Nat} (le : c ≤ d) (fits : d * cs.mult < 2 ^ 64) :
    cyc2ns cs c ≤ cyc2ns cs d := by
  have product : c * cs.mult ≤ d * cs.mult := Nat.mul_le_mul_right _ le
  unfold cyc2ns
  rw [Nat.mod_eq_of_lt fits, Nat.mod_eq_of_lt (by omega), Nat.shiftRight_eq_div_pow,
    Nat.shiftRight_eq_div_pow]
  exact Nat.div_le_div_right product

theorem cyc2ns_wraps {cs : Clocksource} {c : Nat} (small : cs.mult < 2 ^ 32) (shift : cs.shift = 18)
    (before : c * cs.mult < 2 ^ 64) (after : 2 ^ 64 ≤ (c + 1) * cs.mult) :
    cyc2ns cs (c + 1) < cyc2ns cs c := by
  rw [Nat.add_mul, Nat.one_mul] at after
  have low : (c + 1) * cs.mult % 2 ^ 64 = c * cs.mult + cs.mult - 2 ^ 64 := by
    rw [Nat.add_mul, Nat.one_mul]
    omega
  unfold cyc2ns
  rw [low, Nat.mod_eq_of_lt before, shift, Nat.shiftRight_eq_div_pow, Nat.shiftRight_eq_div_pow]
  omega

theorem sched_clock_monotone_iff (rate last : Nat) :
    (∀ c d, c ≤ d → d ≤ last → mxcEpitSchedClock (some (mxcEpitInit rate)) c ≤
      mxcEpitSchedClock (some (mxcEpitInit rate)) d) ↔
    last * (mxcEpitInit rate).mult < 2 ^ 64 := by
  constructor
  · intro monotone
    by_contra wraps
    -- The least count that wraps, and the one before it.
    have some : ∃ c, 2 ^ 64 ≤ c * (mxcEpitInit rate).mult := ⟨last,by omega⟩
    obtain ⟨c,found⟩ : ∃ c, Nat.find some = c + 1 := by
      refine Nat.exists_eq_succ_of_ne_zero ?_
      intro zero
      have := Nat.find_spec some
      rw [zero] at this
      omega
    have after := Nat.find_spec some
    have before : c * (mxcEpitInit rate).mult < 2 ^ 64 := by
      have := Nat.find_min some (show c < Nat.find some by omega)
      omega
    have early : Nat.find some ≤ last := Nat.find_min' some (by omega)
    rw [found] at after early
    have falls := cyc2ns_wraps (mxcEpitInit_mult rate) rfl before after
    have rises := monotone c (c + 1) (by omega) early
    exact absurd rises (by simp only [mxcEpitSchedClock]; omega)
  · intro fits c d le upTo
    have product : d * (mxcEpitInit rate).mult ≤ last * (mxcEpitInit rate).mult :=
      Nat.mul_le_mul_right _ upTo
    exact cyc2ns_monotone le (by omega)

/-- At 20 MHz sched_clock starts over after 19.5 hours. -/
theorem sched_clock_starts_over :
    mxcEpitSchedClock (some (mxcEpitInit 20000000)) 1407374883553 = 70368744177650 ∧
    mxcEpitSchedClock (some (mxcEpitInit 20000000)) 1407374883554 = 36 ∧
    ¬ ∀ rate > 0, ∀ c d, c ≤ d → d < 2 ^ 64 → mxcEpitSchedClock (some (mxcEpitInit rate)) c ≤
      mxcEpitSchedClock (some (mxcEpitInit rate)) d := by
  have before : mxcEpitSchedClock (some (mxcEpitInit 20000000)) 1407374883553 = 70368744177650 := by
    decide
  have after : mxcEpitSchedClock (some (mxcEpitInit 20000000)) 1407374883554 = 36 := by decide
  refine ⟨before,after,?_⟩
  intro monotone
  have rises := monotone 20000000 (by decide) 1407374883553 1407374883554 (by decide) (by decide)
  omega

end Epit
