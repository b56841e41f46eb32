import SqueezeOS.WrappingCounter

/- sched_clock of the i.MX35, from the count of the general purpose timer, whose low 32 bits are
   all there is to read. -/
namespace SchedClock
open WrappingCounter

/-- What mxc_init_time leaves for sched_clock. -/
structure Timer where
  clocksourceInitialised : Bool
  nsecsPerClock : BitVec 64
  deriving DecidableEq, Repr

def nsecsPerClock (rate : Nat) : Nat := 1000 * 1000 * 1000 / rate

def mxcInitTime (rate : Nat) : Timer :=
  { clocksourceInitialised := true, nsecsPerClock := BitVec.ofNat 64 (nsecsPerClock rate) }

structure Clock where
  prevCycles32 : BitVec 32
  upper64 : BitVec 64
  deriving DecidableEq, Repr

def start : Clock := { prevCycles32 := 0, upper64 := 0 }

def schedClock (timer : Timer) (cycles32 : BitVec 32) (s : Clock) : BitVec 64 × Clock :=
  if timer.clocksourceInitialised then
    let upper64 := if cycles32 < s.prevCycles32 then
        if s.prevCycles32 - cycles32 > 1 <<< 16 then s.upper64 + 1 <<< 32 else s.upper64
      else s.upper64
    let cycles := upper64 ||| cycles32.setWidth 64
    (cycles * timer.nsecsPerClock, { prevCycles32 := cycles32, upper64 := upper64 })
  else (0, s)

structure Call where
  count : Nat
  read : Int
  deriving DecidableEq, Repr

def exact (count : Nat) : Call := { count := count, read := count }

def mxcGptRead (c : Call) : BitVec 32 := BitVec.ofInt 32 c.read

def after (rate : Nat) (before : List Call) : Clock :=
  before.foldl (fun s c => (schedClock (mxcInitTime rate) (mxcGptRead c) s).2) start

def called (rate : Nat) (before : List Call) (c : Call) : BitVec 64 × Clock :=
  schedClock (mxcInitTime rate) (mxcGptRead c) (after rate before)

structure Ticking (most : Nat) (counts : List Nat) : Prop where
  first : ∀ c ∈ counts.head?, c < 2 ^ 32
  grows : counts.IsChain fun a b => a ≤ b ∧ b - a < 2 ^ 32 - most

def fell (a b : Int) : Nat := if FallsBack a b then 1 else 0

/-- How many of the readings fall back, `a` being the one before them. -/
def falls (a : Int) : List Int → Nat
  | [] => 0
  | b :: rest => fell a b + falls b rest

def Close (a b : Int) : Prop := Near (2 ^ 16) a b ∧ ¬ LeapsOver (2 ^ 16) a b

def Tracks (s : Clock) (a e : Int) : Prop := Reads s.prevCycles32 s.upper64 a e

theorem start_tracks : Tracks start 0 0 := ⟨rfl,rfl⟩

section
variable {s : Clock} {a b e : Int}

theorem Close.drift (close : Close a b) (e : Int) :
    drift (2 ^ 16) e a b = e + fell a b := by
  unfold WrappingCounter.drift fell
  rw [if_neg close.2, Int.sub_zero]
  split <;> rfl

theorem upper_eq (timer : Timer) (cycles32 : BitVec 32) (s : Clock)
    (ready : timer.clocksourceInitialised = true) :
    schedClock timer cycles32 s =
      let upper64 := if wrapped (2 ^ 16) s.prevCycles32 cycles32 then s.upper64 + 1 <<< 32
        else s.upper64
      ((upper64 ||| cycles32.setWidth 64) * timer.nsecsPerClock,
        { prevCycles32 := cycles32, upper64 := upper64 }) := by
  have limit : (s.prevCycles32 - cycles32 > 1 <<< 16) ↔
      2 ^ 16 < (s.prevCycles32 - cycles32).toNat := Iff.rfl
  rw [schedClock, if_pos ready]
  unfold wrapped
  by_cases below : cycles32 < s.prevCycles32
  · simp only [below, if_true, limit, decide_true, Bool.true_and, decide_eq_true_eq]
  · simp only [below, if_false, decide_false, Bool.false_and, Bool.false_eq_true]

theorem schedClock_tracks (rate : Nat) (tracks : Tracks s a e) (c : Call) (close : Close a c.read) :
    (schedClock (mxcInitTime rate) (mxcGptRead c) s).1 =
      BitVec.ofInt 64 (c.read + 2 ^ 32 * (e + fell a c.read)) *
        BitVec.ofNat 64 (nsecsPerClock rate) ∧
    Tracks (schedClock (mxcInitTime rate) (mxcGptRead c) s).2 c.read
      (e + fell a c.read) := by
  have next := Reads.next tracks close.1 (by decide)
  rw [close.drift] at next
  rw [upper_eq _ _ _ rfl]
  exact ⟨congrArg (· * _) next.count,next⟩

def lastRead (a : Int) (reads : List Int) : Int := reads.getLast?.getD a

theorem isChain_snoc {R : Int → Int → Prop} {reads : List Int} :
    (a :: (reads ++ [b])).IsChain R ↔ (a :: reads).IsChain R ∧ R (lastRead a reads) b := by
  rw [← List.cons_append, List.isChain_append]
  simp [List.getLast?_cons, lastRead]

theorem lastRead_cons (reads : List Int) : lastRead a (b :: reads) = lastRead b reads := by
  simp [lastRead, List.getLast?_cons]

theorem falls_append (reads later : List Int) :
    falls a (reads ++ later) = falls a reads + falls (lastRead a reads) later := by
  induction reads generalizing a with
  | nil => simp [falls, lastRead]
  | cons b reads ih => rw [List.cons_append, falls, ih, lastRead_cons, falls, Nat.add_assoc]

theorem fold_tracks (rate : Nat) (run : List Call) (tracks : Tracks s a e)
    (close : (a :: run.map Call.read).IsChain Close) :
    Tracks (run.foldl (fun s c => (schedClock (mxcInitTime rate) (mxcGptRead c) s).2) s)
      (lastRead a (run.map Call.read)) (e + falls a (run.map Call.read)) := by
  induction run generalizing s a e with
  | nil =>
    have same := tracks
    rw [← Int.add_zero e] at same
    exact same
  | cons c run ih =>
    obtain ⟨first,later⟩ := List.isChain_cons_cons.mp close
    have next := ih (schedClock_tracks rate tracks c first).2 later
    rw [List.map_cons, falls, lastRead_cons, List.foldl_cons]
    rw [Int.add_assoc] at next
    exact_mod_cast next

variable {before : List Call} {c : Call}

theorem after_tracks (rate : Nat) (close : (0 :: before.map Call.read).IsChain Close) :
    Tracks (after rate before) (lastRead 0 (before.map Call.read))
      (falls 0 (before.map Call.read)) := by
  have tracks := fold_tracks rate before start_tracks close
  rwa [Int.zero_add] at tracks

theorem called_returns (rate : Nat) (close : (0 :: (before ++ [c]).map Call.read).IsChain Close) :
    (called rate before c).1 =
      BitVec.ofInt 64 (c.read + 2 ^ 32 * falls 0 ((before ++ [c]).map Call.read)) *
        BitVec.ofNat 64 (nsecsPerClock rate) := by
  rw [List.map_append, List.map_singleton] at close ⊢
  obtain ⟨earlier,last⟩ := isChain_snoc.mp close
  have tracks := after_tracks rate earlier
  rw [called, (schedClock_tracks rate tracks c last).1, falls_append, falls, falls,
    Nat.add_zero, Int.natCast_add]

theorem falls_steady {reads : List Int} (steady : (a :: reads).IsChain (· ≤ ·)) :
    falls a reads = 0 := by
  induction reads generalizing a with
  | nil => rfl
  | cons b reads ih =>
    obtain ⟨first,later⟩ := List.isChain_cons_cons.mp steady
    have still : ¬ FallsBack a b := by
      unfold FallsBack
      omega
    rw [falls, ih later, fell, if_neg still]

end

def clockAt (rate : Nat) (before : List Nat) (count : Nat) : BitVec 64 :=
  (called rate (before.map exact) (exact count)).1

section
variable {counts : List Nat}

theorem Ticking.steady {most : Nat} (ticking : Ticking most counts) :
    ((0 : Int) :: counts.map (Nat.cast : Nat → Int)).IsChain (· ≤ ·) := by
  apply isChain_readings ticking.grows
  · intro c _ _
    exact Int.natCast_nonneg c
  · intro a _ b _ grown
    exact_mod_cast grown.1

theorem Ticking.close (ticking : Ticking (2 ^ 16) counts) :
    ((0 : Int) :: counts.map (Nat.cast : Nat → Int)).IsChain Close := by
  unfold Close Near LeapsOver
  apply isChain_readings ticking.grows
  · intro c head _
    have below := ticking.first c head
    omega
  · intro a _ b _ grown
    omega

variable {before rest : List Nat} {c : Nat}

theorem chain_upTo {R : Int → Int → Prop} (split : counts = before ++ c :: rest)
    (chain : ((0 : Int) :: counts.map (Nat.cast : Nat → Int)).IsChain R) :
    ((0 : Int) :: ((before.map exact ++ [exact c]).map Call.read)).IsChain R := by
  rw [split, List.append_cons, List.map_append, ← List.cons_append] at chain
  have first := chain.left_of_append
  simpa [Function.comp_def, exact] using first

theorem clockAt_exact (rate : Nat) (ticking : Ticking (2 ^ 16) counts) (split : counts = before ++ c :: rest) :
    clockAt rate before c = BitVec.ofNat 64 (c * nsecsPerClock rate) := by
  have returned := called_returns rate (chain_upTo split ticking.close)
  rw [falls_steady (chain_upTo split ticking.steady)] at returned
  rw [clockAt, returned, BitVec.ofNat_mul]
  simp [exact]

theorem Ticking.le {most : Nat} {between : List Nat} {d : Nat} (ticking : Ticking most counts)
    (split : counts = before ++ c :: between ++ d :: rest) : c ≤ d := by
  have sorted := (ticking.grows.imp fun _ _ grown => grown.1).pairwise
  rw [split, List.pairwise_append] at sorted
  exact sorted.2.2 c (by simp) d (by simp)

end

/-- Every call returns the count in ns, modulo 2^64, and none returns less than one before it as
    long as its count in ns fits in 64 bits. -/
theorem sched_clock_exact (rate : Nat) (counts : List Nat) (ticking : Ticking (2 ^ 16) counts) :
    (∀ before c rest, counts = before ++ c :: rest →
      (clockAt rate before c).toNat = c * nsecsPerClock rate % 2 ^ 64) ∧
    ∀ before c between d rest, counts = before ++ c :: between ++ d :: rest →
      d * nsecsPerClock rate < 2 ^ 64 →
      (clockAt rate before c).toNat ≤ (clockAt rate (before ++ c :: between) d).toNat := by
  have returned : ∀ before c rest, counts = before ++ c :: rest →
      (clockAt rate before c).toNat = c * nsecsPerClock rate % 2 ^ 64 := by
    intro before c rest split
    rw [clockAt_exact rate ticking split, BitVec.toNat_ofNat]
  refine ⟨returned,?_⟩
  intro before c between d rest split fits
  have product : c * nsecsPerClock rate ≤ d * nsecsPerClock rate :=
    Nat.mul_le_mul_right _ (ticking.le split)
  rw [returned before c (between ++ d :: rest) (by simpa using split),
    returned (before ++ c :: between) d rest split, Nat.mod_eq_of_lt fits,
    Nat.mod_eq_of_lt (Nat.lt_of_le_of_lt product fits)]
  exact product

theorem longest_step_exact :
    (clockAt 1000000 [4294967290] 8589869049).toNat = 8589869049000 := by
  have ticking : Ticking (2 ^ 16) [4294967290, 8589869049] := by
    constructor
    · simp
    · simp
  exact (sched_clock_exact 1000000 _ ticking).1 [4294967290] 8589869049 [] rfl

structure Behind (run : List Call) : Prop where
  ticking : Ticking (2 ^ 17) (run.map Call.count)
  late : ∀ c ∈ run, c.read ≤ c.count ∧ c.count - c.read ≤ 2 ^ 16

def Passes (before : List Call) (c : Call) : Prop :=
  lastRead 0 (before.map Call.read) / 2 ^ 32 < c.read / 2 ^ 32

/-- Exact readings return the count in ns, and readings that are behind it do not change
    upper64. -/
def Ignores (rate : Nat) (run : List Call) : Prop :=
  ∀ before c rest, run = before ++ c :: rest →
    (c.read = c.count →
      (called rate before c).1 = BitVec.ofNat 64 (c.count * nsecsPerClock rate)) ∧
    (c.read < c.count → (called rate before c).2.upper64 = (after rate before).upper64)

def Level (rate : Nat) (run : List Call) : Prop :=
  ∀ before c rest, run = before ++ c :: rest → c.read = c.count →
    2 ^ 32 ∣ falls 0 ((before ++ [c]).map Call.read) * nsecsPerClock rate

def FoundOnTime (run : List Call) : Prop :=
  ∀ before c rest, run = before ++ c :: rest → c.read < c.count → ¬Passes before c

theorem Behind.close {run : List Call} (behind : Behind run) :
    ((0 : Int) :: run.map Call.read).IsChain Close := by
  obtain ⟨⟨first,grows⟩,late⟩ := behind
  unfold Close Near LeapsOver
  rw [List.isChain_map] at grows
  apply isChain_readings grows
  · intro c head member
    have below := first c.count (by simpa using ⟨c,head,rfl⟩)
    have little := late c member
    omega
  · intro a ha b hb grown
    have one := late a ha
    have two := late b hb
    omega

theorem off_by_wraps (count wraps n : Nat) :
    BitVec.ofInt 64 (count + 2 ^ 32 * wraps) * BitVec.ofNat 64 n = BitVec.ofNat 64 (count * n) ↔
      2 ^ 32 ∣ wraps * n := by
  have cast : (count : Int) + 2 ^ 32 * wraps = (count + 2 ^ 32 * wraps : Nat) := rfl
  have product : (count + 2 ^ 32 * wraps) * n = count * n + 2 ^ 32 * (wraps * n) := by
    rw [Nat.add_mul, Nat.mul_assoc]
  rw [cast, BitVec.ofInt_natCast, ← BitVec.ofNat_mul, product, ← BitVec.toNat_inj,
    BitVec.toNat_ofNat, BitVec.toNat_ofNat]
  omega

section
variable {run before rest : List Call} {c : Call}

theorem Behind.upTo (behind : Behind run) (split : run = before ++ c :: rest) :
    (0 :: (before ++ [c]).map Call.read).IsChain Close := by
  have close := behind.close
  rw [split, List.append_cons, List.map_append, ← List.cons_append] at close
  exact close.left_of_append

theorem exact_iff (rate : Nat) (behind : Behind run) (split : run = before ++ c :: rest)
    (here : c.read = c.count) :
    (called rate before c).1 = BitVec.ofNat 64 (c.count * nsecsPerClock rate) ↔
      2 ^ 32 ∣ falls 0 ((before ++ [c]).map Call.read) * nsecsPerClock rate := by
  rw [called_returns rate (behind.upTo split), here]
  exact off_by_wraps _ _ _

theorem kept_iff (rate : Nat) (behind : Behind run) (split : run = before ++ c :: rest) :
    (called rate before c).2.upper64 = (after rate before).upper64 ↔ ¬Passes before c := by
  have close := behind.upTo split
  rw [List.map_append, List.map_singleton] at close
  obtain ⟨earlier,last⟩ := isChain_snoc.mp close
  have tracks := after_tracks rate earlier
  have detected := wrapped_iff last.1 (by decide)
  have passed : wrapped (2 ^ 16) (after rate before).prevCycles32 (mxcGptRead c) = true ↔
      Passes before c := by
    rw [tracks.prev, mxcGptRead, detected]
    have leap := last.2
    unfold LeapsOver at leap
    unfold Passes
    omega
  have more : (after rate before).upper64 + 1 <<< 32 ≠ (after rate before).upper64 := by
    intro same
    exact absurd (BitVec.add_right_eq_self.mp same) (by decide)
  rw [called, upper_eq _ _ _ rfl, ← passed]
  by_cases wrap : wrapped (2 ^ 16) (after rate before).prevCycles32 (mxcGptRead c) = true
  · simp only [wrap, if_true, not_true_eq_false, iff_false]
    exact more
  · simp only [wrap, if_false, not_false_eq_true, Bool.false_eq_true]

end

theorem level_of_no_falls (rate : Nat) (run : List Call) (none : falls 0 (run.map Call.read) = 0) :
    Level rate run := by
  intro before c rest split _
  rw [split, List.append_cons, List.map_append, falls_append] at none
  rw [Nat.eq_zero_of_add_eq_zero_right none, Nat.zero_mul]
  exact Nat.dvd_zero _

theorem foundOnTime_of_period (run : List Call)
    (period : ∀ c ∈ run, 0 ≤ c.read ∧ c.read < 2 ^ 32) : FoundOnTime run := by
  intro before c rest split _
  have now := period c (by simp [split])
  have last : 0 ≤ lastRead 0 (before.map Call.read) := by
    unfold lastRead
    cases found : (before.map Call.read).getLast? with
    | none => exact Int.le_refl 0
    | some x =>
      obtain ⟨b,member,rfl⟩ := List.mem_map.mp (List.mem_of_getLast? found)
      exact (period b (by simp [split, member])).1
  unfold Passes
  omega

theorem sched_clock_ignores (rate : Nat) (run : List Call) (behind : Behind run) :
    Ignores rate run ↔ Level rate run ∧ FoundOnTime run := by
  constructor
  · intro ignores
    refine ⟨?_,?_⟩
    · intro before c rest split here
      exact (exact_iff rate behind split here).mp ((ignores before c rest split).1 here)
    · intro before c rest split late
      exact (kept_iff rate behind split).mp ((ignores before c rest split).2 late)
  · rintro ⟨level,found⟩ before c rest split
    refine ⟨?_,?_⟩
    · intro here
      exact (exact_iff rate behind split here).mpr (level before c rest split here)
    · intro late
      exact (kept_iff rate behind split).mpr (found before c rest split late)

def lateInPeriod : List Call := [⟨100000,100000⟩, ⟨100010,40000⟩, ⟨100020,100020⟩]

theorem lateInPeriod_ignored : Ignores 1000000 lateInPeriod := by
  have behind : Behind lateInPeriod := by
    refine ⟨⟨?_,?_⟩,?_⟩
    all_goals simp [lateInPeriod]
  have level := level_of_no_falls 1000000 lateInPeriod (by decide)
  have found := foundOnTime_of_period lateInPeriod (by simp [lateInPeriod])
  exact (sched_clock_ignores 1000000 lateInPeriod behind).mpr ⟨level,found⟩

/-- The count has wrapped, a reading is behind the wrap, and the wrap is counted again. -/
def lateAcrossWrap : List Call :=
  [⟨4294967293,4294967293⟩, ⟨4294967301,4294967301⟩, ⟨4294967302,4294967293⟩,
    ⟨4294967306,4294967306⟩]

theorem lateAcrossWrap_counted_twice :
    Behind lateAcrossWrap ∧ ¬Ignores 1000000 lateAcrossWrap := by
  constructor
  · refine ⟨⟨?_,?_⟩,?_⟩
    all_goals simp [lateAcrossWrap]
  · intro ignores
    have last := (ignores (lateAcrossWrap.take 3) ⟨4294967306,4294967306⟩ [] rfl).1 rfl
    exact absurd last (by decide)

end SchedClock
