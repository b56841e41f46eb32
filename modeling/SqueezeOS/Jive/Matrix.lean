import SqueezeOS.StepRuns
import Mathlib.Logic.Function.Basic

/- The key matrix of the Jive: an interrupt starts the scans, a scan that finds a key down
   asks for the next one, and a key counts as down after three samples in a row. -/
namespace JiveMatrix
open StepRuns

inductive Key where
  | nextSong | previousSong | playPause | play | kpPlus | volumeUp | home | left | volumeDown
  deriving DecidableEq, Repr

/-- The key at each bit of a sample; `none` is KEY_UNKNOWN. -/
def keymap : List (Option Key) :=
  [none, some .nextSong, some .previousSong, some .playPause,
    none, some .play, some .kpPlus, some .volumeUp,
    some .home, none, some .left, some .volumeDown]

structure Pins where
  gpf3 : Bool
  gpf4 : Bool
  gpf5 : Bool
  gpf6 : Bool
  deriving DecidableEq, Repr

/-- The home key is inverted. -/
def matrixReadGpio (pins : Pins) : BitVec 32 :=
  (if pins.gpf3 then 0 else 1 <<< 0) ||| (if pins.gpf4 then 1 <<< 1 else 0) |||
    (if pins.gpf5 then 1 <<< 2 else 0) ||| (if pins.gpf6 then 1 <<< 3 else 0)

/-- `lines` says that GPF3 to GPF6 raise interrupts, and `timer` that matrix_timer is armed.
    `events` holds what input_report_key was given, the latest first, and `samples` what
    the scans have read: it is not in the driver. -/
structure Matrix where
  lastState : BitVec 32
  state : Fin 3 → BitVec 32
  index : Fin 3
  timer : Bool
  lines : Bool
  events : List (Key × Bool)
  samples : List (BitVec 32)

def matrixInit : Matrix :=
  { lastState := 0, state := fun _ => 0, index := 0, timer := false, lines := true, events := []
    samples := [] }

def sample (rows : Fin 3 → Pins) : BitVec 32 :=
  (List.ofFn rows).foldl (fun state pins => state <<< 4 ||| matrixReadGpio pins) 0

def nextIndex (index : Fin 3) : Fin 3 :=
  if h : index.val + 1 ≥ 3 then 0 else ⟨index.val + 1,by omega⟩

def debouncedState (state : Fin 3 → BitVec 32) : BitVec 32 :=
  (List.ofFn state).foldl (· &&& ·) 0xFFFFFFFF

def reportKey (lastState debounced : BitVec 32) (i : Nat) (key : Key) : List (Key × Bool) :=
  if debounced &&& 1 <<< i ≠ lastState &&& 1 <<< i then [(key, debounced &&& 1 <<< i > 0)] else []

def reportKeys (lastState debounced : BitVec 32) : List (Key × Bool) :=
  keymap.zipIdx.flatMap fun entry => match entry with
    | (none, _) => []
    | (some key, i) => reportKey lastState debounced i key

def matrixScan (rows : Fin 3 → Pins) (s : Matrix) : Matrix :=
  let index := nextIndex s.index
  let state := Function.update s.state index (sample rows)
  let debounced := debouncedState state
  let s := { s with index := index, state := state, samples := sample rows :: s.samples }
  let s := if s.lastState ≠ debounced then
      { s with events := (reportKeys s.lastState debounced).reverse ++ s.events
               lastState := debounced }
    else s
  if state index ≠ 0 then { s with timer := true } else { s with lines := true }

def matrixIrq (s : Matrix) : Matrix := { s with lines := false, timer := true }

inductive Action where
  | irq
  | scan (rows : Fin 3 → Pins)

def step (s : Matrix) : Action → Option Matrix
  | .irq => some (matrixIrq s)
  | .scan rows => if s.timer then some (matrixScan rows { s with timer := false }) else none

def eventsOf (key : Key) (s : Matrix) : List Bool :=
  (s.events.filter fun event => event.1 = key).map Prod.snd

def reportedDown (key : Key) (s : Matrix) : Bool := (eventsOf key s).headD false

/-- The samples of the last three scans, with 0 for scans there were not. -/
def lastThree (s : Matrix) : BitVec 32 :=
  s.samples.getD 0 0 &&& s.samples.getD 1 0 &&& s.samples.getD 2 0

structure Debounced (s : Matrix) : Prop where
  agreed : s.lastState = lastThree s
  alternate : ∀ key, (eventsOf key s).IsChain (· ≠ ·)
  pressed : ∀ key, (eventsOf key s).getLast? ≠ some false
  reported : ∀ key i, keymap[i]? = some (some key) → reportedDown key s = s.lastState.getLsbD i
  released : s.timer = false → ∀ key, reportedDown key s = false

/-- What every step keeps: slot `index - k` of the ring is the sample of `k` scans ago, and
    the scans stop only with last_state at 0. -/
structure Inv (s : Matrix) : Prop where
  ring : ∀ k : Fin 3, s.state (s.index - k) = s.samples.getD k 0
  agreed : s.lastState = debouncedState s.state
  alternate : ∀ key, (eventsOf key s).IsChain (· ≠ ·)
  pressed : ∀ key, (eventsOf key s).getLast? ≠ some false
  reported : ∀ key i, keymap[i]? = some (some key) → reportedDown key s = s.lastState.getLsbD i
  stopped : s.timer = false → s.lastState = 0

theorem matrixInit_inv : Inv matrixInit := by
  refine ⟨?_,by decide,fun _ => .nil,by simp [eventsOf, matrixInit],?_,fun _ => rfl⟩
  · intro k
    simp [matrixInit]
  · intro key i _
    simp [reportedDown, eventsOf, matrixInit]

theorem fin_three (k : Fin 3) : k = 0 ∨ k = 1 ∨ k = 2 := by
  revert k
  decide

theorem nextIndex_sub (index : Fin 3) :
    nextIndex index - 0 = nextIndex index ∧ nextIndex index - 1 = index - 0 ∧
    nextIndex index - 2 = index - 1 ∧ index - 0 ≠ nextIndex index ∧
    index - 1 ≠ nextIndex index := by
  revert index
  decide

theorem ring_scan {state : Fin 3 → BitVec 32} {index : Fin 3} {samples : List (BitVec 32)}
    (ring : ∀ k : Fin 3, state (index - k) = samples.getD k 0) (new : BitVec 32) (k : Fin 3) :
    Function.update state (nextIndex index) new (nextIndex index - k) =
      (new :: samples).getD k 0 := by
  obtain ⟨newest,first,second,other,another⟩ := nextIndex_sub index
  rcases fin_three k with rfl | rfl | rfl
  · rw [newest, Function.update_self]
    rfl
  · rw [first, Function.update_of_ne other]
    exact ring 0
  · rw [second, Function.update_of_ne another]
    exact ring 1

theorem debouncedState_ring (state : Fin 3 → BitVec 32) (index : Fin 3) :
    debouncedState state = state (index - 0) &&& state (index - 1) &&& state (index - 2) := by
  have all : debouncedState state = 0xFFFFFFFF &&& state 0 &&& state 1 &&& state 2 := rfl
  have ones : (0xFFFFFFFF : BitVec 32) = BitVec.allOnes 32 := rfl
  rw [all, ones, BitVec.allOnes_and]
  rcases fin_three index with rfl | rfl | rfl
  · change _ = state 0 &&& state 2 &&& state 1
    rw [BitVec.and_assoc, BitVec.and_assoc, BitVec.and_comm (state 1)]
  · change _ = state 1 &&& state 0 &&& state 2
    rw [BitVec.and_comm (state 0)]
  · change _ = state 2 &&& state 1 &&& state 0
    rw [BitVec.and_comm (state 0), BitVec.and_assoc, BitVec.and_assoc, BitVec.and_comm (state 0),
      ← BitVec.and_assoc, ← BitVec.and_assoc, BitVec.and_comm (state 1)]

def bit : Key → Nat
  | .nextSong => 1
  | .previousSong => 2
  | .playPause => 3
  | .play => 5
  | .kpPlus => 6
  | .volumeUp => 7
  | .home => 8
  | .left => 10
  | .volumeDown => 11

theorem keymap_bit {key : Key} {i : Nat} (mapped : keymap[i]? = some (some key)) : i = bit key := by
  have below : i < 12 := (List.getElem?_eq_some_iff.mp mapped).1
  cases key
  all_goals exact (by decide : ∀ i < 12, keymap[i]? = some (some _) → i = bit _) i below mapped

theorem bit_small (key : Key) : bit key < 32 := by
  cases key <;> decide

theorem mask_bit (x : BitVec 32) (i : Nat) :
    x &&& 1 <<< i = if x.getLsbD i then BitVec.twoPow 32 i else 0 :=
  BitVec.and_twoPow x i

theorem reportKey_eq {lastState debounced : BitVec 32} {i : Nat} (small : i < 32) (key : Key) :
    reportKey lastState debounced i key =
      if debounced.getLsbD i ≠ lastState.getLsbD i then [(key, debounced.getLsbD i)] else [] := by
  have positive : 0#32 < BitVec.twoPow 32 i := by
    rw [BitVec.lt_def, BitVec.toNat_twoPow,
      Nat.mod_eq_of_lt (Nat.pow_lt_pow_right (by decide) small)]
    exact Nat.two_pow_pos i
  have nonzero : 0#32 ≠ BitVec.twoPow 32 i := by
    intro zero
    rw [← zero] at positive
    exact absurd positive (by decide)
  unfold reportKey
  rw [mask_bit, mask_bit]
  cases debounced.getLsbD i <;> cases lastState.getLsbD i <;>
    simp [positive, nonzero, nonzero.symm]

theorem filter_reportKey (lastState debounced : BitVec 32) (i : Nat) (key other : Key) :
    (reportKey lastState debounced i other).filter (fun event => event.1 = key) =
      if other = key then reportKey lastState debounced i other else [] := by
  unfold reportKey
  split <;> split <;> simp_all

theorem reportKeys_key (lastState debounced : BitVec 32) (key : Key) :
    (reportKeys lastState debounced).filter (fun event => event.1 = key) =
      reportKey lastState debounced (bit key) key := by
  cases key <;> simp [reportKeys, keymap, List.filter_append, filter_reportKey, bit]

theorem eventsOf_scan (key : Key) (lastState debounced : BitVec 32) (events : List (Key × Bool)) :
    (((reportKeys lastState debounced).reverse ++ events).filter fun event => event.1 = key).map
      Prod.snd =
    (if debounced.getLsbD (bit key) ≠ lastState.getLsbD (bit key)
      then [debounced.getLsbD (bit key)] else []) ++
      (events.filter fun event => event.1 = key).map Prod.snd := by
  rw [List.filter_append, List.filter_reverse, reportKeys_key, reportKey_eq (bit_small key)]
  split <;> simp

theorem alternate_report {events : List Bool} {last new : Bool} (differs : new ≠ last)
    (told : events.headD false = last) (chain : events.IsChain (· ≠ ·))
    (pressed : events.getLast? ≠ some false) :
    (new :: events).IsChain (· ≠ ·) ∧ (new :: events).getLast? ≠ some false := by
  cases events with
  | nil =>
    refine ⟨.singleton new,?_⟩
    rw [List.headD_nil] at told
    rw [← told] at differs
    simpa using differs
  | cons first rest =>
    rw [List.headD_cons] at told
    refine ⟨.cons_cons (by rw [told]; exact differs) chain,?_⟩
    simpa using pressed

structure Scanned (rows : Fin 3 → Pins) (s t : Matrix) : Prop where
  index : t.index = nextIndex s.index
  state : t.state = Function.update s.state (nextIndex s.index) (sample rows)
  samples : t.samples = sample rows :: s.samples
  lastState : t.lastState = debouncedState t.state
  events : ∀ key, eventsOf key t =
    (if t.lastState.getLsbD (bit key) ≠ s.lastState.getLsbD (bit key)
      then [t.lastState.getLsbD (bit key)] else []) ++ eventsOf key s
  timer : t.timer = false → sample rows = 0

theorem matrixScan_scanned (rows : Fin 3 → Pins) (s : Matrix) :
    Scanned rows s (matrixScan rows s) := by
  simp only [matrixScan, Function.update_self]
  generalize debounced : debouncedState
    (Function.update s.state (nextIndex s.index) (sample rows)) = new
  by_cases changed : s.lastState ≠ new <;> by_cases found : sample rows ≠ 0
  all_goals simp only [changed, found, if_true, if_false, not_false_iff, ne_eq]
  · exact ⟨rfl,rfl,rfl,debounced.symm,fun key => eventsOf_scan key _ _ _,by simp⟩
  · refine ⟨rfl,rfl,rfl,debounced.symm,fun key => eventsOf_scan key _ _ _,fun _ => ?_⟩
    simpa using found
  · rw [not_not] at changed
    refine ⟨rfl,rfl,rfl,?_,?_,by simp⟩
    · rw [debounced]
      exact changed
    · intro key
      simp [eventsOf]
  · rw [not_not] at changed
    refine ⟨rfl,rfl,rfl,?_,?_,fun _ => by simpa using found⟩
    · rw [debounced]
      exact changed
    · intro key
      simp [eventsOf]

theorem Scanned.inv {rows : Fin 3 → Pins} {s t : Matrix} (scanned : Scanned rows s t)
    (ring : ∀ k : Fin 3, s.state (s.index - k) = s.samples.getD k 0)
    (alternate : ∀ key, (eventsOf key s).IsChain (· ≠ ·))
    (pressed : ∀ key, (eventsOf key s).getLast? ≠ some false)
    (reported : ∀ key i, keymap[i]? = some (some key) →
      reportedDown key s = s.lastState.getLsbD i) : Inv t := by
  have told : ∀ key, reportedDown key s = s.lastState.getLsbD (bit key) := by
    intro key
    apply reported
    cases key <;> rfl
  have kept : ∀ key, (eventsOf key t).IsChain (· ≠ ·) ∧ (eventsOf key t).getLast? ≠ some false ∧
      reportedDown key t = t.lastState.getLsbD (bit key) := by
    intro key
    unfold reportedDown
    rw [scanned.events key]
    split
    · rename_i differs
      obtain ⟨chain,first⟩ := alternate_report differs (told key) (alternate key) (pressed key)
      exact ⟨chain,first,rfl⟩
    · rename_i same
      rw [not_not] at same
      refine ⟨alternate key,pressed key,?_⟩
      rw [same]
      exact told key
  have newRing : ∀ k : Fin 3, t.state (t.index - k) = t.samples.getD k 0 := by
    rw [scanned.index, scanned.state, scanned.samples]
    exact ring_scan ring (sample rows)
  refine ⟨newRing,scanned.lastState,fun key => (kept key).1,fun key => (kept key).2.1,?_,?_⟩
  · intro key i mapped
    rw [keymap_bit mapped]
    exact (kept key).2.2
  · intro stopped
    have empty : t.state (t.index - 0) = 0 := by
      rw [newRing 0, scanned.samples]
      exact scanned.timer stopped
    rw [scanned.lastState, debouncedState_ring t.state t.index, empty, BitVec.and_assoc]
    exact BitVec.zero_and

theorem step_inv (s : Matrix) (a : Action) (t : Matrix) (inv : Inv s) (next : step s a = some t) :
    Inv t := by
  cases a with
  | irq =>
    cases Option.some.inj next
    exact ⟨inv.ring,inv.agreed,inv.alternate,inv.pressed,inv.reported,by simp [matrixIrq]⟩
  | scan rows =>
    rw [step] at next
    split at next
    · cases Option.some.inj next
      exact (matrixScan_scanned rows _).inv inv.ring inv.alternate inv.pressed inv.reported
    · contradiction

theorem inv_debounced (s : Matrix) (inv : Inv s) : Debounced s := by
  refine ⟨?_,inv.alternate,inv.pressed,inv.reported,?_⟩
  · rw [inv.agreed, debouncedState_ring s.state s.index, inv.ring, inv.ring, inv.ring]
    rfl
  · intro stopped key
    rw [inv.reported key (bit key) (by cases key <;> rfl), inv.stopped stopped]
    exact BitVec.getLsbD_zero

/-- In every run of interrupts and scans, last_state is what the last three samples agree on,
    the events of every key alternate and end with its bit, and every key is reported
    released while the timer is not armed. -/
theorem debounced_throughout {visited : List (Matrix × Action)} {t : Matrix}
    (run : Run step matrixInit visited t) : Throughout Debounced visited t := by
  obtain ⟨before,last⟩ := run.invariant matrixInit_inv step_inv
  exact ⟨fun p member => inv_debounced _ (before p member),inv_debounced _ last⟩

def noKey : Fin 3 → Pins := fun _ => ⟨true,false,false,false⟩

def homeKey : Fin 3 → Pins := fun row => ⟨row ≠ 0,false,false,false⟩

/-- A bounce stops the scans after one sample; the three samples of the next session start
    from a ring that still holds it. -/
theorem home_after_bounce : ∃ visited t, Run step matrixInit visited t ∧
    t.events = [(.home, false), (.home, true)] ∧ t.timer = false ∧
    Throughout Debounced visited t := by
  have run : Run step matrixInit _ _ := run_follow
    [.irq, .scan homeKey, .scan noKey, .irq, .scan homeKey, .scan homeKey, .scan homeKey,
      .scan noKey] rfl
  refine ⟨_,_,run,?_,rfl,debounced_throughout run⟩
  decide

end JiveMatrix
