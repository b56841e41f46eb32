import SqueezeOS.StepRuns
import Mathlib.Logic.Function.Basic

/- The semaphore check that watchdog-semaphore.patch adds to the watchdog, and the
   clients of sem_ping.c. Semaphores come in pairs: an even one that is 0 while its slot
   is taken, and its partner, which a client tops up and each check lowers. The set is
   open and no call on it fails but with EAGAIN. -/
namespace WatchdogSemaphore
open StepRuns

def numSems : Nat := 20

inductive Result where
  | enoerr
  /-- ENOCHANGE, with the semaphore that is named in the log. -/
  | enochange (semNum : Nat)
  deriving DecidableEq, Repr

/-- A semop of -1 with IPC_NOWAIT; nothing is EAGAIN. -/
def semopDown (sem : Nat → Nat) (semNum : Nat) : Option (Nat → Nat) :=
  if sem semNum = 0 then none else some (Function.update sem semNum (sem semNum - 1))

/-- The loop from `semNum` on: it steps by two in the loop header and by two more at the
    end of its body. -/
def checkLoop (semNum : Nat) (sem : Nat → Nat) : Result × (Nat → Nat) :=
  if semNum < numSems then
    if sem semNum = 0 then
      match semopDown sem (semNum + 1) with
      | none => (.enochange semNum, sem)
      | some lowered => checkLoop (semNum + 2 + 2) lowered
    else checkLoop (semNum + 2 + 2) sem
  else (.enoerr, sem)
termination_by numSems - semNum
decreasing_by all_goals omega

/-- `owner` holds the client of a slot while it lives, with its SEM_UNDO flag. -/
structure Watchdog where
  sem : Nat → Nat
  owner : Nat → Option Bool

def initial : Watchdog :=
  { sem := fun n => if n % 2 = 0 then 1 else 0, owner := fun _ => none }

def checkSemaphore (s : Watchdog) : Result × Watchdog :=
  ((checkLoop 0 s.sem).1, { s with sem := (checkLoop 0 s.sem).2 })

/-- The two operations of watchdog_sem_get, which succeed or fail together. -/
def semopRegister (slot : Nat) (undo : Bool) (s : Watchdog) : Option Watchdog :=
  (semopDown s.sem (2 * slot)).map fun taken =>
    { sem := Function.update taken (2 * slot + 1) (taken (2 * slot + 1) + 1)
      owner := Function.update s.owner slot (some undo) }

/-- Clients try one slot after the other; past the last semop gives EFBIG. -/
def watchdogSemGet (undo : Bool) (s : Watchdog) : Option (Nat × Watchdog) :=
  (List.range (numSems / 2)).findSome? fun slot =>
    (semopRegister slot undo s).map fun t => (slot, t)

def watchdogSemKeepalive (slot count : Nat) (s : Watchdog) : Watchdog :=
  { s with sem := Function.update s.sem (2 * slot + 1) count }

/-- The end of a client: the kernel undoes its decrement if it asked for that. -/
def exitClient (slot : Nat) (undo : Bool) (s : Watchdog) : Watchdog :=
  { sem := if undo then Function.update s.sem (2 * slot) (s.sem (2 * slot) + 1) else s.sem
    owner := Function.update s.owner slot none }

/-- A registration may get any free slot here, not only the first. -/
inductive Action where
  | register (slot : Nat) (undo : Bool)
  | keepalive (slot count : Nat)
  | exit (slot : Nat)
  | check
  deriving DecidableEq, Repr

def step (s : Watchdog) : Action → Option Watchdog
  | .register slot undo => if 2 * slot < numSems then semopRegister slot undo s else none
  | .keepalive slot count =>
      if (s.owner slot).isSome then some (watchdogSemKeepalive slot count s) else none
  | .exit slot => (s.owner slot).map fun undo => exitClient slot undo s
  | .check => some (checkSemaphore s).2

theorem watchdogSemGet_step {undo : Bool} {s t : Watchdog} {slot : Nat}
    (got : watchdogSemGet undo s = some (slot, t)) : step s (.register slot undo) = some t := by
  obtain ⟨k,member,found⟩ := List.exists_of_findSome?_eq_some got
  obtain ⟨u,registered,same⟩ := Option.map_eq_some_iff.mp found
  cases same
  have inside : 2 * slot < numSems := by
    have := List.mem_range.mp member
    omega
  rw [step, if_pos inside, registered]

def Active (s : Watchdog) (slot : Nat) : Prop := 2 * slot < numSems ∧ s.sem (2 * slot) = 0

instance (s : Watchdog) (slot : Nat) : Decidable (Active s slot) :=
  inferInstanceAs (Decidable (2 * slot < numSems ∧ s.sem (2 * slot) = 0))

def lowered (s : Watchdog) (n : Nat) : Nat :=
  if n % 2 = 1 ∧ Active s (n / 2) then s.sem n - 1 else s.sem n

/-- ENOERR means that every active client had time left, and took one unit of it. -/
def CheckSound (s : Watchdog) : Action → Prop
  | .check => (checkSemaphore s).1 = .enoerr →
      (∀ slot, Active s slot → 0 < s.sem (2 * slot + 1)) ∧ (checkSemaphore s).2.sem = lowered s
  | _ => True

def CheckAllowed (s : Watchdog) : Action → Prop
  | .check => (∀ slot, slot % 2 = 1 → ¬ Active s slot) ∨
      ∃ slot, slot % 2 = 0 ∧ Active s slot ∧ s.sem (2 * slot + 1) = 0
  | _ => True

def Visits (semNum n : Nat) : Prop := semNum ≤ n ∧ n < numSems ∧ (n - semNum) % 4 = 0

instance (semNum n : Nat) : Decidable (Visits semNum n) :=
  inferInstanceAs (Decidable (semNum ≤ n ∧ n < numSems ∧ (n - semNum) % 4 = 0))

theorem visits_here {semNum : Nat} (inside : semNum < numSems) : Visits semNum semNum :=
  ⟨Nat.le_refl _,inside,by simp⟩

theorem visits_split {semNum n : Nat} (visits : Visits semNum n) :
    n = semNum ∨ Visits (semNum + 2 + 2) n := by
  unfold Visits at *
  omega

theorem visits_later {semNum n : Nat} (visits : Visits (semNum + 2 + 2) n) : Visits semNum n := by
  unfold Visits at *
  omega

def LoopResult (semNum : Nat) (sem : Nat → Nat) (result : Result × (Nat → Nat)) : Prop :=
  ((∀ n, Visits semNum n → sem n = 0 → 0 < sem (n + 1)) ∧ result.1 = .enoerr ∧
    ∀ n, result.2 n =
      if 1 ≤ n ∧ Visits semNum (n - 1) ∧ sem (n - 1) = 0 then sem n - 1 else sem n) ∨
  ∃ n, Visits semNum n ∧ sem n = 0 ∧ sem (n + 1) = 0 ∧ result.1 = .enochange n

theorem loopResult_skip {semNum : Nat} {sem : Nat → Nat} {result : Result × (Nat → Nat)}
    (free : sem semNum ≠ 0) (rest : LoopResult (semNum + 2 + 2) sem result) :
    LoopResult semNum sem result := by
  rcases rest with ⟨positive,enoerr,values⟩ | ⟨n,visits,taken,spent,report⟩
  · left
    refine ⟨?_,enoerr,?_⟩
    · intro n visits taken
      rcases visits_split visits with rfl | later
      · contradiction
      · exact positive n later taken
    · intro n
      rw [values n]
      congr 1
      apply propext
      constructor
      · rintro ⟨low,later,taken⟩
        exact ⟨low,visits_later later,taken⟩
      · rintro ⟨low,visits,taken⟩
        rcases visits_split visits with here | later
        · rw [here] at taken
          contradiction
        · exact ⟨low,later,taken⟩
  · right
    exact ⟨n,visits_later visits,taken,spent,report⟩

theorem loopResult_lower {semNum : Nat} {sem : Nat → Nat} {result : Result × (Nat → Nat)}
    (inside : semNum < numSems) (taken : sem semNum = 0) (left : sem (semNum + 1) ≠ 0)
    (rest : LoopResult (semNum + 2 + 2)
      (Function.update sem (semNum + 1) (sem (semNum + 1) - 1)) result) :
    LoopResult semNum sem result := by
  have other : ∀ n, n ≠ semNum + 1 →
      Function.update sem (semNum + 1) (sem (semNum + 1) - 1) n = sem n :=
    fun n ne => Function.update_of_ne ne _ _
  have apart : ∀ n, Visits (semNum + 2 + 2) n → n ≠ semNum + 1 ∧ n + 1 ≠ semNum + 1 := by
    intro n later
    unfold Visits at later
    omega
  rcases rest with ⟨positive,enoerr,values⟩ | ⟨n,visits,zero,spent,report⟩
  · refine .inl ⟨?_,enoerr,?_⟩
    · intro n visits zero
      rcases visits_split visits with rfl | later
      · omega
      · have step := positive n later
        rw [other n (apart n later).1, other (n + 1) (apart n later).2] at step
        exact step zero
    · intro n
      rw [values n]
      by_cases here : n = semNum + 1
      · subst here
        have first : 1 ≤ semNum + 1 ∧ Visits semNum (semNum + 1 - 1) ∧ sem (semNum + 1 - 1) = 0 :=
          ⟨by omega,visits_here inside,taken⟩
        have never : ¬ Visits (semNum + 2 + 2) (semNum + 1 - 1) := by
          unfold Visits
          omega
        rw [if_pos first, if_neg (fun h => never h.2.1), Function.update_self]
      · rw [other n here]
        congr 1
        apply propext
        constructor
        · rintro ⟨low,later,zero⟩
          rw [other _ (apart _ later).1] at zero
          exact ⟨low,visits_later later,zero⟩
        · rintro ⟨low,visits,zero⟩
          rcases visits_split visits with same | later
          · omega
          · refine ⟨low,later,?_⟩
            rw [other _ (apart _ later).1]
            exact zero
  · rw [other n (apart n visits).1] at zero
    rw [other (n + 1) (apart n visits).2] at spent
    exact .inr ⟨n,visits_later visits,zero,spent,report⟩

theorem checkLoop_result (semNum : Nat) (sem : Nat → Nat) :
    LoopResult semNum sem (checkLoop semNum sem) := by
  fun_induction checkLoop semNum sem with
  | case1 semNum sem inside taken failed =>
    unfold semopDown at failed
    split at failed
    · rename_i spent
      exact .inr ⟨semNum,visits_here inside,taken,spent,rfl⟩
    · contradiction
  | case2 semNum sem inside taken next down ih =>
    unfold semopDown at down
    split at down
    · contradiction
    · rename_i left
      cases Option.some.inj down
      exact loopResult_lower inside taken left ih
  | case3 semNum sem inside free ih => exact loopResult_skip free ih
  | case4 semNum sem outside =>
    have none : ∀ n, ¬ Visits semNum n := by
      intro n visits
      unfold Visits at visits
      omega
    refine .inl ⟨fun n visits => absurd visits (none n),rfl,?_⟩
    intro n
    rw [if_neg (fun h => none _ h.2.1)]

theorem visits_slot {slot : Nat} (inside : 2 * slot < numSems) :
    Visits 0 (2 * slot) ↔ slot % 2 = 0 := by
  unfold Visits
  omega

theorem visits_even {n : Nat} (visits : Visits 0 n) : n = 2 * (n / 2) ∧ n / 2 % 2 = 0 := by
  unfold Visits at visits
  omega

theorem check_sound_of_allowed {s : Watchdog}
    (positive : ∀ n, Visits 0 n → s.sem n = 0 → 0 < s.sem (n + 1))
    (values : ∀ n, (checkLoop 0 s.sem).2 n =
      if 1 ≤ n ∧ Visits 0 (n - 1) ∧ s.sem (n - 1) = 0 then s.sem n - 1 else s.sem n)
    (evens : ∀ slot, slot % 2 = 1 → ¬ Active s slot) :
    (∀ slot, Active s slot → 0 < s.sem (2 * slot + 1)) ∧
      (checkSemaphore s).2.sem = lowered s := by
  have visited : ∀ slot, Active s slot → Visits 0 (2 * slot) := by
    intro slot active
    apply (visits_slot active.1).mpr
    have even := mt (evens slot) (not_not.mpr active)
    omega
  constructor
  · intro slot active
    exact positive _ (visited slot active) active.2
  · funext n
    change (checkLoop 0 s.sem).2 n = lowered s n
    rw [values n, lowered]
    congr 1
    apply propext
    constructor
    · rintro ⟨low,visits,taken⟩
      obtain ⟨even,_⟩ := visits_even visits
      have slot : n / 2 = (n - 1) / 2 := by omega
      refine ⟨by omega,?_⟩
      rw [slot]
      exact ⟨even ▸ visits.2.1,even ▸ taken⟩
    · rintro ⟨odd,active⟩
      have here : n - 1 = 2 * (n / 2) := by omega
      refine ⟨by omega,?_⟩
      rw [here]
      exact ⟨visited _ active,active.2⟩

theorem check_sound_iff (s : Watchdog) (a : Action) : CheckSound s a ↔ CheckAllowed s a := by
  cases a with
  | register slot undo => exact Iff.rfl
  | keepalive slot count => exact Iff.rfl
  | exit slot => exact Iff.rfl
  | check =>
    rcases checkLoop_result 0 s.sem with ⟨positive,enoerr,values⟩ | ⟨n,visits,taken,spent,report⟩
    · constructor
      · intro sound
        left
        intro slot odd active
        obtain ⟨left,same⟩ := sound enoerr
        have unseen : ¬ Visits 0 (2 * slot) := by
          rw [visits_slot active.1]
          omega
        have kept : (checkSemaphore s).2.sem (2 * slot + 1) = s.sem (2 * slot + 1) := by
          refine (values (2 * slot + 1)).trans (if_neg ?_)
          exact fun h => unseen h.2.1
        have half : (2 * slot + 1) / 2 = slot := by omega
        have lower : lowered s (2 * slot + 1) = s.sem (2 * slot + 1) - 1 :=
          if_pos ⟨by omega,half.symm ▸ active⟩
        have some := left slot active
        rw [same, lower] at kept
        omega
      · rintro (evens | ⟨slot,even,active,spent⟩) _
        · exact check_sound_of_allowed positive values evens
        · have left := positive _ ((visits_slot active.1).mpr even) active.2
          omega
    · obtain ⟨here,even⟩ := visits_even visits
      constructor
      · intro _
        refine .inr ⟨n / 2,even,⟨here ▸ visits.2.1,here ▸ taken⟩,?_⟩
        rw [← here]
        exact spent
      · intro _ enoerr
        exact absurd (enoerr.symm.trans report) (by simp)

theorem report_spent {s : Watchdog} {n : Nat} (report : (checkSemaphore s).1 = .enochange n) :
    s.sem (n + 1) = 0 := by
  rcases checkLoop_result 0 s.sem with ⟨_,enoerr,_⟩ | ⟨m,_,_,spent,stops⟩
  · exact absurd (enoerr.symm.trans report) (by simp)
  · cases stops.symm.trans report
    exact spent

def checks (visited : List (Watchdog × Action)) : Nat := visited.countP fun p => p.2 = .check

def Silent (slot : Nat) (s : Watchdog) : Action → Prop
  | .keepalive k _ => k ≠ slot
  | .exit k => k = slot → s.owner slot ≠ some true
  | _ => True

def HungDetected (visited : List (Watchdog × Action)) : Prop :=
  ∀ before s slot count silent after,
    visited = before ++ (s, .keepalive slot count) :: (silent ++ after) → Active s slot →
    Every (Silent slot) silent → count < checks silent →
    ∃ p ∈ silent, p.2 = .check ∧ ∃ n, (checkSemaphore p.1).1 = .enochange n

def NoFalseReport (visited : List (Watchdog × Action)) : Prop :=
  ∀ before s slot count between u after,
    visited = before ++ (s, .keepalive slot count) :: (between ++ (u, .check) :: after) →
    0 < count → Every (fun _ a => a ≠ .check ∧ ∀ n, a ≠ .keepalive slot n) between →
    (checkSemaphore u).1 ≠ .enochange (2 * slot)

theorem semopRegister_free {slot : Nat} {undo : Bool} {s t : Watchdog}
    (registered : semopRegister slot undo s = some t) : s.sem (2 * slot) ≠ 0 ∧
      t.sem (2 * slot + 1) = s.sem (2 * slot + 1) + 1 ∧
      ∀ n, n ≠ 2 * slot → n ≠ 2 * slot + 1 → t.sem n = s.sem n := by
  unfold semopRegister semopDown at registered
  split at registered
  · contradiction
  · rename_i free
    cases Option.some.inj registered
    refine ⟨free,?_,?_⟩
    · simp
    · intro n not_even not_odd
      simp [not_even, not_odd]

theorem silent_step {slot : Nat} {s t : Watchdog} {a : Action} (taken : s.sem (2 * slot) = 0)
    (silent : Silent slot s a) (other : a ≠ .check) (next : step s a = some t) :
    t.sem (2 * slot) = 0 ∧ t.sem (2 * slot + 1) = s.sem (2 * slot + 1) := by
  cases a with
  | register k undo =>
    rw [step] at next
    split at next
    · obtain ⟨free,_,same⟩ := semopRegister_free next
      have ne : k ≠ slot := by
        intro h
        rw [h] at free
        contradiction
      rw [same (2 * slot) (by omega) (by omega), same (2 * slot + 1) (by omega) (by omega)]
      exact ⟨taken,rfl⟩
    · contradiction
  | keepalive k count =>
    rw [step] at next
    split at next
    · cases Option.some.inj next
      have ne : k ≠ slot := silent
      have even : 2 * slot ≠ 2 * k + 1 := by omega
      have odd : 2 * slot + 1 ≠ 2 * k + 1 := by omega
      exact ⟨(Function.update_of_ne even _ _).trans taken,Function.update_of_ne odd _ _⟩
    · contradiction
  | exit k =>
    obtain ⟨undo,owner,rfl⟩ := Option.map_eq_some_iff.mp next
    cases undo with
    | false => exact ⟨taken,rfl⟩
    | true =>
      have ne : k ≠ slot := by
        intro h
        exact silent h (h ▸ owner)
      have even : 2 * slot ≠ 2 * k := by omega
      have odd : 2 * slot + 1 ≠ 2 * k := by omega
      exact ⟨(Function.update_of_ne even _ _).trans taken,Function.update_of_ne odd _ _⟩
  | check => contradiction

theorem silent_reported {slot : Nat} {s t : Watchdog} {visited : List (Watchdog × Action)}
    (inside : 2 * slot < numSems) (run : Run step s visited t) (taken : s.sem (2 * slot) = 0)
    (silent : Every (Silent slot) visited) (sound : Every CheckSound visited)
    (enough : s.sem (2 * slot + 1) < checks visited) :
    ∃ p ∈ visited, p.2 = .check ∧ ∃ n, (checkSemaphore p.1).1 = .enochange n := by
  induction run with
  | done => exact absurd enough (by simp [checks])
  | @step s t u a visited next rest ih =>
    obtain ⟨quiet,later⟩ := every_cons.mp silent
    obtain ⟨right,correct⟩ := every_cons.mp sound
    by_cases check : a = .check
    · subst check
      cases result : (checkSemaphore s).1 with
      | enochange n => exact ⟨(s,.check),List.mem_cons_self,rfl,n,result⟩
      | enoerr =>
        obtain ⟨left,same⟩ := right result
        cases Option.some.inj next
        have some := left slot ⟨inside,taken⟩
        have half : (2 * slot + 1) / 2 = slot := by omega
        have even : (checkSemaphore s).2.sem (2 * slot) = 0 := by
          rw [same, lowered, if_neg (fun h => absurd h.1 (by omega)), taken]
        have odd : (checkSemaphore s).2.sem (2 * slot + 1) = s.sem (2 * slot + 1) - 1 := by
          rw [same, lowered, if_pos ⟨by omega,half.symm ▸ ⟨inside,taken⟩⟩]
        have fewer : checks ((s, Action.check) :: visited) = checks visited + 1 :=
          List.countP_cons_of_pos rfl
        obtain ⟨p,member,found⟩ := ih even later correct (by omega)
        exact ⟨p,List.mem_cons_of_mem _ member,found⟩
    · obtain ⟨even,odd⟩ := silent_step taken quiet check next
      have same : checks ((s, a) :: visited) = checks visited :=
        List.countP_cons_of_neg (by simpa using check)
      obtain ⟨p,member,found⟩ := ih even later correct (by omega)
      exact ⟨p,List.mem_cons_of_mem _ member,found⟩

theorem sound_detects {s t : Watchdog} {visited : List (Watchdog × Action)}
    (run : Run step s visited t) (sound : Every CheckSound visited) : HungDetected visited := by
  intro before u slot count silent after same active quiet enough
  subst same
  obtain ⟨v,rest⟩ := run.drop
  cases rest with
  | step next rest =>
    rw [step] at next
    split at next
    · cases Option.some.inj next
      have even : 2 * slot ≠ 2 * slot + 1 := by omega
      have kept : (watchdogSemKeepalive slot count u).sem (2 * slot) = 0 :=
        (Function.update_of_ne even _ _).trans active.2
      have set : (watchdogSemKeepalive slot count u).sem (2 * slot + 1) = count :=
        Function.update_self _ _ _
      obtain ⟨w,stretch⟩ := rest.take
      refine silent_reported active.1 stretch kept quiet ?_ (by omega)
      intro p member
      apply sound p
      simp [member]
    · contradiction

theorem kept_alive_step {slot : Nat} {s t : Watchdog} {a : Action}
    (left : 0 < s.sem (2 * slot + 1)) (other : a ≠ .check ∧ ∀ n, a ≠ .keepalive slot n)
    (next : step s a = some t) : 0 < t.sem (2 * slot + 1) := by
  cases a with
  | register k undo =>
    rw [step] at next
    split at next
    · obtain ⟨_,more,same⟩ := semopRegister_free next
      by_cases own : k = slot
      · subst own
        omega
      · rw [same (2 * slot + 1) (by omega) (by omega)]
        exact left
    · contradiction
  | keepalive k count =>
    rw [step] at next
    split at next
    · cases Option.some.inj next
      have ne : k ≠ slot := by
        intro h
        exact other.2 count (by rw [h])
      have odd : 2 * slot + 1 ≠ 2 * k + 1 := by omega
      have same : (watchdogSemKeepalive k count s).sem (2 * slot + 1) = s.sem (2 * slot + 1) :=
        Function.update_of_ne odd _ _
      rw [same]
      exact left
    · contradiction
  | exit k =>
    obtain ⟨undo,owner,rfl⟩ := Option.map_eq_some_iff.mp next
    cases undo with
    | false => exact left
    | true =>
      have odd : 2 * slot + 1 ≠ 2 * k := by omega
      have same : (exitClient k true s).sem (2 * slot + 1) = s.sem (2 * slot + 1) :=
        Function.update_of_ne odd _ _
      rw [same]
      exact left
  | check => exact absurd rfl other.1

theorem kept_alive_run {slot : Nat} {s t u : Watchdog} {between after : List (Watchdog × Action)}
    (run : Run step s (between ++ (u, .check) :: after) t) (left : 0 < s.sem (2 * slot + 1))
    (others : Every (fun _ a => a ≠ .check ∧ ∀ n, a ≠ .keepalive slot n) between) :
    0 < u.sem (2 * slot + 1) := by
  induction between generalizing s with
  | nil =>
    cases run with
    | step next rest => exact left
  | cons p between ih =>
    cases run with
    | step next rest =>
      obtain ⟨other,others⟩ := every_cons.mp others
      exact ih rest (kept_alive_step left other next) others

theorem no_false_report {s t : Watchdog} {visited : List (Watchdog × Action)}
    (run : Run step s visited t) : NoFalseReport visited := by
  intro before v slot count between u after same positive others report
  subst same
  obtain ⟨w,rest⟩ := run.drop
  cases rest with
  | step next rest =>
    rw [step] at next
    split at next
    · cases Option.some.inj next
      have set : (watchdogSemKeepalive slot count v).sem (2 * slot + 1) = count :=
        Function.update_self _ _ _
      have left := kept_alive_run rest (by omega) others
      have spent := report_spent report
      omega
    · contradiction

/-- Along every run the checks are sound exactly where no odd slot is active or an even
    one has run out. Where all are, a client that falls silent is detected in time; and
    no client that keeps alive is ever reported. -/
theorem checkSemaphore_detects_iff {visited : List (Watchdog × Action)} {t : Watchdog}
    (run : Run step initial visited t) :
    (Every CheckSound visited ↔ Every CheckAllowed visited) ∧
    (Every CheckAllowed visited → HungDetected visited) ∧ NoFalseReport visited := by
  have exact_checks : Every CheckSound visited ↔ Every CheckAllowed visited :=
    forall₂_congr fun p _ => check_sound_iff p.1 p.2
  refine ⟨exact_checks,?_,no_false_report run⟩
  intro allowed
  exact sound_detects run (exact_checks.mpr allowed)

def registered (slot : Nat) (s : Watchdog) : Watchdog :=
  { sem := Function.update (Function.update s.sem (2 * slot) (s.sem (2 * slot) - 1))
      (2 * slot + 1) (s.sem (2 * slot + 1) + 1)
    owner := Function.update s.owner slot (some true) }

def twoClients : Watchdog := registered 1 (registered 0 initial)
def firstKept : Watchdog := watchdogSemKeepalive 0 1 twoClients
def secondHung : Watchdog := watchdogSemKeepalive 1 0 firstKept

def secondHungRun : List (Watchdog × Action) :=
  [(initial, .register 0 true), (registered 0 initial, .register 1 true),
   (twoClients, .keepalive 0 1), (firstKept, .keepalive 1 0), (secondHung, .check)]

theorem secondHung_first (slot : Nat) (even : slot % 2 = 0) (active : Active secondHung slot) :
    secondHung.sem (2 * slot + 1) ≠ 0 := by
  have slots : ∀ k < 10, k % 2 = 0 → secondHung.sem (2 * k) = 0 →
      secondHung.sem (2 * k + 1) ≠ 0 := by decide
  obtain ⟨inside,taken⟩ := active
  unfold numSems at inside
  exact slots slot (by omega) even taken

theorem secondHung_enoerr : (checkSemaphore secondHung).1 = .enoerr := by
  rcases checkLoop_result 0 secondHung.sem with ⟨_,enoerr,_⟩ | ⟨n,visits,taken,spent,_⟩
  · exact enoerr
  · obtain ⟨here,even⟩ := visits_even visits
    have left := secondHung_first (n / 2) even ⟨here ▸ visits.2.1,here ▸ taken⟩
    rw [← here] at left
    contradiction

/-- A client in the second slot that has run out is neither seen nor reported. -/
theorem second_client_missed : ∃ visited t, Run step initial visited t ∧
    ¬ Every CheckSound visited ∧ ¬ HungDetected visited := by
  have run : Run step initial secondHungRun (checkSemaphore secondHung).2 :=
    .step rfl (.step rfl (.step rfl (.step rfl (.step rfl .done))))
  refine ⟨_,_,run,?_,?_⟩
  · intro sound
    have check : CheckSound secondHung .check := sound (secondHung,.check) (by simp [secondHungRun])
    have left := (check secondHung_enoerr).1 1 ⟨by decide,rfl⟩
    exact absurd left (by decide)
  · intro detected
    obtain ⟨p,member,_,n,report⟩ := detected
      [(initial, .register 0 true), (registered 0 initial, .register 1 true),
        (twoClients, .keepalive 0 1)] firstKept 1 0 [(secondHung, .check)] [] rfl ⟨by decide,rfl⟩
      (by simp [Every, Silent]) (by decide)
    cases List.mem_singleton.mp member
    exact absurd (secondHung_enoerr.symm.trans report) (by simp)

theorem first_client_reported : ∃ visited t, Run step initial visited t ∧
    (registered 0 initial, Action.keepalive 0 0) ∈ visited ∧ Every CheckSound visited ∧
    HungDetected visited := by
  have run : Run step initial [(initial, .register 0 true), (registered 0 initial, .keepalive 0 0),
      (watchdogSemKeepalive 0 0 (registered 0 initial), .check)] _ :=
    .step rfl (.step rfl (.step rfl .done))
  have allowed : Every CheckAllowed [(initial, .register 0 true),
      (registered 0 initial, .keepalive 0 0),
      (watchdogSemKeepalive 0 0 (registered 0 initial), .check)] := by
    refine every_cons.mpr ⟨trivial,every_cons.mpr ⟨trivial,every_cons.mpr ⟨.inr ?_,?_⟩⟩⟩
    · exact ⟨0,rfl,⟨by decide,rfl⟩,rfl⟩
    · exact fun _ none => by simp at none
  obtain ⟨sound,detected,_⟩ := checkSemaphore_detects_iff run
  exact ⟨_,_,run,by simp,sound.mpr allowed,detected allowed⟩

end WatchdogSemaphore
