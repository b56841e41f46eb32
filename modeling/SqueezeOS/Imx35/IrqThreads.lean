import Mathlib.Data.List.FinRange
import Mathlib.Data.List.Induction
import SqueezeOS.Imx35.MapOption

/- The interrupt threads, which setup_irq creates and which init_hardirqs creates for the
   interrupts that were set up before it. `prio` is get_irq_prio. -/
namespace IrqThreads
open MapOption

structure Irqaction where
  name : Option CString
  nodelay : Bool
  deriving DecidableEq

structure IrqDesc where
  action : List Irqaction
  nodelay : Bool
  thread : Bool
  rtPrio : Int
  deriving DecidableEq

variable {nrIrqs : Nat}

/-- `printed` has the interrupt of each conflict message, in their order. -/
structure State (nrIrqs : Nat) where
  okToCreateIrqThreads : Bool
  irqDesc : Fin nrIrqs → IrqDesc
  printed : List (Fin nrIrqs)

def boot : State nrIrqs :=
  { okToCreateIrqThreads := false
    irqDesc := fun _ => { action := [], nodelay := false, thread := false, rtPrio := 0 }
    printed := [] }

def State.set (s : State nrIrqs) (irq : Fin nrIrqs) (desc : IrqDesc) : State nrIrqs :=
  { s with irqDesc := Function.update s.irqDesc irq desc }

/-- kthread_create is taken to give a thread. -/
def startIrqThread (irq : Fin nrIrqs) (prio : Int) (s : State nrIrqs) : State nrIrqs :=
  if s.okToCreateIrqThreads then
    if (s.irqDesc irq).thread then
      if (s.irqDesc irq).rtPrio ≠ prio then { s with printed := s.printed ++ [irq] } else s
    else s.set irq { s.irqDesc irq with thread := true, rtPrio := prio }
  else s

def recalculateDescFlags (desc : IrqDesc) : IrqDesc :=
  { desc with nodelay := desc.action.any Irqaction.nodelay }

def setupIrq (prio : Option CString → Int) (irq : Fin nrIrqs) (new : Irqaction)
    (s : State nrIrqs) : State nrIrqs :=
  let s := if new.nodelay then s else startIrqThread irq (prio new.name) s
  s.set irq (recalculateDescFlags
    { s.irqDesc irq with action := (s.irqDesc irq).action ++ [new] })

def sweep (prio : Option CString → Int) (s : State nrIrqs) (i : Fin nrIrqs) : State nrIrqs :=
  if (s.irqDesc i).action ≠ [] ∧ (s.irqDesc i).nodelay = false then
    startIrqThread i (prio none) s
  else s

def initHardirqs (prio : Option CString → Int) (s : State nrIrqs) : State nrIrqs :=
  (List.finRange nrIrqs).foldl (sweep prio) { s with okToCreateIrqThreads := true }

inductive Event (nrIrqs : Nat) where
  | setupIrq (irq : Fin nrIrqs) (new : Irqaction)
  | initHardirqs

def step (prio : Option CString → Int) (s : State nrIrqs) : Event nrIrqs → State nrIrqs
  | .setupIrq irq new => setupIrq prio irq new s
  | .initHardirqs => initHardirqs prio s

def run (prio : Option CString → Int) (s : State nrIrqs) (events : List (Event nrIrqs)) :
    State nrIrqs :=
  events.foldl (step prio) s

/-- The handler of an interrupt, by its name, without IRQF_NODELAY. -/
abbrev Registration (nrIrqs : Nat) := Fin nrIrqs × Option CString

def register (r : Registration nrIrqs) : Event nrIrqs :=
  .setupIrq r.1 { name := r.2, nodelay := false }

def names (irq : Fin nrIrqs) (handlers : List (Registration nrIrqs)) : List (Option CString) :=
  (handlers.filter (·.1 = irq)).map Prod.snd

section
variable {s : State nrIrqs} {irq other : Fin nrIrqs} {desc : IrqDesc}

@[simp] theorem set_same : (s.set irq desc).irqDesc irq = desc := by simp [State.set]

@[simp] theorem set_other (apart : other ≠ irq) :
    (s.set irq desc).irqDesc other = s.irqDesc other := by
  simp [State.set, apart]

@[simp] theorem set_ok : (s.set irq desc).okToCreateIrqThreads = s.okToCreateIrqThreads := rfl

@[simp] theorem set_printed : (s.set irq desc).printed = s.printed := rfl

variable (prio : Option CString → Int) {r : Registration nrIrqs}
  {handlers : List (Registration nrIrqs)}

theorem names_cons (irq : Fin nrIrqs) (r : Registration nrIrqs)
    (handlers : List (Registration nrIrqs)) :
    names irq (r :: handlers) = if r.1 = irq then r.2 :: names irq handlers
      else names irq handlers := by
  unfold names
  by_cases same : r.1 = irq <;> simp [same]

structure Waiting (s : State nrIrqs) (handlers : List (Registration nrIrqs)) : Prop where
  waits : s.okToCreateIrqThreads = false
  quiet : s.printed = []
  thread : ∀ irq, (s.irqDesc irq).thread = false
  nodelay : ∀ irq, (s.irqDesc irq).nodelay = false
  action : ∀ irq, (s.irqDesc irq).action =
    (names irq handlers).map fun name => { name := name, nodelay := false }

theorem boot_waiting : Waiting (boot : State nrIrqs) [] :=
  ⟨rfl,rfl,fun _ => rfl,fun _ => rfl,fun _ => rfl⟩

theorem Waiting.next (waiting : Waiting s handlers) (r : Registration nrIrqs) :
    Waiting (step prio s (register r)) (handlers ++ [r]) := by
  have unstarted : startIrqThread r.1 (prio r.2) s = s := by
    simp [startIrqThread, waiting.waits]
  have stepped : step prio s (register r) = s.set r.1 (recalculateDescFlags
      { s.irqDesc r.1 with
        action := (s.irqDesc r.1).action ++ [{ name := r.2, nodelay := false }] }) := by
    simp [step, register, setupIrq, unstarted]
  rw [stepped]
  constructor
  · exact waiting.waits
  · exact waiting.quiet
  all_goals
    intro irq
    by_cases here : irq = r.1
    · subst here
      simp [recalculateDescFlags, waiting.thread, waiting.action, names]
    · simp [here, Ne.symm here, waiting.thread, waiting.nodelay, waiting.action, names]

theorem run_waiting (handlers : List (Registration nrIrqs)) :
    Waiting (run prio boot (handlers.map register)) handlers := by
  induction handlers using List.reverseRecOn with
  | nil => exact boot_waiting
  | append_singleton handlers r ih =>
    rw [run, List.map_append, List.foldl_append]
    exact ih.next prio r

theorem sweep_started (irqs : List (Fin nrIrqs)) (nodup : irqs.Nodup)
    (ready : s.okToCreateIrqThreads = true) (thread : ∀ irq ∈ irqs, (s.irqDesc irq).thread = false)
    (nodelay : ∀ irq ∈ irqs, (s.irqDesc irq).nodelay = false) :
    (irqs.foldl (sweep prio) s).okToCreateIrqThreads = true ∧
      (irqs.foldl (sweep prio) s).printed = s.printed ∧
      ∀ irq, (irqs.foldl (sweep prio) s).irqDesc irq =
        if irq ∈ irqs ∧ (s.irqDesc irq).action ≠ [] then
          { s.irqDesc irq with thread := true, rtPrio := prio none }
        else s.irqDesc irq := by
  induction irqs generalizing s with
  | nil => simp [ready]
  | cons i irqs ih =>
    obtain ⟨new,later⟩ := List.nodup_cons.mp nodup
    have step : sweep prio s i = if (s.irqDesc i).action ≠ [] then
        s.set i { s.irqDesc i with thread := true, rtPrio := prio none } else s := by
      simp [sweep, startIrqThread, ready, thread i List.mem_cons_self,
        nodelay i List.mem_cons_self]
    have kept : (sweep prio s i).okToCreateIrqThreads = true ∧
        (sweep prio s i).printed = s.printed := by
      rw [step]
      split <;> simp [ready]
    have apart (irq : Fin nrIrqs) (other : irq ≠ i) :
        (sweep prio s i).irqDesc irq = s.irqDesc irq := by
      rw [step]
      split <;> simp [other]
    have member (irq : Fin nrIrqs) (mem : irq ∈ irqs) : irq ≠ i := by
      rintro rfl
      exact new mem
    obtain ⟨ok,printed,desc⟩ := ih later kept.1
      (fun irq mem => by rw [apart irq (member irq mem)]; exact thread irq (by simp [mem]))
      (fun irq mem => by rw [apart irq (member irq mem)]; exact nodelay irq (by simp [mem]))
    refine ⟨ok,printed.trans kept.2,?_⟩
    intro irq
    rw [List.foldl_cons, desc irq]
    by_cases here : irq = i
    · subst here
      simp only [new, false_and, if_false, List.mem_cons_self, true_and, step]
      split <;> simp
    · simp [apart irq here, here]

def threadPrio (desc : IrqDesc) : Option Int := if desc.thread then some desc.rtPrio else none

structure Has (s : State nrIrqs) (irq : Fin nrIrqs) (thread : Option Int) (conflicts : Nat) :
    Prop where
  ready : s.okToCreateIrqThreads = true
  thread : threadPrio (s.irqDesc irq) = thread
  conflicts : s.printed.count irq = conflicts

theorem initHardirqs_has (waiting : Waiting s handlers)
    (irq : Fin nrIrqs) :
    Has (initHardirqs prio s) irq (if names irq handlers = [] then none else some (prio none)) 0 := by
  obtain ⟨ok,printed,desc⟩ := sweep_started prio
    (s := { s with okToCreateIrqThreads := true }) (List.finRange nrIrqs)
    (List.nodup_finRange nrIrqs) rfl (fun irq _ => waiting.thread irq)
    (fun irq _ => waiting.nodelay irq)
  have after := desc irq
  simp only [List.mem_finRange, true_and, waiting.action irq, ne_eq, List.map_eq_nil_iff] at after
  refine ⟨ok,?_,?_⟩
  · rw [initHardirqs, after]
    by_cases unused : names irq handlers = []
    · simp [unused, threadPrio, waiting.thread irq]
    · simp [unused, threadPrio]
  · rw [initHardirqs, printed]
    simp [waiting.quiet]

variable {thread : Option Int} {conflicts : Nat} {p : Int}

theorem Has.apart (has : Has s irq thread conflicts) (apart : r.1 ≠ irq) :
    Has (step prio s (register r)) irq thread conflicts := by
  have kept (t : State nrIrqs) (started : t = startIrqThread r.1 (prio r.2) s) :
      Has t irq thread conflicts := by
    have other := Ne.symm apart
    rw [started, startIrqThread, if_pos has.ready]
    split
    · split
      · exact ⟨has.ready,has.thread,by simp [has.conflicts, apart]⟩
      · exact has
    · exact ⟨has.ready,by simp [other, has.thread],has.conflicts⟩
  have started := kept _ rfl
  exact ⟨started.ready,by simp [step, register, setupIrq, Ne.symm apart, started.thread],
    started.conflicts⟩

theorem Has.first (has : Has s r.1 none conflicts) :
    Has (step prio s (register r)) r.1 (some (prio r.2)) conflicts := by
  have unstarted : (s.irqDesc r.1).thread = false := by
    have none := has.thread
    simpa [threadPrio] using none
  have started : startIrqThread r.1 (prio r.2) s =
      s.set r.1 { s.irqDesc r.1 with thread := true, rtPrio := prio r.2 } := by
    simp [startIrqThread, has.ready, unstarted]
  simp only [step, register, setupIrq, Bool.false_eq_true, if_false, started]
  exact ⟨has.ready,by simp [threadPrio, recalculateDescFlags],has.conflicts⟩

theorem Has.later (has : Has s r.1 (some p) conflicts) :
    Has (step prio s (register r)) r.1 (some p)
      (conflicts + if p ≠ prio r.2 then 1 else 0) := by
  obtain ⟨there,same⟩ : (s.irqDesc r.1).thread = true ∧ (s.irqDesc r.1).rtPrio = p := by
    have some := has.thread
    simpa [threadPrio] using some
  have started : startIrqThread r.1 (prio r.2) s =
      if p ≠ prio r.2 then { s with printed := s.printed ++ [r.1] } else s := by
    simp [startIrqThread, has.ready, there, same]
  simp only [step, register, setupIrq, Bool.false_eq_true, if_false, started]
  split
  · exact ⟨has.ready,by simp [threadPrio, recalculateDescFlags, there, same],
      by simp [has.conflicts]⟩
  · exact ⟨has.ready,by simp [threadPrio, recalculateDescFlags, there, same],has.conflicts⟩

theorem Has.run_later (has : Has s irq (some p) conflicts)
    (handlers : List (Registration nrIrqs)) :
    Has (run prio s (handlers.map register)) irq (some p)
      (conflicts + (names irq handlers).countP (p ≠ prio ·)) := by
  induction handlers generalizing s conflicts with
  | nil => exact has
  | cons r handlers ih =>
    rw [names_cons]
    by_cases here : r.1 = irq
    · subst here
      have next := ih (has.later prio)
      rw [if_pos rfl, List.countP_cons]
      simp only [decide_eq_true_eq]
      rw [Nat.add_right_comm, Nat.add_assoc] at next
      exact next
    · rw [if_neg here]
      exact ih (has.apart prio here)

theorem Has.run_first (has : Has s irq none conflicts) (handlers : List (Registration nrIrqs))
    {first : Option CString} {later : List (Option CString)}
    (registered : names irq handlers = first :: later) :
    Has (run prio s (handlers.map register)) irq (some (prio first))
      (conflicts + later.countP (prio first ≠ prio ·)) := by
  induction handlers generalizing s with
  | nil => simp [names] at registered
  | cons r handlers ih =>
    rw [names_cons] at registered
    by_cases here : r.1 = irq
    · subst here
      rw [if_pos rfl] at registered
      obtain ⟨rfl,rfl⟩ := List.cons.inj registered
      exact (has.first prio).run_later prio handlers
    · rw [if_neg here] at registered
      exact ih (has.apart prio here) registered

end

section
variable (prio : Option CString → Int) (before after : List (Registration nrIrqs))

/-- All that is registered, with init_hardirqs somewhere in between. -/
def booted : State nrIrqs :=
  run prio boot (before.map register ++ .initHardirqs :: after.map register)

def Mapped : Prop :=
  ∀ irq first later, names irq (before ++ after) = first :: later →
    threadPrio ((booted prio before after).irqDesc irq) = some (prio first) ∧
      (booted prio before after).printed.count irq = later.countP (prio first ≠ prio ·)

theorem names_append (irq : Fin nrIrqs) :
    names irq (before ++ after) = names irq before ++ names irq after := by
  simp [names]

theorem booted_eq :
    booted prio before after =
      run prio (initHardirqs prio (run prio boot (before.map register))) (after.map register) := by
  rw [booted, run, List.foldl_append]
  rfl

variable {irq : Fin nrIrqs} {first : Option CString} {later : List (Option CString)}

theorem booted_early (early : names irq before = first :: later) :
    Has (booted prio before after) irq (some (prio none))
      ((names irq after).countP (prio none ≠ prio ·)) := by
  have swept := initHardirqs_has prio (run_waiting prio before) irq
  rw [if_neg (by simp [early])] at swept
  have has := swept.run_later prio after
  rwa [Nat.zero_add, ← booted_eq] at has

theorem booted_late (early : names irq before = []) (late : names irq after = first :: later) :
    Has (booted prio before after) irq (some (prio first))
      (later.countP (prio first ≠ prio ·)) := by
  have swept := initHardirqs_has prio (run_waiting prio before) irq
  rw [if_pos early] at swept
  have has := swept.run_first prio after late
  rwa [Nat.zero_add, ← booted_eq] at has

theorem default_iff (first : Option CString) (earlier late : List (Option CString)) :
    some (prio none) = some (prio first) ∧
        late.countP (prio none ≠ prio ·) = (earlier ++ late).countP (prio first ≠ prio ·) ↔
      ∀ name ∈ first :: earlier, prio name = prio none := by
  rw [Option.some_inj, List.forall_mem_cons, eq_comm]
  refine and_congr_right fun same => ?_
  rw [List.countP_append, same, Nat.right_eq_add, List.countP_eq_zero]
  refine forall₂_congr fun name _ => ?_
  rw [decide_eq_true_eq, not_not, eq_comm]

theorem mem_names (r : Registration nrIrqs) (handlers : List (Registration nrIrqs)) :
    r ∈ handlers ↔ r.2 ∈ names r.1 handlers := by
  obtain ⟨irq,name⟩ := r
  simp [names]

theorem mapped_iff : Mapped prio before after ↔ ∀ r ∈ before, prio r.2 = prio none := by
  unfold Mapped
  simp only [names_append]
  constructor
  · intro mapped r member
    have named := (mem_names r before).mp member
    cases early : names r.1 before with
    | nil => simp [early] at named
    | cons first earlier =>
      have has := booted_early prio before after early
      have here := mapped r.1 first (earlier ++ names r.1 after) (by simp [early])
      rw [has.thread, has.conflicts, default_iff] at here
      exact here r.2 (early ▸ named)
  · intro default irq first later registered
    cases early : names irq before with
    | nil =>
      rw [early, List.nil_append] at registered
      have has := booted_late prio before after early registered
      exact ⟨has.thread,has.conflicts⟩
    | cons first earlier =>
      rw [early, List.cons_append] at registered
      obtain ⟨rfl,rfl⟩ := List.cons.inj registered
      have has := booted_early prio before after early
      rw [has.thread, has.conflicts, default_iff]
      intro name member
      exact default (irq, name) ((mem_names (irq, name) before).mpr (early ▸ member))

/-- get_irq_prio; of the empty map it reads on behind the NUL, and `behind` is what comes of that. -/
def irqPrio (cmdline : Option CString) (config : CString) (behind : Option CString → Int)
    (name : Option CString) : Int :=
  (getIrqPrio cmdline config name).getD (behind name)

/-- The threads are as the map wants them exactly when it gives the default to every handler
    that was set up before init_hardirqs. -/
theorem init_hardirqs_order (cmdline : Option CString) (config : CString)
    (behind : Option CString → Int) :
    Mapped (irqPrio cmdline config behind) before after ↔
      ∀ r ∈ before, irqPrio cmdline config behind r.2 = irqPrio cmdline config behind none :=
  mapped_iff _ before after

/-- With "ab:7,a:8,3", a handler "a" is given 8, but its thread is created with 3. -/
theorem early_handler_default :
    ¬Mapped (irqPrio (some threeFields) threeFields fun _ => 50)
      [((0 : Fin 1), some ⟨[97],by decide⟩)] [] := by
  rw [mapped_iff]
  decide

end

end IrqThreads
