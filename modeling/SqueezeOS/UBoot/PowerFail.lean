import SqueezeOS.StepRuns
import SqueezeOS.UBoot.Flash
import SqueezeOS.UBoot.ImageUpdate

/- Invocations of fw_setenvs that lose power anywhere in flash_io_write. The copy that
   env_init would take is written last, so one good copy is always left. -/
namespace FwEnvFlash
open FwEnv StepRuns

inductive FlashStep where
  | erase (otherdev : Fin 2)
  | write (otherdev : Fin 2)

def FlashStep.dev : FlashStep → Fin 2
  | .erase otherdev => otherdev
  | .write otherdev => otherdev

def takeStep (new : Block) (flash : Flash) : FlashStep → Flash
  | .erase otherdev => Function.update flash otherdev erased
  | .write otherdev => Function.update flash otherdev new

def partSteps (otherdev : Fin 2) : List FlashStep := [.erase otherdev, .write otherdev]

def flashSteps (curdev : Fin 2) : List FlashStep :=
  if curdev = 0 then partSteps 1 ++ partSteps 0 else partSteps 0 ++ partSteps 1

/-- Power is lost after `done` steps, in the middle of the next one if that left a block
    behind. -/
structure Cut where
  done : Nat
  torn : Option Torn

def cutOff (new : Block) (steps : List FlashStep) (cut : Cut) (flash : Flash) : Flash :=
  let reached := (steps.take cut.done).foldl (takeStep new) flash
  match steps[cut.done]?, cut.torn with
  | some step, some torn => Function.update reached step.dev torn.block
  | _, _ => reached

def working : Device := { opens := true, closes := true, part := fun _ => .complete }

theorem cutOff_whole (new : Block) (curdev : Fin 2) (flash : Flash) :
    flashIoWrite new curdev working flash =
      (0, cutOff new (flashSteps curdev) { done := 4, torn := none } flash) := by
  by_cases first : curdev = 0
  · simp [cutOff, flashSteps, partSteps, flashIoWrite, flashIoWritePart, takeStep, first, working]
  · simp [cutOff, flashSteps, partSteps, flashIoWrite, flashIoWritePart, takeStep, first, working]

structure Invocation where
  args : List Arg
  heap : Bytes
  cut : Cut

/-- fw_setenvs up to the loss of power. It touches the flash only when it comes to
    flash_io_write. -/
def invoke (flash : Flash) (call : Invocation) : Option Flash :=
  if call.args.length + 1 < 2 then some flash
  else
    match edited call.args call.heap (envInit flash).data with
    | .error _ => some flash
    | .ok data =>
        some (cutOff (sealed data) (flashSteps (envInit flash).curdev) call.cut flash)

theorem invoke_reached {flash : Flash} {call : Invocation} {data : Data}
    (some_args : call.args ≠ []) (reached : edited call.args call.heap (envInit flash).data = .ok data) :
    invoke flash call =
      some (cutOff (sealed data) (flashSteps (envInit flash).curdev) call.cut flash) := by
  have count := List.length_pos_of_ne_nil some_args
  rw [invoke, if_neg (by omega), reached]

theorem invoke_whole {args : List Arg} {heap : Bytes} {flash t : Flash} {code : Int}
    (returned : fwSetenvs args heap working flash = some (code, t)) :
    invoke flash { args := args, heap := heap, cut := { done := 4, torn := none } } = some t := by
  rw [fwSetenvs] at returned
  rw [invoke]
  split at returned
  · cases Option.some.inj returned
    rename_i few
    rw [if_pos few]
  · rename_i enough
    rw [if_neg enough]
    split at returned
    · contradiction
    all_goals rename_i outcome; rw [outcome]
    · cases Option.some.inj returned
      rfl
    · cases Option.some.inj returned
      rfl
    · cases Option.some.inj returned
      rfl
    · rw [cutOff_whole] at returned
      cases Option.some.inj returned
      rfl

theorem cutOff_shape (new : Block) (other current : Fin 2) (apart : other ≠ current) (cut : Cut)
    (flash : Flash) (t : Flash)
    (left : t = cutOff new (partSteps other ++ partSteps current) cut flash) :
    (t current = flash current ∧ (t other = flash other ∨ ¬ (t other).Valid ∨ t other = new)) ∨
    (t other = new ∧ (¬ (t current).Valid ∨ t current = new)) := by
  obtain ⟨done,torn⟩ := cut
  subst left
  match done, torn with
  | 0, none => simp [cutOff, partSteps]
  | 0, some torn => simp [cutOff, partSteps, FlashStep.dev, apart.symm, torn.bad]
  | 1, none => simp [cutOff, partSteps, takeStep, apart.symm, erased_bad]
  | 1, some torn => simp [cutOff, partSteps, takeStep, FlashStep.dev, apart.symm, torn.bad]
  | 2, none => simp [cutOff, partSteps, takeStep, apart.symm]
  | 2, some torn => simp [cutOff, partSteps, takeStep, FlashStep.dev, apart, torn.bad]
  | 3, none => simp [cutOff, partSteps, takeStep, apart, erased_bad]
  | 3, some torn => simp [cutOff, partSteps, takeStep, FlashStep.dev, apart, torn.bad]
  | n + 4, torn => simp [cutOff, partSteps, takeStep, apart]

theorem cutOff_loads {flash : Flash} (valid : HasValid flash) (data : Data) (cut : Cut) :
    Loads (cutOff (sealed data) (flashSteps (envInit flash).curdev) cut flash) (envInit flash).data ∨
    Loads (cutOff (sealed data) (flashSteps (envInit flash).curdev) cut flash) data := by
  rw [loads_iff, loads_iff]
  rcases curdev_cases valid with ⟨first,valid0,same⟩ | ⟨second,bad0,valid1,same⟩
  · have steps : flashSteps (envInit flash).curdev = partSteps 1 ++ partSteps 0 := by
      simp [flashSteps, first]
    rw [steps, same]
    rcases cutOff_shape (sealed data) 1 0 (by decide) cut flash _ rfl with ⟨kept,-⟩ | ⟨new,bad | both⟩
    · left
      left
      rw [kept]
      exact ⟨valid0,rfl⟩
    · right
      right
      rw [new]
      exact ⟨bad,sealed_valid data,rfl⟩
    · right
      left
      rw [both]
      exact ⟨sealed_valid data,rfl⟩
  · have steps : flashSteps (envInit flash).curdev = partSteps 0 ++ partSteps 1 := by
      simp [flashSteps, second]
    rw [steps, same]
    rcases cutOff_shape (sealed data) 0 1 (by decide) cut flash _ rfl with
      ⟨kept,unread | bad | new⟩ | ⟨new,-⟩
    · left
      right
      rw [kept, unread]
      exact ⟨bad0,valid1,rfl⟩
    · left
      right
      rw [kept]
      exact ⟨bad,valid1,rfl⟩
    · right
      left
      rw [new]
      exact ⟨sealed_valid data,rfl⟩
    · right
      left
      rw [new]
      exact ⟨sealed_valid data,rfl⟩

/-- The next env_init loads what this one loaded, or the new environment. -/
def OldOrNew (flash : Flash) (call : Invocation) : Prop :=
  ∀ t, invoke flash call = some t → Loads t (envInit flash).data ∨
    ∃ data, edited call.args call.heap (envInit flash).data = .ok data ∧ Loads t data

theorem invoke_oldOrNew {flash : Flash} (valid : HasValid flash) (call : Invocation) :
    OldOrNew flash call := by
  intro t next
  unfold invoke at next
  split at next
  · cases Option.some.inj next
    exact Or.inl (loads_self valid)
  · split at next
    · cases Option.some.inj next
      exact Or.inl (loads_self valid)
    · rename_i data reached
      cases Option.some.inj next
      rcases cutOff_loads valid data call.cut with old | new
      · exact Or.inl old
      · exact Or.inr ⟨data,reached,new⟩

theorem invoke_valid (flash : Flash) (call : Invocation) (t : Flash) (valid : HasValid flash)
    (next : invoke flash call = some t) : HasValid t := by
  rcases invoke_oldOrNew valid call t next with old | ⟨data,-,new⟩
  · exact loads_valid old
  · exact loads_valid new

/-- However often power is lost, env_init finds the environment from before the last
    invocation or the new one. -/
theorem power_fail_safe {flash final : Flash} {visited : List (Flash × Invocation)}
    (valid : HasValid flash) (run : Run invoke flash visited final) :
    Every OldOrNew visited ∧ Throughout HasValid visited final := by
  have always := run.invariant valid invoke_valid
  exact ⟨fun p member => invoke_oldOrNew (always.1 p member) p.2,always⟩

def dataB : Data := fun i => (encode [entryB]).getD i 0

theorem prefix_ofFn (l : Bytes) (fits : l.length ≤ envSize) :
    l <+: List.ofFn fun i : Fin envSize => l.getD i 0 := by
  rw [List.prefix_iff_eq_take]
  apply List.ext_getElem
  · simp [fits]
  · intro i inside _
    simp [inside]

theorem encoded_wellFormed {es : List Entry} (distinct : (es.map Entry.name).Nodup)
    (fits : (encode es).length ≤ envSize) (heap : Bytes) :
    WellFormed envSize ((List.ofFn fun i : Fin envSize => (encode es).getD i 0) ++ heap) es where
  distinct := distinct
  fits := fits
  mapped := by simp
  laid := (prefix_ofFn _ fits).trans (List.prefix_append _ _)

def flashB : Flash := fun _ => sealed dataB

theorem flashB_valid : HasValid flashB := Or.inl (sealed_valid dataB)

theorem envInit_flashB : (envInit flashB).data = dataB := by
  have valid : (flashB 0).Valid := sealed_valid dataB
  rw [envInit, if_pos valid]
  rfl

theorem turns_drop (mapped : Nat) :
    turns envSize mapped [dropB.pair] (false, [entryB]) = .ok (true, []) := by
  simp [turns, turn, finds, defined, Setting.pair, dropB, entryB, Arg.key, equals, without, setOnce,
    ascii, Pair.Spills]

theorem edited_drop : ∃ data, edited (argv [dropB]) [0] (envInit flashB).data = .ok data := by
  rw [envInit_flashB]
  have image : WellFormed envSize (List.ofFn dataB ++ [0]) [entryB] :=
    encoded_wellFormed (by decide) (by decide) [0]
  obtain ⟨m',run,-⟩ := (setPairs_turns image [dropB.pair] none (by simp)).2 true [] (turns_drop _)
  refine ⟨fun i => m'.getD i 0,?_⟩
  rw [edited, argv_eq]
  exact congrArg _ run

def cutDrop : Invocation :=
  { args := argv [dropB], heap := [0], cut := { done := 3, torn := none } }

theorem cut_after_second_erase : ∃ data t,
    edited (argv [dropB]) [0] (envInit flashB).data = .ok data ∧
    Run invoke flashB [(flashB, cutDrop)] t ∧ HasValid t ∧ (Loads t dataB ∨ Loads t data) := by
  obtain ⟨data,reached⟩ := edited_drop
  have next : invoke flashB cutDrop = _ := invoke_reached (by simp [cutDrop, argv]) reached
  have run := Run.step next Run.done
  obtain ⟨every,_,final⟩ := power_fail_safe flashB_valid run
  refine ⟨data,_,reached,run,final,?_⟩
  rcases (every_cons.mp every).1 _ next with kept | ⟨other,same,new⟩
  · rw [envInit_flashB] at kept
    exact Or.inl kept
  · obtain rfl := Except.ok.inj (reached.symm.trans same)
    exact Or.inr new

end FwEnvFlash
