import SqueezeOS.UBoot.PowerFail

/- What the return value of fw_setenvs says when calls inside flash_io_write fail. -/
namespace FwEnvFlash
open FwEnv

/-- What fw_setenvs returns tells what the next env_init loads: the new environment after
    0, the old or the new one after an error. -/
def Truthful (args : List Arg) (heap : Bytes) (device : Device) (flash : Flash) : Prop :=
  ∀ code t, fwSetenvs args heap device flash = some (code, t) →
    (code = 0 → ∃ data, edited args heap (envInit flash).data = .ok data ∧ Loads t data) ∧
    (code ≠ 0 → Loads t (envInit flash).data ∨
      ∃ data, edited args heap (envInit flash).data = .ok data ∧ Loads t data)

/-- The part leaves the data in its copy: it ran to its end, or its erase was refused and
    the copy held them already. -/
def Part.Keeps (data : Data) (b : Block) : Part → Prop
  | .complete => True
  | .eraseRefused => b.Valid ∧ b.data = data
  | _ => False

def Part.Loses (b : Block) : Part → Prop
  | .complete => False
  | .eraseRefused => ¬ b.Valid
  | _ => True

def Stored (data old : Data) (device : Device) (flash : Flash) : Prop :=
  if device.closes = true then
    (device.part 0).Keeps data (flash 0) ∨
      ((device.part 0).Loses (flash 0) ∧ (device.part 1).Keeps data (flash 1))
  else
    ¬ (device.part 0).Loses (flash 0) ∨ (device.part 1).Keeps data (flash 1) ∨
      (device.part 1 = .eraseRefused ∧ (flash 1).Valid ∧ (flash 1).data = old)

def Part.leaves (new b : Block) : Part → Block
  | .complete => new
  | .eraseRefused => b
  | .eraseFailed left => left.block
  | .mallocFailed => erased
  | .seekFailed => erased
  | .writeFailed left => left.block

theorem flashIoWritePart_flash (new : Block) (otherdev : Fin 2) (part : Part) (flash : Flash) :
    (flashIoWritePart new otherdev part flash).2 =
      Function.update flash otherdev (part.leaves new (flash otherdev)) := by
  cases part with
  | eraseRefused => exact (Function.update_eq_self otherdev flash).symm
  | _ => rfl

theorem flashIoWrite_open {device : Device} (opens : device.opens = true) (new : Block)
    (curdev : Fin 2) (flash : Flash) :
    flashIoWrite new curdev device flash =
      (if device.closes = true then 0 else -1, fun c => (device.part c).leaves new (flash c)) := by
  have blocks : ∀ a b : Fin 2, a ≠ b →
      (flashIoWritePart new b (device.part b) (flashIoWritePart new a (device.part a) flash).2).2 =
        fun c => (device.part c).leaves new (flash c) := by
    intro a b apart
    rw [flashIoWritePart_flash, flashIoWritePart_flash, Function.update_of_ne apart.symm]
    funext c
    have one_of : c = b ∨ c = a := by omega
    rcases one_of with rfl | rfl
    · rw [Function.update_self]
    · rw [Function.update_of_ne apart, Function.update_self]
  unfold flashIoWrite
  rw [blocks 1 0 (by decide), blocks 0 1 (by decide)]
  cases closes : device.closes <;> simp [opens]

theorem leaves_keeps (data : Data) (b : Block) (part : Part) :
    (part.leaves (sealed data) b).Valid ∧ (part.leaves (sealed data) b).data = data ↔
      part.Keeps data b := by
  cases part with
  | complete => exact ⟨fun _ => trivial,fun _ => ⟨sealed_valid data,rfl⟩⟩
  | eraseRefused => exact Iff.rfl
  | eraseFailed left => exact ⟨fun found => left.bad found.1,False.elim⟩
  | mallocFailed => exact ⟨fun found => erased_bad found.1,False.elim⟩
  | seekFailed => exact ⟨fun found => erased_bad found.1,False.elim⟩
  | writeFailed left => exact ⟨fun found => left.bad found.1,False.elim⟩

theorem leaves_loses (data : Data) (b : Block) (part : Part) :
    ¬ (part.leaves (sealed data) b).Valid ↔ part.Loses b := by
  cases part with
  | complete => exact ⟨fun bad => bad (sealed_valid data),False.elim⟩
  | eraseRefused => exact Iff.rfl
  | eraseFailed left => exact ⟨fun _ => trivial,fun _ => left.bad⟩
  | mallocFailed => exact ⟨fun _ => trivial,fun _ => erased_bad⟩
  | seekFailed => exact ⟨fun _ => trivial,fun _ => erased_bad⟩
  | writeFailed left => exact ⟨fun _ => trivial,fun _ => left.bad⟩

theorem leaves_valid {data : Data} {b : Block} {part : Part}
    (valid : (part.leaves (sealed data) b).Valid) :
    part.Keeps data b ∨ (part = .eraseRefused ∧ b.Valid) := by
  cases part with
  | complete => exact Or.inl trivial
  | eraseRefused => exact Or.inr ⟨rfl,valid⟩
  | eraseFailed left => exact absurd valid left.bad
  | mallocFailed => exact absurd valid erased_bad
  | seekFailed => exact absurd valid erased_bad
  | writeFailed left => exact absurd valid left.bad

theorem loads_new_iff (data : Data) (device : Device) (flash : Flash) :
    Loads (fun c => (device.part c).leaves (sealed data) (flash c)) data ↔
      (device.part 0).Keeps data (flash 0) ∨
        ((device.part 0).Loses (flash 0) ∧ (device.part 1).Keeps data (flash 1)) := by
  rw [loads_iff, leaves_keeps, leaves_keeps, leaves_loses]

theorem loads_either_of_valid {flash : Flash} (data : Data) (device : Device)
    (kept : ¬ (device.part 0).Loses (flash 0)) :
    Loads (fun c => (device.part c).leaves (sealed data) (flash c)) (envInit flash).data ∨
    Loads (fun c => (device.part c).leaves (sealed data) (flash c)) data := by
  have valid := not_not.mp (mt (leaves_loses data (flash 0) (device.part 0)).mp kept)
  rcases leaves_valid valid with keeps | ⟨refused,before⟩
  · exact Or.inr ((loads_new_iff data device flash).mpr (Or.inl keeps))
  · left
    rw [loads_iff]
    left
    rw [refused]
    have old : (envInit flash).data = (flash 0).data := by simp [envInit, before]
    exact ⟨before,old.symm⟩

theorem loads_either_iff {flash : Flash} (data : Data) (device : Device) :
    Loads (fun c => (device.part c).leaves (sealed data) (flash c)) (envInit flash).data ∨
    Loads (fun c => (device.part c).leaves (sealed data) (flash c)) data ↔
      ¬ (device.part 0).Loses (flash 0) ∨ (device.part 1).Keeps data (flash 1) ∨
        (device.part 1 = .eraseRefused ∧ (flash 1).Valid ∧ (flash 1).data = (envInit flash).data) := by
  by_cases lost : (device.part 0).Loses (flash 0)
  · have bad := (leaves_loses data (flash 0) (device.part 0)).mpr lost
    constructor
    · rintro (old | new)
      · rcases (loads_iff _ _).mp old with ⟨valid,-⟩ | ⟨-,valid,same⟩
        · exact absurd valid bad
        · rcases leaves_valid valid with keeps | ⟨refused,before⟩
          · exact Or.inr (Or.inl keeps)
          · rw [refused] at same
            exact Or.inr (Or.inr ⟨refused,before,same⟩)
      · rcases (loads_iff _ _).mp new with ⟨valid,-⟩ | ⟨-,found⟩
        · exact absurd valid bad
        · exact Or.inr (Or.inl ((leaves_keeps _ _ _).mp found))
    · rintro (kept | keeps | ⟨refused,before,same⟩)
      · exact absurd lost kept
      · exact Or.inr ((loads_new_iff data device flash).mpr (Or.inr ⟨lost,keeps⟩))
      · left
        rw [loads_iff]
        right
        rw [refused]
        exact ⟨bad,before,same⟩
  · exact ⟨fun _ => Or.inl lost,fun _ => loads_either_of_valid data device lost⟩

theorem fwSetenvs_early {args : List Arg} {heap : Bytes} {device : Device} {flash t : Flash}
    {code : Int} (early : args = [] ∨ ∃ stop, edited args heap (envInit flash).data = .error stop)
    (returned : fwSetenvs args heap device flash = some (code, t)) : code ≠ 0 ∧ t = flash := by
  unfold fwSetenvs at returned
  rcases early with rfl | ⟨stop,stopped⟩
  · cases Option.some.inj returned
    exact ⟨by decide,rfl⟩
  · rw [stopped] at returned
    split at returned
    · cases Option.some.inj returned
      exact ⟨by decide,rfl⟩
    · cases stop with
      | fault => cases returned
      | notTerminated =>
        cases Option.some.inj returned
        exact ⟨by decide,rfl⟩
      | cantOverwrite =>
        cases Option.some.inj returned
        exact ⟨by decide,rfl⟩
      | overflow =>
        cases Option.some.inj returned
        exact ⟨by decide,rfl⟩

theorem fwSetenvs_written {args : List Arg} {heap : Bytes} {device : Device} {flash : Flash}
    {data : Data} (some_args : args ≠ [])
    (reached : edited args heap (envInit flash).data = .ok data) :
    fwSetenvs args heap device flash =
      if device.opens = true then
        some (if device.closes = true then 0 else -1,
          fun c => (device.part c).leaves (sealed data) (flash c))
      else some (-1, flash) := by
  have count := List.length_pos_of_ne_nil some_args
  rw [fwSetenvs, if_neg (by omega), reached]
  cases opens : device.opens with
  | false => simp [flashIoWrite, opens]
  | true =>
    simp only [flashIoWrite_open opens, if_true]
    cases device.closes <;> simp

theorem truthful_written {args : List Arg} {heap : Bytes} {device : Device} {flash : Flash}
    {data : Data} (some_args : args ≠ []) (opens : device.opens = true)
    (reached : edited args heap (envInit flash).data = .ok data) :
    Truthful args heap device flash ↔ Stored data (envInit flash).data device flash := by
  have only : ∀ t, (∃ other, edited args heap (envInit flash).data = .ok other ∧ Loads t other) ↔
      Loads t data := by
    intro t
    simp [reached]
  unfold Truthful Stored
  simp only [fwSetenvs_written some_args reached, opens, if_true, Option.some.injEq, Prod.mk.injEq,
    only]
  cases closes : device.closes with
  | true =>
    rw [if_pos rfl, ← loads_new_iff]
    constructor
    · intro truthful
      exact (truthful 0 _ ⟨by simp,rfl⟩).1 rfl
    · rintro loads code t ⟨rfl,rfl⟩
      exact ⟨fun _ => loads,fun failed => absurd rfl failed⟩
  | false =>
    rw [if_neg (by decide), ← loads_either_iff]
    constructor
    · intro truthful
      exact (truthful (-1) _ ⟨by simp,rfl⟩).2 (by decide)
    · rintro loads code t ⟨rfl,rfl⟩
      exact ⟨fun done => absurd done (by simp),fun _ => loads⟩

/-- fw_setenvs tells the truth exactly when it stops before the flash, cannot open the
    device, or its parts leave the environment where env_init looks for it. -/
theorem truthful_iff {flash : Flash} (valid : HasValid flash) (args : List Arg) (heap : Bytes)
    (device : Device) : Truthful args heap device flash ↔
      args = [] ∨ ∀ data, edited args heap (envInit flash).data = .ok data →
        device.opens = true → Stored data (envInit flash).data device flash := by
  have unchanged : ∀ {code : Int} {t : Flash}, code ≠ 0 ∧ t = flash →
      (code = 0 → ∃ data, edited args heap (envInit flash).data = .ok data ∧ Loads t data) ∧
      (code ≠ 0 → Loads t (envInit flash).data ∨
        ∃ data, edited args heap (envInit flash).data = .ok data ∧ Loads t data) := by
    rintro code t ⟨failed,rfl⟩
    exact ⟨fun zero => absurd zero failed,fun _ => Or.inl (loads_self valid)⟩
  by_cases none : args = []
  · refine ⟨fun _ => Or.inl none,fun _ code t returned => unchanged ?_⟩
    exact fwSetenvs_early (Or.inl none) returned
  · cases reached : edited args heap (envInit flash).data with
    | error stop =>
      refine ⟨fun _ => Or.inr (by simp),fun _ code t returned => ?_⟩
      exact unchanged (fwSetenvs_early (Or.inr ⟨stop,reached⟩) returned)
    | ok data =>
      by_cases opens : device.opens = true
      · rw [truthful_written none opens reached]
        simp [none, opens]
      · refine ⟨fun _ => Or.inr (by simp [opens]),fun _ code t returned => unchanged ?_⟩
        rw [fwSetenvs_written none reached, if_neg opens] at returned
        cases Option.some.inj returned
        exact ⟨by decide,rfl⟩

def failing : Device :=
  { opens := true, closes := true, part := fun _ => .writeFailed { block := erased, bad := erased_bad } }

/-- fw_setenv b "" returns 0, and the next env_init has to take the default. -/
theorem lost_but_reported_written : HasValid flashB ∧
    ∃ t, fwSetenvs (argv [dropB]) [0] failing flashB = some (0, t) ∧ (envInit t).warned = true ∧
      ¬ Truthful (argv [dropB]) [0] failing flashB := by
  obtain ⟨data,reached⟩ := edited_drop
  have returned : fwSetenvs (argv [dropB]) [0] failing flashB = some (0, fun _ => erased) :=
    fwSetenvs_written (by simp [argv]) reached
  have warned : (envInit fun _ => erased).warned = true := by simp [envInit, erased_bad]
  refine ⟨flashB_valid,_,returned,warned,?_⟩
  intro truthful
  obtain ⟨other,-,found,-⟩ := (truthful 0 _ returned).1 rfl
  exact Bool.noConfusion (warned.symm.trans found)

theorem written_and_reported : HasValid flashB ∧ ∃ data t,
    edited (argv [dropB]) [0] (envInit flashB).data = .ok data ∧
    fwSetenvs (argv [dropB]) [0] working flashB = some (0, t) ∧ Loads t data := by
  obtain ⟨data,reached⟩ := edited_drop
  have returned : fwSetenvs (argv [dropB]) [0] working flashB = some (0, fun _ => sealed data) :=
    fwSetenvs_written (by simp [argv]) reached
  have truthful := (truthful_iff flashB_valid (argv [dropB]) [0] working).mpr
    (Or.inr fun _ _ _ => Or.inl trivial)
  obtain ⟨other,same,loads⟩ := (truthful 0 _ returned).1 rfl
  obtain rfl := Except.ok.inj (reached.symm.trans same)
  exact ⟨flashB_valid,data,_,reached,returned,loads⟩

end FwEnvFlash
