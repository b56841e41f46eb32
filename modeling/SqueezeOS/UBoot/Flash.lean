import SqueezeOS.UBoot.Crc32
import SqueezeOS.UBoot.FwEnv
import Mathlib.Algebra.GroupWithZero.Nat
import Mathlib.Data.List.OfFn
import Mathlib.Logic.Function.Basic

/- The two copies of the U-Boot environment in flash: env_init, which takes the first one
   whose checksum is right, and the end of fw_setenvs, which erases and writes both. The
   device and the memory can be read; what fails is said by the caller. -/
namespace FwEnvFlash
open FwEnv Crc32

/-- ENV_SIZE, getenvsize on either copy. -/
def envSize : Nat := 0x4000 - 4

abbrev Data := Fin envSize → UInt8

/-- One copy: the stored checksum and the data behind it. -/
structure Block where
  crc : UInt32
  data : Data

def Block.Valid (b : Block) : Prop := crc32 0 (List.ofFn b.data) = b.crc.toNat

instance (b : Block) : Decidable b.Valid :=
  inferInstanceAs (Decidable (crc32 0 (List.ofFn b.data) = b.crc.toNat))

-- What makes 0 and 1 the copies, under one name for all modules.
instance twoCopies : NeZero 2 := ⟨by decide⟩

abbrev Flash := Fin 2 → Block

def erased : Block := { crc := 0xffffffff, data := fun _ => 0xff }

def sealed (data : Data) : Block :=
  { crc := UInt32.ofNat (crc32 0 (List.ofFn data)), data := data }

/-- default_environment as fw_env.h configures it, with the NUL of the C string itself. -/
def defaultEnvironment : Bytes :=
  ascii "bootargs=root=/dev/mtdblock1 console=ttySAC0,115200 mem=64M init=/linuxrc" ++ [0] ++
  ascii "bootcmd=nandr $(kernelblock) 1d0000 30008000; setenv bootargs $(bootargs) mtdset=$(mtdset); bootm" ++
  [0] ++ ascii "bootdelay=1" ++ [0] ++
  ascii "sw6=echo Factory reset; blink; nande b00 1400000; blink" ++ [0] ++
  ascii "kernelblock=c" ++ [0] ++ ascii "mtdset=0" ++ [0] ++ [0] ++ [0]

/-- `warned` stands for the warning about the default environment. -/
structure Loaded where
  curdev : Fin 2
  data : Data
  warned : Bool

def envInit (flash : Flash) : Loaded :=
  if (flash 0).Valid then { curdev := 0, data := (flash 0).data, warned := false }
  else if (flash 1).Valid then { curdev := 1, data := (flash 1).data, warned := false }
  else
    -- The default is copied over the data of the second copy.
    { curdev := 0, data := fun i => defaultEnvironment.getD i ((flash 1).data i), warned := true }

/-- The data that fw_setenvs has in its buffer when it updates the CRC, where `heap` is
    the memory behind the buffer. -/
def edited (args : List Arg) (heap : Bytes) (old : Data) : Checked Data :=
  (setPairs envSize args none (List.ofFn old ++ heap)).map fun m i => m.getD i 0

/-- A block left behind by an erase or a write that did not come to its end. -/
structure Torn where
  block : Block
  bad : ¬ block.Valid

inductive Part where
  | complete
  | eraseRefused
  | eraseFailed (left : Torn)
  | mallocFailed
  | seekFailed
  | writeFailed (left : Torn)

def flashIoWritePart (new : Block) (otherdev : Fin 2) (part : Part) (flash : Flash) : Int × Flash :=
  match part with
  | .complete => (0, Function.update flash otherdev new)
  | .eraseRefused => (-1, flash)
  | .eraseFailed left => (-1, Function.update flash otherdev left.block)
  | .mallocFailed => (-1, Function.update flash otherdev erased)
  | .seekFailed => (-1, Function.update flash otherdev erased)
  | .writeFailed left => (-1, Function.update flash otherdev left.block)

structure Device where
  opens : Bool
  part : Fin 2 → Part
  closes : Bool

/-- HAVE_REDUND is set. What the parts return is not looked at. -/
def flashIoWrite (new : Block) (curdev : Fin 2) (device : Device) (flash : Flash) : Int × Flash :=
  if device.opens = false then (-1, flash)
  else
    let written :=
      if curdev = 0 then
        (flashIoWritePart new 0 (device.part 0) (flashIoWritePart new 1 (device.part 1) flash).2).2
      else
        (flashIoWritePart new 1 (device.part 1) (flashIoWritePart new 0 (device.part 0) flash).2).2
    if device.closes = false then (-1, written) else (0, written)

def einval : Int := 22

def erofs : Int := 30

def fwSetenvs (args : List Arg) (heap : Bytes) (device : Device) (flash : Flash) :
    Option (Int × Flash) :=
  if args.length + 1 < 2 then some (einval, flash)
  else
    match edited args heap (envInit flash).data with
    | .error .fault => none
    | .error .notTerminated => some (einval, flash)
    | .error .cantOverwrite => some (erofs, flash)
    | .error .overflow => some (-1, flash)
    | .ok data =>
        let result := flashIoWrite (sealed data) (envInit flash).curdev device flash
        if result.1 ≠ 0 then some (-1, result.2) else some (0, result.2)

theorem sealed_valid (data : Data) : (sealed data).Valid := by
  unfold Block.Valid sealed
  rw [UInt32.toNat_ofNat_of_lt' (crc32_lt _)]

theorem erased_bad : ¬ erased.Valid := by
  unfold Block.Valid erased
  have sum : crc32 0 (List.replicate envSize 0xff) = 0xa05a35aa := crc32_erased
  rw [List.ofFn_const, sum]
  decide

def HasValid (flash : Flash) : Prop := (flash 0).Valid ∨ (flash 1).Valid

def Loads (flash : Flash) (data : Data) : Prop :=
  (envInit flash).warned = false ∧ (envInit flash).data = data

theorem loads_iff (flash : Flash) (data : Data) : Loads flash data ↔
    ((flash 0).Valid ∧ (flash 0).data = data) ∨
    (¬ (flash 0).Valid ∧ (flash 1).Valid ∧ (flash 1).data = data) := by
  unfold Loads envInit
  by_cases first : (flash 0).Valid
  · simp [first]
  · by_cases second : (flash 1).Valid
    · simp [first, second]
    · simp [first, second]

theorem loads_valid {flash : Flash} {data : Data} (loads : Loads flash data) : HasValid flash := by
  rcases (loads_iff flash data).mp loads with ⟨first,-⟩ | ⟨-,second,-⟩
  · exact Or.inl first
  · exact Or.inr second

theorem loads_self {flash : Flash} (valid : HasValid flash) : Loads flash (envInit flash).data := by
  refine ⟨?_,rfl⟩
  unfold envInit
  rcases valid with first | second
  · simp [first]
  · by_cases first : (flash 0).Valid
    · simp [first]
    · simp [first, second]

theorem curdev_cases {flash : Flash} (valid : HasValid flash) :
    ((envInit flash).curdev = 0 ∧ (flash 0).Valid ∧ (envInit flash).data = (flash 0).data) ∨
    ((envInit flash).curdev = 1 ∧ ¬ (flash 0).Valid ∧ (flash 1).Valid ∧
      (envInit flash).data = (flash 1).data) := by
  unfold envInit
  by_cases first : (flash 0).Valid
  · simp [first]
  · have second : (flash 1).Valid := valid.resolve_left first
    simp [first, second]

end FwEnvFlash
