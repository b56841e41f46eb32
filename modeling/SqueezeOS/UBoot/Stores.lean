import SqueezeOS.UBoot.FwEnv
import Mathlib.Data.List.Induction

/- The part of fw_setenvs that stores into the buffer, over any meaning of a store. With `store`
   it is the program; other meanings tell which stores it makes, and what it does when a store
   behind the buffer goes through. -/
namespace FwEnv

abbrev Storing := Bytes → Nat → UInt8 → Checked Bytes

/-- A store behind the buffer goes through and changes nothing that is read. -/
def storeThrough : Storing := fun m i c => .ok (m.set i c)

section
variable (st : Storing)

def deleteEntryWith (m : Bytes) (env nxt : Nat) : Checked (Bytes × Nat) := do
  let behind ← load m (nxt + 1)
  let (moved, env) ←
    if behind = 0 then (st m env 0).map fun cleared => (cleared, env)
    else moveDown m env (nxt + 1)
  (st moved (env + 1) 0).map fun closed => (closed, env + 1)

def copyStringWith (m : Bytes) (env : Nat) : Bytes → Checked (Bytes × Nat)
  | [] => .error .fault
  | c :: rest => do
      let m ← st m env c
      if c = 0 then .ok (m, env) else copyStringWith m (env + 1) rest

def appendEntryWith (size : Nat) (m : Bytes) (name value : Arg) : Checked (Bytes × Nat) := do
  let found ← terminator 0 m
  let env := if 0 < found then found + 1 else found
  let len : Int := name.text.length + 2 + (value.text.length + 1)
  if len > (size : Int) - env then .error .overflow
  else
    let (m, env) ← copyStringWith st m env name.bytes
    let m ← st m env equals
    copyStringWith st m (env + 1) value.bytes

def setPairWith (size : Nat) (name : Arg) (value : Option Arg) (oldval : Option Bytes)
    (m : Bytes) : Checked (Option Bytes × Bytes) := do
  let found ← search size name.bytes m 0 0 oldval
  let (m, env) ←
    if found.oldval.isSome then
      if setOnce name.text then .error .cantOverwrite
      else deleteEntryWith st m found.env found.nxt
    else .ok (m, found.env)
  match value with
  | none => .error .fault
  | some value =>
      let (m, env) ← if value.text ≠ [] then appendEntryWith st size m name value else .ok (m, env)
      let m ← st m (env + 1) 0
      .ok (found.oldval, m)

def setPairsWith (size : Nat) : List Arg → Option Bytes → Bytes → Checked Bytes
  | [], _, m => .ok m
  | [name], oldval, m => (setPairWith st size name none oldval m).map Prod.snd
  | name :: value :: rest, oldval, m => do
      let (oldval, m) ← setPairWith st size name (some value) oldval m
      setPairsWith size rest oldval m

end

theorem copyStringWith_store (m : Bytes) (env : Nat) (text : Bytes) :
    copyStringWith store m env text = copyString m env text := by
  induction text generalizing m env with
  | nil => rfl
  | cons c text ih => simp only [copyStringWith, copyString, ih]

theorem appendEntryWith_store (size : Nat) (m : Bytes) (name value : Arg) :
    appendEntryWith store size m name value = appendEntry size m name value := by
  simp only [appendEntryWith, appendEntry, copyStringWith_store]

theorem setPairWith_store (size : Nat) (name : Arg) (value : Option Arg) (oldval : Option Bytes)
    (m : Bytes) : setPairWith store size name value oldval m = setPair size name value oldval m := by
  simp only [setPairWith, setPair, appendEntryWith_store]
  rfl

theorem setPairsWith_store (size : Nat) (args : List Arg) (oldval : Option Bytes) (m : Bytes) :
    setPairsWith store size args oldval m = setPairs size args oldval m := by
  induction args using List.twoStepInduction generalizing oldval m with
  | nil => rfl
  | singleton name => simp only [setPairsWith, setPairs, setPairWith_store]
  | cons_cons name value rest ih _ => simp only [setPairsWith, setPairs, setPairWith_store, ih]

end FwEnv
