import Mathlib.Data.List.Basic

/- fw_env.c up to its CRC update: the search for a variable, and the work of fw_setenvs on
   the copy of the environment in memory. Memory is the list of the bytes that can be
   reached from environment.data on. The first `size` of them, ENV_SIZE in the source, are
   the environment, and what the heap holds next follows. An access past the list stops
   the program. -/
namespace FwEnv

abbrev Bytes := List UInt8

/-- Why fw_setenvs leaves early: a fault, or one of its three error messages. -/
inductive Stop where
  | fault
  | notTerminated
  | cantOverwrite
  | overflow
  deriving DecidableEq, Repr

abbrev Checked := Except Stop

def load (m : Bytes) (i : Nat) : Checked UInt8 :=
  match m[i]? with
  | some c => .ok c
  | none => .error .fault

def store (m : Bytes) (i : Nat) (c : UInt8) : Checked Bytes :=
  if i < m.length then .ok (m.set i c) else .error .fault

/-- A string of argv. envmatch may read past its NUL, into `after`. -/
structure Arg where
  text : Bytes
  after : Bytes
  noNul : ∀ c ∈ text, c ≠ 0

def Arg.bytes (s : Arg) : Bytes := s.text ++ 0 :: s.after

def ascii (s : String) : Bytes := s.toList.map fun c => UInt8.ofNat c.toNat

def equals : UInt8 := 61

/-- A pointer is the bytes from it on; nothing is NULL. -/
def envmatch : Bytes → Bytes → Checked (Option Bytes)
  | c :: s1, d :: s2 =>
      if c = d then
        if c = equals then .ok (some s2) else envmatch s1 s2
      else if c = 0 ∧ d = equals then .ok (some s2)
      else .ok none
  | _, _ => .error .fault

/-- The inner loop from `nxt` on: how many bytes stand before the NUL. The bound is looked
    at after the byte. -/
def findEnd (size nxt : Nat) : Bytes → Checked Nat
  | [] => .error .fault
  | c :: rest =>
      if c = 0 then .ok 0
      else if size ≤ nxt then .error .notTerminated
      else (findEnd size (nxt + 1) rest).map (· + 1)

structure Cursor where
  env : Nat
  nxt : Nat
  oldval : Option Bytes
  deriving DecidableEq, Repr

/-- The outer loop, the same in fw_getenv, fw_printenv and fw_setenvs. When it does not run
    at all `nxt` and `oldval` keep what they had. -/
def search (size : Nat) (name m : Bytes) (env nxt : Nat) (oldval : Option Bytes) :
    Checked Cursor :=
  if env < m.length then
    if m[env]? = some 0 then .ok { env := env, nxt := nxt, oldval := oldval }
    else do
      let n ← findEnd size env (m.drop env)
      match ← envmatch name (m.drop env) with
      | some val => .ok { env := env, nxt := env + n, oldval := some val }
      | none => search size name m (env + n + 1) (env + n) none
  else .error .fault
termination_by m.length - env

/-- Nothing is NULL, also for an environment that is not terminated. -/
def fwGetenv (size : Nat) (name : Arg) (m : Bytes) : Checked (Option Bytes) :=
  match search size name.bytes m 0 0 none with
  | .ok found => .ok found.oldval
  | .error .notTerminated => .ok none
  | .error stop => .error stop

def cString (p : Bytes) : Bytes := p.takeWhile (· ≠ 0)

def moveDown (m : Bytes) (env nxt : Nat) : Checked (Bytes × Nat) :=
  if inside : env < m.length ∧ nxt < m.length then
    let c := m[nxt]
    let moved := m.set env c
    if c = 0 then do
      if (← load moved (nxt + 1)) = 0 then .ok (moved, env)
      else moveDown moved (env + 1) (nxt + 1)
    else moveDown moved (env + 1) (nxt + 1)
  else .error .fault
termination_by m.length - nxt
decreasing_by all_goals simp only [List.length_set]; omega

def deleteEntry (m : Bytes) (env nxt : Nat) : Checked (Bytes × Nat) := do
  let behind ← load m (nxt + 1)
  let (moved, env) ←
    if behind = 0 then (store m env 0).map fun cleared => (cleared, env)
    else moveDown m env (nxt + 1)
  (store moved (env + 1) 0).map fun closed => (closed, env + 1)

def terminator (env : Nat) : Bytes → Checked Nat
  | [] => .error .fault
  | [c] => if c = 0 then .error .fault else terminator (env + 1) []
  | c :: d :: rest =>
      if c ≠ 0 ∨ d ≠ 0 then terminator (env + 1) (d :: rest) else .ok env

def copyString (m : Bytes) (env : Nat) : Bytes → Checked (Bytes × Nat)
  | [] => .error .fault
  | c :: rest => do
      let m ← store m env c
      if c = 0 then .ok (m, env) else copyString m (env + 1) rest

def appendEntry (size : Nat) (m : Bytes) (name value : Arg) : Checked (Bytes × Nat) := do
  let found ← terminator 0 m
  let env := if 0 < found then found + 1 else found
  let len : Int := name.text.length + 2 + (value.text.length + 1)
  if len > (size : Int) - env then .error .overflow
  else
    let (m, env) ← copyString m env name.bytes
    let m ← store m env equals
    copyString m (env + 1) value.bytes

def setOnce (name : Bytes) : Prop := name = ascii "ethaddr" ∨ name = ascii "serial#"

instance (name : Bytes) : Decidable (setOnce name) :=
  inferInstanceAs (Decidable (name = ascii "ethaddr" ∨ name = ascii "serial#"))

/-- One turn of the loop over the arguments. A value that argv does not have is NULL, on
    which strlen faults. -/
def setPair (size : Nat) (name : Arg) (value : Option Arg) (oldval : Option Bytes)
    (m : Bytes) : Checked (Option Bytes × Bytes) := do
  let found ← search size name.bytes m 0 0 oldval
  let (m, env) ←
    if found.oldval.isSome then
      if setOnce name.text then .error .cantOverwrite
      else deleteEntry m found.env found.nxt
    else .ok (m, found.env)
  match value with
  | none => .error .fault
  | some value =>
      let (m, env) ← if value.text ≠ [] then appendEntry size m name value else .ok (m, env)
      let m ← store m (env + 1) 0
      .ok (found.oldval, m)

def setPairs (size : Nat) : List Arg → Option Bytes → Bytes → Checked Bytes
  | [], _, m => .ok m
  | [name], oldval, m => (setPair size name none oldval m).map Prod.snd
  | name :: value :: rest, oldval, m => do
      let (oldval, m) ← setPair size name (some value) oldval m
      setPairs size rest oldval m

end FwEnv
