import Mathlib.Logic.Basic

/- A driver whose data a mutex guards, and the attributes user space reads and writes. -/
namespace Guarded

structure Driver (δ : Type) where
  locked : Bool
  data : δ
  deriving DecidableEq, Repr

def einval : Int := -22
def ebusy : Int := -16
def enomem : Int := -12

inductive Result where
  | error (errno : Int)
  | stored (count : Nat)
  | shown (text : String)
  deriving DecidableEq, Repr

variable {δ : Type}

/-- `none` for an operation that waits for the mutex and never gets it. -/
abbrev Operation (δ : Type) := Driver δ → Option (Result × Driver δ)

def mutexLock (rest : Operation δ) : Operation δ := fun s =>
  if s.locked then none else rest { s with locked := true }

def mutexUnlock (s : Driver δ) : Driver δ := { s with locked := false }

def Frees (outcome : Option (Result × Driver δ)) (good : Prop) : Prop :=
  ∃ result t, outcome = some (result, t) ∧ (t.locked = false ↔ good)

theorem frees_free {result : Result} {t : Driver δ} {good : Prop} (free : t.locked = false)
    (ok : good) : Frees (some (result, t)) good :=
  ⟨result,t,rfl,fun _ => ok,fun _ => free⟩

theorem frees_held {result : Result} {t : Driver δ} {good : Prop} (held : t.locked = true)
    (bad : ¬ good) : Frees (some (result, t)) good := by
  refine ⟨result,t,rfl,?_,fun ok => absurd ok bad⟩
  intro free
  rw [held] at free
  contradiction

theorem frees_ite {c : Prop} [Decidable c] {yes no : Option (Result × Driver δ)} {good : Prop}
    (pos : c → Frees yes good) (neg : ¬ c → Frees no good) :
    Frees (if c then yes else no) good := by
  by_cases h : c
  · rw [if_pos h]
    exact pos h
  · rw [if_neg h]
    exact neg h

theorem frees_mutexLock {rest : Operation δ} {s : Driver δ} {good : Prop} (free : s.locked = false)
    (guarded : Frees (rest { s with locked := true }) good) : Frees (mutexLock rest s) good := by
  unfold mutexLock
  rw [free]
  exact guarded

def showField (text : δ → String) : Operation δ :=
  mutexLock fun s => some (.shown (text s.data), mutexUnlock s)

theorem showField_frees (text : δ → String) {s : Driver δ} (free : s.locked = false) :
    Frees (showField text s) True :=
  frees_mutexLock free (frees_free rfl trivial)

/-- A value up to `max` that is noted first and then passed on to the device under the
    mutex; `ret` is what the transfer returns, and the device changes when that is no error. -/
def storeField (max : Nat) (note : Nat → δ → δ) (transfer : δ → δ) (val count : Nat) (ret : Int) :
    Operation δ := fun s =>
  if val > max then some (.error einval, s)
  else mutexLock (fun s =>
    if ret < 0 then some (.error ret, s)
    else some (.stored count, mutexUnlock { s with data := transfer s.data }))
      { s with data := note val s.data }

theorem storeField_frees (max : Nat) (note : Nat → δ → δ) (transfer : δ → δ) (val count : Nat)
    (ret : Int) {s : Driver δ} (free : s.locked = false) :
    Frees (storeField max note transfer val count ret s) (val > max ∨ 0 ≤ ret) := by
  unfold storeField
  apply frees_ite
  · intro refused
    exact frees_free free (.inl refused)
  · intro accepted
    refine frees_mutexLock (s := { s with data := note val s.data }) free ?_
    apply frees_ite
    · intro failed
      exact frees_held rfl (by omega)
    · intro passed
      exact frees_free rfl (by omega)

theorem storeField_cases {max : Nat} {note : Nat → δ → δ} {transfer : δ → δ} {val count : Nat}
    {ret : Int} {s t : Driver δ} {result : Result} (passed : 0 ≤ ret)
    (ran : storeField max note transfer val count ret s = some (result, t)) :
    (max < val ∧ t = s) ∨ (val ≤ max ∧ t.data = transfer (note val s.data)) := by
  simp only [storeField, mutexLock] at ran
  split at ran
  · rename_i refused
    cases Option.some.inj ran
    exact .inl ⟨refused,rfl⟩
  · rename_i accepted
    split at ran
    · contradiction
    · rw [if_neg (by omega)] at ran
      cases Option.some.inj ran
      exact .inr ⟨by omega,rfl⟩

end Guarded
