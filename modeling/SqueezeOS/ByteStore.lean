import Mathlib.Data.List.Basic
import Mathlib.Data.List.Range

/- Memory as bytes at places, with what a run of bytes stored at a place leaves to be read. -/
namespace ByteStore

abbrev Memory := Nat → UInt8

def store (m : Memory) (place : Nat) (bytes : List UInt8) : Memory :=
  fun a => if place ≤ a then bytes.getD (a - place) (m a) else m a

def load (m : Memory) (place length : Nat) : List UInt8 :=
  (List.range length).map fun i => m (place + i)

section
variable {m m' : Memory} {place length a : Nat} {bytes : List UInt8}

theorem store_apart (apart : a < place ∨ place + bytes.length ≤ a) :
    store m place bytes a = m a := by
  unfold store
  split
  · rw [List.getD_eq_getElem?_getD, List.getElem?_eq_none (by omega), Option.getD_none]
  · rfl

theorem load_congr (same : ∀ i < length, m' (place + i) = m (place + i)) :
    load m' place length = load m place length := by
  apply List.map_congr_left
  intro i inside
  exact same i (List.mem_range.mp inside)

theorem load_store_apart {place' : Nat}
    (apart : place + length ≤ place' ∨ place' + bytes.length ≤ place) :
    load (store m place' bytes) place length = load m place length := by
  apply load_congr
  intro i inside
  exact store_apart (by omega)

theorem load_store (m : Memory) (place : Nat) (bytes : List UInt8) :
    load (store m place bytes) place bytes.length = bytes := by
  apply List.ext_getElem
  · simp [load]
  · intro i _ inside
    simp [load, store, inside]

end

end ByteStore
