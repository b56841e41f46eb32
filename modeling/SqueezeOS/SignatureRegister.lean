import Mathlib.Data.List.Basic
import Mathlib.Algebra.Group.Nat.Defs

/- Registers that take in one symbol after the other and are compared at the end. A register is a
   row of cells that shifts, so that what is in the cell filled last tells what was fed into it. -/
namespace SignatureRegister

variable {S D F : Type}

/-- `fed` is what a step lets into the row: the symbol, mixed with what falls out. `Agree n` compares
    the `n` cells that were filled last. -/
structure Register (S D F : Type) where
  step : S → D → S
  fed : S → D → F
  cells : Nat
  Agree : Nat → S → S → Prop
  some_cell : 0 < cells
  agree_refl : ∀ n s, Agree n s s
  agree_all : ∀ s t, Agree cells s t → s = t
  agree_back : ∀ n s t d e, n < cells → Agree (n + 1) (step s d) (step t e) →
    fed s d = fed t e ∧ Agree n s t
  fed_symbol : ∀ s d e, fed s d = fed s e → d = e
  fed_state : ∀ s t d, fed s d = fed t d → Agree (cells - 1) s t → s = t

variable (r : Register S D F)

def Register.run (s : S) (symbols : List D) : S := symbols.foldl r.step s

theorem run_append (s : S) (first later : List D) :
    r.run s (first ++ later) = r.run (r.run s first) later := List.foldl_append

variable {r} {s t : S}

theorem step_injective (d : D) (same : r.step s d = r.step t d) : s = t := by
  obtain ⟨n,cells⟩ : ∃ n, r.cells = n + 1 := ⟨r.cells - 1,by have := r.some_cell; omega⟩
  have agree : r.Agree (n + 1) (r.step s d) (r.step t d) := same ▸ r.agree_refl _ _
  obtain ⟨fed,before⟩ := r.agree_back n s t d d (by omega) agree
  refine r.fed_state s t d fed ?_
  rw [cells]
  exact before

theorem run_injective (symbols : List D) (same : r.run s symbols = r.run t symbols) : s = t := by
  induction symbols generalizing s t with
  | nil => exact same
  | cons d symbols ih => exact step_injective d (ih same)

theorem run_agree {n : Nat} {u v : List D} (long : u.length = v.length)
    (inside : n + u.length ≤ r.cells) (agree : r.Agree (n + u.length) (r.run s u) (r.run t v)) :
    r.Agree n s t := by
  induction u generalizing s t n v with
  | nil =>
    cases List.length_eq_zero_iff.mp long.symm
    exact agree
  | cons d u ih =>
    obtain ⟨e,v,rfl⟩ : ∃ e w, v = e :: w := List.exists_cons_of_length_pos (by simp [← long])
    have count : n + (d :: u).length = n + 1 + u.length := by
      rw [List.length_cons]
      omega
    rw [count] at agree inside
    have one := ih (Nat.succ.inj long) inside agree
    exact (r.agree_back n s t d e (by omega) one).2

theorem window_injective {u v : List D} (long : u.length = v.length) (short : u.length ≤ r.cells)
    (same : r.run s u = r.run s v) : u = v := by
  induction u generalizing s v with
  | nil => exact (List.length_eq_zero_iff.mp long.symm).symm
  | cons d u ih =>
    obtain ⟨e,v,rfl⟩ : ∃ e w, v = e :: w := List.exists_cons_of_length_pos (by simp [← long])
    have count : u.length = v.length := Nat.succ.inj long
    have room : 1 + u.length ≤ r.cells := by
      rw [List.length_cons] at short
      omega
    have agree : r.Agree (1 + u.length) (r.run (r.step s d) u) (r.run (r.step s e) v) := by
      change r.Agree _ (r.run s (d :: u)) (r.run s (e :: v))
      rw [same]
      exact r.agree_refl _ _
    have first := run_agree count room agree
    obtain rfl := r.fed_symbol s d e (r.agree_back 0 s s d e r.some_cell first).1
    rw [ih count (by omega) same]

/-- A change of symbols that lie no farther apart than there are cells changes the register. -/
theorem burst_detected {u v : List D} (front behind : List D) (long : u.length = v.length)
    (short : u.length ≤ r.cells) (changed : u ≠ v) :
    r.run s (front ++ u ++ behind) ≠ r.run s (front ++ v ++ behind) := by
  intro same
  simp only [run_append] at same
  exact changed (window_injective long short (run_injective behind same))

end SignatureRegister
