import Mathlib.Algebra.BigOperators.Group.List.Basic
import Mathlib.Algebra.GroupWithZero.Nat
import Mathlib.Algebra.Order.Group.Nat
import Mathlib.Data.List.Infix

/- Entries of some length, marked or not, and stretches of marked ones whose lengths add up to a
   limit at most. -/
namespace Stretches

abbrev Entry := Bool × Nat

def length (stretch : List Entry) : Nat := (stretch.map Prod.snd).sum

def Marked (stretch : List Entry) : Prop := ∀ e ∈ stretch, e.1 = true

def Bounded (limit : Nat) (entries : List Entry) : Prop :=
  ∀ stretch, stretch <:+: entries → Marked stretch → length stretch ≤ limit

/-- How long the stretch is that the entries end in, `sofar` before them; `none` when one gets
    too long. -/
def follow (limit sofar : Nat) : List Entry → Option Nat
  | [] => some sofar
  | (marked, n) :: rest =>
      if marked then if sofar + n ≤ limit then follow limit (sofar + n) rest else none
      else follow limit 0 rest

def lasting (moments : Bool) (entries : List Entry) : List Entry :=
  entries.filter fun e => moments || e.2 != 0

section
variable {limit sofar : Nat}

@[simp] theorem lasting_append (moments : Bool) (entries more : List Entry) :
    lasting moments (entries ++ more) = lasting moments entries ++ lasting moments more :=
  List.filter_append ..

theorem follow_append (entries more : List Entry) :
    follow limit sofar (entries ++ more) =
      (follow limit sofar entries).bind fun n => follow limit n more := by
  induction entries generalizing sofar with
  | nil => rfl
  | cons e entries ih =>
    obtain ⟨marked,n⟩ := e
    rw [List.cons_append, follow, follow]
    split
    · split
      · exact ih
      · rfl
    · exact ih

theorem follow_le {last : Nat} {entries : List Entry} (small : sofar ≤ limit)
    (ends : follow limit sofar entries = some last) : last ≤ limit := by
  induction entries generalizing sofar with
  | nil =>
    cases Option.some.inj ends
    exact small
  | cons e entries ih =>
    obtain ⟨marked,n⟩ := e
    rw [follow] at ends
    split at ends
    · split at ends
      · rename_i within
        exact ih within ends
      · contradiction
    · exact ih (Nat.zero_le limit) ends

theorem length_cons (e : Entry) (stretch : List Entry) :
    length (e :: stretch) = e.2 + length stretch := by
  simp [length]

theorem marked_cons {e : Entry} {stretch : List Entry} :
    Marked (e :: stretch) ↔ e.1 = true ∧ Marked stretch :=
  List.forall_mem_cons

def Begins (limit sofar : Nat) (entries : List Entry) : Prop :=
  ∀ stretch, stretch <+: entries → Marked stretch → sofar + length stretch ≤ limit

theorem begins_cons (e : Entry) (entries : List Entry) :
    Begins limit sofar (e :: entries) ↔
      sofar ≤ limit ∧ (e.1 = true → Begins limit (sofar + e.2) entries) := by
  constructor
  · intro begins
    refine ⟨begins [] List.nil_prefix (by simp [Marked]),?_⟩
    intro marked stretch first all
    have longer := begins (e :: stretch) (List.cons_prefix_cons.mpr ⟨rfl,first⟩)
      (marked_cons.mpr ⟨marked,all⟩)
    rw [length_cons] at longer
    omega
  · rintro ⟨small,later⟩ stretch first all
    cases stretch with
    | nil => exact small
    | cons f stretch =>
      obtain ⟨rfl,rest⟩ := List.cons_prefix_cons.mp first
      obtain ⟨marked,others⟩ := marked_cons.mp all
      have longer := later marked stretch rest others
      rw [length_cons]
      omega

theorem bounded_cons (e : Entry) (entries : List Entry) :
    Bounded limit (e :: entries) ↔ Begins limit 0 (e :: entries) ∧ Bounded limit entries := by
  unfold Bounded Begins
  simp only [List.infix_cons_iff, Nat.zero_add]
  constructor
  · intro bounded
    exact ⟨fun stretch first => bounded stretch (.inl first),
      fun stretch inner => bounded stretch (.inr inner)⟩
  · rintro ⟨first,later⟩ stretch (here | inner)
    · exact first stretch here
    · exact later stretch inner

theorem Begins.less {less : Nat} {entries : List Entry} (begins : Begins limit sofar entries)
    (below : less ≤ sofar) : Begins limit less entries := by
  intro stretch first all
  have longer := begins stretch first all
  omega

theorem Bounded.begins {entries : List Entry} (bounded : Bounded limit entries) :
    Begins limit 0 entries := by
  intro stretch first all
  rw [Nat.zero_add]
  exact bounded stretch first.isInfix all

theorem follow_isSome (small : sofar ≤ limit) (entries : List Entry) :
    (follow limit sofar entries).isSome = true ↔
      Begins limit sofar entries ∧ Bounded limit entries := by
  induction entries generalizing sofar with
  | nil => simp [follow, Begins, Bounded, length, small]
  | cons e entries ih =>
    obtain ⟨marked,n⟩ := e
    rw [follow, bounded_cons, begins_cons, begins_cons]
    cases marked with
    | false =>
      simp only [Bool.false_eq_true, if_false, false_implies, and_true, Nat.zero_le, true_and,
        small]
      rw [ih (Nat.zero_le limit)]
      exact ⟨And.right,fun bounded => ⟨bounded.begins,bounded⟩⟩
    | true =>
      simp only [if_true, true_implies, Nat.zero_le, true_and, small]
      split
      · rename_i within
        rw [ih within]
        constructor
        · rintro ⟨first,bounded⟩
          exact ⟨first,first.less (by omega),bounded⟩
        · rintro ⟨first,_,bounded⟩
          exact ⟨first,bounded⟩
      · rename_i beyond
        refine iff_of_false (by simp) ?_
        rintro ⟨first,_⟩
        exact beyond (first [] List.nil_prefix (by simp [Marked]))

theorem bounded_iff (entries : List Entry) :
    Bounded limit entries ↔ (follow limit 0 entries).isSome = true := by
  rw [follow_isSome (Nat.zero_le limit)]
  exact ⟨fun bounded => ⟨bounded.begins,bounded⟩,And.right⟩

theorem follow_moment (small : sofar ≤ limit) (moments marked : Bool) :
    follow limit sofar (lasting moments [(marked, 0)]) =
      some (if moments = true ∧ marked = false then 0 else sofar) := by
  cases moments <;> cases marked <;> simp [lasting, follow, small]

theorem follow_merge (moments marked : Bool) (m n : Nat) :
    follow limit sofar (lasting moments [(marked, m), (marked, n)]) =
      follow limit sofar (lasting moments [(marked, m + n)]) := by
  have both : (if sofar + m ≤ limit then
        if sofar + m + n ≤ limit then some (sofar + m + n) else none
      else none) = if sofar + (m + n) ≤ limit then some (sofar + (m + n)) else none := by
    rw [← Nat.add_assoc]
    split
    · rfl
    · rw [if_neg (by omega)]
  -- Without moments, an entry of no length is not there.
  cases moments <;> cases marked <;> by_cases hm : m = 0 <;> by_cases hn : n = 0
  all_goals
    simp [lasting, follow, hm, hn]
  · exact both
  · omega
  · exact both

end

end Stretches
