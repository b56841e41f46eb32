import Mathlib.Data.List.Induction
import Mathlib.Order.Lattice

/- Searching a list for an entry whose key is the largest one up to a bound. -/
namespace LargestUpTo

variable {α κ : Type} [LinearOrder κ]

structure Largest (key : α → κ) (entries : List α) (most : κ) (x : α) : Prop where
  entry : x ∈ entries
  upTo : key x ≤ most
  largest : ∀ y ∈ entries, key y ≤ most → key y ≤ key x

def NoneUpTo (key : α → κ) (entries : List α) (most : κ) : Prop := ∀ y ∈ entries, most < key y

def Found (key : α → κ) (entries : List α) (most : κ) : Option α → Prop
  | none => NoneUpTo key entries most
  | some x => Largest key entries most x

def better (key : α → κ) (most : κ) : Option α → α → Option α
  | none, x => if key x ≤ most then some x else none
  | some y, x => if key x ≤ most ∧ key y < key x then some x else some y

section
variable {key : α → κ} {seen : List α} {most : κ} {x y : α}

theorem NoneUpTo.append (above : NoneUpTo key seen most) (next : most < key x) :
    NoneUpTo key (seen ++ [x]) most := by
  intro z member
  rcases List.mem_append.mp member with old | new
  · exact above z old
  · rwa [List.mem_singleton.mp new]

theorem Largest.append (largest : Largest key seen most y) (less : key x ≤ most → key x ≤ key y) :
    Largest key (seen ++ [x]) most y := by
  refine ⟨List.mem_append_left _ largest.entry,largest.upTo,?_⟩
  intro z member upTo
  rcases List.mem_append.mp member with old | new
  · exact largest.largest z old upTo
  · rw [List.mem_singleton.mp new] at upTo ⊢
    exact less upTo

theorem largest_last (upTo : key x ≤ most) (less : ∀ z ∈ seen, key z ≤ most → key z ≤ key x) :
    Largest key (seen ++ [x]) most x := by
  refine ⟨List.mem_append_right _ (List.mem_singleton_self x),upTo,?_⟩
  intro z member within
  rcases List.mem_append.mp member with old | new
  · exact less z old within
  · exact (congrArg key (List.mem_singleton.mp new)).le

theorem Found.next {got : Option α} (found : Found key seen most got) (x : α) :
    Found key (seen ++ [x]) most (better key most got x) := by
  cases got with
  | none =>
    simp only [better]
    split
    · rename_i upTo
      exact largest_last upTo fun z old within => absurd within (not_le.mpr (found z old))
    · rename_i notUpTo
      exact NoneUpTo.append found (not_le.mp notUpTo)
  | some y =>
    simp only [better]
    split
    · rename_i larger
      exact largest_last larger.1 fun z old within =>
        (Largest.largest found z old within).trans larger.2.le
    · rename_i notLarger
      exact Largest.append found fun upTo => not_lt.mp fun less => notLarger ⟨upTo,less⟩

theorem search_found (key : α → κ) (most : κ) (entries : List α) :
    Found key entries most (entries.foldl (better key most) none) := by
  induction entries using List.reverseRecOn with
  | nil => exact fun _ member => nomatch member
  | append_singleton seen x ih =>
    rw [List.foldl_append]
    exact ih.next x

theorem Found.largest {got : Option α} (found : Found key seen most got) (same : got = some x) :
    Largest key seen most x := by
  rwa [same] at found

theorem Found.none_iff {got : Option α} (found : Found key seen most got) :
    got = none ↔ NoneUpTo key seen most := by
  cases got with
  | none => exact iff_of_true rfl found
  | some x =>
    refine iff_of_false (nomatch ·) ?_
    intro above
    exact not_lt.mpr (Largest.upTo found) (above x (Largest.entry found))

theorem Largest.key_eq (one : Largest key seen most x) (two : Largest key seen most y) :
    key x = key y :=
  le_antisymm (two.largest x one.entry one.upTo) (one.largest y two.entry two.upTo)

theorem Found.widen {more : κ} {got : Option α} (found : Found key seen most got)
    (wider : most ≤ more) (gap : ∀ z ∈ seen, key z ≤ more → key z ≤ most) :
    Found key seen more got := by
  cases got with
  | none =>
    intro z member
    exact not_le.mp fun within => not_le.mpr (found z member) (gap z member within)
  | some x =>
    obtain ⟨entry,upTo,largest⟩ := found
    exact ⟨entry,upTo.trans wider,fun z member within => largest z member (gap z member within)⟩

end

end LargestUpTo
