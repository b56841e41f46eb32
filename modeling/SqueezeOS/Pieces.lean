import Mathlib.Algebra.GroupWithZero.Nat
import Mathlib.Data.List.Basic

/- Lists cut into pieces at the elements that split them, and joined again. -/
namespace Pieces

variable {α : Type} {p : α → Bool} {list : List α}

theorem splitOnP_clear : ∀ piece ∈ list.splitOnP p, ∀ c ∈ piece, c ∈ list ∧ p c = false := by
  induction list with
  | nil => simp
  | cons c list ih =>
    obtain ⟨first,others,split⟩ := List.exists_cons_of_ne_nil (List.splitOnP_ne_nil p list)
    rw [split, List.forall_mem_cons] at ih
    rw [List.splitOnP_cons_eq_if_modifyHead, split]
    by_cases splits : p c
    · simp only [splits, if_true, List.forall_mem_cons]
      grind
    · simp only [splits, List.modifyHead_cons]
      grind

theorem mem_splitOnP {c : α} (member : c ∈ list) (clear : p c = false) :
    ∃ piece ∈ list.splitOnP p, c ∈ piece := by
  induction list with
  | nil => contradiction
  | cons d list ih =>
    obtain ⟨first,others,split⟩ := List.exists_cons_of_ne_nil (List.splitOnP_ne_nil p list)
    rw [List.splitOnP_cons_eq_if_modifyHead, split]
    cases splits : p d with
    | true =>
      have later : c ∈ list := by
        rcases List.mem_cons.mp member with rfl | later
        · rw [splits] at clear
          contradiction
        · exact later
      obtain ⟨piece,cut,inside⟩ := ih later
      exact ⟨piece,List.mem_cons_of_mem _ (split ▸ cut),inside⟩
    | false =>
      rcases List.mem_cons.mp member with rfl | later
      · exact ⟨c :: first,List.mem_cons_self,List.mem_cons_self⟩
      · obtain ⟨piece,cut,inside⟩ := ih later
        rw [split] at cut
        rcases List.mem_cons.mp cut with rfl | others
        · exact ⟨d :: piece,List.mem_cons_self,List.mem_cons_of_mem _ inside⟩
        · exact ⟨piece,List.mem_cons_of_mem _ others,inside⟩

theorem map_splitOnP {f : α → α} {mark : α} (marks : ∀ c ∈ list, p c → f c = mark)
    (keeps : ∀ c ∈ list, p c = false → f c = c) :
    list.map f = [mark].intercalate (list.splitOnP p) := by
  induction list with
  | nil => rfl
  | cons c list ih =>
    obtain ⟨splitting,splittings⟩ := List.forall_mem_cons.mp marks
    obtain ⟨kept,allKept⟩ := List.forall_mem_cons.mp keeps
    obtain ⟨first,others,split⟩ := List.exists_cons_of_ne_nil (List.splitOnP_ne_nil p list)
    have rest := ih splittings allKept
    rw [split] at rest
    rw [List.map_cons, rest, List.splitOnP_cons_eq_if_modifyHead, split]
    cases splits : p c with
    | true => simp [splitting splits]
    | false => simp [kept splits]

theorem map_intercalate {β : Type} (f : α → β) (separator : List α) (pieces : List (List α)) :
    (separator.intercalate pieces).map f =
      (separator.map f).intercalate (pieces.map (List.map f)) := by
  induction pieces with
  | nil => rfl
  | cons first others ih =>
    cases others with
    | nil => simp
    | cons second others =>
      rw [List.intercalate_cons_cons, List.map_append, List.map_append, ih]
      simp

theorem mem_intercalate {mark c : α} {pieces : List (List α)}
    (member : c ∈ [mark].intercalate pieces) : c = mark ∨ ∃ piece ∈ pieces, c ∈ piece := by
  induction pieces with
  | nil => contradiction
  | cons first others ih =>
    cases others with
    | nil => exact .inr ⟨first,by simp,by simpa using member⟩
    | cons second others =>
      rw [List.intercalate_cons_cons, List.mem_append, List.mem_append, List.mem_singleton] at member
      rcases member with (inside | marked) | later
      · exact .inr ⟨first,by simp,inside⟩
      · exact .inl marked
      · rcases ih later with marked | ⟨piece,cut,inside⟩
        · exact .inl marked
        · exact .inr ⟨piece,List.mem_cons_of_mem _ cut,inside⟩

theorem length_intercalate (mark : α) (pieces : List (List α)) :
    ([mark].intercalate pieces).length = (pieces.map List.length).sum + (pieces.length - 1) := by
  induction pieces with
  | nil => rfl
  | cons first others ih =>
    cases others with
    | nil => simp
    | cons second others =>
      rw [List.intercalate_cons_cons, List.length_append, List.length_append, ih]
      simp only [List.map_cons, List.sum_cons, List.length_cons, List.length_nil]
      omega

theorem sum_filter_length (pieces : List (List α)) :
    ((pieces.filter (· ≠ [])).map List.length).sum = (pieces.map List.length).sum := by
  induction pieces with
  | nil => rfl
  | cons first others ih =>
    by_cases empty : first = []
    · rw [List.filter_cons_of_neg (by simp [empty]), ih, empty]
      simp
    · rw [List.filter_cons_of_pos (by simp [empty]), List.map_cons, List.map_cons, List.sum_cons,
        List.sum_cons, ih]

/-- Leaving out the empty pieces makes no difference only when there are none, or one that is
    all there is. -/
theorem intercalate_filter_iff (mark : α) (pieces : List (List α)) :
    [mark].intercalate (pieces.filter (· ≠ [])) = [mark].intercalate pieces ↔
      pieces = [[]] ∨ [] ∉ pieces := by
  constructor
  · intro same
    by_cases empty : [] ∈ pieces
    · left
      have fewer : (pieces.filter (· ≠ [])).length < pieces.length :=
        List.length_filter_lt_length_iff_exists.mpr ⟨[],empty,by simp⟩
      have lengths := congrArg List.length same
      rw [length_intercalate, length_intercalate, sum_filter_length] at lengths
      have one : pieces.length = 1 := by omega
      obtain ⟨piece,rfl⟩ := List.length_eq_one_iff.mp one
      rw [List.mem_singleton.mp empty]
    · exact .inr empty
  · rintro (rfl | full)
    · simp
    · rw [List.filter_eq_self.mpr]
      intro piece member
      have other : piece ≠ [] := fun empty => full (empty ▸ member)
      simpa using other

theorem first_other (P : α → Prop) (list : List α) : (∀ a ∈ list, P a) ∨
    ∃ before b after, list = before ++ b :: after ∧ (∀ a ∈ before, P a) ∧ ¬ P b := by
  induction list with
  | nil => exact .inl (by simp)
  | cons a list ih =>
    by_cases first : P a
    · rcases ih with all | ⟨before,b,after,rfl,kind,other⟩
      · exact .inl (List.forall_mem_cons.mpr ⟨first,all⟩)
      · exact .inr ⟨a :: before,b,after,rfl,List.forall_mem_cons.mpr ⟨first,kind⟩,other⟩
    · exact .inr ⟨[],a,list,rfl,by simp,first⟩

theorem infix_append_cons {w front back : List α} {c : α} (clear : c ∉ w) :
    w <:+: front ++ c :: back ↔ w <:+: front ∨ w <:+: back := by
  constructor
  · rintro ⟨s,t,same⟩
    rcases List.append_eq_append_iff.mp same with ⟨more,rfl,_⟩ | ⟨more,left,right⟩
    · exact .inl ⟨s,more,rfl⟩
    · cases more with
      | nil => exact .inl ⟨s,[],by simpa using left⟩
      | cons d more =>
        obtain ⟨rfl,rfl⟩ := List.cons.inj right
        rcases List.append_eq_append_iff.mp left with ⟨k,_,inside⟩ | ⟨k,_,inside⟩
        · exact absurd (inside ▸ by simp) clear
        · cases k with
          | nil => exact absurd (by rw [← List.nil_append w, ← inside]; simp) clear
          | cons e k =>
            obtain ⟨_,rfl⟩ := List.cons.inj inside
            exact .inr ⟨k,t,rfl⟩
  · rintro (⟨s,t,rfl⟩ | ⟨s,t,rfl⟩)
    · exact ⟨s,t ++ c :: back,by simp⟩
    · exact ⟨front ++ c :: s,t,by simp⟩

end Pieces
