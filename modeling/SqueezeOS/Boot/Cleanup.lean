import Mathlib.Data.Set.Finite.Lemmas
import SqueezeOS.Boot.Linuxrc
import SqueezeOS.Xargs

/- The pipeline of linuxrc that removes the modified files after an upgrade: the paths that find
   prints, those of them that grep -v passes on, and the calls of rm that xargs makes of them. -/
namespace Cleanup
open Linuxrc

section
variable {names pieces : List Text} {p w : Text}

def pathOf (names : List Text) : Text := names.flatMap ('/' :: ·)

def enter (names : List Text) (name : Text) : List Text :=
  if name = [] ∨ name = ['.'] then names
  else if name = ['.', '.'] then names.dropLast
  else names ++ [name]

/-- The path of the file that a word names, in directories without links; linuxrc runs in the
    root directory. -/
def leadsTo (w : Text) : Text := pathOf ((w.splitOn '/').foldl enter [])

structure IsName (name : Text) : Prop where
  nonempty : name ≠ []
  here : name ≠ ['.']
  above : name ≠ ['.', '.']
  slash : '/' ∉ name
  newline : '\n' ∉ name

def StoragePath (p : Text) : Prop :=
  ∃ names, names ≠ [] ∧ (∀ name ∈ names, IsName name) ∧
    p = pathOf ("mnt".toList :: "storage".toList :: names)

theorem pathOf_cons_eq (name : Text) (names : List Text) :
    pathOf (name :: names) = '/' :: ['/'].intercalate (name :: names) := by
  induction names generalizing name with
  | nil => simp [pathOf]
  | cons second names ih =>
    rw [List.intercalate_cons_cons]
    have rest := ih second
    rw [pathOf, List.flatMap_cons, ← pathOf, rest]
    simp

theorem pathOf_splitOn (w : Text) : pathOf (w.splitOn '/') = '/' :: w := by
  obtain ⟨first,others,split⟩ := List.exists_cons_of_ne_nil (List.splitOn_ne_nil '/' w)
  rw [split, pathOf_cons_eq, ← split, List.intercalate_splitOn]

theorem enter_sublist (names : List Text) (name : Text) :
    (pathOf (enter names name)).Sublist (pathOf names ++ '/' :: name) := by
  unfold enter
  split_ifs
  · exact List.sublist_append_left _ _
  · obtain ⟨last,whole⟩ := names.dropLast_prefix
    nth_rewrite 2 [← whole]
    simp [pathOf]
  · simp [pathOf]

theorem foldl_enter_sublist (names pieces : List Text) :
    (pathOf (pieces.foldl enter names)).Sublist (pathOf names ++ pathOf pieces) := by
  induction pieces generalizing names with
  | nil => simp [pathOf]
  | cons piece pieces ih =>
    have step := (enter_sublist names piece).append (List.Sublist.refl (pathOf pieces))
    simpa [pathOf] using (ih (enter names piece)).trans step

theorem leadsTo_sublist (w : Text) : (leadsTo w).Sublist ('/' :: w) := by
  have whole := foldl_enter_sublist [] (w.splitOn '/')
  rw [pathOf_splitOn] at whole
  exact whole

theorem leadsTo_slash (w : Text) : leadsTo ('/' :: w) = leadsTo w := by
  have split : ('/' :: w).splitOn '/' = [] :: w.splitOn '/' := by
    rw [List.splitOn, List.splitOnP_cons_eq_if_modifyHead]
    rfl
  simp [leadsTo, split, enter]

theorem foldl_enter_names (names : List Text) (proper : ∀ name ∈ pieces, IsName name) :
    pieces.foldl enter names = names ++ pieces := by
  induction pieces generalizing names with
  | nil => simp
  | cons name pieces ih =>
    obtain ⟨first,others⟩ := List.forall_mem_cons.mp proper
    have entered : enter names name = names ++ [name] := by
      rw [enter, if_neg (not_or.mpr ⟨first.nonempty,first.here⟩), if_neg first.above]
    rw [List.foldl_cons, entered, ih _ others]
    simp

theorem leadsTo_pathOf (some : names ≠ []) (proper : ∀ name ∈ names, IsName name) :
    leadsTo (pathOf names) = pathOf names := by
  obtain ⟨first,others,rfl⟩ := List.exists_cons_of_ne_nil some
  have split : (['/'].intercalate (first :: others)).splitOn '/' = first :: others :=
    List.splitOn_intercalate '/' (fun name member => (proper name member).slash) some
  have whole := foldl_enter_names [] proper
  rw [pathOf_cons_eq, leadsTo_slash, leadsTo, split, whole, List.nil_append, pathOf_cons_eq]

theorem storage_names (proper : ∀ name ∈ names, IsName name) :
    ∀ name ∈ "mnt".toList :: "storage".toList :: names, IsName name := by
  refine List.forall_mem_cons.mpr ⟨?_,List.forall_mem_cons.mpr ⟨?_,proper⟩⟩
  all_goals constructor <;> decide

theorem StoragePath.leadsTo_eq (path : StoragePath p) : leadsTo p = p := by
  obtain ⟨names,-,proper,rfl⟩ := path
  exact leadsTo_pathOf (by simp) (storage_names proper)

theorem StoragePath.head (path : StoragePath p) : p.head? = some '/' := by
  obtain ⟨names,-,proper,rfl⟩ := path
  rfl

theorem StoragePath.whole (path : StoragePath p) : '\n' ∉ p := by
  obtain ⟨names,-,proper,rfl⟩ := path
  intro newline
  obtain ⟨name,member,inside⟩ := List.mem_flatMap.mp newline
  rcases List.mem_cons.mp inside with slash | inside
  · exact absurd slash (by decide)
  · exact (storage_names proper name member).newline inside

end

def Kept (p : Text) : Prop :=
  (∃ front c, p = front ++ "settings".toList ++ c :: "lua".toList) ∨
  "/etc/".toList <:+: p ∨ "/root/".toList <:+: p

def keepComment : Text :=
  "# Files matching the following pattern are preserved after an SqueezeOS upgrade".toList

theorem keepAfterUpgrade_iff (p : Text) :
    keepAfterUpgrade p = true ↔ keepComment <:+: p ∨ Kept p := by
  unfold keepAfterUpgrade Kept
  rw [Bool.or_eq_true, Bool.or_eq_true, Bool.or_eq_true, decide_eq_true_iff, decide_eq_true_iff,
    decide_eq_true_iff, or_assoc, or_assoc]
  refine or_congr Iff.rfl (or_congr ?_ Iff.rfl)
  constructor
  · intro ends
    split at ends
    · rename_i c rest reversed
      obtain ⟨front,rfl⟩ := of_decide_eq_true ends
      refine ⟨front.reverse,c,?_⟩
      rw [← List.reverse_reverse p, reversed]
      simp
    · contradiction
  · rintro ⟨front,c,rfl⟩
    simp

def Ordinary (operands : List Text) : Prop := ∀ first, operands.head? = some first →
  first.head? ≠ some '-'

/-- What rm -f does to the files: it removes those it is given, and no others. No directory has a
    newline in its name. -/
structure Rm where
  removes : List Text → Text → Prop
  own : ∀ operands p, Ordinary operands → StoragePath p → p ∈ operands → removes operands p
  only : ∀ operands p, Ordinary operands → StoragePath p → removes operands p →
    ∃ w ∈ operands, '\n' ∉ w ∧ leadsTo w = p

def passedOn (order : List Text) : List Text := order.filter fun path => !keepAfterUpgrade path

/-- How xargs may share out its arguments to calls of rm; it may have called rm before it finds
    that it cannot read on. No argument stands for the end of the input. -/
def Calls (order : List Text) (calls : List (List Text)) : Prop :=
  match Xargs.arguments (Xargs.unlines (passedOn order)) with
  | (words, true) => calls.flatten = words
  | (words, false) => calls.flatten <+: words

/-- Whatever the order in which find comes to the files, and whatever the calls, the files that
    remain are those that should. -/
def CleansExactly (rm : Rm) (files : List Text) : Prop :=
  ∀ order calls, order.Perm files → Calls order calls →
    ∀ p ∈ files, (∀ call ∈ calls, ¬ rm.removes call p) ↔ Kept p

section
variable {files order : List Text} {p : Text}

theorem mem_passedOn : p ∈ passedOn order ↔ p ∈ order ∧ ¬ keepComment <:+: p ∧ ¬ Kept p := by
  rw [passedOn, List.mem_filter, Bool.not_eq_true', ← Bool.not_eq_true, keepAfterUpgrade_iff, not_or]

theorem comment_marked (comment : keepComment <:+: p) : ∃ c ∈ p, Xargs.marks c = true :=
  ⟨' ',comment.subset (by decide),rfl⟩

/-- A word that leads to a path with a mark is too short to come from that path. -/
theorem leadsTo_shorter (paths : ∀ p ∈ order, StoragePath p) {w : Text}
    (member : w ∈ (Xargs.arguments (Xargs.unlines (passedOn order))).1) (whole : '\n' ∉ w)
    (leads : leadsTo w = p) (marked : ∃ c ∈ p, Xargs.marks c = true) :
    ∃ q ∈ passedOn order, (∃ c ∈ q, Xargs.marks c = true) ∧ p.length < q.length := by
  have slash : ∀ line ∈ passedOn order, line.head? = some '/' ∧ '\n' ∉ line := by
    intro line passed
    have path := paths line (mem_passedOn.mp passed).1
    exact ⟨path.head,path.whole⟩
  obtain ⟨c,inside,mark⟩ := marked
  have given : c ∈ w := by
    rcases List.mem_cons.mp ((leadsTo_sublist w).subset (leads ▸ inside)) with rfl | given
    · exact absurd mark (by decide)
    · exact given
  obtain ⟨line,passed,chars,short,shorter⟩ :=
    Xargs.argument_shorter slash member whole ⟨c,given,mark⟩
  refine ⟨line,passed,⟨c,chars given,mark⟩,?_⟩
  by_cases rooted : w.head? = some '/'
  · obtain ⟨v,rfl⟩ := List.head?_eq_some_iff.mp rooted
    rw [leadsTo_slash] at leads
    have length := (leadsTo_sublist v).length_le
    rw [leads] at length
    exact Nat.lt_of_le_of_lt length short
  · have length := (leadsTo_sublist w).length_le
    rw [leads, List.length_cons] at length
    exact Nat.lt_of_le_of_lt length (shorter rooted)

theorem ordinary_arguments (paths : ∀ p ∈ order, StoragePath p) :
    Ordinary (Xargs.arguments (Xargs.unlines (passedOn order))).1 := by
  intro w first
  cases passed : passedOn order with
  | nil =>
    rw [passed] at first
    simp [Xargs.unlines, Xargs.arguments, Xargs.start] at first
  | cons line lines =>
    have member : line ∈ passedOn order := passed ▸ List.mem_cons_self
    rw [passed] at first
    have slash := Xargs.arguments_head (paths line (mem_passedOn.mp member).1).head first
    rw [slash]
    decide

/-- Of the paths that should go and have a mark, the longest is not removed by any call that
    xargs can make. -/
theorem marked_survives (rm : Rm) (paths : ∀ p ∈ files, StoragePath p)
    (marked : ∃ p ∈ files, ¬ Kept p ∧ ∃ c ∈ p, Xargs.marks c = true) :
    ¬ CleansExactly rm files := by
  intro cleans
  let Marked : Set Text := { p | p ∈ files ∧ ¬ Kept p ∧ ∃ c ∈ p, Xargs.marks c = true }
  have finite : Marked.Finite := (List.finite_toSet files).subset fun p member => member.1
  obtain ⟨p,⟨member,goes,mark⟩,longest⟩ := Set.exists_max_image Marked List.length finite marked
  rcases given : Xargs.arguments (Xargs.unlines (passedOn files)) with ⟨words,complete⟩
  cases complete with
  | false =>
    -- xargs gives up before its first call.
    have calls : Calls files [] := by simp [Calls, given]
    exact goes ((cleans files [] (List.Perm.refl files) calls p member).mp (by simp))
  | true =>
    have calls : Calls files [words] := by simp [Calls, given]
    have ordinary := ordinary_arguments paths
    rw [given] at ordinary
    refine goes ((cleans files [words] (List.Perm.refl files) calls p member).mp ?_)
    intro call only removed
    cases List.mem_singleton.mp only
    obtain ⟨w,operand,whole,leads⟩ := rm.only words p ordinary (paths p member) removed
    obtain ⟨q,passed,qMark,longer⟩ :=
      leadsTo_shorter paths (given ▸ operand) whole leads mark
    obtain ⟨there,-,qGoes⟩ := mem_passedOn.mp passed
    exact absurd (longest q ⟨there,qGoes,qMark⟩) (Nat.not_le.mpr longer)

theorem arguments_passedOn (paths : ∀ p ∈ order, StoragePath p)
    (unmarked : ∀ p ∈ order, ¬ Kept p → ∀ c ∈ p, Xargs.marks c = false) :
    Xargs.arguments (Xargs.unlines (passedOn order)) = (passedOn order, true) := by
  apply Xargs.arguments_lines
  intro line passed
  obtain ⟨member,-,goes⟩ := mem_passedOn.mp passed
  have path := paths line member
  refine ⟨?_,fun c inside => ⟨unmarked line member goes c inside,?_⟩⟩
  · intro empty
    have slash := path.head
    rw [empty] at slash
    contradiction
  · intro newline
    exact path.whole (newline ▸ inside)

theorem unmarked_cleans (rm : Rm) (paths : ∀ p ∈ files, StoragePath p)
    (unmarked : ∀ p ∈ files, ¬ Kept p → ∀ c ∈ p, Xargs.marks c = false) :
    CleansExactly rm files := by
  intro order calls perm made p member
  have orderPaths : ∀ q ∈ order, StoragePath q := fun q found => paths q (perm.mem_iff.mp found)
  have words := arguments_passedOn orderPaths fun q found => unmarked q (perm.mem_iff.mp found)
  have flat : calls.flatten = passedOn order := by
    simpa only [Calls, words] using made
  have operands : ∀ call ∈ calls, ∀ w ∈ call, w ∈ passedOn order := by
    intro call called w operand
    rw [← flat]
    exact List.mem_flatten.mpr ⟨call,called,operand⟩
  have ordinary : ∀ call ∈ calls, Ordinary call := by
    intro call called first head
    have passed := operands call called first (List.mem_of_head? head)
    rw [(orderPaths first (mem_passedOn.mp passed).1).head]
    decide
  constructor
  · intro remains
    by_contra goes
    have comment : ¬ keepComment <:+: p := by
      intro comment
      obtain ⟨c,inside,mark⟩ := comment_marked comment
      rw [unmarked p member goes c inside] at mark
      contradiction
    have passed : p ∈ calls.flatten := by
      rw [flat]
      exact mem_passedOn.mpr ⟨perm.mem_iff.mpr member,comment,goes⟩
    obtain ⟨call,called,operand⟩ := List.mem_flatten.mp passed
    exact remains call called (rm.own call p (ordinary call called) (paths p member) operand)
  · intro kept call called removed
    obtain ⟨w,operand,-,leads⟩ := rm.only call p (ordinary call called) (paths p member) removed
    obtain ⟨found,-,goes⟩ := mem_passedOn.mp (operands call called w operand)
    rw [(orderPaths w found).leadsTo_eq] at leads
    exact goes (leads ▸ kept)

theorem cleansExactly_iff (rm : Rm) (paths : ∀ p ∈ files, StoragePath p) :
    CleansExactly rm files ↔
      ∀ p ∈ files, ¬ Kept p → ∀ c ∈ p, Xargs.marks c = false := by
  constructor
  · intro cleans p member goes c inside
    by_contra mark
    rw [Bool.not_eq_false] at mark
    exact marked_survives rm paths ⟨p,member,goes,c,inside,mark⟩ cleans
  · exact unmarked_cleans rm paths

end

def plainRm : Rm where
  removes operands p := ∃ w ∈ operands, '\n' ∉ w ∧ leadsTo w = p
  own _ p _ path operand := ⟨p,operand,path.whole,path.leadsTo_eq⟩
  only _ _ _ _ removed := removed

def below (name : Text) : Text := pathOf ["mnt".toList, "storage".toList, name]

theorem storagePath_below {name : Text} (proper : IsName name) : StoragePath (below name) := by
  refine ⟨[name],by simp,?_,rfl⟩
  simpa using proper

theorem plain_files_clean :
    CleansExactly plainRm [below "settings.lua".toList, below "jive".toList] := by
  refine (cleansExactly_iff plainRm ?_).mpr ?_
  · intro p member
    simp only [List.mem_cons, List.not_mem_nil, or_false] at member
    rcases member with rfl | rfl
    all_goals exact storagePath_below (by constructor <;> decide)
  · have clear : ∀ p ∈ [below "settings.lua".toList, below "jive".toList],
        ∀ c ∈ p, Xargs.marks c = false := by simp [below, pathOf, Xargs.marks]
    exact fun p member _ => clear p member

/-- A file whose name goes on behind that of the settings has the settings removed, and stays. -/
theorem blank_removes_settings :
    let files := [below "settings.lua".toList, below "settings.lua x".toList]
    (∀ p ∈ files, StoragePath p) ∧ ¬ CleansExactly plainRm files := by
  intro files
  have calls : Calls files [[below "settings.lua".toList, "x".toList]] := by
    have given : Xargs.arguments (Xargs.unlines (passedOn files)) =
        ([below "settings.lua".toList, "x".toList], true) := by decide +kernel
    simp [Calls, given]
  have path : StoragePath (below "settings.lua".toList) :=
    storagePath_below (by constructor <;> decide)
  constructor
  · intro p member
    simp only [files, List.mem_cons, List.not_mem_nil, or_false] at member
    rcases member with rfl | rfl
    · exact path
    · exact storagePath_below (by constructor <;> decide)
  · intro cleans
    have kept : Kept (below "settings.lua".toList) := .inl ⟨"/mnt/storage/".toList,'.',by decide⟩
    have remains := (cleans files _ (List.Perm.refl files) calls _ List.mem_cons_self).mpr kept
    exact remains _ List.mem_cons_self
      (plainRm.own _ _ (by rintro _ ⟨⟩; decide) path List.mem_cons_self)

end Cleanup
