import SqueezeOS.Boot.UpgradeCuts
import SqueezeOS.Pieces

/- The network that linuxrc brings up after an upgrade: which one its awk script picks from the
   blocks of wpa_supplicant.conf, and what becomes of the interfaces file. -/
namespace NetworkChoice
open Linuxrc

def ssidMark : Text := "ssid=\"".toList

def disabledMark : Text := "disabled=1".toList

/-- A network of wpa_supplicant.conf, with the lines that say nothing about its name and do not
    disable it. -/
structure Block where
  ssid : Text
  disabled : Bool
  indent : Text
  before : List Text
  between : List Text
  after : List Text
  unquoted : ∀ c ∈ ssid, c ≠ '"' ∧ c ≠ '\n'
  blank : ∀ c ∈ indent, c = ' ' ∨ c = '\t'
  others : ∀ line ∈ before ++ between ++ after,
    '\n' ∉ line ∧ ¬ ssidMark <:+: line ∧ ¬ disabledMark <:+: line

def Block.ssidLine (b : Block) : Text := b.indent ++ ssidMark ++ b.ssid ++ ['"']

def Block.disabledLine (b : Block) : Text := b.indent ++ disabledMark

def Block.lines (b : Block) : List Text :=
  b.before ++ b.ssidLine :: (b.between ++
    ((if b.disabled then [b.disabledLine] else []) ++ b.after))

def confOf (blocks : List Block) : Text := (blocks.flatMap Block.lines).flatMap (· ++ ['\n'])

section
variable (tools : Tools)

def found (conf : Text) : Text :=
  ((conf.splitOn '\n').foldl (scanLine tools) { ssid := ['?'], last := [] }).ssid

def converted (name : Text) : Text :=
  (tools.echo (tools.words name)).map fun c => if isSpace c then '_' else c

theorem ssid_conf (conf : Text) : ssid tools (some conf) = converted tools (found tools conf) := rfl

def linesOf : Text → List Text
  | [] => []
  | c :: rest =>
      if c = '\n' then [] :: linesOf rest
      else match linesOf rest with
        | [] => [[c]]
        | line :: lines => (c :: line) :: lines

def newInterfaces (blocks : List Block) (file : Text) : Text :=
  (addInterface tools (ssid tools (some (confOf blocks))) true (some file)).getD []

def Migrates (blocks : List Block) (file : Text) : Prop :=
  match blocks.find? (!·.disabled) with
  | some b =>
      found tools (confOf blocks) = b.ssid ∧
      if autoLine (converted tools b.ssid) ∈ linesOf file then newInterfaces tools blocks file = file
      else linesOf (newInterfaces tools blocks file) =
        linesOf file ++ [autoLine (converted tools b.ssid)]
  | none => newInterfaces tools blocks file = file

end

/-- Blocks that stop the script from keeping their name: disabled ones, and those in whose name
    it reads that they are. -/
def Cancels (b : Block) : Prop := b.disabled = true ∨ disabledMark <:+: b.ssid

instance (b : Block) : Decidable (Cancels b) := inferInstanceAs (Decidable (_ ∨ _))

/-- Blocks that the script passes while it has no name, for which it has the name "?". -/
def Passed (b : Block) : Prop := Cancels b ∨ b.ssid = ['?']

/-- The name that the script comes to: that of the first block it does not pass, unless a later
    one with the same name cancels it, and then the one it comes to in the blocks behind that. -/
inductive Arrives (same : Text → Text → Bool) : List Block → Text → Prop where
  | none {blocks : List Block} (passed : ∀ b ∈ blocks, Passed b) : Arrives same blocks ['?']
  | kept {before after : List Block} {b : Block} (passed : ∀ c ∈ before, Passed c)
      (named : ¬ Passed b) (kept : ∀ c ∈ after, Cancels c → same b.ssid c.ssid = false) :
      Arrives same (before ++ b :: after) b.ssid
  | cancelled {before between after : List Block} {b c : Block} {name : Text}
      (passed : ∀ c ∈ before, Passed c) (named : ¬ Passed b)
      (kept : ∀ d ∈ between, Cancels d → same b.ssid d.ssid = false) (cancels : Cancels c)
      (again : same b.ssid c.ssid = true) (later : Arrives same after name) :
      Arrives same (before ++ b :: (between ++ c :: after)) name

/-- The script comes back to the first enabled network, grep finds its line exactly when it is
    there, and the line can be added: it has a name, and the file ends with a newline. Without an
    enabled network, grep finds the line for "?". -/
def Migratable (tools : Tools) (blocks : List Block) (file : Text) : Prop :=
  match blocks.find? (!·.disabled) with
  | some b =>
      Arrives tools.same blocks b.ssid ∧
      if autoLine (converted tools b.ssid) ∈ linesOf file then
        converted tools b.ssid = [] ∨ tools.grep (autoLine (converted tools b.ssid)) file = true
      else converted tools b.ssid ≠ [] ∧
        tools.grep (autoLine (converted tools b.ssid)) file = false ∧
        (file = [] ∨ file.getLast? = some '\n')
  | none => converted tools ['?'] = [] ∨ tools.grep (autoLine (converted tools ['?'])) file = true

section
variable {tools : Tools} {s : Scan} {b : Block}

def named (line : Text) (s : Scan) : Scan :=
  if ssidMark <:+: line then
    { ssid := if s.ssid = ['?'] then (line.splitOn '"').getD 1 [] else s.ssid
      last := (line.splitOn '"').getD 1 [] }
  else s

def cleared (tools : Tools) (line : Text) (s : Scan) : Scan :=
  if disabledMark <:+: line ∧ tools.same s.ssid s.last = true then { s with ssid := ['?'] } else s

theorem scanLine_eq (line : Text) : scanLine tools s line = cleared tools line (named line s) := rfl

theorem scanLine_plain {line : Text} (noName : ¬ ssidMark <:+: line)
    (noMark : ¬ disabledMark <:+: line) : scanLine tools s line = s := by
  rw [scanLine_eq, named, if_neg noName, cleared, if_neg fun both => noMark both.1]

theorem scan_plain {lines : List Text}
    (plain : ∀ line ∈ lines, ¬ ssidMark <:+: line ∧ ¬ disabledMark <:+: line) :
    lines.foldl (scanLine tools) s = s := by
  induction lines with
  | nil => rfl
  | cons line lines ih =>
    obtain ⟨⟨noName,noMark⟩,rest⟩ := List.forall_mem_cons.mp plain
    rw [List.foldl_cons, scanLine_plain noName noMark, ih rest]

theorem Block.not_mem_indent (b : Block) {c : Char} (space : c ≠ ' ') (tab : c ≠ '\t') :
    c ∉ b.indent := by
  intro member
  rcases b.blank c member with same | same
  · exact space same
  · exact tab same

theorem quote_not_mem_indent (b : Block) : '"' ∉ b.indent :=
  b.not_mem_indent (by decide) (by decide)

theorem Block.ssidLine_eq (b : Block) :
    b.ssidLine = (b.indent ++ ['s', 's', 'i', 'd', '=']) ++ '"' :: (b.ssid ++ ['"']) := by
  have mark : ssidMark = ['s', 's', 'i', 'd', '='] ++ ['"'] := rfl
  simp [Block.ssidLine, mark]

theorem Block.ssidLine_name (b : Block) : (b.ssidLine.splitOn '"').getD 1 [] = b.ssid := by
  have front : '"' ∉ b.indent ++ ['s', 's', 'i', 'd', '='] := by
    rw [List.mem_append]
    rintro (inside | inside)
    · exact quote_not_mem_indent b inside
    · revert inside
      decide
  have name : '"' ∉ b.ssid := fun inside => (b.unquoted _ inside).1 rfl
  rw [b.ssidLine_eq, List.splitOn_append_cons_self_of_not_mem front,
    List.splitOn_append_cons_self_of_not_mem name]
  rfl

theorem disabledMark_quote : '"' ∉ disabledMark := by decide

theorem Block.ssidLine_disabled (b : Block) : disabledMark <:+: b.ssidLine ↔ disabledMark <:+: b.ssid := by
  have front : ¬ disabledMark <:+: b.indent ++ ['s', 's', 'i', 'd', '='] := by
    intro inside
    have letter : 'b' ∈ b.indent ++ ['s', 's', 'i', 'd', '='] := inside.subset (by decide)
    rcases List.mem_append.mp letter with blank | plain
    · exact b.not_mem_indent (by decide) (by decide) blank
    · exact absurd plain (by decide)
  have back : ¬ disabledMark <:+: [] := by decide
  rw [b.ssidLine_eq, Pieces.infix_append_cons disabledMark_quote,
    Pieces.infix_append_cons disabledMark_quote]
  tauto

theorem Block.ssidLine_marked (b : Block) : ssidMark <:+: b.ssidLine :=
  ⟨b.indent,b.ssid ++ ['"'],by simp [Block.ssidLine]⟩

theorem Block.disabledLine_unnamed (b : Block) : ¬ ssidMark <:+: b.disabledLine := by
  intro inside
  have quote : '"' ∈ b.disabledLine := inside.subset (by decide)
  rcases List.mem_append.mp quote with blank | mark
  · exact quote_not_mem_indent b blank
  · exact disabledMark_quote mark

theorem scanLine_ssid (tools : Tools) (s : Scan) (b : Block) :
    scanLine tools s b.ssidLine =
      let name := if s.ssid = ['?'] then b.ssid else s.ssid
      if disabledMark <:+: b.ssid ∧ tools.same name b.ssid = true then ⟨['?'], b.ssid⟩
      else ⟨name, b.ssid⟩ := by
  rw [scanLine_eq, named, if_pos b.ssidLine_marked, b.ssidLine_name, cleared]
  simp only [b.ssidLine_disabled]

theorem scanLine_disabled (tools : Tools) (s : Scan) (b : Block) :
    scanLine tools s b.disabledLine =
      if tools.same s.ssid s.last = true then { s with ssid := ['?'] } else s := by
  have marked : disabledMark <:+: b.disabledLine := ⟨b.indent,[],by simp [Block.disabledLine]⟩
  rw [scanLine_eq, named, if_neg b.disabledLine_unnamed, cleared]
  simp only [marked, true_and]

theorem Block.parts (b : Block) :
    let plain := fun line => '\n' ∉ line ∧ ¬ ssidMark <:+: line ∧ ¬ disabledMark <:+: line
    ((∀ line ∈ b.before, plain line) ∧ ∀ line ∈ b.between, plain line) ∧
      ∀ line ∈ b.after, plain line := by
  simpa only [List.forall_mem_append] using b.others

def choose (tools : Tools) (ssid : Text) (b : Block) : Text :=
  let name := if ssid = ['?'] then b.ssid else ssid
  if Cancels b ∧ tools.same name b.ssid = true then ['?'] else name

theorem scan_block (tools : Tools) (s : Scan) (b : Block) :
    (b.lines.foldl (scanLine tools) s).ssid = choose tools s.ssid b := by
  obtain ⟨⟨before,between⟩,after⟩ := b.parts
  rw [Block.lines, List.foldl_append, scan_plain fun line member => (before line member).2,
    List.foldl_cons, List.foldl_append, scan_plain fun line member => (between line member).2,
    List.foldl_append, scan_plain fun line member => (after line member).2, scanLine_ssid, choose]
  generalize (if s.ssid = ['?'] then b.ssid else s.ssid) = name
  unfold Cancels
  by_cases off : b.disabled = true
  · by_cases same : tools.same name b.ssid = true
    · by_cases inName : disabledMark <:+: b.ssid
      · simp [off, same, inName, scanLine_disabled]
      · simp [off, same, inName, scanLine_disabled]
    · simp [off, same, scanLine_disabled]
  · by_cases both : disabledMark <:+: b.ssid ∧ tools.same name b.ssid = true
    · simp [off, both]
    · simp [off, both]

theorem scan_blocks (tools : Tools) (blocks : List Block) (s : Scan) :
    ((blocks.flatMap Block.lines).foldl (scanLine tools) s).ssid =
      blocks.foldl (choose tools) s.ssid := by
  induction blocks generalizing s with
  | nil => rfl
  | cons b blocks ih => rw [List.flatMap_cons, List.foldl_append, ih, scan_block, List.foldl_cons]

theorem splitOn_lines {lines : List Text} (whole : ∀ line ∈ lines, '\n' ∉ line) :
    (lines.flatMap (· ++ ['\n'])).splitOn '\n' = lines ++ [[]] := by
  induction lines with
  | nil => rfl
  | cons line lines ih =>
    obtain ⟨first,others⟩ := List.forall_mem_cons.mp whole
    rw [List.flatMap_cons, List.append_assoc, List.singleton_append,
      List.splitOn_append_cons_self_of_not_mem first, ih others, List.cons_append]

theorem Block.lines_whole (b : Block) : ∀ line ∈ b.lines, '\n' ∉ line := by
  obtain ⟨⟨before,between⟩,after⟩ := b.parts
  have indent : '\n' ∉ b.indent := b.not_mem_indent (by decide) (by decide)
  have name : '\n' ∉ b.ssid := fun member => (b.unquoted _ member).2 rfl
  have ssidLine : '\n' ∉ b.ssidLine := by
    simp [Block.ssidLine_eq, indent, name]
  have disabledLine : '\n' ∉ b.disabledLine := by
    rw [Block.disabledLine, List.mem_append]
    rintro (inside | inside)
    · exact indent inside
    · exact absurd inside (by decide)
  simp only [Block.lines, List.forall_mem_append, List.forall_mem_cons]
  refine ⟨fun line member => (before line member).1,ssidLine,
    fun line member => (between line member).1,?_,fun line member => (after line member).1⟩
  split <;> simp [disabledLine]

theorem found_blocks (tools : Tools) (blocks : List Block) :
    found tools (confOf blocks) = blocks.foldl (choose tools) ['?'] := by
  have whole : ∀ line ∈ blocks.flatMap Block.lines, '\n' ∉ line := by
    intro line member
    obtain ⟨b,_,inside⟩ := List.mem_flatMap.mp member
    exact b.lines_whole line inside
  rw [found, confOf, splitOn_lines whole, List.foldl_append, List.foldl_cons, List.foldl_nil,
    scanLine_plain (by decide) (by decide), scan_blocks]

theorem choose_passed (refl : ∀ name, tools.same name name = true) (passed : Passed b) :
    choose tools ['?'] b = ['?'] := by
  unfold choose
  dsimp only
  rw [if_pos rfl]
  rcases passed with cancels | unnamed
  · rw [if_pos ⟨cancels,refl _⟩]
  · rw [unnamed, ite_self]

theorem choose_named (named : ¬ Passed b) : choose tools ['?'] b = b.ssid := by
  unfold choose
  dsimp only
  rw [if_pos rfl, if_neg fun both => named (.inl both.1)]

theorem choose_kept {name : Text} (some : name ≠ ['?'])
    (kept : Cancels b → tools.same name b.ssid = false) : choose tools name b = name := by
  unfold choose
  dsimp only
  rw [if_neg some, if_neg]
  rintro ⟨cancels,same⟩
  rw [kept cancels] at same
  contradiction

theorem choose_cancelled {name : Text} (some : name ≠ ['?']) (cancels : Cancels b)
    (again : tools.same name b.ssid = true) : choose tools name b = ['?'] := by
  unfold choose
  dsimp only
  rw [if_neg some, if_pos ⟨cancels,again⟩]

theorem foldl_passed (refl : ∀ name, tools.same name name = true) {blocks : List Block}
    (passed : ∀ b ∈ blocks, Passed b) : blocks.foldl (choose tools) ['?'] = ['?'] := by
  induction blocks with
  | nil => rfl
  | cons b blocks ih =>
    obtain ⟨first,others⟩ := List.forall_mem_cons.mp passed
    rw [List.foldl_cons, choose_passed refl first, ih others]

theorem foldl_kept {name : Text} (some : name ≠ ['?']) {blocks : List Block}
    (kept : ∀ b ∈ blocks, Cancels b → tools.same name b.ssid = false) :
    blocks.foldl (choose tools) name = name := by
  induction blocks with
  | nil => rfl
  | cons b blocks ih =>
    obtain ⟨first,others⟩ := List.forall_mem_cons.mp kept
    rw [List.foldl_cons, choose_kept some first, ih others]

theorem Arrives.foldl (refl : ∀ name, tools.same name name = true) {blocks : List Block}
    {name : Text} (arrives : Arrives tools.same blocks name) :
    blocks.foldl (choose tools) ['?'] = name := by
  induction arrives with
  | none passed => exact foldl_passed refl passed
  | @kept before after b passed named kept =>
    rw [List.foldl_append, foldl_passed refl passed, List.foldl_cons, choose_named named]
    exact foldl_kept (fun unnamed => named (.inr unnamed)) kept
  | @cancelled before between after b c name passed named kept cancels again later ih =>
    have some : b.ssid ≠ ['?'] := fun unnamed => named (.inr unnamed)
    rw [List.foldl_append, foldl_passed refl passed, List.foldl_cons, choose_named named,
      List.foldl_append, foldl_kept some kept, List.foldl_cons, choose_cancelled some cancels again, ih]

theorem exists_arrives (same : Text → Text → Bool) (blocks : List Block) :
    ∃ name, Arrives same blocks name := by
  induction count : blocks.length using Nat.strongRecOn generalizing blocks with
  | ind n ih =>
    rcases Pieces.first_other Passed blocks with passed | ⟨before,b,after,rfl,passed,named⟩
    · exact ⟨_,.none passed⟩
    · rcases Pieces.first_other (fun c => Cancels c → same b.ssid c.ssid = false) after with
        kept | ⟨between,c,rest,rfl,kept,cancelled⟩
      · exact ⟨_,.kept passed named kept⟩
      · simp only [Classical.not_imp, Bool.not_eq_false] at cancelled
        obtain ⟨name,later⟩ := ih rest.length
          (by simp only [← count, List.length_append, List.length_cons]; omega) rest rfl
        exact ⟨name,.cancelled passed named kept cancelled.1 cancelled.2 later⟩

theorem found_iff (refl : ∀ name, tools.same name name = true) (blocks : List Block) (name : Text) :
    found tools (confOf blocks) = name ↔ Arrives tools.same blocks name := by
  rw [found_blocks]
  constructor
  · rintro rfl
    obtain ⟨name,arrives⟩ := exists_arrives tools.same blocks
    rw [arrives.foldl refl]
    exact arrives
  · exact Arrives.foldl refl

end

section
variable {file line : Text}

theorem linesOf_line (whole : '\n' ∉ line) : linesOf (line ++ ['\n']) = [line] := by
  induction line with
  | nil => rfl
  | cons c line ih =>
    simp only [List.mem_cons, not_or] at whole
    rw [List.cons_append, linesOf, if_neg (Ne.symm whole.1), ih whole.2]

theorem linesOf_ne_nil (some : file ≠ []) : linesOf file ≠ [] := by
  cases file with
  | nil => contradiction
  | cons c rest =>
    rw [linesOf]
    split
    · simp
    · split <;> simp

theorem linesOf_append (ends : file = [] ∨ file.getLast? = some '\n') (more : Text) :
    linesOf (file ++ more) = linesOf file ++ linesOf more := by
  induction file with
  | nil => rfl
  | cons c rest ih =>
    by_cases last : rest = []
    · subst last
      have newline : c = '\n' := by simpa using ends
      simp [linesOf, newline]
    · have later : rest = [] ∨ rest.getLast? = some '\n' := by
        rcases ends with empty | ends
        · contradiction
        · right
          rw [← ends, List.getLast?_cons_of_ne_nil last]
      rw [List.cons_append, linesOf, ih later, linesOf]
      split
      · rfl
      · cases first : linesOf rest with
        | nil => exact absurd first (linesOf_ne_nil last)
        | cons l ls => rfl

theorem linesOf_glued (some : file ≠ []) (unended : file.getLast? ≠ .some '\n') (whole : '\n' ∉ line) :
    (linesOf (file ++ (line ++ ['\n']))).length = (linesOf file).length := by
  induction file with
  | nil => contradiction
  | cons c rest ih =>
    by_cases last : rest = []
    · subst last
      have other : c ≠ '\n' := by simpa using unended
      simp [linesOf, other, linesOf_line whole]
    · have later := ih last (by rwa [List.getLast?_cons_of_ne_nil last] at unended)
      rw [List.cons_append, linesOf, linesOf]
      split
      · rw [List.length_cons, List.length_cons, later]
      · cases first : linesOf rest with
        | nil => exact absurd first (linesOf_ne_nil last)
        | cons l ls =>
          cases second : linesOf (rest ++ (line ++ ['\n'])) with
          | nil => rw [first, second] at later; contradiction
          | cons k ks => rw [first, second] at later; simpa using later

theorem linesOf_appended_iff (whole : '\n' ∉ line) :
    linesOf (file ++ (line ++ ['\n'])) = linesOf file ++ [line] ↔
      file = [] ∨ file.getLast? = some '\n' := by
  constructor
  · intro same
    by_contra neither
    simp only [not_or] at neither
    have lengths := congrArg List.length same
    rw [linesOf_glued neither.1 neither.2 whole, List.length_append, List.length_singleton] at lengths
    omega
  · intro ends
    rw [linesOf_append ends, linesOf_line whole]

end

section
variable (tools : Tools)

theorem autoLine_whole (name : Text) : '\n' ∉ autoLine (converted tools name) := by
  rw [autoLine_eq, List.mem_append]
  rintro (front | back)
  · exact absurd front (by decide)
  · obtain ⟨c,_,newline⟩ := List.mem_map.mp back
    split at newline
    · exact absurd newline (by decide)
    · rename_i other
      rw [newline] at other
      exact other (by decide)

theorem newInterfaces_eq {blocks : List Block} {name : Text}
    (picked : found tools (confOf blocks) = name) (file : Text) :
    newInterfaces tools blocks file =
      if converted tools name = [] ∨ tools.grep (autoLine (converted tools name)) file = true then file
      else file ++ (autoLine (converted tools name) ++ ['\n']) := by
  rw [newInterfaces, ssid_conf, picked]
  unfold addInterface
  by_cases empty : converted tools name = []
  · simp [empty]
  · by_cases there : tools.grep (autoLine (converted tools name)) file = true
    · simp [empty, there]
    · simp [empty, there]

theorem newInterfaces_unchanged_iff {blocks : List Block} {name : Text}
    (picked : found tools (confOf blocks) = name) (file : Text) :
    newInterfaces tools blocks file = file ↔
      converted tools name = [] ∨ tools.grep (autoLine (converted tools name)) file = true := by
  rw [newInterfaces_eq tools picked]
  constructor
  · intro same
    by_contra appended
    rw [if_neg appended] at same
    have lengths := congrArg List.length same
    simp only [List.length_append, List.length_singleton] at lengths
    omega
  · intro unchanged
    rw [if_pos unchanged]

theorem newInterfaces_added_iff {blocks : List Block} {name : Text}
    (picked : found tools (confOf blocks) = name) (file : Text) :
    linesOf (newInterfaces tools blocks file) = linesOf file ++ [autoLine (converted tools name)] ↔
      converted tools name ≠ [] ∧ tools.grep (autoLine (converted tools name)) file = false ∧
        (file = [] ∨ file.getLast? = some '\n') := by
  rw [newInterfaces_eq tools picked, ← linesOf_appended_iff (autoLine_whole tools name)]
  split
  · rename_i unchanged
    constructor
    · intro same
      have lengths := congrArg List.length same
      simp at lengths
    · rintro ⟨some,missing,_⟩
      rcases unchanged with empty | there
      · exact absurd empty some
      · rw [missing] at there
        contradiction
  · rename_i appended
    simp only [not_or, Bool.not_eq_true] at appended
    simp [appended]

/-- The migration does what it should exactly when it can, for an awk whose comparison holds
    between a string and itself. -/
theorem migrates_iff (refl : ∀ name, tools.same name name = true) (blocks : List Block)
    (file : Text) : Migrates tools blocks file ↔ Migratable tools blocks file := by
  unfold Migrates Migratable
  cases chosen : blocks.find? (!·.disabled) with
  | none =>
    have all : ∀ b ∈ blocks, Passed b := by
      intro b member
      have off := List.find?_eq_none.mp chosen b member
      exact .inl (.inl (by simpa using off))
    exact newInterfaces_unchanged_iff tools ((found_iff refl blocks _).mpr (.none all)) file
  | some b =>
    have effect (picked : found tools (confOf blocks) = b.ssid) :
        (if autoLine (converted tools b.ssid) ∈ linesOf file then newInterfaces tools blocks file = file
          else linesOf (newInterfaces tools blocks file) =
            linesOf file ++ [autoLine (converted tools b.ssid)]) ↔
        if autoLine (converted tools b.ssid) ∈ linesOf file then
          converted tools b.ssid = [] ∨ tools.grep (autoLine (converted tools b.ssid)) file = true
        else converted tools b.ssid ≠ [] ∧
          tools.grep (autoLine (converted tools b.ssid)) file = false ∧
          (file = [] ∨ file.getLast? = some '\n') := by
      split
      · exact newInterfaces_unchanged_iff tools picked file
      · exact newInterfaces_added_iff tools picked file
    dsimp only
    rw [← found_iff refl]
    exact and_congr_right effect

end

def network (ssid : Text) (disabled : Bool) (unquoted : ∀ c ∈ ssid, c ≠ '"' ∧ c ≠ '\n') : Block where
  ssid := ssid
  disabled := disabled
  indent := ['\t']
  before := ["network=\x7b".toList]
  between := []
  after := ["\x7d".toList]
  unquoted := unquoted
  blank := by simp
  others := by decide +kernel

def home (disabled : Bool) : Block := network "home".toList disabled (by simp)

def office (disabled : Bool) : Block := network "office".toList disabled (by simp)

theorem home_arrives : Arrives plainTools.same ([office true] ++ home false :: []) (home false).ssid := by
  apply Arrives.kept
  · intro b member
    cases List.mem_singleton.mp member
    exact .inl (.inl rfl)
  · rintro ((off | inName) | unnamed)
    · contradiction
    · exact absurd inName (by decide +kernel)
    · exact absurd unnamed (by decide)
  · simp

theorem enabled_migrates : Migrates plainTools [office true, home false] "auto lo\n".toList := by
  apply (migrates_iff plainTools (fun name => decide_eq_true rfl) _ _).mpr
  have chosen : [office true, home false].find? (!·.disabled) = some (home false) := rfl
  rw [Migratable, chosen]
  refine ⟨home_arrives,?_⟩
  rw [if_neg (by decide +kernel)]
  exact ⟨by decide +kernel,by decide +kernel,.inr (by decide)⟩

/-- Without an enabled network "?" is brought up; a disabled network of the same name cancels the
    enabled one; and a line that goes on behind the name passes for the line of the name. -/
theorem networks_mistaken : ¬ Migrates plainTools [home true] "auto lo\n".toList ∧
    ¬ Migrates plainTools [home false, home true] "auto lo\n".toList ∧
    ¬ Migrates plainTools [home false] "auto eth0=home2\n".toList := by
  refine ⟨?_,?_,?_⟩
  · intro unchanged
    have added : newInterfaces plainTools [home true] "auto lo\n".toList =
        "auto lo\nauto eth0=?\n".toList := by
      decide +kernel
    cases added.symm.trans unchanged
  · rintro ⟨picked,_⟩
    have none : found plainTools (confOf [home false, home true]) = ['?'] := by
      decide +kernel
    cases none.symm.trans picked
  · rintro ⟨_,added⟩
    rw [if_neg (by decide +kernel)] at added
    have unchanged : newInterfaces plainTools [home false] "auto eth0=home2\n".toList =
        "auto eth0=home2\n".toList := by
      decide +kernel
    rw [unchanged] at added
    have lengths := congrArg List.length added
    simp at lengths

end NetworkChoice
