import Mathlib.Data.List.Basic

/- The arguments that xargs makes of its input: words between blanks and newlines, in which quotes
   and backslashes take the meaning from other characters. -/
namespace Xargs

abbrev Text := List Char

inductive Mode where
  | plain
  | quoted (quote : Char)
  | escaped
  | failed
  deriving DecidableEq, Repr

structure Reader where
  mode : Mode
  word : Option Text
  words : List Text
  deriving DecidableEq, Repr

def start : Reader := { mode := .plain, word := none, words := [] }

def separates (c : Char) : Bool := c = ' ' ∨ c = '\t' ∨ c = '\n'

def marks (c : Char) : Bool := c = ' ' ∨ c = '\t' ∨ c = '\'' ∨ c = '"' ∨ c = '\\'

def Reader.add (s : Reader) (c : Char) : Reader := { s with word := some (s.word.getD [] ++ [c]) }

/-- A newline inside of quotes is an error. -/
def Reader.read (s : Reader) (c : Char) : Reader :=
  match s.mode with
  | .plain =>
      if separates c then { s with word := none, words := s.words ++ s.word.toList }
      else if c = '\'' ∨ c = '"' then { s with mode := .quoted c, word := some (s.word.getD []) }
      else if c = '\\' then { s with mode := .escaped, word := some (s.word.getD []) }
      else s.add c
  | .quoted quote =>
      if c = '\n' then { s with mode := .failed }
      else if c = quote then { s with mode := .plain }
      else s.add c
  | .escaped => { s.add c with mode := .plain }
  | .failed => s

def arguments (input : Text) : List Text × Bool :=
  let s := input.foldl Reader.read start
  if s.mode = .plain then (s.words ++ s.word.toList, true) else (s.words, false)

def unlines (lines : List Text) : Text := lines.flatMap (· ++ ['\n'])

section
variable {s : Reader} {c : Char} {seen : Text}

theorem read_ordinary (plain : s.mode = .plain) (ordinary : marks c = false) (line : c ≠ '\n') :
    s.read c = s.add c := by
  simp only [marks, decide_eq_false_iff_not, not_or] at ordinary
  obtain ⟨space,tab,single,double,backslash⟩ := ordinary
  simp only [Reader.read, plain, separates, space, tab, line, single, double, backslash, or_self,
    decide_false, if_false, Bool.false_eq_true]

theorem foldl_ordinary {line : Text} (plain : s.mode = .plain)
    (ordinary : ∀ c ∈ line, marks c = false ∧ c ≠ '\n') (some : line ≠ []) :
    line.foldl Reader.read s = { s with word := .some (s.word.getD [] ++ line) } := by
  induction line generalizing s with
  | nil => exact absurd rfl some
  | cons c line ih =>
    obtain ⟨⟨clear,whole⟩,rest⟩ := List.forall_mem_cons.mp ordinary
    rw [List.foldl_cons, read_ordinary plain clear whole]
    by_cases last : line = []
    · subst last
      rfl
    · rw [ih (s := s.add c) plain rest last]
      simp [Reader.add]

theorem foldl_lines {lines : List Text}
    (ordinary : ∀ line ∈ lines, line ≠ [] ∧ ∀ c ∈ line, marks c = false ∧ c ≠ '\n')
    (before : List Text) :
    (unlines lines).foldl Reader.read ⟨.plain, none, before⟩ = ⟨.plain, none, before ++ lines⟩ := by
  induction lines generalizing before with
  | nil => simp [unlines]
  | cons line lines ih =>
    obtain ⟨⟨some,clear⟩,rest⟩ := List.forall_mem_cons.mp ordinary
    have first := foldl_ordinary (s := ⟨.plain, none, before⟩) rfl clear some
    rw [unlines, List.flatMap_cons, List.foldl_append, List.foldl_append, first]
    have next := ih rest (before ++ [line])
    simp only [List.append_assoc, List.singleton_append] at next
    exact next

theorem arguments_lines {lines : List Text}
    (ordinary : ∀ line ∈ lines, line ≠ [] ∧ ∀ c ∈ line, marks c = false ∧ c ≠ '\n') :
    arguments (unlines lines) = (lines, true) := by
  have read := foldl_lines ordinary []
  simp [arguments, start, read]

/-- A word in what has been read of a line that starts with a slash. A character that does not
    stand for itself costs a quote or a backslash, and a word that does not start with the slash
    of the line comes behind that and a blank. -/
structure Within (seen : Text) (mode : Mode) (w : Text) : Prop where
  chars : w ⊆ seen
  short : w.length ≤ seen.length
  marked : (mode ≠ .plain ∨ ∃ c ∈ w, marks c = true) → w.length + 1 ≤ seen.length
  later : w.head? ≠ some '/' → w.length + 2 ≤ seen.length

theorem within_nil (mode : Mode) (behind : 2 ≤ seen.length) : Within seen mode [] := by
  refine ⟨by simp,by simp,?_,?_⟩ <;> simp <;> omega

theorem within_slash : Within ['/'] .plain ['/'] := by
  refine ⟨by simp,by simp,?_,by simp⟩
  rintro (other | ⟨c,member,marked⟩)
  · contradiction
  · cases List.mem_singleton.mp member
    contradiction

theorem Within.add {mode mode' : Mode} {w : Text} (within : Within seen mode w)
    (ordinary : mode = .plain → mode' = .plain ∧ marks c = false) :
    Within (seen ++ [c]) mode' (w ++ [c]) := by
  have length : (w ++ [c]).length = w.length + 1 := by simp
  have read : (seen ++ [c]).length = seen.length + 1 := by simp
  refine ⟨?_,?_,?_,?_⟩
  · exact List.append_subset.mpr ⟨List.subset_append_of_subset_left _ within.chars,by simp⟩
  · have := within.short
    omega
  · intro marked
    have before : mode ≠ .plain ∨ ∃ d ∈ w, marks d = true := by
      by_cases plain : mode = .plain
      · right
        obtain ⟨stays,clear⟩ := ordinary plain
        rcases marked with other | ⟨d,member,mark⟩
        · exact absurd stays other
        · rcases List.mem_append.mp member with inside | last
          · exact ⟨d,inside,mark⟩
          · rw [List.mem_singleton.mp last, clear] at mark
            contradiction
      · exact .inl plain
    have := within.marked before
    omega
  · intro other
    have before : w.head? ≠ some '/' := by
      intro slash
      rw [List.head?_append, slash] at other
      exact other rfl
    have := within.later before
    omega

theorem Within.skip {mode : Mode} {w : Text} (within : Within seen mode w) (mode' : Mode) :
    Within (seen ++ [c]) mode' w := by
  have read : (seen ++ [c]).length = seen.length + 1 := by simp
  have short := within.short
  refine ⟨List.subset_append_of_subset_left _ within.chars,by omega,fun _ => by omega,?_⟩
  intro other
  have := within.later other
  omega

structure Tracks (seen : Text) (s : Reader) : Prop where
  current : ∀ w, s.word = some w → '\n' ∈ w ∨ Within seen s.mode w
  busy : s.mode ≠ .plain → s.word ≠ none
  begun : seen = [] → s.mode = .plain
  gap : s.word = none → seen = [] ∨ 2 ≤ seen.length

theorem tracks_start (words : List Text) : Tracks [] ⟨.plain, none, words⟩ := by
  refine ⟨?_,?_,?_,?_⟩ <;> simp

theorem Tracks.add (tracks : Tracks seen s) {mode : Mode}
    (first : seen = [] → c = '/' ∧ mode = .plain)
    (ordinary : s.mode = .plain → mode = .plain ∧ marks c = false) :
    Tracks (seen ++ [c]) { s.add c with mode := mode } := by
  refine ⟨?_,fun _ => by simp [Reader.add],by simp,by simp [Reader.add]⟩
  intro w added
  cases Option.some.inj added
  cases before : s.word with
  | none =>
    right
    rcases tracks.gap before with begins | behind
    · obtain ⟨rfl,rfl⟩ := first begins
      subst begins
      exact within_slash
    · exact (within_nil s.mode behind).add ordinary
  | some w =>
    rcases tracks.current w before with newline | within
    · exact .inl (List.mem_append_left _ newline)
    · exact .inr (within.add ordinary)

theorem Tracks.opens (tracks : Tracks seen s) (some : seen ≠ []) (mode : Mode) :
    Tracks (seen ++ [c]) { s with mode := mode, word := .some (s.word.getD []) } := by
  refine ⟨?_,fun _ => by simp,by simp,by simp⟩
  intro w opened
  cases Option.some.inj opened
  cases before : s.word with
  | none =>
    rcases tracks.gap before with begins | behind
    · exact absurd begins some
    · exact .inr ((within_nil s.mode behind).skip mode)
  | some w =>
    rcases tracks.current w before with newline | within
    · exact .inl newline
    · exact .inr (within.skip mode)

theorem read_cases (s : Reader) {c : Char} (whole : c ≠ '\n') :
    (s.mode = .plain ∧ c ≠ '/' ∧
      s.read c = { s with word := none, words := s.words ++ s.word.toList }) ∨
    (s.mode = .plain ∧ c ≠ '/' ∧
      ∃ mode, s.read c = { s with mode := mode, word := some (s.word.getD []) }) ∨
    (∃ mode, (s.mode = .plain → mode = .plain ∧ marks c = false) ∧
      s.read c = { s.add c with mode := mode }) ∨
    (s.mode ≠ .plain ∧ s.read c = { s with mode := .plain }) ∨
    (s.mode = .failed ∧ s.read c = s) := by
  unfold Reader.read
  cases mode : s.mode with
  | plain =>
    dsimp only
    by_cases blank : separates c = true
    · rw [if_pos blank]
      exact .inl ⟨rfl,by rintro rfl; contradiction,by rw [← mode]⟩
    · rw [if_neg blank]
      by_cases quote : c = '\'' ∨ c = '"'
      · rw [if_pos quote]
        exact .inr (.inl ⟨rfl,by rcases quote with rfl | rfl <;> decide,_,rfl⟩)
      · rw [if_neg quote]
        by_cases backslash : c = '\\'
        · rw [if_pos backslash]
          exact .inr (.inl ⟨rfl,by rw [backslash]; decide,_,rfl⟩)
        · rw [if_neg backslash]
          have clear : marks c = false := by
            simp only [separates, decide_eq_true_eq] at blank
            simp only [marks, decide_eq_false_iff_not]
            tauto
          exact .inr (.inr (.inl ⟨.plain,fun _ => ⟨rfl,clear⟩,by rw [← mode]; rfl⟩))
  | quoted quote =>
    dsimp only
    rw [if_neg whole]
    split
    · exact .inr (.inr (.inr (.inl ⟨by simp,rfl⟩)))
    · exact .inr (.inr (.inl ⟨.quoted quote,by simp,by rw [← mode]; rfl⟩))
  | escaped => exact .inr (.inr (.inl ⟨.plain,by simp,rfl⟩))
  | failed => exact .inr (.inr (.inr (.inr ⟨rfl,rfl⟩)))

theorem Tracks.read (tracks : Tracks seen s) (whole : c ≠ '\n') (first : seen = [] → c = '/') :
    Tracks (seen ++ [c]) (s.read c) ∨ (s.read c).mode = .failed := by
  rcases read_cases s whole with ⟨plain,other,same⟩ | ⟨plain,other,mode,same⟩ |
    ⟨mode,ordinary,same⟩ | ⟨quoted,same⟩ | ⟨failed,same⟩
  · left
    rw [same]
    have later := List.length_pos_of_ne_nil fun begins => other (first begins)
    exact ⟨by simp,by simp [plain],by simp,fun _ => .inr (by simp; omega)⟩
  · left
    rw [same]
    exact tracks.opens (fun begins => other (first begins)) mode
  · left
    rw [same]
    exact tracks.add (fun begins => ⟨first begins,(ordinary (tracks.begun begins)).1⟩) ordinary
  · left
    rw [same]
    refine ⟨?_,by simp,by simp,fun none => absurd none (tracks.busy quoted)⟩
    intro w there
    rcases tracks.current w there with newline | within
    · exact .inl newline
    · exact .inr (within.skip .plain)
  · right
    rw [same]
    exact failed

def FromLines (lines : List Text) (words : List Text) : Prop :=
  ∀ w ∈ words, '\n' ∈ w ∨ ∃ line ∈ lines, ∃ mode, Within line mode w

theorem Within.longer {mode : Mode} {w : Text} (within : Within seen mode w) (more : Text) :
    Within (seen ++ more) mode w := by
  have read : (seen ++ more).length = seen.length + more.length := List.length_append
  refine ⟨List.subset_append_of_subset_left _ within.chars,?_,?_,?_⟩
  · have := within.short
    omega
  · intro marked
    have := within.marked marked
    omega
  · intro other
    have := within.later other
    omega

theorem read_words (s : Reader) (c : Char) : (s.read c).words = s.words ∨
    (s.read c).words = s.words ++ s.word.toList := by
  unfold Reader.read
  split
  · split_ifs
    · exact .inr rfl
    all_goals exact .inl rfl
  · split_ifs <;> exact .inl rfl
  · exact .inl rfl
  · exact .inl rfl

theorem FromLines.read {lines : List Text} {rest : Text} (before : FromLines lines s.words)
    (tracks : Tracks seen s) (member : seen ++ rest ∈ lines) :
    FromLines lines (s.read c).words := by
  rcases read_words s c with same | same
  · rw [same]
    exact before
  · rw [same]
    intro w read
    rcases List.mem_append.mp read with earlier | last
    · exact before w earlier
    · have word : s.word = some w := by simpa using last
      rcases tracks.current w word with newline | within
      · exact .inl newline
      · exact .inr ⟨seen ++ rest,member,_,within.longer rest⟩

theorem foldl_failed (failed : s.mode = .failed) (text : Text) : text.foldl Reader.read s = s := by
  induction text with
  | nil => rfl
  | cons c text ih =>
    have stays : s.read c = s := by simp only [Reader.read, failed]
    rw [List.foldl_cons, stays, ih]

theorem newline_tracks (s : Reader) :
    Tracks [] (s.read '\n') ∨ (s.read '\n').mode = .failed := by
  cases mode : s.mode with
  | plain =>
    left
    have ends : s.read '\n' = ⟨.plain, none, s.words ++ s.word.toList⟩ := by
      simp [Reader.read, mode, separates]
    rw [ends]
    exact tracks_start _
  | quoted quote => exact .inr (by simp [Reader.read, mode])
  | escaped =>
    left
    have adds : s.read '\n' = { s.add '\n' with mode := .plain } := by
      simp only [Reader.read, mode]
    rw [adds]
    refine ⟨?_,by simp,by simp,by simp [Reader.add]⟩
    intro w added
    cases Option.some.inj added
    exact .inl (by simp)
  | failed => exact .inr (by simp [Reader.read, mode])

theorem foldl_line {lines : List Text} {rest : Text} (member : seen ++ rest ∈ lines)
    (whole : ∀ c ∈ rest, c ≠ '\n') (first : seen = [] → rest.head? = some '/')
    (before : FromLines lines s.words) (tracks : Tracks seen s ∨ s.mode = .failed) :
    let t := (rest ++ ['\n']).foldl Reader.read s
    (Tracks [] t ∨ t.mode = .failed) ∧ FromLines lines t.words := by
  rcases tracks with tracks | failed
  · induction rest generalizing seen s with
    | nil => exact ⟨newline_tracks s,before.read tracks member⟩
    | cons c rest ih =>
      obtain ⟨here,others⟩ := List.forall_mem_cons.mp whole
      have slash : seen = [] → c = '/' := fun begins => by simpa using first begins
      have read := before.read (c := c) tracks member
      rcases tracks.read here slash with next | failed
      · exact ih (by simpa using member) others (by simp) read next
      · rw [List.cons_append, List.foldl_cons, foldl_failed failed]
        exact ⟨.inr failed,read⟩
  · rw [foldl_failed failed]
    exact ⟨.inr failed,before⟩

theorem foldl_unlines {lines more : List Text} (part : more ⊆ lines)
    (slash : ∀ line ∈ more, line.head? = some '/' ∧ '\n' ∉ line) (before : FromLines lines s.words)
    (tracks : Tracks [] s ∨ s.mode = .failed) :
    let t := (unlines more).foldl Reader.read s
    (Tracks [] t ∨ t.mode = .failed) ∧ FromLines lines t.words := by
  induction more generalizing s with
  | nil => exact ⟨tracks,before⟩
  | cons line more ih =>
    obtain ⟨⟨starts,whole⟩,others⟩ := List.forall_mem_cons.mp slash
    obtain ⟨member,rest⟩ := List.cons_subset.mp part
    have clear : ∀ c ∈ line, c ≠ '\n' := fun c inside newline => whole (newline ▸ inside)
    obtain ⟨next,read⟩ := foldl_line member clear (fun _ => starts) before tracks
    rw [unlines, List.flatMap_cons, List.foldl_append]
    exact ih rest others read next

/-- An argument with a character that does not stand for itself, and no newline, is shorter than
    a line of the input, and shorter by two if it does not start with a slash. -/
theorem argument_shorter {lines : List Text} {w : Text}
    (slash : ∀ line ∈ lines, line.head? = some '/' ∧ '\n' ∉ line)
    (member : w ∈ (arguments (unlines lines)).1) (whole : '\n' ∉ w)
    (marked : ∃ c ∈ w, marks c = true) : ∃ line ∈ lines, w ⊆ line ∧
      w.length < line.length ∧ (w.head? ≠ some '/' → w.length + 1 < line.length) := by
  have begins : FromLines lines start.words := by simp [FromLines, start]
  obtain ⟨tracks,read⟩ := foldl_unlines (List.Subset.refl lines) slash begins (.inl (tracks_start []))
  have origin : '\n' ∈ w ∨ ∃ line ∈ lines, ∃ mode, Within line mode w := by
    unfold arguments at member
    dsimp only at member
    split at member
    · rename_i plain
      rcases List.mem_append.mp member with earlier | last
      · exact read w earlier
      · -- The input ends with a newline, so that only an escaped one can have left a word open.
        rcases tracks with tracks | failed
        · rcases tracks.current w (by simpa using last) with newline | within
          · exact .inl newline
          · obtain ⟨c,inside,_⟩ := marked
            exact absurd (within.chars inside) List.not_mem_nil
        · rw [plain] at failed
          contradiction
    · exact read w member
  rcases origin with newline | ⟨line,inside,mode,within⟩
  · exact absurd newline whole
  · refine ⟨line,inside,within.chars,within.marked (.inr marked),?_⟩
    intro other
    have := within.later other
    omega

def Led (s : Reader) : Prop :=
  ∃ w words, s.words ++ s.word.toList = ('/' :: w) :: words

theorem Led.read (led : Led s) (c : Char) : Led (s.read c) := by
  obtain ⟨mode,word,words⟩ := s
  have added : ∀ text, Led ⟨mode, some (word.getD [] ++ text), words⟩ := by
    intro text
    obtain ⟨w,more,first⟩ := led
    cases words with
    | nil =>
      cases word with
      | none => simp at first
      | some word =>
        obtain ⟨rfl,-⟩ := List.cons.inj first
        exact ⟨w ++ text,[],rfl⟩
    | cons complete words =>
      obtain ⟨rfl,-⟩ := List.cons.inj first
      exact ⟨w,_,rfl⟩
  have opened := added []
  rw [List.append_nil] at opened
  unfold Reader.read
  split
  · split_ifs
    · simpa [Led] using led
    · exact opened
    · exact opened
    · exact added [c]
  · split_ifs
    · exact led
    · exact led
    · exact added [c]
  · exact added [c]
  · exact led

theorem arguments_head {line w : Text} {lines : List Text} (slash : line.head? = some '/')
    (first : (arguments (unlines (line :: lines))).1.head? = some w) : w.head? = some '/' := by
  obtain ⟨line,rfl⟩ : ∃ rest, line = '/' :: rest := List.head?_eq_some_iff.mp slash
  have led (text : Text) {t : Reader} (begun : Led t) : Led (text.foldl Reader.read t) := by
    induction text generalizing t with
    | nil => exact begun
    | cons c text ih => exact ih (begun.read c)
  have begun : Led (start.read '/') := ⟨[],[],rfl⟩
  obtain ⟨v,words,read⟩ := led (line ++ ['\n'] ++ unlines lines) begun
  have input : unlines (('/' :: line) :: lines) = '/' :: (line ++ ['\n'] ++ unlines lines) := by
    simp [unlines]
  rw [input, arguments, List.foldl_cons] at first
  split at first
  · rw [read] at first
    cases Option.some.inj first
    rfl
  · obtain ⟨others,complete⟩ := List.head?_eq_some_iff.mp first
    dsimp only at complete
    rw [complete] at read
    cases (List.cons.inj read).1
    rfl

end

end Xargs
