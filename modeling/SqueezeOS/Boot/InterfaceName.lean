import Mathlib.Data.List.DropRight
import SqueezeOS.Boot.Linuxrc
import SqueezeOS.Pieces

/- The name of a network's interface, as linuxrc makes it from the configuration of
   wpa_supplicant and as if_mapping makes it from what wpa_cli reports. -/
namespace Linuxrc

/-- Operands for which POSIX leaves open what echo prints. -/
def Unspecified (operands : List Text) : Prop :=
  operands.head? = some "-n".toList ∨ ∃ w ∈ operands, '\\' ∈ w

instance (operands : List Text) : Decidable (Unspecified operands) :=
  inferInstanceAs (Decidable (_ ∨ _))

structure Echo where
  prints : List Text → Text
  plain : ∀ operands, ¬ Unspecified operands → prints operands = [' '].intercalate operands

def substituted (output : Text) : Text := output.rdropWhile (· = '\n')

/-- The sed script, which works on lines. -/
def sedSpace (c : Char) : Char := if c ≠ '\n' ∧ isSpace c then '_' else c

def trBlank (c : Char) : Char := if c = ' ' ∨ c = '\t' then '_' else c

def linuxrcName (echo : Echo) (ssid : Text) : Text :=
  substituted ((echo.prints (fields ssid)).map sedSpace)

/-- What linuxrc appends behind "auto eth0=", which is nothing for an empty name. -/
def appendedName (echo : Echo) (ssid : Text) : Text :=
  let name := linuxrcName echo ssid
  if name = [] then [] else (echo.prints [autoLine name]).drop (autoLine []).length

/-- The lines of wpa_cli, through grep, cut and tr. -/
def statusName (status : List Text) : Text :=
  ((status.filter fun line => "ssid=".toList <+: line).flatMap fun line =>
    (line.dropWhile (· ≠ '=')).tail ++ ['\n']).map trBlank

def ifMapping (echo : Echo) (status : List Text) : Text :=
  echo.prints (fields (substituted (statusName status)))

def Reports (status : List Text) (ssid : Text) : Prop :=
  (status.filter fun line => "ssid=".toList <+: line) = ["ssid=".toList ++ ssid]

/-- Whatever echo does where POSIX leaves it open. -/
def NamesAgree (ssid : Text) : Prop :=
  ∀ (echo : Echo) (status : List Text), Reports status ssid →
    appendedName echo ssid = ifMapping echo status

def Printable (c : Char) : Prop := (' ' ≤ c ∧ c ≤ '~' ∧ c ≠ '"') ∨ c = '\t'

instance (c : Char) : Decidable (Printable c) := inferInstanceAs (Decidable (_ ∨ _))

/-- No blank or tab at the ends and no two of them in a row: there is something between any two
    of them. -/
def Spaced (ssid : Text) : Prop := ssid = [] ∨ [] ∉ ssid.splitOnP isBlank

structure Tidy (ssid : Text) : Prop where
  spaced : Spaced ssid
  literal : '\\' ∉ ssid
  option : (fields ssid).head? ≠ some "-n".toList

section
variable {ssid : Text} {c : Char}

theorem Printable.not_newline (printable : Printable c) : c ≠ '\n' := by
  rintro rfl
  exact absurd printable (by decide)

theorem isBlank_iff (c : Char) : isBlank c ↔ c = ' ' ∨ c = '\t' ∨ c = '\n' := by
  simp [isBlank]

theorem mem_fields {w : Text} (member : w ∈ fields ssid) : w ≠ [] ∧ ∀ c ∈ w, c ∈ ssid ∧ ¬ isBlank c := by
  obtain ⟨cut,full⟩ := List.mem_filter.mp member
  refine ⟨of_decide_eq_true full,?_⟩
  intro c inside
  obtain ⟨whence,clear⟩ := Pieces.splitOnP_clear w cut c inside
  exact ⟨whence,by simp [clear]⟩

theorem fields_word {w : Text} (some : w ≠ []) (clear : ∀ c ∈ w, ¬ isBlank c) : fields w = [w] := by
  have whole : w.splitOnP isBlank = [w] :=
    List.splitOnP_eq_singleton fun c member => by simpa using clear c member
  rw [fields, whole]
  simp [some]

theorem trBlank_clear (printable : ∀ c ∈ ssid, Printable c) : ∀ c ∈ ssid.map trBlank, ¬ isBlank c := by
  intro c member
  obtain ⟨d,inside,rfl⟩ := List.mem_map.mp member
  have line := (printable d inside).not_newline
  unfold trBlank
  split
  · decide
  · rename_i other
    rw [isBlank_iff]
    tauto

theorem map_trBlank (printable : ∀ c ∈ ssid, Printable c) :
    ssid.map trBlank = ['_'].intercalate (ssid.splitOnP isBlank) := by
  apply Pieces.map_splitOnP
  · intro c member blank
    have line := (printable c member).not_newline
    rw [isBlank_iff] at blank
    rw [trBlank, if_pos (by tauto)]
  · intro c _ clear
    have other : ¬ isBlank c := by simp [clear]
    rw [isBlank_iff] at other
    rw [trBlank, if_neg (by tauto)]

theorem substituted_line {text : Text} (line : '\n' ∉ text) : substituted text = text := by
  apply List.rdropWhile_eq_self_iff.mpr
  intro some last
  have newline := of_decide_eq_true last
  exact line (newline ▸ List.getLast_mem some)

theorem substituted_newline {text : Text} (line : '\n' ∉ text) :
    substituted (text ++ ['\n']) = text := by
  rw [substituted, List.rdropWhile_concat_pos _ _ _ (by simp)]
  exact substituted_line line

theorem sedSpace_word {w : Text} (clear : ∀ c ∈ w, Printable c ∧ ¬ isBlank c) :
    w.map sedSpace = w := by
  refine (List.map_congr_left ?_).trans (List.map_id w)
  intro c member
  obtain ⟨printable,solid⟩ := clear c member
  have other : ¬ isSpace c := by
    intro space
    simp only [isSpace, decide_eq_true_eq] at space
    rcases space with blank | rfl | rfl | rfl
    · exact solid blank
    · exact absurd printable (by decide)
    · exact absurd printable (by decide)
    · exact absurd printable (by decide)
  rw [sedSpace, if_neg fun both => other both.2]
  rfl

theorem autoLine_plain {name : Text} (literal : '\\' ∉ name) : ¬ Unspecified [autoLine name] := by
  rintro (option | ⟨w,member,backslash⟩)
  · rw [autoLine_eq] at option
    simp at option
  · rw [List.mem_singleton.mp member] at backslash
    rcases List.mem_append.mp backslash with front | back
    · exact absurd front (by decide)
    · exact literal back

theorem appendedName_plain (echo : Echo) (printable : ∀ c ∈ ssid, Printable c)
    (plain : ¬ Unspecified (fields ssid)) : appendedName echo ssid = ['_'].intercalate (fields ssid) := by
  have words : (fields ssid).map (List.map sedSpace) = fields ssid := by
    refine (List.map_congr_left ?_).trans (List.map_id _)
    intro w member
    apply sedSpace_word
    intro c inside
    obtain ⟨whence,solid⟩ := (mem_fields member).2 c inside
    exact ⟨printable c whence,solid⟩
  have joined : (echo.prints (fields ssid)).map sedSpace = ['_'].intercalate (fields ssid) := by
    rw [echo.plain _ plain, Pieces.map_intercalate, words]
    rfl
  have inside (c : Char) (member : c ∈ ['_'].intercalate (fields ssid)) :
      c = '_' ∨ ∃ w ∈ fields ssid, c ∈ w := Pieces.mem_intercalate member
  have line : '\n' ∉ ['_'].intercalate (fields ssid) := by
    intro newline
    rcases inside _ newline with mark | ⟨w,member,within⟩
    · exact absurd mark (by decide)
    · exact ((mem_fields member).2 _ within).2 (by decide)
  have literal : '\\' ∉ ['_'].intercalate (fields ssid) := by
    intro backslash
    rcases inside _ backslash with mark | ⟨w,member,within⟩
    · exact absurd mark (by decide)
    · exact plain (.inr ⟨w,member,within⟩)
  have name : linuxrcName echo ssid = ['_'].intercalate (fields ssid) := by
    rw [linuxrcName, joined, substituted_line line]
  rw [appendedName, name]
  split
  · rename_i empty
    exact empty.symm
  · rw [echo.plain _ (autoLine_plain literal), List.intercalate_singleton, autoLine_eq, autoLine_eq]
    rfl

theorem statusName_reports {status : List Text} (reports : Reports status ssid) :
    statusName status = ssid.map trBlank ++ ['\n'] := by
  rw [statusName, reports]
  simp [trBlank]

theorem fields_statusName {status : List Text} (reports : Reports status ssid)
    (printable : ∀ c ∈ ssid, Printable c) (some : ssid ≠ []) :
    fields (substituted (statusName status)) = [ssid.map trBlank] := by
  have clear := trBlank_clear printable
  rw [statusName_reports reports, substituted_newline fun newline => clear _ newline (by decide)]
  exact fields_word (by simpa using some) clear

theorem trBlank_eq {d : Char} (same : trBlank c = d) (other : d ≠ '_') : c = d := by
  unfold trBlank at same
  split at same
  · exact absurd same.symm other
  · exact same

theorem map_trBlank_option (option : ssid.map trBlank = "-n".toList) : ssid = "-n".toList := by
  have letters : ssid.map trBlank = ['-', 'n'] := option
  obtain ⟨c,rest,rfl,first,later⟩ := List.map_eq_cons_iff.mp letters
  obtain ⟨d,last,rfl,second,none⟩ := List.map_eq_cons_iff.mp later
  cases List.map_eq_nil_iff.mp none
  cases trBlank_eq first (by decide)
  cases trBlank_eq second (by decide)
  rfl

theorem fields_special (literal : '\\' ∉ ssid) (option : (fields ssid).head? ≠ some "-n".toList) :
    ¬ Unspecified (fields ssid) := by
  rintro (first | ⟨w,member,backslash⟩)
  · exact option first
  · exact literal ((mem_fields member).2 _ backslash).1

theorem literal_of_fields (plain : ¬ Unspecified (fields ssid)) : '\\' ∉ ssid := by
  intro backslash
  obtain ⟨w,cut,inside⟩ := Pieces.mem_splitOnP (p := isBlank) backslash (by decide)
  have full : w ≠ [] := List.ne_nil_of_mem inside
  exact plain (.inr ⟨w,List.mem_filter.mpr ⟨cut,by simpa using full⟩,inside⟩)

theorem ifMapping_plain (echo : Echo) {status : List Text} (reports : Reports status ssid)
    (printable : ∀ c ∈ ssid, Printable c) (plain : ¬ Unspecified (fields ssid)) :
    ifMapping echo status = ssid.map trBlank := by
  by_cases empty : ssid = []
  · subst empty
    have nothing : fields (substituted (statusName status)) = [] := by
      rw [statusName_reports reports, List.map_nil, substituted_newline (by simp)]
      rfl
    rw [ifMapping, nothing, echo.plain [] (by rintro (none | ⟨w,none,_⟩) <;> simp at none)]
    rfl
  · have literal := literal_of_fields plain
    have known : ¬ Unspecified [ssid.map trBlank] := by
      rintro (option | ⟨w,member,backslash⟩)
      · rw [map_trBlank_option (Option.some.inj option)] at plain
        exact plain (.inl (by decide))
      · rw [List.mem_singleton.mp member] at backslash
        obtain ⟨c,inside,same⟩ := List.mem_map.mp backslash
        rw [trBlank_eq same (by decide)] at inside
        exact literal inside
    rw [ifMapping, fields_statusName reports printable empty, echo.plain _ known,
      List.intercalate_singleton]

end

def blankEcho : Echo where
  prints operands := if Unspecified operands then [' '] else [' '].intercalate operands
  plain := by
    intro operands plain
    rw [if_neg plain]

theorem reports_only (ssid : Text) : Reports ["ssid=".toList ++ ssid] ssid := by
  simp [Reports]

theorem unspecified_disagree {ssid : Text} (printable : ∀ c ∈ ssid, Printable c)
    (unfixed : Unspecified (fields ssid)) : ¬ NamesAgree ssid := by
  intro agree
  have some : ssid ≠ [] := by
    rintro rfl
    exact absurd unfixed (by decide)
  have appended : appendedName blankEcho ssid = ['_'] := by
    have first : blankEcho.prints (fields ssid) = [' '] := if_pos unfixed
    rw [appendedName, linuxrcName, first]
    decide
  have same := agree blankEcho _ (reports_only ssid)
  rw [appended, ifMapping, fields_statusName (reports_only ssid) printable some] at same
  by_cases known : Unspecified [ssid.map trBlank]
  · have printed : blankEcho.prints [ssid.map trBlank] = [' '] := if_pos known
    rw [printed] at same
    contradiction
  · rw [blankEcho.plain _ known, List.intercalate_singleton] at same
    obtain ⟨c,rest,rfl,first,none⟩ := List.map_eq_cons_iff.mp same.symm
    cases List.map_eq_nil_iff.mp none
    have only (w : Text) (member : w ∈ fields [c]) (d : Char) (inside : d ∈ w) : d = c :=
      List.mem_singleton.mp ((mem_fields member).2 d inside).1
    rcases unfixed with option | ⟨w,member,backslash⟩
    · have member := List.mem_of_mem_head? option
      have dash := only _ member '-' (by decide)
      have letter := only _ member 'n' (by decide)
      exact absurd (dash.trans letter.symm) (by decide)
    · rw [← only w member _ backslash] at first
      exact absurd first (by decide)

/-- linuxrc and if_mapping make the same name of an SSID exactly when it is tidy. -/
theorem namesAgree_iff {ssid : Text} (printable : ∀ c ∈ ssid, Printable c) :
    NamesAgree ssid ↔ Tidy ssid := by
  have spaced : ['_'].intercalate (fields ssid) = ssid.map trBlank ↔ Spaced ssid := by
    have none : ssid.splitOnP isBlank = [[]] ↔ ssid = [] := by
      constructor
      · intro empty
        have joined := map_trBlank printable
        rw [empty] at joined
        exact List.map_eq_nil_iff.mp joined
      · rintro rfl
        rfl
    rw [map_trBlank printable, fields, Pieces.intercalate_filter_iff, none]
    rfl
  constructor
  · intro agree
    have plain : ¬ Unspecified (fields ssid) := fun unfixed => unspecified_disagree printable unfixed agree
    have same := agree blankEcho _ (reports_only ssid)
    rw [appendedName_plain _ printable plain, ifMapping_plain _ (reports_only ssid) printable plain]
      at same
    exact ⟨spaced.mp same,literal_of_fields plain,fun option => plain (.inl option)⟩
  · rintro ⟨gaps,literal,option⟩ echo status reports
    have plain := fields_special literal option
    rw [appendedName_plain echo printable plain, ifMapping_plain echo reports printable plain]
    exact spaced.mpr gaps

theorem one_blank_agrees : NamesAgree "my net".toList :=
  (namesAgree_iff (by simp [Printable])).mpr ⟨.inr (by decide),by decide,by decide⟩

/-- Of two blanks linuxrc makes one underscore, and if_mapping two. -/
theorem two_blanks_disagree : ¬ NamesAgree "a  b".toList ∧
    appendedName blankEcho "a  b".toList = "a_b".toList ∧
    ifMapping blankEcho ["ssid=a  b".toList] = "a__b".toList := by
  refine ⟨?_,by decide +kernel,by decide +kernel⟩
  intro agree
  have same := agree blankEcho _ (reports_only "a  b".toList)
  revert same
  decide +kernel

end Linuxrc
