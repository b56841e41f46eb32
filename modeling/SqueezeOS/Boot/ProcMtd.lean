import Mathlib.Algebra.Group.Nat.Defs
import SqueezeOS.Boot.InterfaceName

/- /proc/mtd, and the numbers that the scripts take from it: the fourth character of each line
   that grep finds. -/
namespace ProcMtd
open Linuxrc

structure Partition where
  number : Nat
  size : Nat
  eraseSize : Nat
  name : Text
  deriving DecidableEq, Repr

def decimal (n : Nat) : Text := Nat.toDigits 10 n

def hex8 (n : Nat) : Text := (List.range 8).map fun i => Nat.digitChar (n / 16 ^ (7 - i) % 16)

def Partition.front (p : Partition) : Text :=
  ['m', 't', 'd'] ++ decimal p.number ++ [':', ' '] ++ hex8 p.size ++ [' '] ++ hex8 p.eraseSize ++
    [' ']

def Partition.line (p : Partition) : Text := p.front ++ '"' :: (p.name ++ ['"'])

def header : Text :=
  ['d', 'e', 'v', ':'] ++ List.replicate 4 ' ' ++ ['s', 'i', 'z', 'e'] ++ List.replicate 3 ' ' ++
    ['e', 'r', 'a', 's', 'e', 's', 'i', 'z', 'e'] ++ List.replicate 2 ' ' ++ ['n', 'a', 'm', 'e']

def procMtd (partitions : List Partition) : List Text := header :: partitions.map Partition.line

/-- The lines with a pattern that stands for itself; `fold` is what makes grep -i of grep. -/
def grepWith (fold : Char → Char) (pattern : Text) (lines : List Text) : List Text :=
  lines.filter fun line => pattern.map fold <:+: line.map fold

def cutC4 (line : Text) : Text := (line.drop 3).take 1

/-- The output of grep and cut in the place of the command. -/
def devices (fold : Char → Char) (pattern : Text) (lines : List Text) : Text :=
  substituted ((grepWith fold pattern lines).flatMap fun line => cutC4 line ++ ['\n'])

def matching (fold : Char → Char) (pattern : Text) (partitions : List Partition) : List Partition :=
  partitions.filter fun p => pattern.map fold <:+: p.line.map fold

def Partition.digit (p : Partition) : Char := (decimal p.number).head Nat.toDigits_ne_nil

section
variable {p : Partition}

theorem decimal_isDigit {n : Nat} {c : Char} (member : c ∈ decimal n) : c.isDigit :=
  Nat.isDigit_of_mem_toDigits (by decide) (by decide) member

theorem digit_isDigit (p : Partition) : p.digit.isDigit :=
  decimal_isDigit (List.head_mem _)

theorem not_blank_of_isDigit {c : Char} (digit : c.isDigit) : ¬ isBlank c := by
  rw [isBlank_iff]
  rintro (rfl | rfl | rfl)
  · exact absurd digit (by decide)
  · exact absurd digit (by decide)
  · exact absurd digit (by decide)

theorem decimal_eq_digit (p : Partition) : ∃ rest, decimal p.number = p.digit :: rest :=
  ⟨_,(List.cons_head_tail _).symm⟩

theorem digit_whole_iff (p : Partition) : [p.digit] = decimal p.number ↔ p.number < 10 := by
  obtain ⟨rest,digits⟩ := decimal_eq_digit p
  have short := Nat.length_toDigits_le_iff (b := 10) (n := p.number) (k := 1) (by decide) (by decide)
  change (decimal p.number).length ≤ 1 ↔ _ at short
  rw [digits] at short ⊢
  simp only [List.length_cons, Nat.pow_one] at short
  rw [← short]
  cases rest <;> simp

theorem cutC4_line (p : Partition) : cutC4 p.line = [p.digit] := by
  obtain ⟨rest,digits⟩ := decimal_eq_digit p
  rw [Partition.line, Partition.front, digits]
  rfl

end

def Words (words : List Text) : Prop := ∀ w ∈ words, w ≠ [] ∧ ∀ c ∈ w, ¬ isBlank c

theorem words_cons {w : Text} {words : List Text} :
    Words (w :: words) ↔ (w ≠ [] ∧ ∀ c ∈ w, ¬ isBlank c) ∧ Words words :=
  List.forall_mem_cons

theorem fields_lines {words : List Text} (proper : Words words) :
    fields (['\n'].intercalate words) = words := by
  induction words with
  | nil => rfl
  | cons w words ih =>
    obtain ⟨⟨full,solid⟩,others⟩ := words_cons.mp proper
    cases words with
    | nil =>
      rw [List.intercalate_singleton]
      exact fields_word full solid
    | cons v words =>
      rw [List.intercalate_cons_cons, List.append_assoc, List.singleton_append]
      unfold fields at ih ⊢
      rw [List.splitOnP_append_cons_of_forall_mem (by simpa using solid) '\n' (by decide),
        List.filter_cons_of_pos (by simpa using full), ih others]

theorem lines_end {w : Text} {words : List Text} :
    (w :: words).flatMap (· ++ ['\n']) = ['\n'].intercalate (w :: words) ++ ['\n'] := by
  induction words generalizing w with
  | nil => simp
  | cons v words ih => rw [List.flatMap_cons, ih, List.intercalate_cons_cons]; simp

theorem lines_last {w : Text} {words : List Text} (proper : Words (w :: words)) :
    ∃ front c, ['\n'].intercalate (w :: words) = front ++ [c] ∧ ¬ isBlank c := by
  induction words generalizing w with
  | nil =>
    obtain ⟨⟨full,solid⟩,_⟩ := words_cons.mp proper
    refine ⟨w.dropLast,w.getLast full,?_,solid _ (List.getLast_mem full)⟩
    rw [List.intercalate_singleton, List.dropLast_append_getLast]
  | cons v words ih =>
    obtain ⟨front,c,same,solid⟩ := ih (words_cons.mp proper).2
    refine ⟨w ++ ['\n'] ++ front,c,?_,solid⟩
    rw [List.intercalate_cons_cons, same]
    simp

theorem substituted_lines {words : List Text} (proper : Words words) :
    substituted (words.flatMap (· ++ ['\n'])) = ['\n'].intercalate words := by
  cases words with
  | nil => rfl
  | cons w words =>
    obtain ⟨front,c,same,solid⟩ := lines_last proper
    have other : c ≠ '\n' := by
      rintro rfl
      exact solid (by decide)
    rw [lines_end, substituted, List.rdropWhile_concat_pos _ _ _ (by simp), same,
      List.rdropWhile_concat_neg _ _ _ (by simpa using other)]

section
variable {fold : Char → Char} {pattern : Text} {partitions : List Partition}

theorem grep_procMtd (apart : ¬ pattern.map fold <:+: header.map fold) :
    grepWith fold pattern (procMtd partitions) =
      (matching fold pattern partitions).map Partition.line := by
  rw [grepWith, procMtd, List.filter_cons_of_neg (by simpa using apart), List.filter_map]
  rfl

theorem digits_words (found : List Partition) : Words (found.map fun p => [p.digit]) := by
  intro w member
  obtain ⟨p,_,rfl⟩ := List.mem_map.mp member
  refine ⟨by simp,?_⟩
  intro c single
  rw [List.mem_singleton.mp single]
  exact not_blank_of_isDigit (digit_isDigit p)

theorem devices_procMtd (apart : ¬ pattern.map fold <:+: header.map fold) :
    devices fold pattern (procMtd partitions) =
      ['\n'].intercalate ((matching fold pattern partitions).map fun p => [p.digit]) := by
  rw [devices, grep_procMtd apart, List.flatMap_map]
  simp only [cutC4_line]
  rw [← substituted_lines (digits_words _), List.flatMap_map]

theorem fields_devices (apart : ¬ pattern.map fold <:+: header.map fold) :
    fields (devices fold pattern (procMtd partitions)) =
      (matching fold pattern partitions).map fun p => [p.digit] := by
  rw [devices_procMtd apart]
  exact fields_lines (digits_words _)

theorem fields_path (apart : ¬ pattern.map fold <:+: header.map fold) {path : Text}
    (full : path ≠ []) (solid : ∀ c ∈ path, ¬ isBlank c) :
    fields (path ++ devices fold pattern (procMtd partitions)) =
      match matching fold pattern partitions with
      | [] => [path]
      | p :: others => (path ++ [p.digit]) :: others.map fun q => [q.digit] := by
  rw [devices_procMtd apart]
  cases matching fold pattern partitions with
  | nil => simpa using fields_word full solid
  | cons p others =>
    have words := digits_words (p :: others)
    rw [List.map_cons, words_cons] at words
    have joined : path ++ ['\n'].intercalate ((p :: others).map fun q => [q.digit]) =
        ['\n'].intercalate ((path ++ [p.digit]) :: others.map fun q => [q.digit]) := by
      cases others with
      | nil => simp
      | cons q others =>
        simp only [List.map_cons, List.intercalate_cons_cons, List.append_assoc]
    rw [joined]
    refine fields_lines (words_cons.mpr ⟨⟨by simp [full],?_⟩,words.2⟩)
    intro c member
    rcases List.mem_append.mp member with inside | digit
    · exact solid c inside
    · exact words.1.2 c digit

end

end ProcMtd
