import Mathlib.Data.Nat.Digits.Defs
import Mathlib.Tactic.IntervalCases

/- The kernel's character classes and number conversions (lib/ctype.c, lib/vsprintf.c). A
   string is the list of its bytes; what follows the list is its terminating NUL. -/
namespace KernelStrings

def isdigit (c : UInt8) : Bool := 48 ≤ c && c ≤ 57

def isxdigit (c : UInt8) : Bool := isdigit c || 65 ≤ c && c ≤ 70 || 97 ≤ c && c ≤ 102

/-- The hard space of Latin-1 counts too. -/
def isspace (c : UInt8) : Bool := 9 ≤ c && c ≤ 13 || c == 32 || c == 160

def islower (c : UInt8) : Bool := 97 ≤ c && c ≤ 122 || 223 ≤ c && c != 247

def toupper (c : UInt8) : UInt8 := if islower c then c - 32 else c

def digitValue (c : UInt8) : Nat :=
  if isdigit c then (c - 48).toNat else (toupper c - 65 + 10).toNat

/-- The loop of simple_strtoul, in an unsigned long of 32 bits. -/
def strtoulDigits (base : Nat) (result : Nat) : List UInt8 → Nat
  | [] => result
  | c :: cp =>
      if isxdigit c && digitValue c < base then
        strtoulDigits base ((result * base + digitValue c) % 2 ^ 32) cp
      else result

def skipHexMark : List UInt8 → List UInt8
  | c :: x :: cp => if c == 48 && toupper x == 88 then cp else c :: x :: cp
  | cp => cp

/-- For the bases that the drivers use, 10 and 16. -/
def simpleStrtoul (cp : List UInt8) (base : Nat) : Nat :=
  strtoulDigits base 0 (if base = 16 then skipHexMark cp else cp)

/-- The same loop with the pointer that it leaves in *endp, on the memory from the number on;
    `none` when it runs out of what is mapped. -/
def strtoulEnd (base : Nat) (result : Nat) : List UInt8 → Option (Nat × List UInt8)
  | [] => none
  | c :: cp =>
      if isxdigit c && digitValue c < base then
        strtoulEnd base ((result * base + digitValue c) % 2 ^ 32) cp
      else some (result, c :: cp)

def simpleStrtoulEnd (cp : List UInt8) (base : Nat) : Option (Nat × List UInt8) :=
  strtoulEnd base 0 (if base = 16 then skipHexMark cp else cp)

def simpleStrtol (cp : List UInt8) (base : Nat) : Nat :=
  match cp with
  | 45 :: cp => (2 ^ 32 - simpleStrtoul cp base) % 2 ^ 32
  | cp => simpleStrtoul cp base

/-- sscanf of a string with "%x": `none` leaves the variable as it was. -/
def sscanfX (str : List UInt8) : Option Nat :=
  match str.dropWhile isspace with
  | [] => none
  | digit :: rest => if isxdigit digit then some (simpleStrtoul (digit :: rest) 16) else none

def strtoullDigits (base : Nat) (result : Nat) : List UInt8 → Nat
  | [] => result
  | c :: cp =>
      if isxdigit c && digitValue c < base then
        strtoullDigits base ((result * base + digitValue c) % 2 ^ 64) cp
      else result

def simpleStrtoull (cp : List UInt8) (base : Nat) : Nat :=
  strtoullDigits base 0 (if base = 16 then skipHexMark cp else cp)

def simpleStrtoll (cp : List UInt8) (base : Nat) : Nat :=
  match cp with
  | 45 :: cp => (2 ^ 64 - simpleStrtoull cp base) % 2 ^ 64
  | cp => simpleStrtoull cp base

/-- sscanf of a string with "%lld": `none` leaves the variable as it was. The digit that is
    looked at stands behind the sign, when there is one. -/
def sscanfLld (buf : List UInt8) : Option Nat :=
  let str := buf.dropWhile isspace
  let digit := if str.head? = some 45 then str.tail.head? else str.head?
  if digit.any isdigit then some (simpleStrtoll str 10) else none

/-- What "%llu" prints. The digits are taken off the low end of the number and printed
    backwards. -/
def sprintfLlu (num : Nat) : List UInt8 :=
  if num = 0 then [48] else (Nat.digits 10 num).reverse.map fun d => UInt8.ofNat (48 + d)

theorem strtoulEnd_suffix {base result val : Nat} {cp rest : List UInt8}
    (read : strtoulEnd base result cp = some (val, rest)) : rest ≠ [] ∧ rest <:+ cp := by
  induction cp generalizing result with
  | nil => contradiction
  | cons c cp ih =>
    unfold strtoulEnd at read
    split at read
    · obtain ⟨some,behind⟩ := ih read
      exact ⟨some,behind.trans (List.suffix_cons c cp)⟩
    · cases Option.some.inj read
      exact ⟨by simp,List.suffix_rfl⟩

theorem skipHexMark_cases (cp : List UInt8) : skipHexMark cp = cp ∨
    ∃ x rest, cp = 48 :: x :: rest ∧ (toupper x == 88) = true ∧ skipHexMark cp = rest := by
  unfold skipHexMark
  split
  · split
    · rename_i x rest marked
      obtain ⟨zero,mark⟩ := Bool.and_eq_true_iff.mp marked
      cases eq_of_beq zero
      exact .inr ⟨x,rest,rfl,mark,rfl⟩
    · exact .inl rfl
  · exact .inl rfl

theorem skipHexMark_suffix (cp : List UInt8) : skipHexMark cp <:+ cp := by
  rcases skipHexMark_cases cp with kept | ⟨x,rest,rfl,_,skipped⟩
  · simp only [kept, List.suffix_rfl]
  · rw [skipped]
    exact (List.suffix_cons x rest).trans (List.suffix_cons 48 _)

theorem every_byte {P : UInt8 → Prop} (all : ∀ n < 256, P (UInt8.ofNat n)) (c : UInt8) : P c := by
  have this := all c.toNat c.toNat_lt
  rwa [UInt8.ofNat_toNat] at this

theorem xdigit_facts (c : UInt8) (digit : isxdigit c) :
    (c != 0) = true ∧ isspace c = false ∧ (toupper c == 88) = false ∧ digitValue c < 16 := by
  revert digit
  exact every_byte (P := fun c => isxdigit c → (c != 0) = true ∧ isspace c = false ∧
    (toupper c == 88) = false ∧ digitValue c < 16) (by decide +kernel) c

theorem space_facts (c : UInt8) (space : isspace c) :
    isxdigit c = false ∧ (toupper c == 88) = false := by
  revert space
  exact every_byte (P := fun c => isspace c → isxdigit c = false ∧ (toupper c == 88) = false)
    (by decide +kernel) c

def hexValue (val : Nat) (digits : List UInt8) : Nat :=
  digits.foldl (fun val c => val * 16 + digitValue c) val

theorem strtoulEnd_digits {digits : List UInt8} (hex : ∀ c ∈ digits, isxdigit c)
    (result : Nat) (rest : List UInt8) :
    strtoulEnd 16 (result % 2 ^ 32) (digits ++ rest) =
      strtoulEnd 16 (hexValue result digits % 2 ^ 32) rest := by
  induction digits generalizing result with
  | nil => rfl
  | cons c digits ih =>
    obtain ⟨first,others⟩ := List.forall_mem_cons.mp hex
    obtain ⟨_,_,_,small⟩ := xdigit_facts c first
    have step : (result % 2 ^ 32 * 16 + digitValue c) % 2 ^ 32 =
        (result * 16 + digitValue c) % 2 ^ 32 := by omega
    rw [List.cons_append, strtoulEnd, first]
    simp only [small, decide_true, Bool.and_self, if_true]
    rw [step, ih others]
    rfl

theorem skipHexMark_digits {digits : List UInt8} (rest : List UInt8)
    (hex : ∀ c ∈ digits, isxdigit c) (nonempty : digits ≠ []) :
    skipHexMark (digits ++ rest) = digits ++ rest ∨
      ∃ x more, rest = x :: more ∧ (toupper x == 88) = true ∧
        skipHexMark (digits ++ rest) = more := by
  rcases skipHexMark_cases (digits ++ rest) with kept | ⟨x,more,same,mark,skipped⟩
  · exact .inl kept
  · cases digits with
    | nil => exact absurd rfl nonempty
    | cons c digits =>
      cases digits with
      | nil =>
        cases same
        exact .inr ⟨x,more,rfl,mark,skipped⟩
      | cons d digits =>
        cases same
        obtain ⟨_,_,plain,_⟩ := xdigit_facts x (hex x (by simp))
        rw [plain] at mark
        contradiction

theorem simpleStrtoulEnd_spaced {digits : List UInt8} {c : UInt8} (rest : List UInt8)
    (hex : ∀ c ∈ digits, isxdigit c) (nonempty : digits ≠ []) (space : isspace c) :
    simpleStrtoulEnd (digits ++ c :: rest) 16 =
      some (hexValue 0 digits % 2 ^ 32, c :: rest) := by
  obtain ⟨stops,plain⟩ := space_facts c space
  have kept : skipHexMark (digits ++ c :: rest) = digits ++ c :: rest := by
    rcases skipHexMark_digits (c :: rest) hex nonempty with kept | ⟨x,more,same,mark,_⟩
    · exact kept
    · cases same
      rw [plain] at mark
      contradiction
  have read := strtoulEnd_digits hex 0 (c :: rest)
  rw [Nat.zero_mod] at read
  simp only [simpleStrtoulEnd, if_true, kept]
  rw [read, strtoulEnd, stops]
  simp

theorem simpleStrtoulEnd_past {digits rest after : List UInt8} {val : Nat}
    (hex : ∀ c ∈ digits, isxdigit c) (nonempty : digits ≠ [])
    (read : simpleStrtoulEnd (digits ++ rest) 16 = some (val, after)) :
    after.length ≤ rest.length := by
  simp only [simpleStrtoulEnd, if_true] at read
  have short := (strtoulEnd_suffix read).2.length_le
  rcases skipHexMark_digits rest hex nonempty with kept | ⟨x,more,rfl,_,skipped⟩
  · have past := strtoulEnd_digits hex 0 rest
    rw [Nat.zero_mod] at past
    rw [kept, past] at read
    exact (strtoulEnd_suffix read).2.length_le
  · rw [skipped] at short
    exact short.trans (by simp)

theorem simpleStrtoulEnd_left {base val : Nat} {cp rest : List UInt8}
    (read : simpleStrtoulEnd cp base = some (val, rest)) : rest.tail.length < cp.length := by
  obtain ⟨nonempty,behind⟩ := strtoulEnd_suffix read
  have short := behind.length_le
  have mark : (if base = 16 then skipHexMark cp else cp).length ≤ cp.length := by
    split
    · exact (skipHexMark_suffix cp).length_le
    · exact le_rfl
  have positive := List.length_pos_iff.mpr nonempty
  rw [List.length_tail]
  omega

theorem simpleStrtoulEnd_suffix {val : Nat} {cp rest : List UInt8}
    (read : simpleStrtoulEnd cp 16 = some (val, rest)) : rest <:+ cp :=
  (strtoulEnd_suffix read).2.trans (skipHexMark_suffix cp)

theorem strtoulEnd_none {base result : Nat} {cp : List UInt8}
    (cut : strtoulEnd base result cp = none) : 0 ∉ cp := by
  induction cp generalizing result with
  | nil => exact List.not_mem_nil
  | cons c cp ih =>
    unfold strtoulEnd at cut
    split at cut
    · rename_i digit
      have nonzero : c ≠ 0 := by
        rintro rfl
        exact absurd digit (by simp [show isxdigit 0 = false by decide])
      exact List.not_mem_cons_of_ne_of_not_mem nonzero.symm (ih cut)
    · contradiction

theorem simpleStrtoulEnd_none {cp : List UInt8} (cut : simpleStrtoulEnd cp 16 = none) :
    0 ∉ cp := by
  have unended : 0 ∉ skipHexMark cp := strtoulEnd_none cut
  rcases skipHexMark_cases cp with kept | ⟨x,rest,rfl,mark,skipped⟩
  · rwa [kept] at unended
  · rw [skipped] at unended
    have nonzero : x ≠ 0 := by
      rintro rfl
      exact absurd mark (by decide)
    simp [nonzero.symm, unended]

theorem digit_facts {d : Nat} (small : d < 10) :
    isxdigit (UInt8.ofNat (48 + d)) = true ∧ isdigit (UInt8.ofNat (48 + d)) = true ∧
      isspace (UInt8.ofNat (48 + d)) = false ∧ UInt8.ofNat (48 + d) ≠ 45 ∧
      digitValue (UInt8.ofNat (48 + d)) = d := by
  interval_cases d <;> decide

theorem strtoullDigits_append (digits : List Nat) (small : ∀ d ∈ digits, d < 10)
    (result : Nat) (cp : List UInt8) :
    strtoullDigits 10 (result % 2 ^ 64) (digits.map (fun d => UInt8.ofNat (48 + d)) ++ cp) =
      strtoullDigits 10 ((result * 10 ^ digits.length + Nat.ofDigits 10 digits.reverse) % 2 ^ 64)
        cp := by
  induction digits generalizing result with
  | nil => simp
  | cons d digits ih =>
    obtain ⟨hex,_,_,_,value⟩ := digit_facts (small d (by simp))
    have below : d < 10 := small d (by simp)
    rw [List.map_cons, List.cons_append, strtoullDigits, hex, value]
    simp only [below, decide_true, Bool.and_self, if_true]
    have step : (result % 2 ^ 64 * 10 + d) % 2 ^ 64 = (result * 10 + d) % 2 ^ 64 := by omega
    rw [step, ih (fun e mem => small e (by simp [mem]))]
    congr 2
    rw [List.reverse_cons, Nat.ofDigits_append, Nat.ofDigits_singleton, List.length_reverse,
      List.length_cons, pow_succ]
    ring

theorem sprintfLlu_eq (num : Nat) :
    ∃ digits : List Nat, sprintfLlu num = digits.map (fun d => UInt8.ofNat (48 + d)) ∧
      digits ≠ [] ∧ (∀ d ∈ digits, d < 10) ∧ Nat.ofDigits 10 digits.reverse = num := by
  unfold sprintfLlu
  split
  · rename_i zero
    exact ⟨[0],rfl,by simp,by simp,by simp [zero]⟩
  · rename_i positive
    refine ⟨(Nat.digits 10 num).reverse,rfl,?_,?_,?_⟩
    · simpa [Nat.digits_eq_nil_iff_eq_zero] using positive
    · intro d mem
      exact Nat.digits_lt_base (by decide) (List.mem_reverse.mp mem)
    · rw [List.reverse_reverse, Nat.ofDigits_digits]

theorem sscanfLld_of_digit {c : UInt8} {cp : List UInt8} (digit : isdigit c = true)
    (space : isspace c = false) (unsigned : c ≠ 45) :
    sscanfLld (c :: cp) = some (strtoullDigits 10 0 (c :: cp)) := by
  have start : (c :: cp).dropWhile isspace = c :: cp := by simp [space]
  have whole : simpleStrtoll (c :: cp) 10 = strtoullDigits 10 0 (c :: cp) := by
    unfold simpleStrtoll
    split
    · rename_i same
      exact absurd (List.cons.inj same).1 unsigned
    · rfl
  simp only [sscanfLld, start, whole]
  simp [unsigned, digit]

theorem sscanfLld_sprintfLlu (num : Nat) : sscanfLld (sprintfLlu num) = some (num % 2 ^ 64) := by
  obtain ⟨digits,text,nonempty,small,value⟩ := sprintfLlu_eq num
  rw [text]
  cases digits with
  | nil => contradiction
  | cons d digits =>
    obtain ⟨_,dig,space,unsigned,_⟩ := digit_facts (small d (by simp))
    have read := strtoullDigits_append (d :: digits) small 0 []
    rw [value] at read
    simp only [Nat.zero_mod, List.append_nil, Nat.zero_mul, Nat.zero_add, strtoullDigits] at read
    rw [List.map_cons] at read ⊢
    rw [sscanfLld_of_digit dig space unsigned, read]

end KernelStrings
