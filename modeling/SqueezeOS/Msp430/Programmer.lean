import SqueezeOS.Msp430.TiTxt

/- The loop of msp430_programmer_firmware that programs the sections of a text, one call of
   WriteFLASH for each. -/
namespace TiTxt

/-- Where the chip puts the low byte of a word that is written at an address; the high byte is
    next to it. Words have even addresses; what happens at an odd one is left to the chip. -/
structure Chip where
  place : Nat → Nat
  inside : ∀ a, place a + 1 < 2 ^ 16
  even : ∀ a < 2 ^ 16, a % 2 = 0 → place a = a

def writeFlash (chip : Chip) (addr : Nat) : Nat → List UInt8 → List (Nat × UInt8)
  | 0, _ => []
  | length + 1, low :: high :: dataArray =>
      (chip.place addr, low) :: (chip.place addr + 1, high) ::
        writeFlash chip ((addr + 2) % 2 ^ 16) length dataArray
  | _ + 1, _ => []

/-- The headers that the loop makes a call for, and whether it ends inside of the array: behind
    the last header it would take data for a header. -/
def visit : List Header → List Header × Bool
  | [] => ([], false)
  | header :: later =>
      if header.data.isNone then ([], true) else (header :: (visit later).1, (visit later).2)

def programs (chip : Chip) (txt : Parsed) : List (List (Nat × UInt8)) :=
  (visit txt.headers).1.map fun header =>
    writeFlash chip header.address (header.length / 2) (txt.bytes.drop (header.data.getD 0))

def placed (address : Nat) : List UInt8 → List (Nat × UInt8)
  | [] => []
  | byte :: data => (address, byte) :: placed (address + 1) data

def Programmed (chip : Chip) (beyond text : List UInt8) (txt : Parsed) : Prop :=
  (visit txt.headers).2 = true ∧
    programs chip txt = (sections beyond text).map fun part => placed part.1 part.2

def Programmable (chip : Chip) (part : Nat × List UInt8) : Prop :=
  part.2.length % 2 = 0 ∧ part.2.length < 2 ^ 16 ∧ part.1 + part.2.length ≤ 2 ^ 16 ∧
    (part.1 % 2 = 1 → ∀ k < part.2.length, k % 2 = 0 → chip.place (part.1 + k) = part.1 + k)

def Header.part (bytes : List UInt8) (header : Header) : Nat × Nat × Option (List UInt8) :=
  (header.address, header.length,
    header.data.map fun start => (bytes.drop start).take header.length)

/-- The loop visits the sections of the text and reads no header outside of the array. A length
    counts in 16 bits. -/
def VisitsSections (beyond text : List UInt8) (txt : Parsed) : Prop :=
  (visit txt.headers).2 = true ∧
    (visit txt.headers).1.map (Header.part txt.bytes) = (sections beyond text).map fun part =>
      (part.1, part.2.length % 2 ^ 16, some (part.2.take (part.2.length % 2 ^ 16)))

theorem headersOf_data (start : Nat) (parts : List (Nat × List UInt8)) :
    ∀ header ∈ headersOf start parts, header.data.isNone = false := by
  induction parts with
  | nil => simp [headersOf]
  | cons part earlier ih => exact List.forall_mem_cons.mpr ⟨rfl,ih⟩

theorem visit_append {front : List Header} (later : List Header)
    (used : ∀ header ∈ front, header.data.isNone = false) :
    visit (front ++ later) = (front ++ (visit later).1, (visit later).2) := by
  induction front with
  | nil => rfl
  | cons header front ih =>
    obtain ⟨first,others⟩ := List.forall_mem_cons.mp used
    rw [List.cons_append, visit, ih others, first]
    rfl

theorem visit_unused (n : Nat) : visit (List.replicate n unused) = ([], decide (0 < n)) := by
  cases n with
  | zero => rfl
  | succ n => simp [List.replicate_succ, visit, unused]

theorem visit_parsed {beyond text : List UInt8} {txt : Parsed}
    (parsed : parseTiTxt beyond text = some (some txt)) : visit txt.headers =
      ((headersOf (image beyond text).stray.length (image beyond text).sections).reverse,
        decide ((sections beyond text).length < maxTxtSections)) := by
  obtain ⟨few,_,_,_,headers⟩ := parseTiTxt_some parsed
  have used : ∀ header ∈ (headersOf (image beyond text).stray.length
      (image beyond text).sections).reverse, header.data.isNone = false := by
    intro header member
    exact headersOf_data _ _ header (List.mem_reverse.mp member)
  have room : 0 < maxTxtSections - (sections beyond text).length ↔
      (sections beyond text).length < maxTxtSections := by omega
  rw [headers, visit_append _ used, visit_unused]
  simp [room]

theorem headersOf_map {β : Type} {f : Nat → Nat → List UInt8 → β} {g : Nat × List UInt8 → β}
    (stray later : List UInt8) (parts : List (Nat × List UInt8))
    (own : ∀ part ∈ parts, ∀ rest, f part.1 (part.2.length % 2 ^ 16) (part.2 ++ rest) = g part) :
    ((headersOf stray.length parts).reverse.map fun header => f header.address header.length
      ((stray ++ (parts.reverse.map (·.2)).flatten ++ later).drop (header.data.getD 0))) =
      parts.reverse.map g := by
  induction parts generalizing later with
  | nil => rfl
  | cons part earlier ih =>
    obtain ⟨address,data⟩ := part
    obtain ⟨first,others⟩ := List.forall_mem_cons.mp own
    have split : stray ++ (((address, data) :: earlier).reverse.map (·.2)).flatten ++ later =
        stray ++ (earlier.reverse.map (·.2)).flatten ++ (data ++ later) := by simp
    have front : (stray ++ (earlier.reverse.map (·.2)).flatten).length =
        stray.length + dataLength earlier := by
      rw [List.length_append, flatten_length]
    have last : (stray ++ (earlier.reverse.map (·.2)).flatten ++ (data ++ later)).drop
        (stray.length + dataLength earlier) = data ++ later := by
      rw [← front, List.drop_left]
    rw [split, headersOf, List.reverse_cons, List.reverse_cons, List.map_append, List.map_append,
      ih (data ++ later) others]
    simp only [List.map_cons, List.map_nil, Option.getD_some, last, first]

theorem writeFlash_append (chip : Chip) (addr length : Nat) {data : List UInt8}
    (rest : List UInt8) (long : 2 * length ≤ data.length) :
    writeFlash chip addr length (data ++ rest) = writeFlash chip addr length data := by
  induction length generalizing addr data with
  | zero => simp [writeFlash]
  | succ length ih =>
    match data with
    | [] => simp at long
    | [_] => simp at long; omega
    | low :: high :: data =>
      have shorter : 2 * length ≤ data.length := by
        simp only [List.length_cons] at long
        omega
      simp only [List.cons_append, writeFlash, ih _ shorter]

theorem programs_eq {beyond text : List UInt8} {txt : Parsed} (chip : Chip)
    (parsed : parseTiTxt beyond text = some (some txt)) :
    programs chip txt = (sections beyond text).map fun part =>
      writeFlash chip part.1 (part.2.length % 2 ^ 16 / 2) part.2 := by
  obtain ⟨_,_,_,bytes,_⟩ := parseTiTxt_some parsed
  have own : ∀ part ∈ (image beyond text).sections, ∀ rest,
      writeFlash chip part.1 (part.2.length % 2 ^ 16 / 2) (part.2 ++ rest) =
        writeFlash chip part.1 (part.2.length % 2 ^ 16 / 2) part.2 := by
    intro part _ rest
    have small := Nat.mod_le part.2.length (2 ^ 16)
    exact writeFlash_append chip part.1 _ rest (by omega)
  have read := headersOf_map (f := fun address length => writeFlash chip address (length / 2))
    (image beyond text).stray [] (image beyond text).sections own
  rw [List.append_nil] at read
  rw [programs, visit_parsed parsed, bytes]
  exact read

theorem writeFlash_length (chip : Chip) (addr length : Nat) {data : List UInt8}
    (long : 2 * length ≤ data.length) : (writeFlash chip addr length data).length = 2 * length := by
  induction length generalizing addr data with
  | zero => simp [writeFlash]
  | succ length ih =>
    match data with
    | [] => simp at long
    | [_] => simp at long; omega
    | low :: high :: data =>
      have shorter : 2 * length ≤ data.length := by
        simp only [List.length_cons] at long
        omega
      simp only [writeFlash, List.length_cons, ih _ shorter]
      omega

theorem placed_length (address : Nat) (data : List UInt8) :
    (placed address data).length = data.length := by
  induction data generalizing address with
  | nil => rfl
  | cons byte data ih => simp [placed, ih]

theorem writeFlash_placed_iff (chip : Chip) (address length : Nat) (data : List UInt8)
    (whole : data.length = 2 * length) :
    writeFlash chip (address % 2 ^ 16) length data = placed address data ↔
      ∀ j < length, chip.place ((address + 2 * j) % 2 ^ 16) = address + 2 * j := by
  induction length generalizing address data with
  | zero =>
    have none : data = [] := List.eq_nil_of_length_eq_zero whole
    simp [none, writeFlash, placed]
  | succ length ih =>
    match data with
    | [] => simp at whole
    | [_] => simp at whole; omega
    | low :: high :: data =>
      have shorter : data.length = 2 * length := by
        simp only [List.length_cons] at whole
        omega
      have wraps : (address % 2 ^ 16 + 2) % 2 ^ 16 = (address + 2) % 2 ^ 16 := by omega
      have later := ih (address + 2) data shorter
      simp only [writeFlash, placed, wraps, List.cons.injEq, Prod.mk.injEq, and_true]
      rw [show address + 1 + 1 = address + 2 from rfl, later]
      constructor
      · rintro ⟨first,_,others⟩ j below
        cases j with
        | zero => simpa using first
        | succ j =>
          have := others j (by omega)
          rw [show address + 2 * (j + 1) = address + 2 + 2 * j by omega]
          exact this
      · intro all
        have first := all 0 (by omega)
        refine ⟨by simpa using first,?_,?_⟩
        · simpa using first
        · intro j below
          have := all (j + 1) (by omega)
          rw [show address + 2 * (j + 1) = address + 2 + 2 * j by omega] at this
          exact this

theorem programmable_iff (chip : Chip) {address : Nat} {data : List UInt8}
    (inside : address < 2 ^ 16) :
    writeFlash chip address (data.length % 2 ^ 16 / 2) data = placed address data ↔
      Programmable chip (address, data) := by
  have start : address % 2 ^ 16 = address := Nat.mod_eq_of_lt inside
  have words := writeFlash_placed_iff chip address (data.length / 2) data
  rw [start] at words
  constructor
  · intro same
    have count := congrArg List.length same
    have some := Nat.mod_le data.length (2 ^ 16)
    rw [writeFlash_length chip _ _ (by omega), placed_length] at count
    have small : data.length < 2 ^ 16 := by omega
    rw [Nat.mod_eq_of_lt small] at same
    have put := (words (by omega)).mp same
    have each : ∀ j < data.length / 2,
        address + 2 * j + 1 < 2 ^ 16 ∧ chip.place (address + 2 * j) = address + 2 * j := by
      intro j below
      have here := put j below
      have bound := chip.inside ((address + 2 * j) % 2 ^ 16)
      rw [here] at bound
      rw [Nat.mod_eq_of_lt (by omega)] at here
      exact ⟨bound,here⟩
    have even : data.length % 2 = 0 := by omega
    refine ⟨even,small,?_,?_⟩
    · by_cases none : data.length = 0
      · rw [none]
        omega
      · have last := (each (data.length / 2 - 1) (by omega)).1
        change address + data.length ≤ 2 ^ 16
        omega
    · intro _ k below word
      change k < data.length at below
      have here := (each (k / 2) (by omega)).2
      rw [show 2 * (k / 2) = k by omega] at here
      exact here
  · rintro ⟨even,small,ends,odd⟩
    simp only at even small ends odd
    rw [Nat.mod_eq_of_lt small]
    refine (words (by omega)).mpr ?_
    intro j below
    rw [Nat.mod_eq_of_lt (by omega)]
    by_cases aligned : address % 2 = 0
    · exact chip.even _ (by omega) (by omega)
    · exact odd (by omega) (2 * j) (by omega) (by omega)

/-- The length counts bytes in 16 bits and is handed on in words, so a section of an odd number
    of bytes loses the last one and a section of 64 KiB or more loses that much. -/
theorem programmed_iff (chip : Chip) (beyond text : List UInt8) (txt : Parsed)
    (parsed : parseTiTxt beyond text = some (some txt))
    (few : (sections beyond text).length < maxTxtSections) :
    Programmed chip beyond text txt ↔ ∀ part ∈ sections beyond text, Programmable chip part := by
  obtain ⟨_,inside,_⟩ := parseTiTxt_some parsed
  have ends : (visit txt.headers).2 = true := by
    rw [visit_parsed parsed]
    exact decide_eq_true few
  rw [Programmed, programs_eq chip parsed, List.map_inj_left]
  constructor
  · rintro ⟨_,same⟩ part member
    exact (programmable_iff chip (inside part member)).mp (same part member)
  · intro all
    refine ⟨ends,?_⟩
    intro part member
    exact (programmable_iff chip (inside part member)).mpr (all part member)

def msp430 : Chip where
  place a := a % 2 ^ 16 - a % 2
  inside := by intro a; omega
  even := by intro a small even; omega

/-- "@E000 01 02 q" -/
def wordText : List UInt8 := [64, 69, 48, 48, 48, 32, 48, 49, 32, 48, 50, 32, 113]

theorem wordText_parsed : parseTiTxt [] wordText =
    some (some ⟨⟨0xE000,2,some 0⟩ :: List.replicate 19 unused,[1,2],-1⟩) := by
  decide +kernel

theorem wordText_programmed :
    parseTiTxt [] wordText = some (some ⟨⟨0xE000,2,some 0⟩ :: List.replicate 19 unused,[1,2],-1⟩) ∧
      Programmed msp430 [] wordText ⟨⟨0xE000,2,some 0⟩ :: List.replicate 19 unused,[1,2],-1⟩ := by
  refine ⟨wordText_parsed,?_⟩
  apply (programmed_iff msp430 [] wordText _ wordText_parsed (by decide +kernel)).mpr
  have whole : sections [] wordText = [(0xE000, [1, 2])] := by decide +kernel
  rw [whole]
  simp [Programmable]

/-- "@E000 01 q": the byte is lost. -/
def oddText : List UInt8 := [64, 69, 48, 48, 48, 32, 48, 49, 32, 113]

theorem oddText_loses : ∃ txt, parseTiTxt [] oddText = some (some txt) ∧
    (image [] oddText).stray = [] ∧ sections [] oddText = [(0xE000, [1])] ∧
    ¬ Programmed msp430 [] oddText txt := by
  refine ⟨⟨⟨0xE000,1,some 0⟩ :: List.replicate 19 unused,[1],-1⟩,?_,?_,?_,?_⟩
  · decide +kernel
  · decide +kernel
  · decide +kernel
  · unfold Programmed
    decide +kernel

theorem visited_parts {beyond text : List UInt8} {txt : Parsed}
    (parsed : parseTiTxt beyond text = some (some txt)) :
    (visit txt.headers).1.map (Header.part txt.bytes) = (sections beyond text).map fun part =>
      (part.1, part.2.length % 2 ^ 16, some (part.2.take (part.2.length % 2 ^ 16))) := by
  obtain ⟨_,_,_,bytes,_⟩ := parseTiTxt_some parsed
  have own : ∀ part ∈ (image beyond text).sections, ∀ rest,
      (part.1, part.2.length % 2 ^ 16, some ((part.2 ++ rest).take (part.2.length % 2 ^ 16))) =
        (part.1, part.2.length % 2 ^ 16, some (part.2.take (part.2.length % 2 ^ 16))) := by
    intro part _ rest
    rw [List.take_append_of_le_length (Nat.mod_le _ _)]
  have read := headersOf_map (f := fun address length data => (address, length, some (data.take length)))
    (image beyond text).stray [] (image beyond text).sections own
  rw [List.append_nil] at read
  rw [visit_parsed parsed, bytes]
  refine Eq.trans (List.map_congr_left fun header member => ?_) read
  have used := headersOf_data _ _ header (List.mem_reverse.mp member)
  obtain ⟨address,length,data⟩ := header
  cases data with
  | none => contradiction
  | some start => rfl

theorem visitsSections_iff (beyond text : List UInt8) (txt : Parsed)
    (parsed : parseTiTxt beyond text = some (some txt)) :
    VisitsSections beyond text txt ↔ (sections beyond text).length < maxTxtSections := by
  rw [VisitsSections, visited_parts parsed, visit_parsed parsed]
  simp

theorem wordText_visits :
    parseTiTxt [] wordText = some (some ⟨⟨0xE000,2,some 0⟩ :: List.replicate 19 unused,[1,2],-1⟩) ∧
      VisitsSections [] wordText ⟨⟨0xE000,2,some 0⟩ :: List.replicate 19 unused,[1,2],-1⟩ := by
  refine ⟨wordText_parsed,(visitsSections_iff [] wordText _ wordText_parsed).mpr ?_⟩
  decide +kernel

/-- "@0 " twenty times. -/
def fullText : List UInt8 := (List.replicate 20 [64, 48, 32]).flatten

theorem fullText_runs_out : ∃ txt, parseTiTxt [] fullText = some (some txt) ∧
    (sections [] fullText).length = maxTxtSections ∧ ¬ VisitsSections [] fullText txt := by
  refine ⟨⟨List.replicate 20 ⟨0,0,some 0⟩,[],-1⟩,?_,?_,?_⟩
  · decide +kernel
  · decide +kernel
  · unfold VisitsSections
    decide +kernel

end TiTxt
