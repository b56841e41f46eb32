import SqueezeOS.Msp430.Programmer
import SqueezeOS.StepRuns

/- The TI-TXT form of sections, which is read back as it was written, and the texts in that form
   against the texts that the driver accepts. -/
namespace TiTxt
open KernelStrings StepRuns

def lead : Kind → List UInt8 → List UInt8
  | .address, ptr => 64 :: ptr
  | .version, ptr => 35 :: ptr
  | .byte, ptr => ptr

structure Spells (digits : List UInt8) (val : Nat) : Prop where
  nonempty : digits ≠ []
  hex : ∀ c ∈ digits, isxdigit c
  value : hexValue 0 digits = val

structure Gap (gap : List UInt8) : Prop where
  nonempty : gap ≠ []
  blank : ∀ c ∈ gap, isspace c

inductive RendersData : List UInt8 → List UInt8 → Prop where
  | nil : RendersData [] []
  | cons {byte a b : UInt8} {data gap text : List UInt8} (spelled : Spells [a, b] byte.toNat)
      (apart : Gap gap) (rest : RendersData data text) :
      RendersData (byte :: data) ([a, b] ++ (gap ++ text))

inductive RendersSections : List (Nat × List UInt8) → List UInt8 → Prop where
  | nil : RendersSections [] []
  | cons {address : Nat} {data digits gap body text : List UInt8} {parts : List (Nat × List UInt8)}
      (spelled : Spells digits address) (apart : Gap gap) (bytes : RendersData data body)
      (rest : RendersSections parts text) :
      RendersSections ((address, data) :: parts) (lead .address (digits ++ (gap ++ (body ++ text))))

/-- The version, the sections and a `q`, with anything behind it. -/
inductive Renders (version : Nat) (parts : List (Nat × List UInt8)) : List UInt8 → Prop where
  | text {start digits gap body : List UInt8} (rest : List UInt8) (blank : ∀ c ∈ start, isspace c)
      (spelled : Spells digits version) (apart : Gap gap) (sections : RendersSections parts body) :
      Renders version parts (start ++ lead .version (digits ++ (gap ++ (body ++ 113 :: rest))))

def Parsed.parts (p : Parsed) : List (Nat × Nat × List UInt8) :=
  (p.headers.filter fun header => header.data.isSome).map fun header =>
    (header.address, header.length, (p.bytes.drop (header.data.getD 0)).take header.length)

theorem xdigit_lead (c : UInt8) (digit : isxdigit c) :
    isspace c = false ∧ c ≠ 113 ∧ c ≠ 64 ∧ c ≠ 35 := by
  revert digit
  exact every_byte (P := fun c => isxdigit c → isspace c = false ∧ c ≠ 113 ∧ c ≠ 64 ∧ c ≠ 35)
    (by decide +kernel) c

section
variable {beyond : List UInt8}

theorem classify_cons {c : UInt8} {ptr : List UInt8} (inText : beyond.length ≤ ptr.length) :
    classify beyond (c :: ptr) = if isspace c then .blank ptr else if c = 113 then .stop
      else if c = 64 then .number .address ptr else if c = 35 then .number .version ptr
      else .number .byte (c :: ptr) := by
  unfold classify
  exact if_pos (Nat.lt_succ_of_le inText)

theorem classify_lead {kind : Kind} {digits rest : List UInt8} (nonempty : digits ≠ [])
    (hex : ∀ c ∈ digits, isxdigit c) (inText : beyond.length ≤ rest.length) :
    classify beyond (lead kind (digits ++ rest)) = .number kind (digits ++ rest) := by
  have long : beyond.length ≤ (digits ++ rest).length := by
    rw [List.length_append]
    omega
  cases kind with
  | address => exact classify_cons long
  | version => exact classify_cons long
  | byte =>
    cases digits with
    | nil => contradiction
    | cons c digits =>
      obtain ⟨solid,noQuit,noAt,noHash⟩ := xdigit_lead c (hex c (by simp))
      have shorter : beyond.length ≤ (digits ++ rest).length := by
        rw [List.length_append]
        omega
      change classify beyond (c :: (digits ++ rest)) = .number .byte (c :: (digits ++ rest))
      rw [classify_cons shorter]
      simp [solid, noQuit, noAt, noHash]

theorem parseLoop_blanks {gap ptr : List UInt8} {state : State} (blank : ∀ c ∈ gap, isspace c)
    (inText : beyond.length ≤ ptr.length) :
    parseLoop beyond ⟨gap ++ ptr,state⟩ = parseLoop beyond ⟨ptr,state⟩ := by
  induction gap with
  | nil => rfl
  | cons c gap ih =>
    obtain ⟨first,others⟩ := List.forall_mem_cons.mp blank
    have long : beyond.length ≤ (gap ++ ptr).length := by
      rw [List.length_append]
      omega
    have next : turn beyond ⟨c :: (gap ++ ptr),state⟩ = .goesOn ⟨gap ++ ptr,state⟩ := by
      simp only [turn, classify_cons long, first, if_true]
    rw [List.cons_append, parseLoop_goesOn next, ih others]

theorem parseLoop_number (kind : Kind) (state : State) {digits gap ptr : List UInt8} {val : Nat}
    (spelled : Spells digits val) (small : val ≤ kind.limit) (apart : Gap gap)
    (room : kind = .address → state.txt.length < maxTxtSections)
    (inText : beyond.length ≤ ptr.length) :
    parseLoop beyond ⟨lead kind (digits ++ (gap ++ ptr)),state⟩ =
      parseLoop beyond ⟨ptr,state.put kind val⟩ := by
  obtain ⟨nonempty,hex,value⟩ := spelled
  obtain ⟨some,blank⟩ := apart
  cases gap with
  | nil => contradiction
  | cons c gap =>
    obtain ⟨first,others⟩ := List.forall_mem_cons.mp blank
    have long : beyond.length ≤ (c :: gap ++ ptr).length := by
      rw [List.length_append]
      omega
    have limit : kind.limit < 2 ^ 32 := by cases kind <;> decide
    have read := simpleStrtoulEnd_spaced (gap ++ ptr) hex nonempty first
    rw [value, Nat.mod_eq_of_lt (by omega)] at read
    have next : turn beyond ⟨lead kind (digits ++ (c :: gap ++ ptr)),state⟩ =
        .goesOn ⟨gap ++ ptr,state.put kind val⟩ := by
      have roomy : ¬ (kind = .address ∧ state.txt.length ≥ maxTxtSections) := by
        rintro ⟨opens,full⟩
        exact absurd (room opens) (not_lt.mpr full)
      simp only [turn, classify_lead nonempty hex long, roomy, if_false, scan]
      rw [List.cons_append, read]
      simp [not_lt.mpr small]
    rw [parseLoop_goesOn next, parseLoop_blanks others inText]

theorem byte_limit (byte : UInt8) : byte.toNat ≤ Kind.byte.limit := Nat.le_of_lt_succ byte.toNat_lt

def byteTokens (data : List UInt8) : List (Kind × Nat) :=
  data.map fun byte => (.byte, byte.toNat)

def partTokens (part : Nat × List UInt8) : List (Kind × Nat) :=
  (.address, part.1) :: byteTokens part.2

theorem parseLoop_data {data body ptr : List UInt8} {state : State}
    (bytes : RendersData data body) (inText : beyond.length ≤ ptr.length) :
    parseLoop beyond ⟨body ++ ptr,state⟩ = parseLoop beyond ⟨ptr,state.putAll (byteTokens data)⟩ := by
  induction bytes generalizing state with
  | nil => rfl
  | @cons byte a b data gap text spelled apart rest ih =>
    have long : beyond.length ≤ (text ++ ptr).length := by
      rw [List.length_append]
      omega
    have number := parseLoop_number .byte state spelled (byte_limit byte) apart
      (by simp) long
    rw [List.append_assoc, List.append_assoc]
    exact number.trans ih

theorem putAll_bytes_length (state : State) (data : List UInt8) :
    (state.putAll (byteTokens data)).txt.length = state.txt.length := by
  induction data generalizing state with
  | nil => rfl
  | cons byte data ih => exact ih _

theorem parseLoop_sections {parts : List (Nat × List UInt8)} {body ptr : List UInt8} {state : State}
    (renders : RendersSections parts body) (inside : ∀ part ∈ parts, part.1 ≤ 0xFFFF)
    (room : state.txt.length + parts.length ≤ maxTxtSections)
    (inText : beyond.length ≤ ptr.length) :
    parseLoop beyond ⟨body ++ ptr,state⟩ =
      parseLoop beyond ⟨ptr,state.putAll (parts.flatMap partTokens)⟩ := by
  induction renders generalizing state with
  | nil => rfl
  | @cons address data digits gap bytesText text parts spelled apart bytes rest ih =>
    obtain ⟨small,others⟩ := List.forall_mem_cons.mp inside
    rw [List.length_cons] at room
    have long : beyond.length ≤ (text ++ ptr).length := by
      rw [List.length_append]
      omega
    have longer : beyond.length ≤ (bytesText ++ (text ++ ptr)).length := by
      rw [List.length_append]
      omega
    have number := parseLoop_number .address state spelled small apart
      (by intro _; omega) longer
    have roomy : ((state.put .address address).putAll (byteTokens data)).txt.length + parts.length ≤
        maxTxtSections := by
      rw [putAll_bytes_length, put_txt_length, if_pos rfl]
      omega
    have split : lead .address (digits ++ (gap ++ (bytesText ++ text))) ++ ptr =
        lead .address (digits ++ (gap ++ (bytesText ++ (text ++ ptr)))) := by simp [lead]
    have tokens : state.putAll (((address, data) :: parts).flatMap partTokens) =
        ((state.put .address address).putAll (byteTokens data)).putAll
          (parts.flatMap partTokens) := by
      simp [State.putAll, partTokens]
    rw [split, tokens, number, parseLoop_data bytes long, ih others roomy]

end

theorem putAll_bytes_image (i : Image) (address : Nat) (earlier : List (Nat × List UInt8))
    (front data : List UInt8) (open' : i.sections = (address, front) :: earlier) :
    i.putAll (byteTokens data) = { i with sections := (address, front ++ data) :: earlier } := by
  induction data generalizing i front with
  | nil =>
    rw [List.append_nil, ← open']
    rfl
  | cons byte data ih =>
    have put : i.put .byte byte.toNat =
        { i with sections := (address, front ++ [byte]) :: earlier } := by
      simp [Image.put, open']
    have later := ih (i.put .byte byte.toNat) (front ++ [byte]) (by rw [put])
    rw [put] at later
    simpa [Image.putAll, byteTokens, put] using later

theorem putAll_parts_image (i : Image) (parts : List (Nat × List UInt8)) :
    i.putAll (parts.flatMap partTokens) = { i with sections := parts.reverse ++ i.sections } := by
  induction parts generalizing i with
  | nil => rfl
  | cons part parts ih =>
    obtain ⟨address,data⟩ := part
    have first := putAll_bytes_image (i.put .address address) address i.sections [] data rfl
    have split : i.putAll (((address, data) :: parts).flatMap partTokens) =
        ((i.put .address address).putAll (byteTokens data)).putAll (parts.flatMap partTokens) := by
      simp [Image.putAll, partTokens]
    rw [split, first, ih]
    simp [Image.put]

theorem Stands.parts {state : State} {i : Image} (stands : Stands state i)
    (short : ∀ part ∈ i.sections, part.2.length < 2 ^ 16) :
    state.finish.parts = i.sections.reverse.map fun part => (part.1, part.2.length, part.2) := by
  have used : (state.finish.headers.filter fun header => header.data.isSome) =
      (headersOf i.stray.length i.sections).reverse := by
    have some : ∀ header ∈ (headersOf i.stray.length i.sections).reverse,
        header.data.isSome = true := by
      intro header member
      have := headersOf_data _ _ header (List.mem_reverse.mp member)
      simpa using this
    simp only [State.finish, stands.headers, List.filter_append]
    rw [List.filter_eq_self.mpr some]
    simp [unused]
  have own : ∀ part ∈ i.sections, ∀ rest : List UInt8,
      (part.1, part.2.length % 2 ^ 16, (part.2 ++ rest).take (part.2.length % 2 ^ 16)) =
        (part.1, part.2.length, part.2) := by
    intro part member rest
    rw [Nat.mod_eq_of_lt (short part member), List.take_left]
  have read := headersOf_map (f := fun address length bytes => (address, length, bytes.take length))
    i.stray [] i.sections own
  rw [List.append_nil, ← stands.bytes] at read
  rw [Parsed.parts, used]
  exact read

/-- Sections in TI-TXT form are read back as they were written, whatever follows the text. -/
theorem parseTiTxt_renders (beyond text : List UInt8) (version : Nat)
    (parts : List (Nat × List UInt8)) (renders : Renders version parts text)
    (small : version ≤ 0xFFFF) (few : parts.length ≤ maxTxtSections)
    (inside : ∀ part ∈ parts, part.1 ≤ 0xFFFF ∧ part.2.length < 65536) :
    ∃ p, parseTiTxt beyond text = some (some p) ∧ p.version = version ∧
      p.parts = parts.map fun part => (part.1, part.2.length, part.2) := by
  obtain @⟨start,digits,gap,body,rest,blank,spelled,apart,sections⟩ := renders
  let final := (empty.put .version version).putAll (parts.flatMap partTokens)
  have split : (start ++ lead .version (digits ++ (gap ++ (body ++ 113 :: rest)))) ++ beyond =
      start ++ lead .version (digits ++ (gap ++ (body ++ 113 :: (rest ++ beyond)))) := by
    simp [lead]
  have room : (empty.put .version version).txt.length + parts.length ≤ maxTxtSections := by
    rw [put_txt_length]
    simpa [empty] using few
  have stops : turn beyond ⟨113 :: (rest ++ beyond),final⟩ = .accepts :=
    turn_accepts_iff.mpr (classify_cons (by simp))
  have read : parseTiTxt beyond (start ++ lead .version (digits ++ (gap ++ (body ++ 113 :: rest)))) =
      some (some final.finish) := by
    calc parseLoop beyond ⟨(start ++ lead .version (digits ++ (gap ++ (body ++ 113 :: rest)))) ++
          beyond,empty⟩
      _ = parseLoop beyond
          ⟨lead .version (digits ++ (gap ++ (body ++ 113 :: (rest ++ beyond)))),empty⟩ := by
        rw [split, parseLoop_blanks blank (by simp [lead]; omega)]
      _ = parseLoop beyond ⟨body ++ 113 :: (rest ++ beyond),empty.put .version version⟩ :=
        parseLoop_number .version empty spelled small apart (by simp) (by simp; omega)
      _ = parseLoop beyond ⟨113 :: (rest ++ beyond),final⟩ :=
        parseLoop_sections sections (fun part member => (inside part member).1) room (by simp; omega)
      _ = some (some final.finish) := parseLoop_accepts stops
  have stands := (empty_stands.put .version version).putAll (parts.flatMap partTokens)
  rw [putAll_parts_image] at stands
  refine ⟨final.finish,read,stands.version,?_⟩
  have back := stands.parts (by
    intro part member
    exact (inside part (by simpa [Image.put, blankImage] using member)).2)
  simpa [Image.put, blankImage] using back

/-- "#8 @fFeE C0 0d q": version 8, two bytes at the reset vector. -/
def vectorText : List UInt8 :=
  [35, 56, 32, 64, 102, 70, 101, 69, 10, 67, 48, 32, 48, 100, 32, 113]

theorem vectorText_read : Renders 8 [(0xFFEE, [0xC0, 0x0D])] vectorText ∧
    ∃ p, parseTiTxt [49] vectorText = some (some p) ∧ p.version = 8 ∧
      p.parts = [(0xFFEE, 2, [0xC0, 0x0D])] := by
  have space : Gap [32] := ⟨by simp,by decide +kernel⟩
  have line : Gap [10] := ⟨by simp,by decide +kernel⟩
  have version : Spells [56] 8 := ⟨by simp,by decide +kernel,by decide⟩
  have address : Spells [102, 70, 101, 69] 0xFFEE := ⟨by simp,by decide +kernel,by decide⟩
  have first : Spells [67, 48] (0xC0 : UInt8).toNat := ⟨by simp,by decide +kernel,by decide⟩
  have second : Spells [48, 100] (0x0D : UInt8).toNat := ⟨by simp,by decide +kernel,by decide⟩
  have data : RendersData [0xC0, 0x0D] [67, 48, 32, 48, 100, 32] :=
    .cons first space (.cons second space .nil)
  have part : RendersSections [(0xFFEE, [0xC0, 0x0D])]
      [64, 102, 70, 101, 69, 10, 67, 48, 32, 48, 100, 32] :=
    .cons address line data .nil
  have renders : Renders 8 [(0xFFEE, [0xC0, 0x0D])] vectorText :=
    @Renders.text _ _ [] _ _ _ [] (by simp) version space part
  exact ⟨renders,parseTiTxt_renders [49] vectorText 8 _ renders (by decide) (by decide) (by decide)⟩

end TiTxt
