import SqueezeOS.Kernel.Strings

/- The firmware of the MSP430: a TI-TXT text, how the driver reads it, and what it programs. -/
namespace TiTxt
open KernelStrings

def maxTxtSections : Nat := 20

/-- struct ti_txt. `data` is the place of the first byte behind the headers, `none` for NULL. -/
structure Header where
  address : Nat
  length : Nat
  data : Option Nat
  deriving DecidableEq, Repr

def unused : Header := ⟨0,0,none⟩

inductive Kind where
  | address | version | byte
  deriving DecidableEq, Repr

def Kind.limit : Kind → Nat
  | .address => 0xFFFF
  | .version => 0xFFFF
  | .byte => 0xFF

/-- `txt` has the headers in use with the newest one in front, so `section` is one less than its
    length. The bytes written through ti_ptr are in `bytes`. -/
structure State where
  txt : List Header
  bytes : List UInt8
  tiLen : Nat
  version : Int
  deriving DecidableEq, Repr

def empty : State := { txt := [], bytes := [], tiLen := 0, version := -1 }

def State.close (s : State) : List Header :=
  match s.txt with
  | [] => []
  | header :: earlier => { header with length := s.tiLen % 2 ^ 16 } :: earlier

def State.put (s : State) : Kind → Nat → State
  | .address, val => { s with txt := ⟨val,0,some s.bytes.length⟩ :: s.close, tiLen := 0 }
  | .version, val => { s with version := val }
  | .byte, val => { s with bytes := s.bytes ++ [UInt8.ofNat val], tiLen := s.tiLen + 1 }

structure Parsed where
  headers : List Header
  bytes : List UInt8
  version : Int
  deriving DecidableEq, Repr

def State.finish (s : State) : Parsed :=
  { headers := s.close.reverse ++ List.replicate (maxTxtSections - s.txt.length) unused
    bytes := s.bytes
    version := s.version }

inductive Lexeme where
  | stop
  | blank (ptr : List UInt8)
  | number (kind : Kind) (ptr : List UInt8)
  deriving DecidableEq, Repr

/-- What fw_ptr points to: the memory from it on, of which the last part is `beyond` fw_end. -/
def classify (beyond : List UInt8) (ptr : List UInt8) : Lexeme :=
  if beyond.length < ptr.length then
    match ptr with
    | [] => .stop
    | c :: ptr =>
        if isspace c then .blank ptr
        else if c = 113 then .stop
        else if c = 64 then .number .address ptr
        else if c = 35 then .number .version ptr
        else .number .byte (c :: ptr)
  else .stop

structure Loop where
  ptr : List UInt8
  state : State
  deriving DecidableEq, Repr

inductive Turn where
  | fault
  | refuses
  | accepts
  | goesOn (s : Loop)
  deriving DecidableEq, Repr

def scan (kind : Kind) (ptr : List UInt8) (s : State) : Turn :=
  match simpleStrtoulEnd ptr 16 with
  | none => .fault
  | some (val, ptr) => if val > kind.limit then .refuses else .goesOn ⟨ptr.tail,s.put kind val⟩

def turn (beyond : List UInt8) (s : Loop) : Turn :=
  match classify beyond s.ptr with
  | .stop => .accepts
  | .blank ptr => .goesOn ⟨ptr,s.state⟩
  | .number kind ptr =>
      if kind = .address ∧ s.state.txt.length ≥ maxTxtSections then .refuses
      else scan kind ptr s.state

theorem classify_rest {beyond ptr : List UInt8} :
    (∀ rest, classify beyond ptr = .blank rest → ∃ c, ptr = c :: rest) ∧
      ∀ kind rest, classify beyond ptr = .number kind rest → rest <:+ ptr := by
  unfold classify
  split
  · cases ptr with
    | nil => simp
    | cons c ptr =>
      dsimp only
      constructor
      · intro rest same
        split_ifs at same
        cases same
        exact ⟨c,rfl⟩
      · intro kind rest same
        split_ifs at same <;> cases same <;> simp
  · simp

theorem classify_left {beyond ptr : List UInt8} :
    (∀ rest, classify beyond ptr = .blank rest → rest.length < ptr.length) ∧
      ∀ kind rest, classify beyond ptr = .number kind rest → rest.length ≤ ptr.length := by
  constructor
  · intro rest blank
    obtain ⟨c,whole⟩ := classify_rest.1 rest blank
    simp [whole]
  · intro kind rest number
    exact (classify_rest.2 kind rest number).length_le

theorem classify_inText {beyond ptr : List UInt8} (more : classify beyond ptr ≠ .stop) :
    ∃ c rest, ptr = c :: rest ∧ beyond.length ≤ rest.length := by
  by_cases inText : beyond.length < ptr.length
  · cases ptr with
    | nil => simp at inText
    | cons c rest => exact ⟨c,rest,rfl,Nat.le_of_lt_succ inText⟩
  · exact absurd (if_neg inText) more

theorem turn_left {beyond : List UInt8} {s t : Loop} (next : turn beyond s = .goesOn t) :
    t.ptr.length < s.ptr.length := by
  unfold turn at next
  split at next
  · contradiction
  · rename_i blank
    cases next
    exact classify_left.1 _ blank
  · rename_i number
    have short := classify_left.2 _ _ number
    split at next
    · contradiction
    · unfold scan at next
      split at next
      · contradiction
      · rename_i read
        have behind := simpleStrtoulEnd_left read
        split at next
        · contradiction
        · cases next
          exact lt_of_lt_of_le behind short

/-- `none` for a read of memory that is not mapped, `some none` for NULL. -/
def parseLoop (beyond : List UInt8) (s : Loop) : Option (Option Parsed) :=
  match _next : turn beyond s with
  | .fault => none
  | .refuses => some none
  | .accepts => some (some s.state.finish)
  | .goesOn t => parseLoop beyond t
termination_by s.ptr.length
decreasing_by exact turn_left _next

def parseTiTxt (beyond text : List UInt8) : Option (Option Parsed) :=
  parseLoop beyond ⟨text ++ beyond,empty⟩

def tokens (beyond : List UInt8) (ptr : List UInt8) : List (Kind × Nat) :=
  match _kind : classify beyond ptr with
  | .stop => []
  | .blank ptr => tokens beyond ptr
  | .number kind ptr => match _read : simpleStrtoulEnd ptr 16 with
    | none => []
    | some (val, ptr) => (kind, val) :: tokens beyond ptr.tail
termination_by ptr.length
decreasing_by
  · exact classify_left.1 _ _kind
  · exact lt_of_lt_of_le (simpleStrtoulEnd_left _read) (classify_left.2 _ _ _kind)

/-- What a text says: its version, the data of each section, and data that stands before the
    first one. The newest section is in front. -/
structure Image where
  version : Int
  stray : List UInt8
  sections : List (Nat × List UInt8)
  deriving DecidableEq, Repr

def Image.put (i : Image) : Kind → Nat → Image
  | .address, val => { i with sections := (val, []) :: i.sections }
  | .version, val => { i with version := val }
  | .byte, val => match i.sections with
    | [] => { i with stray := i.stray ++ [UInt8.ofNat val] }
    | (address, data) :: earlier =>
        { i with sections := (address, data ++ [UInt8.ofNat val]) :: earlier }

def State.putAll (s : State) (numbers : List (Kind × Nat)) : State :=
  numbers.foldl (fun s token => s.put token.1 token.2) s

def Image.putAll (i : Image) (numbers : List (Kind × Nat)) : Image :=
  numbers.foldl (fun i token => i.put token.1 token.2) i

def blankImage : Image := { version := -1, stray := [], sections := [] }

def image (beyond text : List UInt8) : Image :=
  blankImage.putAll (tokens beyond (text ++ beyond))

def sections (beyond text : List UInt8) : List (Nat × List UInt8) :=
  (image beyond text).sections.reverse

def dataLength (sections : List (Nat × List UInt8)) : Nat :=
  (sections.map fun part => part.2.length).sum

def headersOf (start : Nat) : List (Nat × List UInt8) → List Header
  | [] => []
  | (address, data) :: earlier =>
      ⟨address,data.length % 2 ^ 16,some (start + dataLength earlier)⟩ :: headersOf start earlier

structure Stands (s : State) (i : Image) : Prop where
  version : s.version = i.version
  bytes : s.bytes = i.stray ++ (i.sections.reverse.map (·.2)).flatten
  headers : s.close = headersOf i.stray.length i.sections
  filled : s.tiLen = (i.sections.head?.map (·.2.length)).getD i.stray.length

theorem close_length (s : State) : s.close.length = s.txt.length := by
  unfold State.close
  split
  · rename_i none
    simp [none]
  · rename_i some
    simp [some]

theorem headersOf_length (start : Nat) (sections : List (Nat × List UInt8)) :
    (headersOf start sections).length = sections.length := by
  induction sections with
  | nil => rfl
  | cons part earlier ih =>
    obtain ⟨address,data⟩ := part
    simp [headersOf, ih]

theorem flatten_length (sections : List (Nat × List UInt8)) :
    ((sections.reverse.map (·.2)).flatten).length = dataLength sections := by
  simp [dataLength, List.length_flatten, Function.comp_def]

theorem Stands.txt_length {s : State} {i : Image} (stands : Stands s i) :
    s.txt.length = i.sections.length := by
  rw [← close_length, stands.headers, headersOf_length]

theorem empty_stands : Stands empty blankImage := ⟨rfl,rfl,rfl,rfl⟩

theorem Stands.put {s : State} {i : Image} (stands : Stands s i) (kind : Kind) (val : Nat) :
    Stands (s.put kind val) (i.put kind val) := by
  obtain ⟨version,bytes,headers,filled⟩ := stands
  cases kind with
  | address =>
    refine ⟨version,?_,?_,rfl⟩
    · simp [State.put, Image.put, bytes]
    · have place : s.bytes.length = i.stray.length + dataLength i.sections := by
        rw [bytes, List.length_append, flatten_length]
      simp [State.put, Image.put, State.close, headersOf, place, ← headers]
  | version => exact ⟨rfl,bytes,headers,filled⟩
  | byte =>
    obtain ⟨iversion,stray,sections⟩ := i
    cases sections with
    | nil =>
      have none : s.txt = [] := by
        have length := congrArg List.length headers
        rw [close_length] at length
        exact List.eq_nil_of_length_eq_zero length
      refine ⟨version,?_,?_,?_⟩
      · simpa [State.put, Image.put] using bytes
      · simp [State.put, Image.put, State.close, headersOf, none]
      · simpa [State.put, Image.put] using filled
    | cons part earlier =>
      obtain ⟨address,data⟩ := part
      refine ⟨version,?_,?_,?_⟩
      · simp [State.put, Image.put, bytes]
      · cases there : s.txt with
        | nil => simp [State.close, there, headersOf] at headers
        | cons header older =>
          simp only [State.close, there, headersOf, List.cons.injEq, Header.mk.injEq] at headers
          have grown : s.tiLen + 1 = data.length + 1 := by simpa using filled
          simp [State.put, Image.put, State.close, headersOf, there, headers, grown]
      · simpa [State.put, Image.put] using filled

theorem Stands.putAll {s : State} {i : Image} (stands : Stands s i)
    (numbers : List (Kind × Nat)) : Stands (s.putAll numbers) (i.putAll numbers) := by
  induction numbers generalizing s i with
  | nil => exact stands
  | cons token numbers ih => exact ih (stands.put token.1 token.2)

section
variable {beyond : List UInt8} {s t : Loop}

theorem parseLoop_goesOn (next : turn beyond s = .goesOn t) :
    parseLoop beyond s = parseLoop beyond t := by
  rw [parseLoop]
  split <;> simp_all

theorem parseLoop_accepts (stops : turn beyond s = .accepts) :
    parseLoop beyond s = some (some s.state.finish) := by
  rw [parseLoop]
  split <;> simp_all

theorem parseLoop_refuses (refused : turn beyond s = .refuses) :
    parseLoop beyond s = some none := by
  rw [parseLoop]
  split <;> simp_all

theorem parseLoop_fault (fault : turn beyond s = .fault) : parseLoop beyond s = none := by
  rw [parseLoop]
  split <;> simp_all

theorem turn_accepts_iff : turn beyond s = .accepts ↔ classify beyond s.ptr = .stop := by
  unfold turn
  constructor
  · intro accepts
    split at accepts
    · assumption
    · contradiction
    · unfold scan at accepts
      split_ifs at accepts
      split at accepts
      · contradiction
      · split_ifs at accepts
  · intro stop
    simp [stop]

theorem turn_goesOn (next : turn beyond s = .goesOn t) :
    (∃ rest, classify beyond s.ptr = .blank rest ∧ t = ⟨rest,s.state⟩) ∨
    ∃ kind ptr val rest, classify beyond s.ptr = .number kind ptr ∧
      (kind = .address → s.state.txt.length < maxTxtSections) ∧
      simpleStrtoulEnd ptr 16 = some (val, rest) ∧ val ≤ kind.limit ∧
      t = ⟨rest.tail,s.state.put kind val⟩ := by
  unfold turn at next
  split at next
  · contradiction
  · rename_i rest blank
    exact .inl ⟨rest,blank,(Turn.goesOn.inj next).symm⟩
  · rename_i kind ptr number
    split at next
    · contradiction
    · rename_i room
      unfold scan at next
      split at next
      · contradiction
      · rename_i val rest read
        split at next
        · contradiction
        · rename_i small
          refine .inr ⟨kind,ptr,val,rest,number,?_,read,not_lt.mp small,(Turn.goesOn.inj next).symm⟩
          intro opens
          exact not_le.mp fun full => room ⟨opens,full⟩

theorem tokens_stop {ptr : List UInt8} (stop : classify beyond ptr = .stop) :
    tokens beyond ptr = [] := by
  rw [tokens]
  split <;> simp_all

theorem tokens_blank {ptr rest : List UInt8} (blank : classify beyond ptr = .blank rest) :
    tokens beyond ptr = tokens beyond rest := by
  rw [tokens]
  split <;> simp_all

theorem tokens_number {ptr digits rest : List UInt8} {kind : Kind} {val : Nat}
    (number : classify beyond ptr = .number kind digits)
    (read : simpleStrtoulEnd digits 16 = some (val, rest)) :
    tokens beyond ptr = (kind, val) :: tokens beyond rest.tail := by
  rw [tokens]
  split
  · simp_all
  · simp_all
  · rename_i same
    rw [number] at same
    cases same
    split <;> simp_all

theorem put_txt_length (state : State) (kind : Kind) (val : Nat) :
    (state.put kind val).txt.length =
      state.txt.length + if kind = .address then 1 else 0 := by
  cases kind with
  | address => simp [State.put, close_length]
  | version => rfl
  | byte => rfl

theorem Image.put_addresses {i : Image} (inside : ∀ part ∈ i.sections, part.1 < 2 ^ 16)
    {kind : Kind} {val : Nat} (small : val ≤ kind.limit) :
    ∀ part ∈ (i.put kind val).sections, part.1 < 2 ^ 16 := by
  obtain ⟨version,stray,sections⟩ := i
  cases kind with
  | address => exact List.forall_mem_cons.mpr ⟨Nat.lt_succ_of_le small,inside⟩
  | version => exact inside
  | byte =>
    cases sections with
    | nil => exact inside
    | cons part earlier =>
      obtain ⟨first,others⟩ := List.forall_mem_cons.mp inside
      exact List.forall_mem_cons.mpr ⟨first,others⟩

theorem parseLoop_image {p : Parsed} {i : Image} (stands : Stands s.state i)
    (few : s.state.txt.length ≤ maxTxtSections) (inside : ∀ part ∈ i.sections, part.1 < 2 ^ 16)
    (parsed : parseLoop beyond s = some (some p)) :
    ∃ (state : State) (j : Image), p = state.finish ∧ state.txt.length ≤ maxTxtSections ∧
      (∀ part ∈ j.sections, part.1 < 2 ^ 16) ∧ Stands state j ∧
      j = i.putAll (tokens beyond s.ptr) := by
  induction left : s.ptr.length using Nat.strongRecOn generalizing s i with
  | ind n ih =>
    cases next : turn beyond s with
    | fault => simp [parseLoop_fault next] at parsed
    | refuses => simp [parseLoop_refuses next] at parsed
    | accepts =>
      rw [parseLoop_accepts next] at parsed
      cases parsed
      rw [tokens_stop (turn_accepts_iff.mp next)]
      exact ⟨s.state,i,rfl,few,inside,stands,rfl⟩
    | goesOn t =>
      have shorter := left ▸ turn_left next
      rw [parseLoop_goesOn next] at parsed
      rcases turn_goesOn next with ⟨rest,blank,rfl⟩ | ⟨kind,ptr,val,rest,number,room,read,small,rfl⟩
      · rw [tokens_blank blank]
        exact ih _ shorter (s := ⟨rest,s.state⟩) stands few inside parsed rfl
      · rw [tokens_number number read]
        refine ih _ shorter (s := ⟨rest.tail,s.state.put kind val⟩) (stands.put kind val) ?_
          (Image.put_addresses inside small) parsed rfl
        rw [put_txt_length]
        split
        · rename_i opens
          exact room opens
        · exact few

end

theorem parseTiTxt_some {beyond text : List UInt8} {p : Parsed}
    (parsed : parseTiTxt beyond text = some (some p)) :
    (sections beyond text).length ≤ maxTxtSections ∧
      (∀ part ∈ sections beyond text, part.1 < 2 ^ 16) ∧
      p.version = (image beyond text).version ∧
      p.bytes = (image beyond text).stray ++ ((sections beyond text).map (·.2)).flatten ∧
      p.headers = (headersOf (image beyond text).stray.length (image beyond text).sections).reverse ++
        List.replicate (maxTxtSections - (sections beyond text).length) unused := by
  obtain ⟨state,j,rfl,few,inside,stands,same⟩ :=
    parseLoop_image empty_stands (Nat.zero_le _) (by simp [blankImage]) parsed
  have whole : image beyond text = j := same.symm
  have count : (sections beyond text).length = state.txt.length := by
    rw [sections, List.length_reverse, whole, stands.txt_length]
  refine ⟨count.trans_le few,?_,?_,?_,?_⟩
  · intro part member
    rw [sections, whole] at member
    exact inside part (List.mem_reverse.mp member)
  · rw [whole]
    exact stands.version
  · rw [sections, whole]
    exact stands.bytes
  · rw [whole, count]
    exact congrArg (·.reverse ++ _) stands.headers

end TiTxt
