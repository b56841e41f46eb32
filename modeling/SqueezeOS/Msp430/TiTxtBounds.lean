import SqueezeOS.Msp430.TiTxtValidity

/- parse_ti_txt on the buffer that it allocates: the headers, and behind them as many bytes as
   the firmware has. -/
namespace TiTxt
open KernelStrings

structure Buffer where
  headers : List Header
  data : List UInt8
  deriving DecidableEq, Repr

def kzalloc (size : Nat) : Buffer :=
  { headers := List.replicate maxTxtSections unused, data := List.replicate size 0 }

/-- `none` for a store outside of the array. -/
def Buffer.setHeader (b : Buffer) (place : Int) (f : Header → Header) : Option Buffer :=
  if 0 ≤ place then
    b.headers[place.toNat]?.map fun header =>
      { b with headers := b.headers.set place.toNat (f header) }
  else none

def Buffer.setByte (b : Buffer) (place : Nat) (byte : UInt8) : Option Buffer :=
  b.data[place]?.map fun _ => { b with data := b.data.set place byte }

/-- The variables of parse_ti_txt but for fw_ptr; ti_ptr is counted from the end of the headers. -/
structure Vars where
  buffer : Buffer
  sectionNo : Int
  tiPtr : Nat
  tiLen : Nat
  version : Int
  deriving DecidableEq, Repr

def Vars.start (size : Nat) : Vars :=
  { buffer := kzalloc size, sectionNo := -1, tiPtr := 0, tiLen := 0, version := -1 }

def Vars.close (v : Vars) : Option Vars :=
  if v.sectionNo ≥ 0 then
    (v.buffer.setHeader v.sectionNo fun header => { header with length := v.tiLen % 2 ^ 16 }).map
      fun buffer => { v with buffer := buffer }
  else some v

def Vars.store (v : Vars) : Kind → Nat → Option Vars
  | .address, val =>
      (v.buffer.setHeader v.sectionNo fun header =>
        { header with address := val, data := some v.tiPtr }).map
          fun buffer => { v with buffer := buffer, tiLen := 0 }
  | .version, val => some { v with version := val }
  | .byte, val =>
      (v.buffer.setByte v.tiPtr (UInt8.ofNat val)).map
        fun buffer => { v with buffer := buffer, tiPtr := v.tiPtr + 1, tiLen := v.tiLen + 1 }

/-- `outside` is a store outside of the buffer, `fault` a read of memory that is not mapped. -/
inductive Round where
  | outside
  | fault
  | refuses
  | accepts (v : Vars)
  | goesOn (ptr : List UInt8) (v : Vars)
  deriving DecidableEq, Repr

def number (kind : Kind) (ptr : List UInt8) (v : Vars) : Round :=
  match simpleStrtoulEnd ptr 16 with
  | none => .fault
  | some (val, ptr) =>
      if val > kind.limit then .refuses
      else match v.store kind val with
        | none => .outside
        | some v => .goesOn ptr.tail v

def round (beyond ptr : List UInt8) (v : Vars) : Round :=
  match classify beyond ptr with
  | .stop => match v.close with
    | none => .outside
    | some v => .accepts v
  | .blank ptr => .goesOn ptr v
  | .number .address ptr => match v.close with
    | none => .outside
    | some v =>
        let v := { v with sectionNo := v.sectionNo + 1 }
        if v.sectionNo ≥ (maxTxtSections : Int) then .refuses else number .address ptr v
  | .number kind ptr => number kind ptr v

def rounds (beyond : List UInt8) : Nat → List UInt8 → Vars → Round
  | 0, ptr, v => .goesOn ptr v
  | n + 1, ptr, v => match round beyond ptr v with
    | .goesOn ptr v => rounds beyond n ptr v
    | ended => ended

structure Represents (size : Nat) (s : State) (v : Vars) : Prop where
  few : s.txt.length ≤ maxTxtSections
  stored : s.bytes.length ≤ size
  headers : v.buffer.headers =
    s.txt.reverse ++ List.replicate (maxTxtSections - s.txt.length) unused
  data : v.buffer.data = s.bytes ++ List.replicate (size - s.bytes.length) 0
  sectionNo : v.sectionNo = s.txt.length - 1
  tiPtr : v.tiPtr = s.bytes.length
  tiLen : v.tiLen = s.tiLen
  version : v.version = s.version

inductive Agrees (size : Nat) (s : State) : Turn → Round → Prop where
  | fault : Agrees size s .fault .fault
  | refuses : Agrees size s .refuses .refuses
  | accepts {v : Vars} (closed : Represents size { s with txt := s.close } v) :
      Agrees size s .accepts (.accepts v)
  | goesOn {t : Loop} {v : Vars} (after : Represents size t.state v) :
      Agrees size s (.goesOn t) (.goesOn t.ptr v)

/-- What the loop has come to in `n` rounds, against where it ends on the lists. -/
def Reaches (size : Nat) (beyond : List UInt8) (n : Nat) (s : Loop) : Round → Prop
  | .outside => False
  | .fault => parseLoop beyond s = none
  | .refuses => parseLoop beyond s = some none
  | .accepts v => ∃ (last : State) (i : Image), parseLoop beyond s = some (some last.finish) ∧
      Stands last i ∧ Represents size { last with txt := last.close } v
  | .goesOn ptr v => ∃ t : Loop, t.ptr = ptr ∧ Represents size t.state v ∧
      n + (ptr.length - beyond.length) ≤ s.ptr.length - beyond.length

structure Accepted (size : Nat) (v : Vars) : Prop where
  stored : v.tiPtr ≤ size
  few : v.sectionNo < maxTxtSections
  used : ∀ (i : Nat) (header : Header), v.buffer.headers[i]? = some header →
    (header.data.isSome ↔ i ≤ v.sectionNo)
  inside : ∀ header ∈ v.buffer.headers, ∀ d ∈ header.data, d + header.length ≤ v.tiPtr
  inOrder : v.buffer.headers.Pairwise fun a b => ∀ d ∈ a.data, ∀ e ∈ b.data, d + a.length ≤ e

theorem start_represents (size : Nat) : Represents size empty (Vars.start size) := by
  refine ⟨Nat.zero_le _,Nat.zero_le _,?_,?_,rfl,rfl,rfl,rfl⟩
  · rfl
  · rfl

theorem setHeader_at {b : Buffer} {before behind : List Header} {header : Header}
    (f : Header → Header) (headers : b.headers = before ++ header :: behind) {place : Int}
    (here : place = before.length) :
    b.setHeader place f = some { b with headers := before ++ f header :: behind } := by
  subst here
  simp [Buffer.setHeader, headers]

theorem setByte_at {b : Buffer} {before behind : List UInt8} {old : UInt8} (byte : UInt8)
    (data : b.data = before ++ old :: behind) {place : Nat} (here : place = before.length) :
    b.setByte place byte = some { b with data := before ++ byte :: behind } := by
  subst here
  simp [Buffer.setByte, data]

section
variable {size : Nat} {s : State} {v : Vars}

theorem Represents.close (represents : Represents size s v) :
    ∃ w, v.close = some w ∧ Represents size { s with txt := s.close } w := by
  obtain ⟨few,stored,headers,data,sectionNo,tiPtr,tiLen,version⟩ := represents
  have length := close_length s
  unfold Vars.close
  cases there : s.txt with
  | nil =>
    rw [there] at few headers sectionNo length
    have noSection : ¬ v.sectionNo ≥ 0 := by
      rw [sectionNo]
      decide
    have noHeader : s.close = [] := List.eq_nil_of_length_eq_zero length
    refine ⟨v,if_neg noSection,?_⟩
    rw [noHeader]
    exact ⟨few,stored,headers,data,sectionNo,tiPtr,tiLen,version⟩
  | cons header earlier =>
    rw [there] at few headers sectionNo length
    have place : v.sectionNo = earlier.reverse.length := by simp [sectionNo]
    have isSection : v.sectionNo ≥ 0 := by simp [place]
    have closed : s.close = { header with length := v.tiLen % 2 ^ 16 } :: earlier := by
      simp [State.close, there, tiLen]
    rw [List.reverse_cons, List.append_assoc] at headers
    rw [if_pos isSection, setHeader_at _ headers place]
    refine ⟨_,rfl,?_⟩
    refine ⟨length ▸ few,stored,?_,data,?_,tiPtr,tiLen,version⟩
    · simp [closed]
    · simp [sectionNo, length]

theorem Represents.opens (represents : Represents size s v)
    (room : s.txt.length < maxTxtSections) (val : Nat) :
    ∃ w, Vars.store { v with sectionNo := v.sectionNo + 1 } .address val = some w ∧
      Represents size
        { s with txt := ⟨val,0,some s.bytes.length⟩ :: s.txt, tiLen := 0 } w := by
  obtain ⟨few,stored,headers,data,sectionNo,tiPtr,tiLen,version⟩ := represents
  obtain ⟨left,some⟩ : ∃ left, maxTxtSections - s.txt.length = left + 1 :=
    ⟨maxTxtSections - s.txt.length - 1,by omega⟩
  have place : v.sectionNo + 1 = s.txt.reverse.length := by simp [sectionNo]
  rw [some, List.replicate_succ] at headers
  simp only [Vars.store]
  rw [setHeader_at _ headers place]
  refine ⟨_,rfl,room,stored,?_,data,?_,tiPtr,rfl,version⟩
  · have fewer : maxTxtSections - (s.txt.length + 1) = left := by omega
    simp [tiPtr, unused, fewer]
  · simp [sectionNo]

theorem Represents.byte (represents : Represents size s v) (room : s.bytes.length < size)
    (val : Nat) : ∃ w, v.store .byte val = some w ∧ Represents size (s.put .byte val) w := by
  obtain ⟨few,stored,headers,data,sectionNo,tiPtr,tiLen,version⟩ := represents
  obtain ⟨left,some⟩ : ∃ left, size - s.bytes.length = left + 1 :=
    ⟨size - s.bytes.length - 1,by omega⟩
  rw [some, List.replicate_succ] at data
  simp only [Vars.store]
  rw [setByte_at _ data tiPtr]
  refine ⟨_,rfl,few,?_,headers,?_,sectionNo,?_,?_,version⟩
  · simp only [State.put, List.length_append, List.length_singleton]
    omega
  · have fewer : size - (s.bytes.length + 1) = left := by omega
    simp [State.put, fewer]
  · simp [State.put, tiPtr]
  · simp [State.put, tiLen]

theorem number_agrees {kind : Kind} {ptr : List UInt8}
    (stores : ∀ val, ∃ w, v.store kind val = some w ∧ Represents size (s.put kind val) w) :
    Agrees size s (scan kind ptr s) (number kind ptr v) := by
  unfold scan number
  cases simpleStrtoulEnd ptr 16 with
  | none => exact .fault
  | some found =>
    obtain ⟨val,rest⟩ := found
    dsimp only
    split
    · exact .refuses
    · obtain ⟨w,stored,after⟩ := stores val
      rw [stored]
      exact .goesOn (t := ⟨rest.tail,s.put kind val⟩) after

end

section
variable {size : Nat} {beyond : List UInt8} {s t : Loop} {v : Vars}

/-- Each character of the text pays for one byte at most, and each round passes one. -/
theorem turn_budget (next : turn beyond s = .goesOn t) :
    t.ptr.length - beyond.length < s.ptr.length - beyond.length ∧
      t.state.bytes.length + (t.ptr.length - beyond.length) ≤
        s.state.bytes.length + (s.ptr.length - beyond.length) := by
  have shorter := turn_left next
  have goesOn : classify beyond s.ptr ≠ .stop := by
    intro stop
    rw [turn_accepts_iff.mpr stop] at next
    contradiction
  obtain ⟨c,more,whole,inside⟩ := classify_inText goesOn
  have long : beyond.length < s.ptr.length := by
    rw [whole, List.length_cons]
    omega
  have stored : t.state.bytes.length ≤ s.state.bytes.length + 1 := by
    rcases turn_goesOn next with ⟨rest,_,rfl⟩ | ⟨kind,ptr,val,rest,_,_,_,_,rfl⟩
    · exact Nat.le_succ _
    · cases kind <;> simp [State.put]
  constructor <;> omega

theorem round_agrees (represents : Represents size s.state v)
    (budget : s.state.bytes.length + (s.ptr.length - beyond.length) ≤ size) :
    Agrees size s.state (turn beyond s) (round beyond s.ptr v) := by
  unfold turn round
  cases lexeme : classify beyond s.ptr with
  | stop =>
    obtain ⟨w,closed,after⟩ := represents.close
    simp only [closed]
    exact .accepts after
  | blank rest => exact .goesOn (t := ⟨rest,s.state⟩) represents
  | number kind ptr =>
    have goesOn : classify beyond s.ptr ≠ .stop := by simp [lexeme]
    obtain ⟨c,more,whole,inside⟩ := classify_inText goesOn
    cases kind with
    | address =>
      obtain ⟨w,closed,after⟩ := represents.close
      have place : w.sectionNo + 1 = s.state.txt.length := by
        rw [after.sectionNo, close_length]
        omega
      simp only [closed, place, Nat.cast_le, ge_iff_le, true_and]
      split
      · exact .refuses
      · rename_i room
        rw [← place]
        exact number_agrees (after.opens (by simpa [close_length] using room))
    | version =>
      obtain ⟨few,stored,headers,data,sectionNo,tiPtr,tiLen,version⟩ := represents
      refine number_agrees fun val => ⟨_,rfl,?_⟩
      exact ⟨few,stored,headers,data,sectionNo,tiPtr,tiLen,rfl⟩
    | byte =>
      have room : s.state.bytes.length < size := by
        rw [whole, List.length_cons] at budget
        omega
      exact number_agrees (represents.byte room)

theorem Reaches.goesOn {n : Nat} {reached : Round} (later : Reaches size beyond n t reached)
    (next : turn beyond s = .goesOn t)
    (paid : t.ptr.length - beyond.length < s.ptr.length - beyond.length) :
    Reaches size beyond (n + 1) s reached := by
  have same := parseLoop_goesOn next
  cases reached with
  | outside => exact later
  | fault => exact same.trans later
  | refuses => exact same.trans later
  | accepts v =>
    obtain ⟨last,i,parsed,stands,closed⟩ := later
    exact ⟨last,i,same.trans parsed,stands,closed⟩
  | goesOn ptr v =>
    obtain ⟨u,here,represents,left⟩ := later
    exact ⟨u,here,represents,by omega⟩

theorem turn_stands {i : Image} (stands : Stands s.state i) (next : turn beyond s = .goesOn t) :
    ∃ j, Stands t.state j := by
  rcases turn_goesOn next with ⟨rest,_,rfl⟩ | ⟨kind,ptr,val,rest,_,_,_,_,rfl⟩
  · exact ⟨i,stands⟩
  · exact ⟨_,stands.put kind val⟩

theorem rounds_reaches {i : Image} (represents : Represents size s.state v)
    (stands : Stands s.state i)
    (budget : s.state.bytes.length + (s.ptr.length - beyond.length) ≤ size) (n : Nat) :
    Reaches size beyond n s (rounds beyond n s.ptr v) := by
  induction n generalizing s v i with
  | zero => exact ⟨s,rfl,represents,by omega⟩
  | succ n ih =>
    have agrees := round_agrees represents budget
    unfold rounds
    generalize next : turn beyond s = taken at agrees
    generalize round beyond s.ptr v = done at agrees ⊢
    cases agrees with
    | fault => exact parseLoop_fault next
    | refuses => exact parseLoop_refuses next
    | accepts closed => exact ⟨s.state,i,parseLoop_accepts next,stands,closed⟩
    | @goesOn t w after =>
      obtain ⟨paid,within⟩ := turn_budget next
      obtain ⟨j,stands'⟩ := turn_stands stands next
      exact (ih after stands' (within.trans budget)).goesOn next paid

theorem turn_suffix (next : turn beyond s = .goesOn t) : t.ptr <:+ s.ptr := by
  rcases turn_goesOn next with ⟨rest,blank,rfl⟩ | ⟨kind,ptr,val,rest,number,_,read,_,rfl⟩
  · obtain ⟨c,whole⟩ := classify_rest.1 rest blank
    rw [whole]
    exact List.suffix_cons c rest
  · have behind := (List.tail_suffix rest).trans (simpleStrtoulEnd_suffix read)
    exact behind.trans (classify_rest.2 kind ptr number)

theorem parseLoop_none {whole : List UInt8} (behind : beyond <:+ whole) (here : s.ptr <:+ whole)
    (cut : parseLoop beyond s = none) : 0 ∉ beyond := by
  induction left : s.ptr.length using Nat.strongRecOn generalizing s with
  | ind n ih =>
    cases next : turn beyond s with
    | refuses => simp [parseLoop_refuses next] at cut
    | accepts => simp [parseLoop_accepts next] at cut
    | goesOn t =>
      rw [parseLoop_goesOn next] at cut
      exact ih _ (left ▸ turn_left next) ((turn_suffix next).trans here) cut rfl
    | fault =>
      obtain ⟨kind,ptr,number,cut⟩ := turn_fault next
      obtain ⟨_,inText,_⟩ := classify_number_own number
      have there := (classify_rest.2 kind ptr number).trans here
      have inside : beyond <:+ ptr := List.suffix_of_suffix_length_le behind there inText
      exact fun nul => simpleStrtoulEnd_none cut (inside.subset nul)

end

theorem headersOf_inside (start : Nat) (sections : List (Nat × List UInt8)) :
    ∀ header ∈ headersOf start sections, ∃ d, header.data = some d ∧
      d + header.length ≤ start + dataLength sections := by
  induction sections with
  | nil => simp [headersOf]
  | cons part earlier ih =>
    obtain ⟨address,data⟩ := part
    have whole : dataLength ((address, data) :: earlier) = data.length + dataLength earlier := by
      simp [dataLength]
    have cut := Nat.mod_le data.length (2 ^ 16)
    refine List.forall_mem_cons.mpr ⟨⟨_,rfl,?_⟩,?_⟩
    · rw [whole]
      dsimp only
      omega
    · intro header member
      obtain ⟨d,there,inside⟩ := ih header member
      exact ⟨d,there,by omega⟩

theorem headersOf_inOrder (start : Nat) (sections : List (Nat × List UInt8)) :
    (headersOf start sections).Pairwise fun b a =>
      ∀ d ∈ a.data, ∀ e ∈ b.data, d + a.length ≤ e := by
  induction sections with
  | nil => exact .nil
  | cons part earlier ih =>
    obtain ⟨address,data⟩ := part
    refine .cons ?_ ih
    intro header member d there e place
    obtain ⟨d',there',inside⟩ := headersOf_inside start earlier header member
    cases place
    rw [there'] at there
    cases there
    exact inside

theorem headersOf_used {start : Nat} {sections : List (Nat × List UInt8)} {left i : Nat}
    {header : Header}
    (there : ((headersOf start sections).reverse ++ List.replicate left unused)[i]? = some header) :
    header.data.isSome ↔ i < sections.length := by
  have count := headersOf_length start sections
  by_cases used : i < sections.length
  · rw [List.getElem?_append_left (by simpa [count] using used)] at there
    obtain ⟨d,some,_⟩ :=
      headersOf_inside start sections header (List.mem_reverse.mp (List.mem_of_getElem? there))
    simp [some, used]
  · rw [List.getElem?_append_right (by simpa [count] using used)] at there
    have none := List.eq_of_mem_replicate (List.mem_of_getElem? there)
    simp [none, unused, used]

theorem accepted_of_represents {size : Nat} {last : State} {i : Image} {v : Vars}
    (stands : Stands last i) (represents : Represents size { last with txt := last.close } v) :
    Accepted size v := by
  obtain ⟨few,stored,headers,_,sectionNo,tiPtr,_,_⟩ := represents
  have count : last.close.length = i.sections.length := by
    rw [stands.headers, headersOf_length]
  have bytes : last.bytes.length = i.stray.length + dataLength i.sections := by
    rw [stands.bytes, List.length_append, flatten_length]
  dsimp only at few stored headers sectionNo tiPtr
  rw [stands.headers] at headers
  have noData : ∀ left, ∀ header ∈ List.replicate left unused, header.data = none := by
    intro left header member
    rw [List.eq_of_mem_replicate member]
    rfl
  constructor
  · rwa [tiPtr]
  · omega
  · intro place header there
    rw [headers] at there
    rw [headersOf_used there, sectionNo, count]
    omega
  · intro header member d there
    rw [headers] at member
    rcases List.mem_append.mp member with used | rest
    · obtain ⟨e,some,inside⟩ := headersOf_inside _ _ header (List.mem_reverse.mp used)
      rw [some] at there
      cases there
      rw [tiPtr, bytes]
      exact inside
    · rw [noData _ header rest] at there
      contradiction
  · rw [headers, List.pairwise_append, List.pairwise_reverse]
    refine ⟨headersOf_inOrder _ _,?_,?_⟩
    · refine List.pairwise_replicate.mpr (.inr ?_)
      intro d there
      contradiction
    · intro a _ b rest d _ e there
      rw [noData _ b rest] at there
      contradiction

theorem start_reaches (beyond text : List UInt8) (n : Nat) :
    Reaches text.length beyond n ⟨text ++ beyond,empty⟩
      (rounds beyond n (text ++ beyond) (Vars.start text.length)) := by
  have budget : empty.bytes.length + ((text ++ beyond).length - beyond.length) ≤ text.length := by
    simp [empty]
  exact rounds_reaches (s := ⟨text ++ beyond,empty⟩) (start_represents _) empty_stands budget n

/-- With a round for each byte of the text and one more, the buffer has what the parser on lists
    returns. -/
theorem rounds_parseTiTxt (beyond text : List UInt8) {n : Nat} (enough : text.length < n) :
    match rounds beyond n (text ++ beyond) (Vars.start text.length) with
    | .fault => parseTiTxt beyond text = none
    | .refuses => parseTiTxt beyond text = some none
    | .accepts v => ∃ p, parseTiTxt beyond text = some (some p) ∧ v.buffer.headers = p.headers ∧
        v.buffer.data = p.bytes ++ List.replicate (text.length - p.bytes.length) 0 ∧
        v.version = p.version
    | _ => False := by
  have reaches := start_reaches beyond text n
  generalize rounds beyond n (text ++ beyond) (Vars.start text.length) = reached at reaches ⊢
  cases reached with
  | outside => exact reaches
  | fault => exact reaches
  | refuses => exact reaches
  | accepts v =>
    obtain ⟨last,i,parsed,_,closed⟩ := reaches
    refine ⟨last.finish,parsed,?_,closed.data,closed.version⟩
    simpa [State.finish, close_length] using closed.headers
  | goesOn ptr v =>
    obtain ⟨t,_,_,left⟩ := reaches
    rw [List.length_append] at left
    omega

/-- On a text of any length and content, with whatever behind it, the loop is over after a
    round for each byte and one more. Until then ti_ptr has passed no more bytes than the text
    has and the section is one of the headers; no store is outside of the buffer. -/
theorem parse_ti_txt_bounded (beyond text : List UInt8) (n : Nat) :
    match rounds beyond n (text ++ beyond) (Vars.start text.length) with
    | .outside => False
    | .fault => 0 ∉ beyond
    | .refuses => True
    | .accepts v => Accepted text.length v
    | .goesOn _ v => n ≤ text.length ∧ v.tiPtr ≤ text.length ∧ v.sectionNo < maxTxtSections := by
  have reaches := start_reaches beyond text n
  generalize rounds beyond n (text ++ beyond) (Vars.start text.length) = reached at reaches ⊢
  cases reached with
  | outside => exact reaches
  | fault => exact parseLoop_none (List.suffix_append _ _) List.suffix_rfl reaches
  | refuses => trivial
  | accepts v =>
    obtain ⟨last,i,_,stands,closed⟩ := reaches
    exact accepted_of_represents stands closed
  | goesOn ptr v =>
    obtain ⟨t,_,represents,left⟩ := reaches
    obtain ⟨few,stored,_,_,sectionNo,tiPtr,_,_⟩ := represents
    rw [List.length_append] at left
    exact ⟨by omega,by omega,by omega⟩

end TiTxt
