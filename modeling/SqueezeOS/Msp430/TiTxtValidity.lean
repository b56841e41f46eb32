import SqueezeOS.Msp430.TiTxtFormat

/- What a well-formed TI-TXT text is, and which texts that are not well-formed are refused. -/
namespace TiTxt
open KernelStrings

def Apart (rest : List UInt8) : Prop := ∀ c ∈ rest.head?, isspace c

structure InRange (kind : Kind) (digits : List UInt8) : Prop where
  nonempty : digits ≠ []
  hex : ∀ c ∈ digits, isxdigit c
  small : hexValue 0 digits ≤ kind.limit

def Belongs (n : Nat) : Kind → Prop
  | .address => n < maxTxtSections
  | .version => True
  | .byte => 0 < n

def opened (n : Nat) (kind : Kind) : Nat := n + if kind = .address then 1 else 0

/-- The form of a text behind `n` sections, up to a `q`. -/
inductive Form : Nat → List UInt8 → Prop where
  | ends {n : Nat} : Form n []
  | quit {n : Nat} {rest : List UInt8} : Form n (113 :: rest)
  | blank {n : Nat} {c : UInt8} {rest : List UInt8} (space : isspace c) (later : Form n rest) :
      Form n (c :: rest)
  | number {n : Nat} {kind : Kind} {digits rest : List UInt8} (range : InRange kind digits)
      (apart : Apart rest) (belongs : Belongs n kind) (later : Form (opened n kind) rest) :
      Form n (lead kind (digits ++ rest))

def WellFormed (text : List UInt8) : Prop := Form 0 text

def own (beyond ptr : List UInt8) : List UInt8 := ptr.take (ptr.length - beyond.length)

/-- A number where it stands: the memory from its first digit on, and the sections before it. -/
structure Place where
  kind : Kind
  ptr : List UInt8
  before : Nat

/-- The numbers of a text, whatever they are, up to its end, a `q` or one that runs out of the
    memory. -/
def places (beyond : List UInt8) (before : Nat) (ptr : List UInt8) : List Place :=
  match _kind : classify beyond ptr with
  | .stop => []
  | .blank ptr => places beyond before ptr
  | .number kind ptr => ⟨kind,ptr,before⟩ :: match _read : simpleStrtoulEnd ptr 16 with
    | none => []
    | some (_, rest) => places beyond (opened before kind) rest.tail
termination_by ptr.length
decreasing_by
  · exact classify_left.1 _ _kind
  · exact lt_of_lt_of_le (simpleStrtoulEnd_left _read) (classify_left.2 _ _ _kind)

def Place.Excess (p : Place) : Prop :=
  p.kind = .address ∧ maxTxtSections ≤ p.before ∨
    ∃ val rest, simpleStrtoulEnd p.ptr 16 = some (val, rest) ∧ p.kind.limit < val

structure Place.Proper (beyond : List UInt8) (p : Place) : Prop where
  range : InRange p.kind ((own beyond p.ptr).takeWhile isxdigit)
  apart : Apart ((own beyond p.ptr).dropWhile isxdigit)
  inside : p.kind = .byte → 0 < p.before

/-- One number of the text is in excess, or all of them are proper. -/
def Sound (beyond text : List UInt8) : Prop :=
  (∃ p ∈ places beyond 0 (text ++ beyond), p.Excess) ∨
    ∀ p ∈ places beyond 0 (text ++ beyond), p.Proper beyond

def Starts (kind : Kind) (text : List UInt8) : Prop :=
  kind = .byte → ∃ c rest, text = c :: rest ∧ isspace c = false ∧ c ≠ 113 ∧ c ≠ 64 ∧ c ≠ 35

section
variable {beyond : List UInt8}

theorem own_cons {c : UInt8} {ptr : List UInt8} (inText : beyond.length ≤ ptr.length) :
    own beyond (c :: ptr) = c :: own beyond ptr := by
  unfold own
  rw [List.length_cons, Nat.succ_sub inText, List.take_succ_cons]

theorem own_append {front rest : List UInt8} (inText : beyond.length ≤ rest.length) :
    own beyond (front ++ rest) = front ++ own beyond rest := by
  induction front with
  | nil => rfl
  | cons c front ih =>
    have long : beyond.length ≤ (front ++ rest).length := by
      rw [List.length_append]
      omega
    rw [List.cons_append, own_cons long, ih, List.cons_append]

theorem own_short {ptr : List UInt8} (out : ptr.length ≤ beyond.length) : own beyond ptr = [] := by
  rw [own, Nat.sub_eq_zero_of_le out, List.take_zero]

theorem own_split {ptr : List UInt8} (inText : beyond.length ≤ ptr.length) :
    ∃ back, ptr = own beyond ptr ++ back ∧ back.length = beyond.length := by
  refine ⟨ptr.drop (ptr.length - beyond.length),(List.take_append_drop _ _).symm,?_⟩
  rw [List.length_drop]
  omega

theorem classify_stop_own {ptr : List UInt8} (stop : classify beyond ptr = .stop) :
    own beyond ptr = [] ∨ ∃ rest, own beyond ptr = 113 :: rest := by
  by_cases inText : beyond.length < ptr.length
  · cases ptr with
    | nil => simp at inText
    | cons c rest =>
      have inside : beyond.length ≤ rest.length := Nat.le_of_lt_succ inText
      rw [classify_cons inside] at stop
      split_ifs at stop with _ quit
      rw [own_cons inside, quit]
      exact .inr ⟨_,rfl⟩
  · exact .inl (own_short (Nat.le_of_not_lt inText))

theorem classify_blank_own {ptr rest : List UInt8} (blank : classify beyond ptr = .blank rest) :
    ∃ c, isspace c ∧ own beyond ptr = c :: own beyond rest := by
  have goesOn : classify beyond ptr ≠ .stop := by simp [blank]
  obtain ⟨c,more,rfl,inside⟩ := classify_inText goesOn
  rw [classify_cons inside] at blank
  split_ifs at blank with space
  cases blank
  exact ⟨c,space,own_cons inside⟩

theorem classify_number_own {ptr rest : List UInt8} {kind : Kind}
    (number : classify beyond ptr = .number kind rest) :
    own beyond ptr = lead kind (own beyond rest) ∧ beyond.length ≤ rest.length ∧
      Starts kind (own beyond rest) := by
  have goesOn : classify beyond ptr ≠ .stop := by simp [number]
  obtain ⟨c,more,rfl,inside⟩ := classify_inText goesOn
  rw [classify_cons inside] at number
  split_ifs at number with space quit opens hash
  · cases number
    rw [own_cons inside, opens]
    exact ⟨rfl,inside,by simp [Starts]⟩
  · cases number
    rw [own_cons inside, hash]
    exact ⟨rfl,inside,by simp [Starts]⟩
  · cases number
    refine ⟨rfl,inside.trans (by simp),fun _ => ⟨c,own beyond more,own_cons inside,?_⟩⟩
    exact ⟨by simpa using space,quit,opens,hash⟩

theorem lead_inj {kind other : Kind} {digits rest text : List UInt8}
    (range : InRange other digits) (starts : Starts kind text)
    (same : lead other (digits ++ rest) = lead kind text) :
    other = kind ∧ digits ++ rest = text := by
  cases digits with
  | nil => exact absurd rfl range.nonempty
  | cons d digits =>
    obtain ⟨_,_,noAt,noHash⟩ := xdigit_lead d (range.hex d (by simp))
    cases kind with
    | byte =>
      obtain ⟨c,more,rfl,_,_,noAt',noHash'⟩ := starts rfl
      cases other with
      | byte => exact ⟨rfl,same⟩
      | address => exact absurd (List.cons.inj same).1.symm noAt'
      | version => exact absurd (List.cons.inj same).1.symm noHash'
    | address =>
      cases other with
      | byte => exact absurd (List.cons.inj same).1 noAt
      | address => exact ⟨rfl,(List.cons.inj same).2⟩
      | version => exact absurd (List.cons.inj same).1 (by decide)
    | version =>
      cases other with
      | byte => exact absurd (List.cons.inj same).1 noHash
      | address => exact absurd (List.cons.inj same).1 (by decide)
      | version => exact ⟨rfl,(List.cons.inj same).2⟩

theorem lead_cons {kind : Kind} {c : UInt8} {text rest : List UInt8} (starts : Starts kind text)
    (same : lead kind text = c :: rest) : isspace c = false ∧ c ≠ 113 := by
  cases kind with
  | byte =>
    obtain ⟨d,more,rfl,solid,noQuit,_⟩ := starts rfl
    cases same
    exact ⟨solid,noQuit⟩
  | address =>
    cases same
    decide
  | version =>
    cases same
    decide

theorem lead_nonempty {kind : Kind} {text : List UInt8} (starts : Starts kind text) :
    lead kind text ≠ [] := by
  cases kind with
  | byte =>
    obtain ⟨d,more,rfl,_⟩ := starts rfl
    simp [lead]
  | address => simp [lead]
  | version => simp [lead]

theorem Form.number_inv {n : Nat} {kind : Kind} {text : List UInt8} (form : Form n (lead kind text))
    (starts : Starts kind text) : ∃ digits rest, text = digits ++ rest ∧ InRange kind digits ∧
      Apart rest ∧ Belongs n kind ∧ Form (opened n kind) rest := by
  generalize same : lead kind text = whole at form
  cases form with
  | ends => exact absurd same (lead_nonempty starts)
  | quit => exact absurd rfl (lead_cons starts same).2
  | blank space later =>
    rw [(lead_cons starts same).1] at space
    contradiction
  | number range apart belongs later =>
    obtain ⟨rfl,rfl⟩ := lead_inj range starts same.symm
    exact ⟨_,_,rfl,range,apart,belongs,later⟩

theorem apart_while {digits rest : List UInt8} (hex : ∀ c ∈ digits, isxdigit c)
    (apart : Apart rest) : (digits ++ rest).takeWhile isxdigit = digits ∧
      (digits ++ rest).dropWhile isxdigit = rest := by
  rw [List.takeWhile_append_of_pos hex, List.dropWhile_append_of_pos hex]
  cases rest with
  | nil => simp
  | cons c rest =>
    have stops := (space_facts c (apart c (by simp))).1
    simp [stops]

theorem Form.proper {before : Nat} {kind : Kind} {ptr : List UInt8}
    (form : Form before (lead kind (own beyond ptr))) (starts : Starts kind (own beyond ptr)) :
    Place.Proper beyond ⟨kind,ptr,before⟩ := by
  obtain ⟨digits,rest,split,range,apart,belongs,_⟩ := form.number_inv starts
  obtain ⟨taken,dropped⟩ := apart_while range.hex apart
  constructor
  · rw [split, taken]
    exact range
  · rw [split, dropped]
    exact apart
  · rintro rfl
    exact belongs

theorem Place.Proper.belongs {p : Place} (proper : p.Proper beyond) (fits : ¬ p.Excess) :
    Belongs p.before p.kind := by
  cases kind : p.kind with
  | address => exact not_le.mp fun full => fits (.inl ⟨kind,full⟩)
  | version => exact trivial
  | byte => exact proper.inside kind

theorem own_behind {kind : Kind} {ptr digits rest after : List UInt8} {val : Nat}
    (inText : beyond.length ≤ ptr.length) (text : own beyond ptr = digits ++ rest)
    (range : InRange kind digits) (apart : Apart rest)
    (read : simpleStrtoulEnd ptr 16 = some (val, after)) :
    own beyond after.tail = rest.tail := by
  obtain ⟨back,whole,count⟩ := own_split inText
  rw [text] at whole
  cases rest with
  | nil =>
    rw [whole, List.append_nil] at read
    have past := simpleStrtoulEnd_past range.hex range.nonempty read
    apply own_short
    rw [List.length_tail]
    omega
  | cons c rest =>
    rw [whole, List.append_assoc] at read
    rw [List.cons_append, simpleStrtoulEnd_spaced (rest ++ back) range.hex range.nonempty
      (apart c (by simp))] at read
    cases Option.some.inj read
    rw [List.tail_cons, List.tail_cons, own_append count.ge, own_short count.le, List.append_nil]

theorem Form.blank_inv {n : Nat} {c : UInt8} {rest : List UInt8} (form : Form n (c :: rest))
    (space : isspace c) : Form n rest := by
  generalize same : c :: rest = whole at form
  cases form with
  | ends => contradiction
  | quit =>
    cases same
    exact absurd space (by decide)
  | blank _ later =>
    cases same
    exact later
  | @number _ kind digits more range apart belongs later =>
    have starts : Starts kind (digits ++ more) := by
      intro _
      obtain ⟨d,ds,rfl⟩ := List.exists_cons_of_ne_nil range.nonempty
      exact ⟨d,ds ++ more,rfl,xdigit_lead d (range.hex d (by simp))⟩
    rw [(lead_cons starts same.symm).1] at space
    contradiction

theorem Form.tail {n : Nat} {rest : List UInt8} (form : Form n rest) (apart : Apart rest) :
    Form n rest.tail := by
  cases rest with
  | nil => exact .ends
  | cons c rest => exact form.blank_inv (apart c (by simp))

theorem Form.of_tail {n : Nat} {rest : List UInt8} (form : Form n rest.tail) (apart : Apart rest) :
    Form n rest := by
  cases rest with
  | nil => exact .ends
  | cons c rest => exact .blank (apart c (by simp)) form

theorem form_blank {before : Nat} {ptr rest : List UInt8}
    (blank : classify beyond ptr = .blank rest) :
    Form before (own beyond ptr) ↔ Form before (own beyond rest) := by
  obtain ⟨c,space,text⟩ := classify_blank_own blank
  rw [text]
  constructor
  · intro form
    exact form.blank_inv space
  · intro form
    exact .blank space form

theorem form_number {before val : Nat} {kind : Kind} {ptr digits after : List UInt8}
    (number : classify beyond ptr = .number kind digits)
    (read : simpleStrtoulEnd digits 16 = some (val, after))
    (fits : ¬ Place.Excess ⟨kind,digits,before⟩) :
    Form before (own beyond ptr) ↔ Place.Proper beyond ⟨kind,digits,before⟩ ∧
      Form (opened before kind) (own beyond after.tail) := by
  obtain ⟨text,inText,starts⟩ := classify_number_own number
  rw [text]
  constructor
  · intro form
    obtain ⟨front,rest,split,range,apart,_,later⟩ := form.number_inv starts
    refine ⟨form.proper starts,?_⟩
    rw [own_behind inText split range apart read]
    exact later.tail apart
  · rintro ⟨proper,later⟩
    have split := (List.takeWhile_append_dropWhile (p := isxdigit) (l := own beyond digits)).symm
    rw [own_behind inText split proper.range proper.apart read] at later
    rw [split]
    exact .number proper.range proper.apart (proper.belongs fits) (later.of_tail proper.apart)

theorem form_cut {before : Nat} {kind : Kind} {ptr digits : List UInt8}
    (number : classify beyond ptr = .number kind digits)
    (cut : simpleStrtoulEnd digits 16 = none) (fits : ¬ Place.Excess ⟨kind,digits,before⟩) :
    Form before (own beyond ptr) ↔ Place.Proper beyond ⟨kind,digits,before⟩ := by
  obtain ⟨text,inText,starts⟩ := classify_number_own number
  rw [text]
  constructor
  · intro form
    exact form.proper starts
  · intro proper
    have split := (List.takeWhile_append_dropWhile (p := isxdigit) (l := own beyond digits)).symm
    rw [split]
    refine .number proper.range proper.apart (proper.belongs fits) ?_
    cases behind : (own beyond digits).dropWhile isxdigit with
    | nil => exact .ends
    | cons c rest =>
      obtain ⟨back,whole,_⟩ := own_split inText
      have space : isspace c := proper.apart c (by simp [behind])
      have read := simpleStrtoulEnd_spaced (rest ++ back) proper.range.hex proper.range.nonempty
        space
      rw [whole, split, behind, List.append_assoc, List.cons_append] at cut
      exact absurd (cut.symm.trans read) (by simp)

section
variable {before : Nat} {kind : Kind} {ptr digits rest : List UInt8}

theorem places_stop (stop : classify beyond ptr = .stop) : places beyond before ptr = [] := by
  rw [places]
  split <;> simp_all

theorem places_blank (blank : classify beyond ptr = .blank rest) :
    places beyond before ptr = places beyond before rest := by
  rw [places]
  split <;> simp_all

theorem places_first (number : classify beyond ptr = .number kind digits) :
    places beyond before ptr = ⟨kind,digits,before⟩ :: match simpleStrtoulEnd digits 16 with
      | none => []
      | some (_, rest) => places beyond (opened before kind) rest.tail := by
  rw [places]
  split
  · simp_all
  · simp_all
  · rename_i same
    rw [number] at same
    cases same
    split <;> simp_all

theorem places_number {val : Nat} (number : classify beyond ptr = .number kind digits)
    (read : simpleStrtoulEnd digits 16 = some (val, rest)) :
    places beyond before ptr =
      ⟨kind,digits,before⟩ :: places beyond (opened before kind) rest.tail := by
  rw [places_first number, read]

theorem places_cut (number : classify beyond ptr = .number kind digits)
    (cut : simpleStrtoulEnd digits 16 = none) :
    places beyond before ptr = [⟨kind,digits,before⟩] := by
  rw [places_first number, cut]

theorem places_head (number : classify beyond ptr = .number kind digits) :
    ⟨kind,digits,before⟩ ∈ places beyond before ptr := by
  rw [places_first number]
  exact List.mem_cons_self

end

theorem form_iff {before : Nat} {ptr : List UInt8}
    (fits : ∀ p ∈ places beyond before ptr, ¬ p.Excess) :
    Form before (own beyond ptr) ↔ ∀ p ∈ places beyond before ptr, p.Proper beyond := by
  induction before, ptr using places.induct beyond with
  | case1 before ptr stop =>
    rw [places_stop stop]
    rcases classify_stop_own stop with text | ⟨rest,text⟩
    · simp [text, Form.ends]
    · simp [text, Form.quit]
  | case2 before ptr rest blank ih =>
    rw [places_blank blank] at fits ⊢
    exact (form_blank blank).trans (ih fits)
  | case3 before ptr kind digits number ih =>
    cases read : simpleStrtoulEnd digits 16 with
    | none =>
      rw [places_cut number read] at fits ⊢
      rw [form_cut number read (fits _ (by simp))]
      simp
    | some found =>
      obtain ⟨val,after⟩ := found
      rw [places_number number read] at fits ⊢
      obtain ⟨first,others⟩ := List.forall_mem_cons.mp fits
      rw [form_number number read first, ih val after read others, List.forall_mem_cons]

theorem turn_number {s : Loop} {kind : Kind} {ptr : List UInt8}
    (number : classify beyond s.ptr = .number kind ptr) :
    turn beyond s = .refuses ↔ Place.Excess ⟨kind,ptr,s.state.txt.length⟩ := by
  simp only [turn, number, Place.Excess]
  split
  · rename_i full
    simp [full]
  · rename_i room
    unfold scan
    cases read : simpleStrtoulEnd ptr 16 with
    | none => simpa using room
    | some found =>
      obtain ⟨val,rest⟩ := found
      by_cases large : kind.limit < val
      · simp [large]
      · simpa [large] using room

theorem turn_refuses {s : Loop} (refused : turn beyond s = .refuses) :
    ∃ kind ptr, classify beyond s.ptr = .number kind ptr := by
  unfold turn at refused
  split at refused
  · contradiction
  · contradiction
  · rename_i kind ptr number
    exact ⟨kind,ptr,number⟩

theorem turn_fault {s : Loop} (fault : turn beyond s = .fault) : ∃ kind ptr,
    classify beyond s.ptr = .number kind ptr ∧ simpleStrtoulEnd ptr 16 = none := by
  unfold turn at fault
  split at fault
  · contradiction
  · contradiction
  · rename_i kind ptr number
    split at fault
    · contradiction
    · unfold scan at fault
      split at fault
      · rename_i cut
        exact ⟨kind,ptr,number,cut⟩
      · split at fault <;> contradiction

/-- The parser returns NULL for a number in excess, and for nothing else. -/
theorem parseLoop_refuses_iff (s : Loop) : parseLoop beyond s = some none ↔
    ∃ p ∈ places beyond s.state.txt.length s.ptr, p.Excess := by
  induction left : s.ptr.length using Nat.strongRecOn generalizing s with
  | ind n ih =>
    cases next : turn beyond s with
    | accepts => simp [parseLoop_accepts next, places_stop (turn_accepts_iff.mp next)]
    | refuses =>
      obtain ⟨kind,ptr,number⟩ := turn_refuses next
      rw [parseLoop_refuses next]
      refine iff_of_true rfl ⟨⟨kind,ptr,_⟩,places_head number,(turn_number number).mp next⟩
    | fault =>
      obtain ⟨kind,ptr,number,cut⟩ := turn_fault next
      have fits : ¬ Place.Excess ⟨kind,ptr,s.state.txt.length⟩ := by
        rw [← turn_number number, next]
        simp
      simp [parseLoop_fault next, places_cut number cut, fits]
    | goesOn t =>
      rw [parseLoop_goesOn next, ih _ (left ▸ turn_left next) t rfl]
      rcases turn_goesOn next with ⟨rest,blank,rfl⟩ | ⟨kind,ptr,val,after,number,_,read,_,rfl⟩
      · rw [places_blank blank]
      · have fits : ¬ Place.Excess ⟨kind,ptr,s.state.txt.length⟩ := by
          rw [← turn_number number, next]
          simp
        rw [places_number number read, put_txt_length]
        simp [fits, opened]

end

theorem own_start (beyond text : List UInt8) : own beyond (text ++ beyond) = text := by
  rw [own_append le_rfl, own_short le_rfl, List.append_nil]

/-- A text that is not well-formed is refused exactly when it is `Sound`. -/
theorem malformed_refused_iff (beyond text : List UInt8) :
    (¬ WellFormed text → parseTiTxt beyond text = some none) ↔ Sound beyond text := by
  have refused : parseTiTxt beyond text = some none ↔
      ∃ p ∈ places beyond 0 (text ++ beyond), p.Excess := parseLoop_refuses_iff _
  rw [refused, Sound]
  by_cases excess : ∃ p ∈ places beyond 0 (text ++ beyond), p.Excess
  · simp [excess]
  · have fits : ∀ p ∈ places beyond 0 (text ++ beyond), ¬ p.Excess := by
      intro p member large
      exact excess ⟨p,member,large⟩
    have formed := form_iff fits
    rw [own_start] at formed
    simp [excess, WellFormed, formed]

/-- "@E000 zz q" -/
def garbage : List UInt8 := [64, 69, 48, 48, 48, 32, 122, 122, 32, 113]

/-- Each letter is taken for a byte 0, which is programmed. -/
theorem garbage_accepted : ¬ WellFormed garbage ∧
    (∃ p, parseTiTxt [] garbage = some (some p) ∧ p.bytes = [0, 0]) ∧
    ¬ (¬ WellFormed garbage → parseTiTxt [] garbage = some none) := by
  have parsed : parseTiTxt [] garbage =
      some (some ⟨⟨0xE000,2,some 0⟩ :: List.replicate 19 unused,[0,0],-1⟩) := by decide +kernel
  have malformed : ¬ WellFormed garbage := by
    intro formed
    have fits : ∀ p ∈ places [] 0 garbage, ¬ p.Excess := by
      intro p member large
      have refused : parseTiTxt [] garbage = some none :=
        (parseLoop_refuses_iff ⟨garbage,empty⟩).mpr ⟨p,member,large⟩
      rw [parsed] at refused
      contradiction
    have letters : ⟨.byte,[122, 122, 32, 113],1⟩ ∈ places [] 0 garbage := by
      have read : simpleStrtoulEnd [69, 48, 48, 48, 32, 122, 122, 32, 113] 16 =
          some (0xE000, [32, 122, 122, 32, 113]) := by decide
      have opens : classify [] garbage = .number .address [69, 48, 48, 48, 32, 122, 122, 32, 113] :=
        rfl
      have letter : classify [] [122, 122, 32, 113] = .number .byte [122, 122, 32, 113] := rfl
      rw [places_number opens read]
      exact List.mem_cons_of_mem _ (places_head letter)
    have proper := (form_iff fits).mp formed _ letters
    exact proper.range.nonempty (by decide)
  refine ⟨malformed,⟨_,parsed,rfl⟩,?_⟩
  intro refuses
  rw [refuses malformed] at parsed
  contradiction

end TiTxt
