import Mathlib.Logic.Function.Basic
import SqueezeOS.Kernel.Strings

/- The firmware of the infrared controller: an Intel HEX text, how the driver reads it, and when
   it erases the controller to program it. -/
namespace IntelHex
open KernelStrings

inductive Segment where
  | program | secure | chksum
  deriving DecidableEq, Repr

def size : Segment → Nat
  | .program => 64 * 64
  | .secure => 64
  | .chksum => 2

abbrev Buffers := Segment → List UInt8

/-- What the reader meets outside of its arguments: the memory that follows the text, as far as
    it is mapped; what an unset variable holds, by the place in the text; and where the buffers
    are in memory. -/
structure Surroundings where
  beyond : List UInt8
  stale : Nat → Nat
  base : Segment → Nat
  mapped : ∀ segment, base segment + size segment < 2 ^ 32

/-- `data` goes on past its 64 bytes with what lies above the record on the stack. -/
structure Record where
  length : Nat
  address : Nat
  type : Nat
  data : Nat → UInt8

/-- The memory from a pointer on; `none` for an access outside of what is mapped. -/
def parseByte (stale : Nat → Nat) : List UInt8 → Option (Nat × List UInt8)
  | c0 :: c1 :: ptr =>
      let v := (sscanfX ([c0, c1].takeWhile (· != 0))).getD (stale ptr.length % 2 ^ 32)
      some (v, ptr)
  | _ => none

def parseBytes (stale : Nat → Nat) : Nat → List UInt8 → Option (List Nat × List UInt8)
  | 0, ptr => some ([], ptr)
  | n + 1, ptr => do
      let (v, ptr) ← parseByte stale ptr
      let (vs, ptr) ← parseBytes stale n ptr
      some (v :: vs, ptr)

/-- The data of a record; a 65th byte would be written past the end of the record. -/
def parseData (stale : Nat → Nat) (length : Nat) (ptr : List UInt8) :
    Option (List Nat × List UInt8) :=
  if length ≤ 64 then parseBytes stale length ptr else none

def overlay (bytes : List Nat) (old : Nat → UInt8) (i : Nat) : UInt8 :=
  (bytes[i]?.map UInt8.ofNat).getD (old i)

structure Fields where
  length : Nat
  high : Nat
  low : Nat
  type : Nat
  data : List Nat
  last : Nat

def Fields.bytes (f : Fields) : List Nat :=
  f.length :: f.high :: f.low :: f.type :: (f.data ++ [f.last])

def Fields.record (f : Fields) (old : Record) : Record :=
  { length := f.length, address := (f.high <<< 8 ||| f.low) % 2 ^ 32, type := f.type
    data := overlay f.data old.data }

/-- The pointer behind the record, `none` for NULL; without a colon the record is left as it
    was. -/
def parseRecord (stale : Nat → Nat) (ptr : List UInt8) (record : Record) :
    Option (Option (List UInt8) × Record) :=
  match ptr.dropWhile isspace with
  | [] => none
  | c :: ptr =>
      if c ≠ 58 then some (none, record)
      else do
        let (length, ptr) ← parseByte stale ptr
        let (high, ptr) ← parseByte stale ptr
        let (low, ptr) ← parseByte stale ptr
        let (type, ptr) ← parseByte stale ptr
        let (data, ptr) ← parseData stale length ptr
        let (last, ptr) ← parseByte stale ptr
        let f : Fields := ⟨length, high, low, type, data, last⟩
        let cksum := f.bytes.sum % 2 ^ 32
        some (if cksum % 256 = 0 then some ptr else none, f.record record)

structure Loop where
  cptr : Option (List UInt8)
  segment : Segment
  used : Nat
  record : Record
  buffers : Buffers

inductive Turn where
  | fault
  | returns (value : Int) (buffers : Buffers)
  | goesOn (s : Loop)

def segmentOf (extended : Nat) : Option Segment :=
  if extended = 0x0010 then some .secure else if extended = 0x0020 then some .chksum else none

def Record.extended (record : Record) : Nat := (record.data 0).toNat <<< 8 ||| (record.data 1).toNat

def memcpy (buffer : List UInt8) (used : Nat) (bytes : List UInt8) : List UInt8 :=
  buffer.take used ++ bytes ++ buffer.drop (used + bytes.length)

/-- The switch, whether or not the record was good. The end of the data is compared as an
    address of 32 bits, and a copy that runs out of its buffer faults. -/
def dispatch (m : Surroundings) (s : Loop) (next : Option (List UInt8)) (record : Record) : Turn :=
  match record.type with
  | 0 =>
      let dend := m.base s.segment + size s.segment
      if (m.base s.segment + s.used + record.length) % 2 ^ 32 > dend then .returns (-1) s.buffers
      else if s.used + record.length > size s.segment then .fault
      else .goesOn { s with
        cptr := next
        record := record
        used := s.used + record.length
        buffers := Function.update s.buffers s.segment
          (memcpy (s.buffers s.segment) s.used ((List.range record.length).map record.data)) }
  | 1 => .returns 0 s.buffers
  | 4 => match segmentOf record.extended with
    | some segment =>
        .goesOn { s with cptr := next, record := record, segment := segment, used := 0 }
    | none => .returns (-1) s.buffers
  | _ => .returns (-1) s.buffers

def turn (m : Surroundings) (s : Loop) : Turn :=
  match s.cptr with
  | none => .returns (-1) s.buffers
  | some ptr =>
      if m.beyond.length < ptr.length then
        match parseRecord m.stale ptr s.record with
        | none => .fault
        | some (next, record) => dispatch m s next record
      else .returns (-1) s.buffers

def hexPair (a b : UInt8) : Nat := 16 * digitValue a + digitValue b

inductive Spells : List UInt8 → List Nat → Prop where
  | nil : Spells [] []
  | pair {a b : UInt8} {digits : List UInt8} {bytes : List Nat} (first : isxdigit a)
      (second : isxdigit b) (rest : Spells digits bytes) :
      Spells (a :: b :: digits) (hexPair a b :: bytes)

theorem Spells.append {ds es : List UInt8} {vs ws : List Nat} (first : Spells ds vs)
    (second : Spells es ws) : Spells (ds ++ es) (vs ++ ws) := by
  induction first with
  | nil => exact second
  | pair a b rest ih => exact .pair a b ih

theorem Spells.split {ds : List UInt8} {vs ws : List Nat} (spells : Spells ds (vs ++ ws)) :
    ∃ ds1 ds2, ds = ds1 ++ ds2 ∧ Spells ds1 vs ∧ Spells ds2 ws := by
  induction vs generalizing ds with
  | nil => exact ⟨[],ds,rfl,.nil,spells⟩
  | cons v vs ih =>
    cases spells with
    | pair a b rest =>
      obtain ⟨ds1,ds2,rfl,first,second⟩ := ih rest
      exact ⟨_ :: _ :: ds1,ds2,rfl,.pair a b first,second⟩

theorem Spells.digits {ds : List UInt8} {vs : List Nat} (spells : Spells ds vs) :
    ds.length = 2 * vs.length ∧ ∀ c ∈ ds, isxdigit c := by
  induction spells with
  | nil => exact ⟨rfl,by simp⟩
  | pair a b _ ih =>
    obtain ⟨even,hex⟩ := ih
    refine ⟨?_,List.forall_mem_cons.mpr ⟨a,List.forall_mem_cons.mpr ⟨b,hex⟩⟩⟩
    simp only [List.length_cons, even]
    omega

section
variable {stale : Nat → Nat} {ptr rest : List UInt8}

theorem sscanfX_digits (a b : UInt8) (first : isxdigit a) (second : isxdigit b) :
    sscanfX ([a, b].takeWhile (· != 0)) = some (hexPair a b) := by
  obtain ⟨nonzero,solid,_,small⟩ := xdigit_facts a first
  obtain ⟨nonzero2,_,noMark,small2⟩ := xdigit_facts b second
  have value : (digitValue a % 4294967296 * 16 + digitValue b) % 4294967296 = hexPair a b := by
    unfold hexPair
    omega
  simp [sscanfX, solid, first, second, nonzero, nonzero2, simpleStrtoul, skipHexMark, noMark,
    strtoulDigits, small, small2, value]

theorem parseByte_some {v : Nat} (read : parseByte stale ptr = some (v, rest)) :
    ∃ a b, ptr = a :: b :: rest ∧ (isxdigit a → isxdigit b → v = hexPair a b) := by
  unfold parseByte at read
  split at read
  · rename_i a b ptr
    cases Option.some.inj read
    refine ⟨a,b,rfl,?_⟩
    intro first second
    rw [sscanfX_digits a b first second]
    rfl
  · contradiction

theorem parseByte_digits {a b : UInt8} (first : isxdigit a) (second : isxdigit b) :
    parseByte stale (a :: b :: rest) = some (hexPair a b, rest) := by
  simp only [parseByte, sscanfX_digits a b first second, Option.getD_some]

theorem parseBytes_some {n : Nat} {vs : List Nat} (read : parseBytes stale n ptr = some (vs, rest)) :
    vs.length = n ∧ ∃ digits, ptr = digits ++ rest ∧ digits.length = 2 * n ∧
      ((∀ c ∈ digits, isxdigit c) → Spells digits vs) := by
  induction n generalizing ptr vs with
  | zero =>
    cases Option.some.inj read
    exact ⟨rfl,[],rfl,rfl,fun _ => .nil⟩
  | succ n ih =>
    obtain ⟨⟨v,ptr1⟩,one,read⟩ := Option.bind_eq_some_iff.mp read
    obtain ⟨⟨more,ptr2⟩,others,read⟩ := Option.bind_eq_some_iff.mp read
    cases Option.some.inj read
    obtain ⟨a,b,rfl,value⟩ := parseByte_some one
    obtain ⟨count,digits,rfl,length,spells⟩ := ih others
    refine ⟨congrArg (· + 1) count,a :: b :: digits,rfl,?_,?_⟩
    · simp only [List.length_cons, length]
      omega
    · intro hex
      simp only [List.forall_mem_cons] at hex
      rw [value hex.1 hex.2.1]
      exact .pair hex.1 hex.2.1 (spells hex.2.2)

theorem Spells.parseByte (stale : Nat → Nat) {digits : List UInt8} {v : Nat} {vs : List Nat}
    (spells : Spells digits (v :: vs)) (rest : List UInt8) : ∃ others,
    parseByte stale (digits ++ rest) = some (v, others ++ rest) ∧ Spells others vs := by
  cases spells with
  | pair a b spells => exact ⟨_,parseByte_digits a b,spells⟩

theorem Spells.parseBytes (stale : Nat → Nat) {digits : List UInt8} {vs : List Nat}
    (spells : Spells digits vs) (rest : List UInt8) :
    parseBytes stale vs.length (digits ++ rest) = some (vs, rest) := by
  induction spells with
  | nil => rfl
  | pair a b _ ih =>
    simp only [List.length_cons, IntelHex.parseBytes, List.cons_append, parseByte_digits a b,
      Option.bind_eq_bind, Option.bind_some, ih]

end

structure Fields.Sized (f : Fields) : Prop where
  room : f.length ≤ 64
  count : f.data.length = f.length

def behind (f : Fields) (rest : List UInt8) : Option (List UInt8) :=
  if f.bytes.sum % 256 = 0 then some rest else none

section
variable {stale : Nat → Nat} {ptr rest digits : List UInt8} {old : Record}

theorem parseRecord_some {next : Option (List UInt8)} {record : Record}
    (read : parseRecord stale ptr old = some (next, record)) :
    (next = none ∧ record = old ∧ ∀ rest, ptr.dropWhile isspace ≠ 58 :: rest) ∨
    ∃ f digits rest, ptr.dropWhile isspace = 58 :: (digits ++ rest) ∧ f.Sized ∧
      digits.length = 2 * (f.length + 5) ∧ ((∀ c ∈ digits, isxdigit c) → Spells digits f.bytes) ∧
      next = behind f rest ∧ record = f.record old := by
  unfold parseRecord at read
  split at read
  · contradiction
  · rename_i c ptr found
    by_cases colon : c = 58
    · subst colon
      rw [if_neg (not_not.mpr rfl)] at read
      obtain ⟨⟨length,ptr1⟩,one,read⟩ := Option.bind_eq_some_iff.mp read
      obtain ⟨⟨high,ptr2⟩,two,read⟩ := Option.bind_eq_some_iff.mp read
      obtain ⟨⟨low,ptr3⟩,three,read⟩ := Option.bind_eq_some_iff.mp read
      obtain ⟨⟨type,ptr4⟩,four,read⟩ := Option.bind_eq_some_iff.mp read
      obtain ⟨⟨data,ptr5⟩,five,read⟩ := Option.bind_eq_some_iff.mp read
      obtain ⟨⟨last,rest⟩,six,read⟩ := Option.bind_eq_some_iff.mp read
      cases Option.some.inj read
      obtain ⟨a1,b1,rfl,value1⟩ := parseByte_some one
      obtain ⟨a2,b2,rfl,value2⟩ := parseByte_some two
      obtain ⟨a3,b3,rfl,value3⟩ := parseByte_some three
      obtain ⟨a4,b4,rfl,value4⟩ := parseByte_some four
      unfold parseData at five
      split at five
      · rename_i room
        obtain ⟨count,digits,rfl,even,spells⟩ := parseBytes_some five
        obtain ⟨a6,b6,rfl,value6⟩ := parseByte_some six
        refine .inr ⟨⟨length,high,low,type,data,last⟩,
          a1 :: b1 :: a2 :: b2 :: a3 :: b3 :: a4 :: b4 :: (digits ++ [a6, b6]),rest,?_,⟨room,count⟩,
          ?_,?_,?_,rfl⟩
        · rw [found]
          simp
        · simp only [List.length_cons, List.length_append, even, List.length_nil]
          omega
        · intro hex
          simp only [List.forall_mem_cons, List.forall_mem_append] at hex
          obtain ⟨h1,i1,h2,i2,h3,i3,h4,i4,hs,h6,i6,_⟩ := hex
          rw [value1 h1 i1] at *
          cases value2 h2 i2
          cases value3 h3 i3
          cases value4 h4 i4
          cases value6 h6 i6
          exact .pair h1 i1 (.pair h2 i2 (.pair h3 i3 (.pair h4 i4
            ((spells hs).append (.pair h6 i6 .nil)))))
        · unfold behind
          rw [Nat.mod_mod_of_dvd _ (by decide)]
      · contradiction
    · rw [if_pos colon] at read
      cases Option.some.inj read
      refine .inl ⟨rfl,rfl,?_⟩
      intro rest same
      rw [found] at same
      exact colon (List.cons.inj same).1

theorem parseRecord_spelled {f : Fields} (found : ptr.dropWhile isspace = 58 :: (digits ++ rest))
    (sized : f.Sized) (spells : Spells digits f.bytes) :
    parseRecord stale ptr old = some (behind f rest, f.record old) := by
  obtain ⟨ptr1,one,spells⟩ := spells.parseByte stale rest
  obtain ⟨ptr2,two,spells⟩ := spells.parseByte stale rest
  obtain ⟨ptr3,three,spells⟩ := spells.parseByte stale rest
  obtain ⟨ptr4,four,spells⟩ := spells.parseByte stale rest
  obtain ⟨ds,es,rfl,first,second⟩ := spells.split
  have five := first.parseBytes stale (es ++ rest)
  obtain ⟨none,six,empty⟩ := second.parseByte stale rest
  cases empty
  rw [sized.count] at five
  simp only [parseRecord, found, ne_eq, not_true_eq_false, if_false, one, two, three, four,
    Option.bind_eq_bind, Option.bind_some, parseData, if_pos sized.room, List.append_assoc, five,
    six, List.nil_append, behind]
  rw [Nat.mod_mod_of_dvd _ (by decide)]

theorem parseRecord_shorter {record : Record}
    (read : parseRecord stale ptr old = some (some rest, record)) : rest.length < ptr.length := by
  have suffix := (List.dropWhile_suffix isspace (l := ptr)).length_le
  rcases parseRecord_some read with ⟨null,_⟩ | ⟨f,digits,rest',found,_,_,_,next,_⟩
  · contradiction
  · unfold behind at next
    split at next
    · cases Option.some.inj next
      rw [found, List.length_cons, List.length_append] at suffix
      omega
    · contradiction

end

def Loop.left (s : Loop) : Nat := (s.cptr.map (·.length + 1)).getD 0

theorem turn_goesOn {m : Surroundings} {s t : Loop} (next : turn m s = .goesOn t) :
    ∃ ptr, s.cptr = some ptr ∧ m.beyond.length < ptr.length ∧
      parseRecord m.stale ptr s.record = some (t.cptr, t.record) ∧
      ((t.record.type = 0 ∧ s.used + t.record.length ≤ size s.segment ∧
        t.segment = s.segment ∧ t.used = s.used + t.record.length) ∨
      (t.record.type = 4 ∧ segmentOf t.record.extended = some t.segment ∧ t.used = 0)) := by
  unfold turn at next
  split at next
  · contradiction
  · rename_i ptr there
    split at next
    · rename_i inText
      split at next
      · contradiction
      · rename_i cptr record read
        refine ⟨ptr,there,inText,?_⟩
        unfold dispatch at next
        split at next
        · rename_i data
          dsimp only at next
          split at next
          · contradiction
          · split at next
            · contradiction
            · rename_i fits
              cases Turn.goesOn.inj next
              exact ⟨read,.inl ⟨data,Nat.not_lt.mp fits,rfl,rfl⟩⟩
        · contradiction
        · rename_i extended
          split at next
          · rename_i segment selected
            cases Turn.goesOn.inj next
            exact ⟨read,.inr ⟨extended,selected,rfl⟩⟩
          · contradiction
        · contradiction
    · contradiction

theorem turn_left {m : Surroundings} {s t : Loop} (next : turn m s = .goesOn t) :
    t.left < s.left := by
  obtain ⟨ptr,there,_,read,_⟩ := turn_goesOn next
  unfold Loop.left
  rw [there]
  cases behind : t.cptr with
  | none => exact Nat.succ_pos _
  | some rest =>
    rw [behind] at read
    exact Nat.succ_lt_succ (parseRecord_shorter read)

def parseLoop (m : Surroundings) (s : Loop) : Option (Int × Buffers) :=
  match _ : turn m s with
  | .fault => none
  | .returns value buffers => some (value, buffers)
  | .goesOn t => parseLoop m t
termination_by s.left
decreasing_by exact turn_left ‹_›

def start (m : Surroundings) (text : List UInt8) (record : Record) (buffers : Buffers) : Loop :=
  { cptr := some (text ++ m.beyond), segment := .program, used := 0, record := record
    buffers := buffers }

def intelHexParseFirmware (m : Surroundings) (text : List UInt8) (record : Record)
    (buffers : Buffers) : Option (Int × Buffers) :=
  parseLoop m (start m text record buffers)

inductive Phase where
  | enter
  | readSiliconId
  | readChecksum
  | bulkErase
  | program (block : Nat) (bytes : List UInt8)
  | secure (bytes : List UInt8)
  deriving DecidableEq, Repr

def kzalloc : Buffers := fun segment => List.replicate (size segment) 0

def expected (buffers : Buffers) : Nat :=
  match buffers .chksum with
  | high :: low :: _ => high.toNat <<< 8 ||| low.toNat
  | _ => 0

/-- The controller answers with its silicon id and the checksum of its firmware. -/
def progFirmware (m : Surroundings) (fw : Option (List UInt8)) (record : Record)
    (siliconId chksum : Nat) : Option (List Phase) :=
  match fw with
  | none => some []
  | some text => match intelHexParseFirmware m text record kzalloc with
    | none => none
    | some (value, buffers) =>
        if value ≠ 0 then some []
        else if siliconId ≠ 0x19 then some [.enter, .readSiliconId]
        else if chksum = expected buffers then some [.enter, .readSiliconId, .readChecksum]
        else some ([.enter, .readSiliconId, .readChecksum, .bulkErase] ++
          (List.range 64).map
            (fun block => .program block (((buffers .program).drop (block * 64)).take 64)) ++
          [.secure (buffers .secure), .readChecksum])

end IntelHex
