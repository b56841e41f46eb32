import Mathlib.Data.List.TakeWhile
import SqueezeOS.Fab4.HexValidity

/- What the records of a firmware text leave in the buffers. -/
namespace IntelHex
open KernelStrings StepRuns

/-- The text of some records, with any white space between them; what is behind the last of them
    does not matter. -/
inductive Written : List Fields → List UInt8 → Prop where
  | nil {rest : List UInt8} : Written [] rest
  | cons {f : Fields} {fs : List Fields} {text rest : List UInt8} (record : IsRecord text f rest)
      (later : Written fs rest) : Written (f :: fs) text

def Fields.given (f : Fields) : List UInt8 := f.data.map UInt8.ofNat

def given (fs : List Fields) : List UInt8 := fs.flatMap Fields.given

def Loop.copied (s : Loop) (ptr : List UInt8) (f : Fields) : Loop :=
  { s with
    cptr := some ptr
    record := f.record s.record
    used := s.used + f.data.length
    buffers := Function.update s.buffers s.segment
      (memcpy (s.buffers s.segment) s.used f.given) }

def Loop.selected (s : Loop) (ptr : List UInt8) (f : Fields) (segment : Segment) : Loop :=
  { s with cptr := some ptr, record := f.record s.record, segment := segment, used := 0 }

section
variable {m : Surroundings} {s : Loop} {text rest : List UInt8} {f : Fields} {fs more : List Fields}

theorem record_data (sized : f.Sized) (old : Record) :
    (List.range (f.record old).length).map (f.record old).data = f.given := by
  apply List.ext_getElem
  · simp [Fields.record, Fields.given, sized.count]
  · intro i short _
    have there : i < f.data.length := by
      simpa [Fields.record, sized.count] using short
    simp [Fields.record, Fields.given, overlay, there]

theorem memcpy_nil (buffer : List UInt8) (used : Nat) : memcpy buffer used [] = buffer := by
  simp [memcpy]

theorem memcpy_memcpy {buffer first second : List UInt8} {used : Nat}
    (inside : used ≤ buffer.length) :
    memcpy (memcpy buffer used first) (used + first.length) second =
      memcpy buffer used (first ++ second) := by
  have front : (buffer.take used ++ first).length = used + first.length := by
    rw [List.length_append, List.length_take, min_eq_left inside]
  unfold memcpy
  rw [List.take_left' front, List.drop_append, front, List.drop_eq_nil_of_le (by omega),
    List.nil_append, Nat.add_sub_cancel_left, List.drop_drop, List.length_append]
  simp only [List.append_assoc, Nat.add_assoc]

theorem memcpy_length {buffer bytes : List UInt8} {used : Nat}
    (fits : used + bytes.length ≤ buffer.length) : (memcpy buffer used bytes).length = buffer.length := by
  simp only [memcpy, List.length_append, List.length_take, List.length_drop]
  omega

theorem IsRecord.sized (record : IsRecord text f rest) : f.Sized := by
  obtain ⟨_,_,_,_,_,sized,_⟩ := record
  exact sized

theorem IsRecord.copies (record : IsRecord text f rest) (there : s.cptr = some (text ++ m.beyond))
    (type : f.type = 0) (fits : s.used + f.data.length ≤ size s.segment) :
    turn m s = .goesOn (s.copied (rest ++ m.beyond) f) := by
  obtain ⟨reads,_⟩ := record.reads there
  have bytes := record_data record.sized s.record
  have count : (f.record s.record).length = f.data.length := record.sized.count.symm
  have inside : (m.base s.segment + s.used + f.data.length) % 2 ^ 32 ≤
      m.base s.segment + size s.segment := by
    have := m.mapped s.segment
    omega
  have turned := reads.turn
  simp only [dispatch, show (f.record s.record).type = 0 from type, bytes] at turned
  rw [count, if_neg (Nat.not_lt.mpr inside), if_neg (Nat.not_lt.mpr fits)] at turned
  exact turned

theorem IsRecord.selects (record : IsRecord text f rest) (there : s.cptr = some (text ++ m.beyond))
    (type : f.type = 4) {segment : Segment}
    (selects : segmentOf (f.record s.record).extended = some segment) :
    turn m s = .goesOn (s.selected (rest ++ m.beyond) f segment) := by
  obtain ⟨reads,_⟩ := record.reads there
  have turned := reads.turn
  simp only [dispatch, show (f.record s.record).type = 4 from type, selects] at turned
  exact turned

theorem IsRecord.ends (record : IsRecord text f rest) (there : s.cptr = some (text ++ m.beyond))
    (type : f.type = 1) : parseLoop m s = some (0, s.buffers) := by
  obtain ⟨reads,_⟩ := record.reads there
  have last : Ends m s := ⟨_,_,reads,type⟩
  exact parseLoop_returns last.turn

theorem segmentOf_program (extended : Nat) : segmentOf extended ≠ some .program := by
  unfold segmentOf
  split_ifs <;> simp

theorem IsRecord.accepted {filled : Buffers} (record : IsRecord text f rest)
    (there : s.cptr = some (text ++ m.beyond)) (parsed : parseLoop m s = some (0, filled)) :
    (f.type = 1 ∧ filled = s.buffers) ∨
    (f.type = 0 ∧ s.used + f.data.length ≤ size s.segment ∧
      parseLoop m (s.copied (rest ++ m.beyond) f) = some (0, filled)) ∨
    (f.type = 4 ∧ ∃ segment, segment ≠ .program ∧
      parseLoop m (s.selected (rest ++ m.beyond) f segment) = some (0, filled)) := by
  by_cases last : f.type = 1
  · exact .inl ⟨last,(Prod.mk.inj (Option.some.inj (parsed.symm.trans (record.ends there last)))).2⟩
  · right
    obtain ⟨reads,_⟩ := record.reads there
    cases next : turn m s with
    | fault => cases (parseLoop_fault next).symm.trans parsed
    | returns value buffers =>
      cases (parseLoop_returns next).symm.trans parsed
      rcases turn_cases m s with faults | ⟨_,_,reads',type⟩ | refused | ⟨t,goes⟩
      · cases faults.turn.symm.trans next
      · cases (reads.unique reads').2
        exact absurd type last
      · cases refused.symm.trans next
      · cases goes.symm.trans next
    | goesOn t =>
      rw [parseLoop_goesOn next] at parsed
      obtain ⟨ptr,there',inText,read,kind⟩ := turn_goesOn next
      obtain ⟨_,same⟩ := reads.unique ⟨ptr,there',inText,read⟩
      rw [← same] at kind
      rcases kind with ⟨type,fits,_,_⟩ | ⟨type,selects,_⟩
      · have room : s.used + f.data.length ≤ size s.segment := by
          rw [record.sized.count]
          exact fits
        cases next.symm.trans (record.copies there type room)
        exact .inl ⟨type,room,parsed⟩
      · have selected := Turn.goesOn.inj (next.symm.trans (record.selects there type selects))
        refine .inr ⟨type,t.segment,fun program => segmentOf_program _ (program ▸ selects),?_⟩
        rw [← selected]
        exact parsed

theorem Written.copied (written : Written (fs ++ more) text)
    (there : s.cptr = some (text ++ m.beyond)) (types : ∀ f ∈ fs, f.type = 0)
    (whole : (s.buffers s.segment).length = size s.segment)
    (fits : s.used + (given fs).length ≤ size s.segment) :
    ∃ t rest, parseLoop m s = parseLoop m t ∧ t.cptr = some (rest ++ m.beyond) ∧ Written more rest ∧
      t.buffers = Function.update s.buffers s.segment
        (memcpy (s.buffers s.segment) s.used (given fs)) := by
  induction fs generalizing s text with
  | nil =>
    refine ⟨s,text,rfl,there,written,?_⟩
    rw [given, List.flatMap_nil, memcpy_nil, Function.update_eq_self]
  | cons f fs ih =>
    cases written with
    | @cons _ _ _ behind record later =>
      obtain ⟨first,others⟩ := List.forall_mem_cons.mp types
      have split : given (f :: fs) = f.given ++ given fs := List.flatMap_cons
      have count : f.given.length = f.data.length := List.length_map _
      rw [split, List.length_append, count] at fits
      have next := record.copies there first (by omega)
      have room : s.used + f.given.length ≤ (s.buffers s.segment).length := by omega
      have keeps : ((s.copied (behind ++ m.beyond) f).buffers s.segment).length = size s.segment := by
        simp only [Loop.copied, Function.update_self, memcpy_length room, whole]
      have left : s.used + f.data.length + (given fs).length ≤ size s.segment := by omega
      obtain ⟨t,rest,parsed,pointer,written,filled⟩ :=
        ih (s := s.copied (behind ++ m.beyond) f) later rfl others keeps left
      refine ⟨t,rest,(parseLoop_goesOn next).trans parsed,pointer,written,?_⟩
      rw [filled, split]
      simp only [Loop.copied, Function.update_self, Function.update_idem]
      rw [← count, memcpy_memcpy (by omega)]

end

/-- A firmware: a program, a security block and a checksum, none of them too large. -/
structure Image where
  bytes : Segment → List UInt8
  fits : ∀ segment, (bytes segment).length ≤ size segment
  whole : (bytes .chksum).length = size .chksum

def Image.buffers (image : Image) : Buffers := fun segment =>
  image.bytes segment ++ List.replicate (size segment - (image.bytes segment).length) 0

def recordOf (address type : Nat) (data : List Nat) : Fields :=
  let high := address / 256 % 256
  let low := address % 256
  { length := data.length, high := high, low := low, type := type, data := data
    last := (256 - (data.length + high + low + type + data.sum) % 256) % 256 }

def dataRecords : Nat → List (List UInt8) → List Fields
  | _, [] => []
  | address, piece :: pieces =>
      recordOf address 0 (piece.map (·.toNat)) :: dataRecords (address + piece.length) pieces

def fileOf (address : Segment → Nat) (pieces : Segment → List (List UInt8)) : List Fields :=
  dataRecords (address .program) (pieces .program) ++
    recordOf 0 4 [0x00, 0x10] :: (dataRecords (address .secure) (pieces .secure) ++
    recordOf 0 4 [0x00, 0x20] :: (dataRecords (address .chksum) (pieces .chksum) ++
    [recordOf 0 1 []]))

theorem given_dataRecords (address : Nat) (pieces : List (List UInt8)) :
    given (dataRecords address pieces) = pieces.flatten := by
  induction pieces generalizing address with
  | nil => rfl
  | cons piece pieces ih =>
    have first : (recordOf address 0 (piece.map (·.toNat))).given = piece := by
      simp only [Fields.given, recordOf, List.map_map, Function.comp_def, UInt8.ofNat_toNat,
        List.map_id']
    rw [dataRecords, given, List.flatMap_cons, first, ← given, ih, List.flatten_cons]

theorem dataRecords_type (address : Nat) (pieces : List (List UInt8)) :
    ∀ f ∈ dataRecords address pieces, f.type = 0 := by
  induction pieces generalizing address with
  | nil => simp [dataRecords]
  | cons piece pieces ih => exact List.forall_mem_cons.mpr ⟨rfl,ih _⟩

theorem memcpy_zeros {n : Nat} (bytes : List UInt8) :
    memcpy (List.replicate n 0) 0 bytes = bytes ++ List.replicate (n - bytes.length) 0 := by
  simp [memcpy]

section
variable {m : Surroundings} {s : Loop} {text : List UInt8} {more : List Fields}

theorem Written.segment_filled {address : Nat} {pieces : List (List UInt8)}
    (written : Written (dataRecords address pieces ++ more) text)
    (there : s.cptr = some (text ++ m.beyond)) (fresh : s.used = 0)
    (zeros : s.buffers s.segment = List.replicate (size s.segment) 0)
    (fits : pieces.flatten.length ≤ size s.segment) :
    ∃ t rest, parseLoop m s = parseLoop m t ∧ t.cptr = some (rest ++ m.beyond) ∧ Written more rest ∧
      t.buffers = Function.update s.buffers s.segment
        (pieces.flatten ++ List.replicate (size s.segment - pieces.flatten.length) 0) := by
  obtain ⟨t,rest,parsed,pointer,later,filled⟩ := written.copied there (dataRecords_type _ _)
    (by rw [zeros, List.length_replicate]) (by rw [given_dataRecords, fresh, Nat.zero_add]; exact fits)
  rw [given_dataRecords, zeros, fresh, memcpy_zeros] at filled
  exact ⟨t,rest,parsed,pointer,later,filled⟩

theorem Written.segment_selected {low address : Nat} {pieces : List (List UInt8)}
    (segment : Segment)
    (written : Written (recordOf 0 4 [0x00, low] :: (dataRecords address pieces ++ more)) text)
    (there : s.cptr = some (text ++ m.beyond))
    (selects : segmentOf (0 <<< 8 ||| (UInt8.ofNat low).toNat) = some segment)
    (zeros : s.buffers segment = List.replicate (size segment) 0)
    (fits : pieces.flatten.length ≤ size segment) :
    ∃ t rest, parseLoop m s = parseLoop m t ∧ t.cptr = some (rest ++ m.beyond) ∧ Written more rest ∧
      t.buffers = Function.update s.buffers segment
        (pieces.flatten ++ List.replicate (size segment - pieces.flatten.length) 0) := by
  cases written with
  | @cons f _ _ rest record later =>
    have next := record.selects there rfl selects
    obtain ⟨t,behind,parsed,pointer,written,filled⟩ :=
      later.segment_filled (s := s.selected (rest ++ m.beyond) _ segment) rfl rfl zeros fits
    exact ⟨t,behind,(parseLoop_goesOn next).trans parsed,pointer,written,filled⟩

end

def hexDigit (n : Nat) : UInt8 := if n < 10 then UInt8.ofNat (48 + n) else UInt8.ofNat (55 + n)

def spell (bytes : List Nat) : List UInt8 :=
  bytes.flatMap fun v => [hexDigit (v / 16), hexDigit (v % 16)]

def print (fs : List Fields) : List UInt8 := fs.flatMap fun f => 58 :: (spell f.bytes ++ [10])

structure Fields.Proper (f : Fields) : Prop where
  sized : f.Sized
  sum : f.bytes.sum % 256 = 0
  small : ∀ v ∈ f.bytes, v < 256

theorem hexDigit_value : ∀ n < 16, isxdigit (hexDigit n) ∧ digitValue (hexDigit n) = n := by
  decide

theorem spells_spell {bytes : List Nat} (small : ∀ v ∈ bytes, v < 256) :
    Spells (spell bytes) bytes := by
  induction bytes with
  | nil => exact .nil
  | cons v bytes ih =>
    obtain ⟨first,others⟩ := List.forall_mem_cons.mp small
    obtain ⟨high,highValue⟩ := hexDigit_value (v / 16) (by omega)
    obtain ⟨low,lowValue⟩ := hexDigit_value (v % 16) (by omega)
    have value : hexPair (hexDigit (v / 16)) (hexDigit (v % 16)) = v := by
      rw [hexPair, highValue, lowValue]
      omega
    have spells := Spells.pair high low (ih others)
    rw [value] at spells
    exact spells

theorem Written.space {fs : List Fields} {text : List UInt8} {c : UInt8}
    (written : Written fs text) (space : isspace c) : Written fs (c :: text) := by
  cases written with
  | nil => exact .nil
  | cons record later =>
    obtain ⟨blank,digits,rfl,spaces,rest⟩ := record
    exact .cons ⟨c :: blank,digits,rfl,List.forall_mem_cons.mpr ⟨space,spaces⟩,rest⟩ later

theorem written_print {fs : List Fields} (proper : ∀ f ∈ fs, f.Proper) : Written fs (print fs) := by
  induction fs with
  | nil => exact .nil
  | cons f fs ih =>
    obtain ⟨first,others⟩ := List.forall_mem_cons.mp proper
    refine .cons ⟨[],spell f.bytes,?_,by simp,spells_spell first.small,first.sized,first.sum⟩
      ((ih others).space (c := 10) (by decide))
    simp [print]

theorem recordOf_proper {address type : Nat} {data : List Nat} (short : data.length ≤ 64)
    (known : type < 256) (small : ∀ v ∈ data, v < 256) : (recordOf address type data).Proper := by
  refine ⟨⟨short,rfl⟩,?_,?_⟩
  · simp only [recordOf, Fields.bytes, List.sum_cons, List.sum_append, List.sum_nil]
    omega
  · simp only [recordOf, Fields.bytes, List.forall_mem_cons, List.forall_mem_append]
    exact ⟨by omega,by omega,by omega,known,small,by omega,by simp⟩

theorem dataRecords_proper {address : Nat} {pieces : List (List UInt8)}
    (short : ∀ piece ∈ pieces, piece.length ≤ 64) : ∀ f ∈ dataRecords address pieces, f.Proper := by
  induction pieces generalizing address with
  | nil => simp [dataRecords]
  | cons piece pieces ih =>
    obtain ⟨first,others⟩ := List.forall_mem_cons.mp short
    refine List.forall_mem_cons.mpr ⟨recordOf_proper ?_ (by decide) ?_,ih others⟩
    · rw [List.length_map]
      exact first
    · intro v member
      obtain ⟨c,_,rfl⟩ := List.mem_map.mp member
      exact c.toNat_lt

theorem written_fileOf {address : Segment → Nat} {pieces : Segment → List (List UInt8)}
    (short : ∀ segment, ∀ piece ∈ pieces segment, piece.length ≤ 64) :
    Written (fileOf address pieces) (print (fileOf address pieces)) := by
  apply written_print
  simp only [fileOf, List.forall_mem_append, List.forall_mem_cons]
  exact ⟨dataRecords_proper (short .program),recordOf_proper (by decide) (by decide) (by decide),
    dataRecords_proper (short .secure),recordOf_proper (by decide) (by decide) (by decide),
    dataRecords_proper (short .chksum),recordOf_proper (by decide) (by decide) (by decide),by simp⟩

/-- A firmware comes back from its file, however it is cut into records. -/
theorem round_trip (m : Surroundings) (record : Record) (image : Image) (address : Segment → Nat)
    (pieces : Segment → List (List UInt8)) (text : List UInt8)
    (cut : ∀ segment, (pieces segment).flatten = image.bytes segment)
    (written : Written (fileOf address pieces) text) :
    intelHexParseFirmware m text record kzalloc = some (0, image.buffers) := by
  have fits (segment : Segment) : (pieces segment).flatten.length ≤ size segment := by
    rw [cut]
    exact image.fits segment
  obtain ⟨s1,text1,parsed1,there1,written1,filled1⟩ :=
    written.segment_filled (s := start m text record kzalloc) rfl rfl rfl (fits .program)
  obtain ⟨s2,text2,parsed2,there2,written2,filled2⟩ :=
    written1.segment_selected .secure there1 rfl (by rw [filled1]; rfl) (fits .secure)
  obtain ⟨s3,text3,parsed3,there3,written3,filled3⟩ :=
    written2.segment_selected .chksum there2 rfl (by rw [filled2, filled1]; rfl) (fits .chksum)
  cases written3 with
  | cons last _ =>
    have parsed := ((parsed1.trans parsed2).trans parsed3).trans (last.ends there3 rfl)
    have filled : s3.buffers = image.buffers := by
      rw [filled3, filled2, filled1]
      funext segment
      cases segment <;> simp [Image.buffers, start, cut]
    rw [filled] at parsed
    exact parsed

def sample : Image where
  bytes := fun
    | .program => [1, 2, 3]
    | .secure => [255]
    | .chksum => [0x12, 0x34]
  fits := by intro segment; cases segment <;> decide
  whole := rfl

def samplePieces : Segment → List (List UInt8)
  | .program => [[1], [2, 3]]
  | .secure => [[255]]
  | .chksum => [[0x12, 0x34]]

theorem sample_round_trip : intelHexParseFirmware quiet (print (fileOf (fun _ => 0) samplePieces))
    unset kzalloc = some (0, sample.buffers) := by
  apply round_trip quiet unset sample (fun _ => 0) samplePieces
  · intro segment
    cases segment <;> rfl
  · apply written_fileOf
    intro segment
    cases segment <;> decide

def Fields.address (f : Fields) : Nat := f.high <<< 8 ||| f.low

def Fields.Covers (f : Fields) (address : Nat) : Prop :=
  f.address ≤ address ∧ address < f.address + f.data.length

/-- Records of the format that a record of type 1 ends. -/
structure File (fs : List Fields) (text : List UInt8) : Prop where
  written : ∃ last, last.type = 1 ∧ Written (fs ++ [last]) text
  inside : ∀ f ∈ fs, f.type ≠ 1

def inProgram (fs : List Fields) : List Fields := fs.takeWhile (·.type == 0)

/-- The place of a byte of data in the file: the records of the program segment up to its own,
    its own, its place there, and the records behind, none of which covers its address. -/
structure Uncovered (fs before : List Fields) (f : Fields) (k : Nat) : Prop where
  own : k < f.data.length
  later : ∃ after, inProgram fs = before ++ f :: after ∧ ∀ g ∈ after, ¬ g.Covers (f.address + k)

def LandsAtAddress (fs : List Fields) (program : List UInt8) : Prop :=
  ∀ before f k, Uncovered fs before f k → program[f.address + k]? = f.given[k]?

def inOrder (fs : List Fields) : List UInt8 :=
  given (inProgram fs) ++ List.replicate (size .program - (given (inProgram fs)).length) 0

/-- Counted by its address, a byte is where it is when counted by the data before it, or one
    that is the same is there. -/
def InPlace (fs : List Fields) : Prop :=
  ∀ before f k, Uncovered fs before f k →
    (inOrder fs)[f.address + k]? = (inOrder fs)[(given before).length + k]?

section
variable {m : Surroundings} {s : Loop} {text : List UInt8} {fs : List Fields} {filled : Buffers}

theorem Written.program_kept {last : Fields} (ends : last.type = 1)
    (written : Written (fs ++ [last]) text) (there : s.cptr = some (text ++ m.beyond))
    (other : s.segment ≠ .program) (parsed : parseLoop m s = some (0, filled)) :
    filled .program = s.buffers .program := by
  induction fs generalizing s text with
  | nil =>
    cases written with
    | cons record later =>
      cases parsed.symm.trans (record.ends there ends)
      rfl
  | cons f fs ih =>
    cases written with
    | @cons _ _ _ rest record later =>
      rcases record.accepted there parsed with ⟨_,rfl⟩ | ⟨_,_,goes⟩ | ⟨_,segment,selected,goes⟩
      · rfl
      · have kept := ih (s := s.copied (rest ++ m.beyond) f) later rfl other goes
        rw [kept]
        exact Function.update_of_ne other.symm _ _
      · exact ih (s := s.selected (rest ++ m.beyond) f segment) later rfl selected goes

theorem Written.program_filled {last : Fields} (ends : last.type = 1)
    (inside : ∀ f ∈ fs, f.type ≠ 1) (written : Written (fs ++ [last]) text)
    (there : s.cptr = some (text ++ m.beyond)) (program : s.segment = .program)
    (whole : (s.buffers .program).length = size .program) (room : s.used ≤ size .program)
    (parsed : parseLoop m s = some (0, filled)) :
    filled .program = memcpy (s.buffers .program) s.used (given (inProgram fs)) := by
  induction fs generalizing s text with
  | nil =>
    cases written with
    | cons record later =>
      cases parsed.symm.trans (record.ends there ends)
      exact (memcpy_nil _ _).symm
  | cons f fs ih =>
    cases written with
    | @cons _ _ _ rest record later =>
      obtain ⟨first,others⟩ := List.forall_mem_cons.mp inside
      rcases record.accepted there parsed with ⟨type,_⟩ | ⟨type,fits,goes⟩ |
        ⟨type,segment,selected,goes⟩
      · exact absurd type first
      · have count : f.given.length = f.data.length := List.length_map _
        rw [program] at fits
        have copied : (s.copied (rest ++ m.beyond) f).buffers .program =
            memcpy (s.buffers .program) s.used f.given := by
          simp [Loop.copied, program]
        have filled := ih (s := s.copied (rest ++ m.beyond) f) others later rfl program
          (by rw [copied, memcpy_length (by omega), whole]) fits goes
        have split : given (inProgram (f :: fs)) = f.given ++ given (inProgram fs) := by
          rw [inProgram, List.takeWhile_cons_of_pos (by simp [type]), given, List.flatMap_cons]
          rfl
        rw [filled, copied, split, ← memcpy_memcpy (by omega), count]
        rfl
      · have kept := later.program_kept ends rfl selected goes
        have none : inProgram (f :: fs) = [] := by
          rw [inProgram, List.takeWhile_cons_of_neg (by simp [type])]
        rw [kept, none, given, List.flatMap_nil, memcpy_nil]
        rfl

theorem File.program_filled {record : Record} (file : File fs text)
    (accepted : intelHexParseFirmware m text record kzalloc = some (0, filled)) :
    filled .program = inOrder fs := by
  obtain ⟨last,ends,written⟩ := file.written
  have filled := written.program_filled (s := start m text record kzalloc) ends file.inside rfl rfl
    (List.length_replicate ..) (Nat.zero_le _) accepted
  rw [filled]
  exact memcpy_zeros _

theorem Uncovered.inOrder {before : List Fields} {f : Fields} {k : Nat}
    (uncovered : Uncovered fs before f k) : (inOrder fs)[(given before).length + k]? = f.given[k]? := by
  obtain ⟨own,after,split,_⟩ := uncovered
  have count : f.given.length = f.data.length := List.length_map _
  have whole : given (inProgram fs) = given before ++ (f.given ++ given after) := by
    rw [split]
    simp [given]
  rw [IntelHex.inOrder, whole, List.append_assoc, List.getElem?_append_right (by omega),
    Nat.add_sub_cancel_left, List.append_assoc, List.getElem?_append_left (by omega)]

end

theorem recordOf_address {address type : Nat} {data : List Nat} (small : address < 2 ^ 16) :
    (recordOf address type data).address = address := by
  have low : address % 256 < 2 ^ 8 := Nat.mod_lt _ (by decide)
  have joined := Nat.shiftLeft_add_eq_or_of_lt low (address / 256 % 256)
  simp only [Fields.address, recordOf]
  omega

theorem dataRecords_address {first : Nat} {pieces : List (List UInt8)} {before after : List Fields}
    {f : Fields} (split : dataRecords first pieces = before ++ f :: after)
    (small : first + pieces.flatten.length < 2 ^ 16) : f.address = first + (given before).length := by
  induction before generalizing first pieces with
  | nil =>
    cases pieces with
    | nil => contradiction
    | cons piece pieces =>
      cases (List.cons.inj split).1
      rw [recordOf_address (by omega)]
      rfl
  | cons g before ih =>
    cases pieces with
    | nil => contradiction
    | cons piece pieces =>
      obtain ⟨rfl,rest⟩ := List.cons.inj split
      rw [List.flatten_cons, List.length_append] at small
      have count : (recordOf first 0 (piece.map (·.toNat))).given.length = piece.length := by
        simp [Fields.given, recordOf]
      rw [ih rest (by omega), given, given, List.flatMap_cons, List.length_append, count,
        Nat.add_assoc]

theorem inProgram_data {fs : List Fields} (types : ∀ f ∈ fs, f.type = 0) : inProgram fs = fs := by
  apply List.takeWhile_eq_self_iff.mpr
  intro f member
  rw [types f member]
  rfl

theorem inPlace_dataRecords {pieces : List (List UInt8)}
    (fits : pieces.flatten.length ≤ size .program) : InPlace (dataRecords 0 pieces) := by
  rintro before f k ⟨own,after,split,_⟩
  have bound : size .program < 2 ^ 16 := by decide
  rw [inProgram_data (dataRecords_type 0 pieces)] at split
  rw [dataRecords_address split (by omega), Nat.zero_add]

theorem File.accepted (m : Surroundings) (record : Record) {fs : List Fields} {text : List UInt8}
    (file : File fs text) (types : ∀ f ∈ fs, f.type = 0)
    (fits : (given fs).length ≤ size .program) :
    ∃ filled, intelHexParseFirmware m text record kzalloc = some (0, filled) := by
  obtain ⟨last,ends,written⟩ := file.written
  obtain ⟨t,rest,parsed,there,written,_⟩ := written.copied (s := start m text record kzalloc) rfl types
    (List.length_replicate ..) ((Nat.zero_add _).trans_le fits)
  cases written with
  | cons record later => exact ⟨_,parsed.trans (record.ends there ends)⟩

theorem file_print {fs : List Fields} (types : ∀ f ∈ fs, f.type = 0) (proper : ∀ f ∈ fs, f.Proper) :
    File fs (print (fs ++ [recordOf 0 1 []])) := by
  refine ⟨⟨_,rfl,written_print ?_⟩,?_⟩
  · refine List.forall_mem_append.mpr ⟨proper,?_⟩
    simpa using recordOf_proper (by decide) (by decide) (by decide)
  · intro f member ends
    rw [types f member] at ends
    contradiction

/-- In a file that is accepted, data lands at its address exactly when it is in place by the
    order of the records. -/
theorem landsAtAddress_iff (m : Surroundings) (record : Record) {fs : List Fields}
    {text : List UInt8} {filled : Buffers} (file : File fs text)
    (accepted : intelHexParseFirmware m text record kzalloc = some (0, filled)) :
    LandsAtAddress fs (filled .program) ↔ InPlace fs := by
  rw [file.program_filled accepted]
  constructor
  · intro lands before f k uncovered
    exact (lands before f k uncovered).trans uncovered.inOrder.symm
  · intro places before f k uncovered
    exact (places before f k uncovered).trans uncovered.inOrder

theorem consecutive_land : ∃ filled,
    intelHexParseFirmware quiet (print (dataRecords 0 [[1], [2, 3]] ++ [recordOf 0 1 []])) unset
      kzalloc = some (0, filled) ∧
    LandsAtAddress (dataRecords 0 [[1], [2, 3]]) (filled .program) := by
  have types := dataRecords_type 0 [[1], [2, 3]]
  have file := file_print types (dataRecords_proper (by decide))
  obtain ⟨filled,accepted⟩ := file.accepted quiet unset types (by decide)
  exact ⟨filled,accepted,(landsAtAddress_iff quiet unset file accepted).mpr
    (inPlace_dataRecords (by decide))⟩

/-- The one byte of data at the address 1 is put in front of the program. -/
theorem address_ignored : File [recordOf 1 0 [7]] (print [recordOf 1 0 [7], recordOf 0 1 []]) ∧
    ∃ filled, intelHexParseFirmware quiet (print [recordOf 1 0 [7], recordOf 0 1 []]) unset kzalloc =
      some (0, filled) ∧ ¬ LandsAtAddress [recordOf 1 0 [7]] (filled .program) := by
  have types : ∀ f ∈ [recordOf 1 0 [7]], f.type = 0 := by simp [recordOf]
  have file := file_print types (by simpa using recordOf_proper (by decide) (by decide) (by decide))
  obtain ⟨filled,accepted⟩ := file.accepted quiet unset types (by decide)
  refine ⟨file,filled,accepted,?_⟩
  intro lands
  have seven := lands [] (recordOf 1 0 [7]) 0 ⟨by decide,[],rfl,by simp⟩
  rw [file.program_filled accepted] at seven
  contradiction

end IntelHex
