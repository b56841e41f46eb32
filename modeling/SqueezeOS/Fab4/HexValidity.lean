import SqueezeOS.Fab4.IntelHex
import SqueezeOS.StepRuns

/- What a valid firmware text is, and which texts that are not valid are refused before the
   controller is erased. -/
namespace IntelHex
open KernelStrings StepRuns

def IsRecord (text : List UInt8) (f : Fields) (rest : List UInt8) : Prop :=
  ∃ blank digits, text = blank ++ 58 :: (digits ++ rest) ∧ (∀ c ∈ blank, isspace c) ∧
    Spells digits f.bytes ∧ f.Sized ∧ f.bytes.sum % 256 = 0

/-- Records up to one of type 1, with the data of each segment fitting its buffer. A segment is
    selected by the first two bytes of data, be they given or left from a record before. -/
inductive Valid : Segment → Nat → Record → List UInt8 → Prop where
  | last {segment : Segment} {used : Nat} {old : Record} {text rest : List UInt8} {f : Fields}
      (record : IsRecord text f rest) (type : f.type = 1) : Valid segment used old text
  | data {segment : Segment} {used : Nat} {old : Record} {text rest : List UInt8} {f : Fields}
      (record : IsRecord text f rest) (type : f.type = 0) (fits : used + f.length ≤ size segment)
      (later : Valid segment (used + f.length) (f.record old) rest) : Valid segment used old text
  | extended {segment next : Segment} {used : Nat} {old : Record} {text rest : List UInt8}
      {f : Fields} (record : IsRecord text f rest) (type : f.type = 4)
      (selects : segmentOf (f.record old).extended = some next)
      (later : Valid next 0 (f.record old) rest) : Valid segment used old text

/-- Refused with -1, so that the controller is not erased, whatever it answers. -/
structure Refused (m : Surroundings) (text : List UInt8) (record : Record) : Prop where
  returned : ∃ buffers, intelHexParseFirmware m text record kzalloc = some (-1, buffers)
  kept : ∀ siliconId chksum, ∃ phases,
    progFirmware m (some text) record siliconId chksum = some phases ∧ .bulkErase ∉ phases

section
variable (m : Surroundings)

def Reads (s : Loop) (next : Option (List UInt8)) (record : Record) : Prop :=
  ∃ ptr, s.cptr = some ptr ∧ m.beyond.length < ptr.length ∧
    parseRecord m.stale ptr s.record = some (next, record)

/-- Either there is no end to the record in mapped memory, or it has more than 64 bytes of data,
    or it is one of data whose end wraps around the address space, into the buffer. -/
def Faults (s : Loop) : Prop :=
  (∃ ptr, s.cptr = some ptr ∧ m.beyond.length < ptr.length ∧
    parseRecord m.stale ptr s.record = none) ∨
  ∃ next record, Reads m s next record ∧ record.type = 0 ∧
    size s.segment < s.used + record.length ∧
    (m.base s.segment + s.used + record.length) % 2 ^ 32 ≤ m.base s.segment + size s.segment

def Ends (s : Loop) : Prop := ∃ next record, Reads m s next record ∧ record.type = 1

def Spelled (s : Loop) : Prop :=
  ∃ next record ptr digits rest, Reads m s next record ∧ s.cptr = some ptr ∧
    ptr.dropWhile isspace = 58 :: (digits ++ rest) ∧ digits.length = 2 * (record.length + 5) ∧
    (∀ c ∈ digits, isxdigit c) ∧ m.beyond.length ≤ rest.length

def Summed (s : Loop) : Prop := ∃ rest record, Reads m s (some rest) record

def go (s : Loop) (_ : Unit) : Option Loop :=
  match turn m s with
  | .goesOn t => some t
  | _ => none

/-- No record that is read faults; and when the records come to one of type 1, all of them up
    to it are spelled properly and its bytes sum to 0. -/
def Sound (text : List UInt8) (record : Record) : Prop :=
  ∀ visited t, Run (go m) (start m text record kzalloc) visited t → ¬ Faults m t ∧
    (Ends m t → (∀ p ∈ visited, Spelled m p.1) ∧ Spelled m t ∧ Summed m t)

end

section
variable {m : Surroundings} {s t : Loop}

theorem Reads.unique {next next' : Option (List UInt8)} {record record' : Record}
    (one : Reads m s next record) (two : Reads m s next' record') :
    next = next' ∧ record = record' := by
  obtain ⟨ptr,there,_,read⟩ := one
  obtain ⟨ptr',there',_,read'⟩ := two
  cases there.symm.trans there'
  cases read.symm.trans read'
  exact ⟨rfl,rfl⟩

theorem Reads.turn {next : Option (List UInt8)} {record : Record} (reads : Reads m s next record) :
    turn m s = dispatch m s next record := by
  obtain ⟨ptr,there,inText,read⟩ := reads
  simp only [IntelHex.turn, there, inText, if_true, read]

theorem Faults.turn (faults : Faults m s) : turn m s = .fault := by
  rcases faults with ⟨ptr,there,inText,read⟩ | ⟨next,record,reads,type,long,wraps⟩
  · simp only [IntelHex.turn, there, inText, if_true, read]
  · rw [reads.turn]
    unfold dispatch
    rw [type]
    simp only [Nat.not_lt.mpr wraps, if_false, if_pos long]

theorem Ends.turn (ends : Ends m s) : turn m s = .returns 0 s.buffers := by
  obtain ⟨next,record,reads,type⟩ := ends
  rw [reads.turn]
  simp only [dispatch, type]

theorem turn_cases (m : Surroundings) (s : Loop) : Faults m s ∨ Ends m s ∨
    turn m s = .returns (-1) s.buffers ∨ ∃ t, turn m s = .goesOn t := by
  cases there : s.cptr with
  | none => exact .inr (.inr (.inl (by simp only [IntelHex.turn, there])))
  | some ptr =>
    by_cases inText : m.beyond.length < ptr.length
    · cases read : parseRecord m.stale ptr s.record with
      | none => exact .inl (.inl ⟨ptr,there,inText,read⟩)
      | some result =>
        obtain ⟨next,record⟩ := result
        have reads : Reads m s next record := ⟨ptr,there,inText,read⟩
        rw [reads.turn]
        unfold dispatch
        split
        · rename_i data
          dsimp only
          split
          · exact .inr (.inr (.inl rfl))
          · rename_i inside
            split
            · rename_i long
              exact .inl (.inr ⟨next,record,reads,data,long,Nat.not_lt.mp inside⟩)
            · exact .inr (.inr (.inr ⟨_,rfl⟩))
        · rename_i last
          exact .inr (.inl ⟨next,record,reads,last⟩)
        · split
          · exact .inr (.inr (.inr ⟨_,rfl⟩))
          · exact .inr (.inr (.inl rfl))
        · exact .inr (.inr (.inl rfl))
    · exact .inr (.inr (.inl (by simp only [IntelHex.turn, there, inText, if_false])))

theorem go_some (next : go m s () = some t) : turn m s = .goesOn t := by
  unfold go at next
  split at next
  · rename_i same
    cases Option.some.inj next
    exact same
  · contradiction

theorem go_goesOn (next : turn m s = .goesOn t) : go m s () = some t := by
  unfold go
  rw [next]

theorem parseLoop_eq (m : Surroundings) (s : Loop) : parseLoop m s = match turn m s with
    | .fault => none
    | .returns value buffers => some (value, buffers)
    | .goesOn t => parseLoop m t := by
  rw [parseLoop]
  split
  · rename_i fault
    rw [fault]
  · rename_i returns
    rw [returns]
  · rename_i next
    rw [next]

theorem parseLoop_goesOn (next : turn m s = .goesOn t) : parseLoop m s = parseLoop m t := by
  rw [parseLoop_eq, next]

theorem parseLoop_returns {value : Int} {buffers : Buffers}
    (returns : turn m s = .returns value buffers) : parseLoop m s = some (value, buffers) := by
  rw [parseLoop_eq, returns]

theorem parseLoop_fault (fault : turn m s = .fault) : parseLoop m s = none := by
  rw [parseLoop_eq, fault]

theorem parseLoop_run {visited : List (Loop × Unit)} (run : Run (go m) s visited t) :
    parseLoop m s = parseLoop m t := by
  induction run with
  | done => rfl
  | step next rest ih => exact (parseLoop_goesOn (go_some next)).trans ih

theorem parseLoop_cases (m : Surroundings) (s : Loop) : ∃ visited t, Run (go m) s visited t ∧
    (Faults m t ∨ Ends m t ∨ turn m t = .returns (-1) t.buffers) := by
  induction left : s.left using Nat.strongRecOn generalizing s with
  | ind n ih =>
    rcases turn_cases m s with faults | ends | refused | ⟨t,next⟩
    · exact ⟨[],s,.done,.inl faults⟩
    · exact ⟨[],s,.done,.inr (.inl ends)⟩
    · exact ⟨[],s,.done,.inr (.inr refused)⟩
    · obtain ⟨visited,u,run,stops⟩ := ih t.left (left ▸ turn_left next) t rfl
      exact ⟨_,u,.step (go_goesOn next) run,stops⟩

theorem IsRecord.reads {text rest : List UInt8} {f : Fields} (record : IsRecord text f rest)
    (there : s.cptr = some (text ++ m.beyond)) :
    Reads m s (some (rest ++ m.beyond)) (f.record s.record) ∧ Spelled m s := by
  obtain ⟨blank,digits,rfl,spaces,spells,sized,sum⟩ := record
  have found : (blank ++ 58 :: (digits ++ rest) ++ m.beyond).dropWhile isspace =
      58 :: (digits ++ (rest ++ m.beyond)) := by
    rw [List.append_assoc, List.dropWhile_append_of_pos spaces, List.cons_append,
      List.dropWhile_cons_of_neg (by decide), List.append_assoc]
  have read : parseRecord m.stale _ s.record = _ := parseRecord_spelled found sized spells
  have next : behind f (rest ++ m.beyond) = some (rest ++ m.beyond) := if_pos sum
  rw [next] at read
  have reads : Reads m s (some (rest ++ m.beyond)) (f.record s.record) := by
    refine ⟨_,there,?_,read⟩
    simp only [List.length_append, List.length_cons]
    omega
  obtain ⟨even,hex⟩ := spells.digits
  refine ⟨reads,some (rest ++ m.beyond),f.record s.record,_,digits,rest ++ m.beyond,reads,there,
    found,?_,hex,?_⟩
  · rw [even]
    simp [Fields.bytes, Fields.record, sized.count]
  · simp

theorem append_split {α : Type} {text beyond front rest : List α}
    (same : text ++ beyond = front ++ rest) (long : beyond.length ≤ rest.length) :
    ∃ inText, rest = inText ++ beyond ∧ text = front ++ inText := by
  rcases List.append_eq_append_iff.mp same with ⟨more,rfl,rfl⟩ | ⟨more,rfl,rfl⟩
  · have empty : more = [] := by
      apply List.eq_nil_of_length_eq_zero
      rw [List.length_append] at long
      omega
    subst empty
    exact ⟨[],rfl,by simp⟩
  · exact ⟨more,rfl,rfl⟩

theorem isRecord_of_reads {text next : List UInt8} {record : Record}
    (there : s.cptr = some (text ++ m.beyond)) (reads : Reads m s (some next) record)
    (spelled : Spelled m s) :
    ∃ f rest, IsRecord text f rest ∧ next = rest ++ m.beyond ∧ record = f.record s.record := by
  obtain ⟨next',record',ptr,digits,rest,reads',there',found,even,hex,inText⟩ := spelled
  obtain ⟨rfl,rfl⟩ := reads.unique reads'
  cases there.symm.trans there'
  obtain ⟨ptr,there',_,read⟩ := reads
  cases there.symm.trans there'
  rcases parseRecord_some read with ⟨null,_⟩ |
    ⟨f,digits',rest',found',sized,even',spells,next,rfl⟩
  · contradiction
  · rw [found] at found'
    obtain ⟨rfl,rfl⟩ := List.append_inj (List.cons.inj found').2 (even.trans even'.symm)
    unfold behind at next
    split at next
    · rename_i sum
      cases Option.some.inj next
      have whole := (List.takeWhile_append_dropWhile (p := isspace)
        (l := text ++ m.beyond)).symm
      rw [found, ← List.cons_append, ← List.append_assoc] at whole
      obtain ⟨more,rfl,front⟩ := append_split whole inText
      exact ⟨f,more,⟨_,digits,front.trans (List.append_assoc _ _ _),
        List.all_eq_true.mp List.all_takeWhile,spells hex,sized,sum⟩,rfl,rfl⟩
    · contradiction

structure Accepted (m : Surroundings) (visited : List (Loop × Unit)) (t : Loop) : Prop where
  ends : Ends m t
  before : ∀ p ∈ visited, Spelled m p.1
  spelled : Spelled m t
  summed : Summed m t

theorem Reads.data {next : Option (List UInt8)} {record : Record} (reads : Reads m s next record)
    (type : record.type = 0) (fits : s.used + record.length ≤ size s.segment) :
    ∃ t, go m s () = some t ∧ t.cptr = next ∧ t.segment = s.segment ∧
      t.used = s.used + record.length ∧ t.record = record := by
  have inside : (m.base s.segment + s.used + record.length) % 2 ^ 32 ≤
      m.base s.segment + size s.segment := by
    have := m.mapped s.segment
    omega
  have turned := reads.turn
  simp only [dispatch, type] at turned
  rw [if_neg (Nat.not_lt.mpr inside), if_neg (Nat.not_lt.mpr fits)] at turned
  exact ⟨_,go_goesOn turned,rfl,rfl,rfl,rfl⟩

theorem Reads.extended {next : Option (List UInt8)} {record : Record} {segment : Segment}
    (reads : Reads m s next record) (type : record.type = 4)
    (selects : segmentOf record.extended = some segment) :
    ∃ t, go m s () = some t ∧ t.cptr = next ∧ t.segment = segment ∧ t.used = 0 ∧
      t.record = record := by
  have turned := reads.turn
  simp only [dispatch, type, selects] at turned
  exact ⟨_,go_goesOn turned,rfl,rfl,rfl,rfl⟩

theorem Accepted.cons {visited : List (Loop × Unit)} (accepted : Accepted m visited t)
    (spelled : Spelled m s) : Accepted m ((s, ()) :: visited) t :=
  ⟨accepted.ends,List.forall_mem_cons.mpr ⟨spelled,accepted.before⟩,accepted.spelled,
    accepted.summed⟩

theorem Valid.run {segment : Segment} {used : Nat} {old : Record} {text : List UInt8}
    (valid : Valid segment used old text) (there : s.cptr = some (text ++ m.beyond))
    (same : s.segment = segment ∧ s.used = used ∧ s.record = old) :
    ∃ visited t, Run (go m) s visited t ∧ Accepted m visited t := by
  induction valid generalizing s with
  | last record type =>
    obtain ⟨reads,spelled⟩ := record.reads there
    exact ⟨[],s,.done,⟨_,_,reads,type⟩,by simp,spelled,_,_,reads⟩
  | data record type fits later ih =>
    obtain ⟨rfl,rfl,rfl⟩ := same
    obtain ⟨reads,spelled⟩ := record.reads there
    obtain ⟨u,goes,next,rest⟩ := reads.data type fits
    obtain ⟨visited,t,run,accepted⟩ := ih next rest
    exact ⟨_,t,.step goes run,accepted.cons spelled⟩
  | extended record type selects later ih =>
    obtain ⟨rfl,rfl,rfl⟩ := same
    obtain ⟨reads,spelled⟩ := record.reads there
    obtain ⟨u,goes,next,rest⟩ := reads.extended type selects
    obtain ⟨visited,t,run,accepted⟩ := ih next rest
    exact ⟨_,t,.step goes run,accepted.cons spelled⟩

theorem Accepted.pointer {visited : List (Loop × Unit)} (accepted : Accepted m visited t)
    (run : Run (go m) s visited t) : ∃ ptr, s.cptr = some ptr := by
  cases run with
  | done =>
    obtain ⟨_,_,⟨ptr,there,_⟩,_⟩ := accepted.ends
    exact ⟨ptr,there⟩
  | step next rest =>
    obtain ⟨ptr,there,_⟩ := turn_goesOn (go_some next)
    exact ⟨ptr,there⟩

theorem valid_of_run {visited : List (Loop × Unit)} (run : Run (go m) s visited t)
    (accepted : Accepted m visited t) {text : List UInt8}
    (there : s.cptr = some (text ++ m.beyond)) : Valid s.segment s.used s.record text := by
  induction run generalizing text with
  | done =>
    obtain ⟨⟨next,record,reads,type⟩,_,spelled,⟨_,_,good⟩⟩ := accepted
    obtain ⟨rfl,rfl⟩ := reads.unique good
    obtain ⟨f,rest,isRecord,_,rfl⟩ := isRecord_of_reads there good spelled
    exact .last isRecord type
  | @step s u t a visited next run ih =>
    obtain ⟨ends,before,spelled,summed⟩ := accepted
    obtain ⟨first,before⟩ := List.forall_mem_cons.mp before
    obtain ⟨ptr,there',inText,read,kind⟩ := turn_goesOn (go_some next)
    have reads : Reads m s u.cptr u.record := ⟨ptr,there',inText,read⟩
    have others : Accepted m visited t := ⟨ends,before,spelled,summed⟩
    obtain ⟨rest,behind⟩ := others.pointer run
    rw [behind] at reads
    obtain ⟨f,more,isRecord,rfl,same⟩ := isRecord_of_reads there reads first
    have later := ih others behind
    rcases kind with ⟨type,fits,segment,used⟩ | ⟨type,selects,used⟩
    · rw [same] at type fits used later
      rw [segment, used] at later
      exact .data isRecord type fits later
    · rw [same] at type selects later
      rw [used] at later
      exact .extended isRecord type selects later

theorem Faults.stops (faults : Faults m s) (a : Unit) : go m s a = none := by
  unfold go
  rw [faults.turn]

theorem Ends.stops (ends : Ends m s) (a : Unit) : go m s a = none := by
  unfold go
  rw [ends.turn]

theorem refused_of_returned {text : List UInt8} {record : Record} {buffers : Buffers}
    (returned : intelHexParseFirmware m text record kzalloc = some (-1, buffers)) :
    Refused m text record := by
  refine ⟨⟨buffers,returned⟩,?_⟩
  intro siliconId chksum
  refine ⟨[],?_,by simp⟩
  simp [progFirmware, returned]

theorem erases_of_returned {text : List UInt8} {record : Record} {buffers : Buffers} {chksum : Nat}
    (returned : intelHexParseFirmware m text record kzalloc = some (0, buffers))
    (other : chksum ≠ expected buffers) : ∃ phases,
      progFirmware m (some text) record 0x19 chksum = some phases ∧ .bulkErase ∈ phases := by
  simp [progFirmware, returned, other]

end

theorem valid_accepted (m : Surroundings) {text : List UInt8} {record : Record}
    (valid : Valid .program 0 record text) (buffers : Buffers) :
    ∃ filled, intelHexParseFirmware m text record buffers = some (0, filled) := by
  obtain ⟨visited,t,run,accepted⟩ := valid.run (s := start m text record buffers) rfl ⟨rfl,rfl,rfl⟩
  exact ⟨_,(parseLoop_run run).trans (parseLoop_returns accepted.ends.turn)⟩

/-- A text that is not valid is refused exactly when the reading of it is `Sound`. -/
theorem invalid_refused_iff (m : Surroundings) (text : List UInt8) (record : Record) :
    (¬ Valid .program 0 record text → Refused m text record) ↔ Sound m text record := by
  constructor
  · intro refuses visited t run
    have outcome := parseLoop_run run
    -- What does not return -1 is valid, and a valid text has a run of its own to its end.
    have proper (other : ∀ buffers, parseLoop m t ≠ some (-1, buffers)) :
        ∃ visited' t', Run (go m) (start m text record kzalloc) visited' t' ∧
          Accepted m visited' t' := by
      have valid : Valid .program 0 record text := by
        by_contra invalid
        obtain ⟨buffers,returned⟩ := (refuses invalid).returned
        exact other buffers (outcome.symm.trans returned)
      exact valid.run rfl ⟨rfl,rfl,rfl⟩
    constructor
    · intro faults
      have failed := parseLoop_fault faults.turn
      obtain ⟨_,_,run',accepted⟩ := proper (by simp [failed])
      obtain ⟨_,rfl⟩ := run.stops_unique run' faults.stops accepted.ends.stops
      cases faults.turn.symm.trans accepted.ends.turn
    · intro ends
      have passed := parseLoop_returns ends.turn
      obtain ⟨_,_,run',accepted⟩ := proper (by simp [passed])
      obtain ⟨rfl,rfl⟩ := run.stops_unique run' ends.stops accepted.ends.stops
      exact ⟨accepted.before,accepted.spelled,accepted.summed⟩
  · intro sound invalid
    obtain ⟨visited,t,run,faults | ends | refused⟩ :=
      parseLoop_cases m (start m text record kzalloc)
    · exact absurd faults (sound visited t run).1
    · obtain ⟨before,spelled,summed⟩ := (sound visited t run).2 ends
      exact absurd (valid_of_run run ⟨ends,before,spelled,summed⟩ rfl) invalid
    · exact refused_of_returned ((parseLoop_run run).trans (parseLoop_returns refused))

/-- ":00000001FE", an end record whose checksum should be FF. -/
def badEnd : List UInt8 := [58, 48, 48, 48, 48, 48, 48, 48, 49, 70, 69]

def quiet : Surroundings :=
  { beyond := [], stale := fun _ => 0, base := fun _ => 0xc0000000
    mapped := by intro segment; cases segment <;> decide }

def unset : Record := { length := 0, address := 0, type := 0, data := fun _ => 0 }

theorem badEnd_reads : Reads quiet (start quiet badEnd unset kzalloc) none
    (Fields.record ⟨0, 0, 0, 1, [], 0xfe⟩ unset) :=
  ⟨_,rfl,by decide,by rfl⟩

/-- The end record is taken although its checksum is wrong, and a controller whose firmware has
    the checksum 0x1234 is erased. -/
theorem bad_end_erases : ¬ Valid .program 0 unset badEnd ∧
    intelHexParseFirmware quiet badEnd unset kzalloc = some (0, kzalloc) ∧
    (∃ phases, progFirmware quiet (some badEnd) unset 0x19 0x1234 = some phases ∧
      .bulkErase ∈ phases) ∧
    ¬ (¬ Valid .program 0 unset badEnd → Refused quiet badEnd unset) := by
  have ends : Ends quiet (start quiet badEnd unset kzalloc) := ⟨_,_,badEnd_reads,rfl⟩
  have parsed : intelHexParseFirmware quiet badEnd unset kzalloc = some (0, kzalloc) :=
    parseLoop_returns ends.turn
  have invalid : ¬ Valid .program 0 unset badEnd := by
    intro valid
    obtain ⟨visited,t,run,accepted⟩ := valid.run (s := start quiet badEnd unset kzalloc) rfl
      ⟨rfl,rfl,rfl⟩
    obtain ⟨_,rfl⟩ := Run.done.stops_unique run ends.stops accepted.ends.stops
    obtain ⟨rest,record,reads⟩ := accepted.summed
    cases (reads.unique badEnd_reads).1
  refine ⟨invalid,parsed,erases_of_returned parsed (by decide),?_⟩
  intro refuses
  obtain ⟨buffers,returned⟩ := (refuses invalid).returned
  cases parsed.symm.trans returned

end IntelHex
