import SqueezeOS.Fab4.HexValidity

/- When the reading of a firmware text keeps to the text, to the data of the record and to the
   buffers. -/
namespace IntelHex
open KernelStrings StepRuns

/-- Nothing is mapped behind the text, so that a read past its end is a fault. -/
def Surroundings.bare (m : Surroundings) : Surroundings := { m with beyond := [] }

/-- The parse comes to an end, and no read past the text, no write past the 64 bytes of data of
    the record and none outside of the buffers makes it fault. -/
def InBounds (m : Surroundings) (text : List UInt8) (record : Record) (buffers : Buffers) : Prop :=
  ∃ value filled, intelHexParseFirmware m.bare text record buffers = some (value, filled)

def Whole (stale : Nat → Nat) (ptr : List UInt8) : Prop :=
  ∃ c rest, ptr.dropWhile isspace = c :: rest ∧ (c = 58 → ∃ length behind,
    parseByte stale rest = some (length, behind) ∧ length ≤ 64 ∧ 2 * (length + 4) ≤ behind.length)

/-- Data that is too long for the buffer and ends, as an address of 32 bits, before its end. -/
def Wraps (m : Surroundings) (s : Loop) (record : Record) : Prop :=
  record.type = 0 ∧ size s.segment < s.used + record.length ∧
    (m.base s.segment + s.used + record.length) % 2 ^ 32 ≤ m.base s.segment + size s.segment

def Safe (m : Surroundings) (s : Loop) : Prop :=
  ∀ ptr, s.cptr = some ptr → ptr ≠ [] → Whole m.stale ptr ∧
    ∀ next record, parseRecord m.stale ptr s.record = some (next, record) → ¬ Wraps m s record

section
variable {stale : Nat → Nat} {ptr : List UInt8}

theorem parseByte_left {v : Nat} {rest : List UInt8} (read : parseByte stale ptr = some (v, rest)) :
    ptr.length = rest.length + 2 := by
  obtain ⟨a,b,rfl,_⟩ := parseByte_some read
  rfl

theorem parseByte_there (stale : Nat → Nat) (ptr : List UInt8) (long : 2 ≤ ptr.length) :
    ∃ v rest, parseByte stale ptr = some (v, rest) ∧ ptr.length = rest.length + 2 := by
  match ptr, long with
  | _ :: _ :: rest, _ => exact ⟨_,rest,rfl,rfl⟩

theorem parseBytes_there (stale : Nat → Nat) (n : Nat) (ptr : List UInt8)
    (long : 2 * n ≤ ptr.length) :
    ∃ vs rest, parseBytes stale n ptr = some (vs, rest) ∧ ptr.length = rest.length + 2 * n := by
  induction n generalizing ptr with
  | zero => exact ⟨[],ptr,rfl,rfl⟩
  | succ n ih =>
    obtain ⟨v,ptr1,one,left⟩ := parseByte_there stale ptr (by omega)
    obtain ⟨vs,rest,read,count⟩ := ih ptr1 (by omega)
    refine ⟨v :: vs,rest,?_,by omega⟩
    simp only [parseBytes, one, read, Option.bind_eq_bind, Option.bind_some]

theorem parseRecord_whole {old : Record} {result : Option (List UInt8) × Record}
    (read : parseRecord stale ptr old = some result) : Whole stale ptr := by
  unfold parseRecord at read
  split at read
  · contradiction
  · rename_i c ptr1 found
    refine ⟨c,ptr1,found,?_⟩
    intro colon
    rw [if_neg (not_not.mpr colon)] at read
    obtain ⟨⟨length,ptr2⟩,one,read⟩ := Option.bind_eq_some_iff.mp read
    obtain ⟨⟨high,ptr3⟩,two,read⟩ := Option.bind_eq_some_iff.mp read
    obtain ⟨⟨low,ptr4⟩,three,read⟩ := Option.bind_eq_some_iff.mp read
    obtain ⟨⟨type,ptr5⟩,four,read⟩ := Option.bind_eq_some_iff.mp read
    obtain ⟨⟨data,ptr6⟩,five,read⟩ := Option.bind_eq_some_iff.mp read
    obtain ⟨⟨last,rest⟩,six,read⟩ := Option.bind_eq_some_iff.mp read
    unfold parseData at five
    split at five
    · rename_i room
      obtain ⟨_,digits,rfl,even,_⟩ := parseBytes_some five
      refine ⟨length,ptr2,one,room,?_⟩
      have second := parseByte_left two
      have third := parseByte_left three
      have fourth := parseByte_left four
      have sixth := parseByte_left six
      rw [List.length_append] at fourth
      omega
    · contradiction

theorem Whole.parseRecord (whole : Whole stale ptr) (old : Record) :
    ∃ next record, parseRecord stale ptr old = some (next, record) := by
  obtain ⟨c,ptr1,found,complete⟩ := whole
  by_cases colon : c = 58
  · obtain ⟨length,ptr2,one,room,long⟩ := complete colon
    obtain ⟨high,ptr3,two,_⟩ := parseByte_there stale ptr2 (by omega)
    obtain ⟨low,ptr4,three,_⟩ := parseByte_there stale ptr3 (by omega)
    obtain ⟨type,ptr5,four,_⟩ := parseByte_there stale ptr4 (by omega)
    obtain ⟨data,ptr6,five,_⟩ := parseBytes_there stale length ptr5 (by omega)
    obtain ⟨last,rest,six,_⟩ := parseByte_there stale ptr6 (by omega)
    simp only [IntelHex.parseRecord, found, colon, ne_eq, not_true_eq_false, if_false, one, two,
      three, four, parseData, if_pos room, five, six, Option.bind_eq_bind, Option.bind_some]
    exact ⟨_,_,rfl⟩
  · simp only [IntelHex.parseRecord, found, ne_eq, colon, not_false_eq_true, if_true]
    exact ⟨_,_,rfl⟩

end

section
variable {m : Surroundings} {s : Loop}

theorem safe_of_not_faults (runs : ¬ Faults m.bare s) : Safe m s := by
  intro ptr there inText
  have some : (m.bare).beyond.length < ptr.length := List.length_pos_of_ne_nil inText
  cases read : parseRecord m.stale ptr s.record with
  | none => exact absurd (.inl ⟨ptr,there,some,read⟩) runs
  | some result =>
    refine ⟨parseRecord_whole read,?_⟩
    rintro next record same ⟨data,long,wraps⟩
    rw [← read] at same
    exact runs (.inr ⟨next,record,⟨ptr,there,some,same⟩,data,long,wraps⟩)

theorem Safe.not_faults (safe : Safe m s) : ¬ Faults m.bare s := by
  rintro (⟨ptr,there,inText,failed⟩ | ⟨next,record,⟨ptr,there,inText,read⟩,wraps⟩)
  · obtain ⟨whole,_⟩ := safe ptr there (List.ne_nil_of_length_pos inText)
    obtain ⟨next,record,read⟩ := whole.parseRecord s.record
    cases failed.symm.trans read
  · exact (safe ptr there (List.ne_nil_of_length_pos inText)).2 next record read wraps

end

theorem InBounds.safe {m : Surroundings} {text : List UInt8} {record : Record} {buffers : Buffers}
    (bounds : InBounds m text record buffers) {visited : List (Loop × Unit)} {t : Loop}
    (run : Run (go m.bare) (start m.bare text record buffers) visited t) : Safe m t := by
  obtain ⟨value,filled,parsed⟩ := bounds
  apply safe_of_not_faults
  intro faults
  have failed := (parseLoop_run run).trans (parseLoop_fault faults.turn)
  cases failed.symm.trans parsed

/-- The parse keeps its bounds exactly when each record that it comes to is all there. -/
theorem inBounds_iff (m : Surroundings) (text : List UInt8) (record : Record) (buffers : Buffers) :
    InBounds m text record buffers ↔
      ∀ visited t, Run (go m.bare) (start m.bare text record buffers) visited t → Safe m t := by
  constructor
  · intro bounds visited t run
    exact bounds.safe run
  · intro safe
    obtain ⟨visited,t,run,faults | ends | refused⟩ :=
      parseLoop_cases m.bare (start m.bare text record buffers)
    · exact absurd faults (safe visited t run).not_faults
    · exact ⟨_,_,(parseLoop_run run).trans (parseLoop_returns ends.turn)⟩
    · exact ⟨_,_,(parseLoop_run run).trans (parseLoop_returns refused)⟩

/-- ":41000000" and the digits of 65 bytes of data and of the checksum BF. -/
def overlong : List UInt8 :=
  58 :: 52 :: 49 :: (List.replicate 136 48 ++ [66, 70])

/-- A colon at the end of the text makes the parser read past it, and a complete record of 65
    bytes makes it write past the data of the record. -/
theorem records_overrun : ¬ InBounds quiet [58] unset kzalloc ∧
    ¬ InBounds quiet overlong unset kzalloc := by
  constructor
  · intro bounds
    obtain ⟨⟨c,rest,found,complete⟩,_⟩ := bounds.safe .done _ rfl (by simp)
    cases found
    obtain ⟨length,behind,read,_⟩ := complete rfl
    contradiction
  · intro bounds
    obtain ⟨⟨c,rest,found,complete⟩,_⟩ := bounds.safe .done _ rfl (List.cons_ne_nil _ _)
    have colon : (overlong ++ quiet.bare.beyond).dropWhile isspace = 58 :: 52 :: 49 :: _ := rfl
    cases colon.symm.trans found
    obtain ⟨length,behind,read,room,_⟩ := complete rfl
    cases (parseByte_digits (by decide) (by decide)).symm.trans read
    exact absurd room (by decide)

end IntelHex
