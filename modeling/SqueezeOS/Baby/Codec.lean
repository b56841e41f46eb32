import Mathlib.Logic.Function.Basic
import SqueezeOS.StepRuns

/- The registers of the TLV320AIC3104: two pages of 128, of which one is selected at a time, and
   the driver's copy of them. -/
namespace Codec
open StepRuns

def cacheregnum : Nat := 203

def aic3104Reg : Vector UInt8 cacheregnum := Vector.mk #[
  0x00, 0x00, 0x00, 0x10, 0x04, 0x00, 0x00, 0x00, 0x00, 0x00, 0x00, 0x01, 0x00, 0x00, 0x00, 0x80,
  0x80, 0xff, 0xff, 0x78, 0x78, 0x78, 0x78, 0x78, 0x78, 0x06, 0x00, 0xfe, 0x00, 0x00, 0xfe, 0x00,
  0x00, 0x00, 0x00, 0x00, 0x00, 0x00, 0x00, 0x00, 0x00, 0x00, 0x00, 0x80, 0x80, 0x00, 0x00, 0x00,
  0x00, 0x00, 0x00, 0x04, 0x00, 0x00, 0x00, 0x00, 0x00, 0x00, 0x04, 0x00, 0x00, 0x00, 0x00, 0x00,
  0x00, 0x04, 0x00, 0x00, 0x00, 0x00, 0x00, 0x00, 0x04, 0x00, 0x00, 0x00, 0x00, 0x00, 0x00, 0x00,
  0x00, 0x00, 0x00, 0x00, 0x00, 0x00, 0x00, 0x00, 0x00, 0x00, 0x00, 0x00, 0x00, 0x00, 0x00, 0x00,
  0x00, 0x00, 0x00, 0x00, 0x00, 0x00, 0x02, 0x00, 0x00, 0x00, 0x00, 0x00, 0x00, 0x00, 0x00, 0x00,
  0x00, 0x00, 0x00, 0x00, 0x00, 0x00, 0x00, 0x00, 0x00, 0x00, 0x00, 0x00, 0x00, 0x00, 0x00, 0x00,
  -- Page B.
  0x01, 0x6b, 0xe3, 0x96, 0x66, 0x67, 0x5d, 0x6b, 0xe3, 0x96, 0x66, 0x67, 0x5d, 0x7d, 0x83, 0x84,
  0xee, 0x7d, 0x83, 0x84, 0xee, 0x39, 0x55, 0xf3, 0x2d, 0x53, 0x7e, 0x6b, 0xe3, 0x96, 0x66, 0x67,
  0x5d, 0x6b, 0xe3, 0x96, 0x66, 0x67, 0x5d, 0x7d, 0x83, 0x84, 0xee, 0x7d, 0x83, 0x84, 0xee, 0x39,
  0x55, 0xf3, 0x2d, 0x53, 0x7e, 0x7f, 0xff, 0x00, 0x00, 0x00, 0x00, 0x00, 0x00, 0x00, 0x00, 0x00,
  0x00, 0x7f, 0xea, 0x80, 0x16, 0x7f, 0xd5, 0x7f, 0xea, 0x80, 0x16] (by rfl)

/-- The page select, and the registers by their numbers: those of page B follow those of
    page A. Register 0 of either page is the page select. -/
structure Chip where
  page : Nat
  regs : Nat → UInt8

def Chip.held (chip : Chip) (reg : Nat) : UInt8 :=
  if reg % 128 = 0 then UInt8.ofNat (reg / 128) else chip.regs reg

/-- A transfer that arrives: an offset in the selected page, and bytes for the registers from
    there on. -/
def Chip.write (chip : Chip) (offset : Nat) : List UInt8 → Chip
  | [] => chip
  | value :: rest =>
      let chip := if offset = 0 then { chip with page := value.toNat }
        else { chip with regs := Function.update chip.regs (chip.page * 128 + offset) value }
      chip.write (offset + 1) rest

def Chip.read (chip : Chip) (offset : Nat) : UInt8 :=
  if offset = 0 then UInt8.ofNat chip.page else chip.regs (chip.page * 128 + offset)

/-- The page and the cache as the driver has them, the chip, and of each access that reached
    the chip the register it was for and the page it was made to. -/
structure State where
  regPage : Nat
  cache : Vector UInt8 cacheregnum
  chip : Chip
  reached : List (Nat × Nat)

def eio : Int := -5

def writeRegCache (cache : Vector UInt8 cacheregnum) (reg : Nat) (value : UInt8) :
    Vector UInt8 cacheregnum :=
  cache.setIfInBounds (reg % 256) value

/-- `none` for -1. -/
def readRegCache (cache : Vector UInt8 cacheregnum) (reg : Nat) : Option UInt8 := cache[reg]?

/-- Turn to a page unless it is the one remembered; `none` when the transfer fails. -/
def turnPage (page : Nat) (ok : Bool) (s : State) : Option State :=
  if page ≠ s.regPage then
    if ok then some { s with chip := s.chip.write 0 [UInt8.ofNat page], regPage := page }
    else none
  else some s

def writeWord : Nat := 0x8000

/-- The cache is written before the chip. `pageOk` and `dataOk` tell whether the transfers
    arrive. -/
def writeReg (reg value : Nat) (pageOk dataOk : Bool) (s : State) : Int × State :=
  match turnPage ((reg &&& 0x80) >>> 7) pageOk s with
  | none => (eio, s)
  | some s =>
      if reg &&& writeWord ≠ 0 then
        let msb := UInt8.ofNat (value >>> 8)
        let lsb := UInt8.ofNat value
        let s := { s with cache := writeRegCache (writeRegCache s.cache reg msb) (reg + 1) lsb }
        if dataOk then
          (0, { s with
            chip := s.chip.write (reg &&& 0x7f) [msb, lsb]
            reached := (reg % 256, s.chip.page) :: (reg % 256 + 1, s.chip.page) :: s.reached })
        else (eio, s)
      else
        let s := { s with cache := writeRegCache s.cache reg (UInt8.ofNat value) }
        if dataOk then
          (0, { s with
            chip := s.chip.write (reg &&& 0x7f) [UInt8.ofNat value]
            reached := (reg, s.chip.page) :: s.reached })
        else (eio, s)

/-- A read that fails with an error is not noticed: the low byte of the error is returned. -/
def readReg (reg : Nat) (pageOk : Bool) (ret : Int) (s : State) : Int × State :=
  match turnPage (reg >>> 7) pageOk s with
  | none => (eio, s)
  | some s =>
      if ret < 0 then (ret % 256, s)
      else ((s.chip.read (reg &&& 0x7f)).toNat,
        { s with reached := (reg, s.chip.page) :: s.reached })

/-- Reads of registers one after the other, on whatever page is selected; `reads` tells which
    of them arrive. -/
def dump (reads : Nat → Bool) (regs : List Nat) (s : State) : State :=
  { s with reached := (regs.filter reads).map (·, s.chip.page) ++ s.reached }

/-- The page select is written directly, and whether that arrives is not looked at. -/
def selectPage (ok : Bool) (page : Nat) (s : State) : State :=
  { s with chip := if ok then s.chip.write 0 [UInt8.ofNat page] else s.chip }

/-- Both pages are read, and the page that is remembered is selected again. The last register
    of page A is left out. -/
def showDebugreg (first second last : Bool) (reads : Nat → Bool) (s : State) : State :=
  let s := dump reads (List.range 127) (selectPage first 0 s)
  let s := dump reads (List.range' 128 (cacheregnum - 128)) (selectPage second 1 s)
  selectPage last s.regPage s

inductive Call where
  | writeByte (reg value : Nat) (pageOk dataOk : Bool)
  | writeWord (reg value : Nat) (pageOk dataOk : Bool)
  | readReg (reg : Nat) (pageOk : Bool) (ret : Int)
  | showDebugreg (first second last : Bool) (reads : Nat → Bool)

def Legal : Call → Prop
  | .writeByte reg _ _ _ => reg < cacheregnum ∧ reg % 128 ≠ 0
  | .writeWord reg _ _ _ => 128 < reg ∧ reg + 1 < cacheregnum
  | .readReg reg _ _ => reg < 256
  | .showDebugreg _ _ _ _ => True

instance : (call : Call) → Decidable (Legal call)
  | .writeByte reg _ _ _ => inferInstanceAs (Decidable (reg < cacheregnum ∧ reg % 128 ≠ 0))
  | .writeWord reg _ _ _ => inferInstanceAs (Decidable (128 < reg ∧ reg + 1 < cacheregnum))
  | .readReg reg _ _ => inferInstanceAs (Decidable (reg < 256))
  | .showDebugreg _ _ _ _ => .isTrue trivial

def perform (s : State) : Call → State
  | .writeByte reg value pageOk dataOk => (writeReg reg value pageOk dataOk s).2
  | .writeWord reg value pageOk dataOk => (writeReg (reg ||| writeWord) value pageOk dataOk s).2
  | .readReg reg pageOk ret => (readReg reg pageOk ret s).2
  | .showDebugreg first second last reads => showDebugreg first second last reads s

def step (s : State) (call : Call) : Option State :=
  if Legal call then some (perform s call) else none

def Cached (cache : Vector UInt8 cacheregnum) (chip : Chip) : Prop :=
  ∀ reg < cacheregnum, readRegCache cache reg = some (chip.held reg)

structure Probed (s : State) : Prop where
  regPage : s.regPage = 0
  cache : s.cache = aic3104Reg
  selected : s.chip.page = 0
  cached : Cached s.cache s.chip
  untouched : s.reached = []

structure InStep (s : State) : Prop where
  page : s.chip.page = s.regPage
  reached : ∀ a ∈ s.reached, a.2 = a.1 / 128
  cached : Cached s.cache s.chip

structure Paged (s : State) : Prop extends InStep s where
  two : s.regPage < 2

/-- What a call needs of its transfers. A write needs its data to arrive once its page is
    turned, unless the registers hold the values already. The dump needs each page that it
    reads from to be selected, and the page before it in the end. -/
def Lands (s : State) : Call → Prop
  | .writeByte reg value pageOk dataOk =>
      dataOk = true ∨ (pageOk = false ∧ s.regPage ≠ reg / 128) ∨
      readRegCache s.cache reg = some (UInt8.ofNat value)
  | .writeWord reg value pageOk dataOk =>
      dataOk = true ∨ (pageOk = false ∧ s.regPage ≠ reg / 128) ∨
      (readRegCache s.cache reg = some (UInt8.ofNat (value >>> 8)) ∧
        readRegCache s.cache (reg + 1) = some (UInt8.ofNat value))
  | .readReg _ _ _ => True
  | .showDebugreg first second last reads =>
      (first = true ∨ s.regPage = 0 ∨ ∀ reg ∈ List.range 127, reads reg = false) ∧
      (second = true ∨ (first = false ∧ s.regPage = 1) ∨
        ∀ reg ∈ List.range' 128 (cacheregnum - 128), reads reg = false) ∧
      (last = true ∨ (second = true ∧ s.regPage = 1) ∨
        (second = false ∧ (first = false ∨ s.regPage = 0)))

theorem turnPage_cases {s : State} (paged : Paged s) {page : Nat} (two : page < 2) (ok : Bool) :
    (turnPage page ok s = none ∧ ok = false ∧ s.regPage ≠ page) ∨
    ∃ t, turnPage page ok s = some t ∧ ¬ (ok = false ∧ s.regPage ≠ page) ∧
      Paged t ∧ t.regPage = page ∧ t.cache = s.cache := by
  unfold turnPage
  by_cases there : s.regPage = page
  · rw [if_neg (fun away => away there.symm)]
    exact .inr ⟨s,rfl,fun away => away.2 there,paged,there,rfl⟩
  · rw [if_pos (fun same => there same.symm)]
    cases ok with
    | false => exact .inl ⟨rfl,rfl,there⟩
    | true =>
      have turned : (UInt8.ofNat page).toNat = page := by
        rw [UInt8.toNat_ofNat']
        omega
      refine .inr ⟨_,rfl,by simp,⟨⟨turned,paged.reached,paged.cached⟩,two⟩,rfl,rfl⟩

theorem Chip.write_page (chip : Chip) {offset : Nat} (proper : offset ≠ 0) (bytes : List UInt8) :
    (chip.write offset bytes).page = chip.page := by
  induction bytes generalizing chip offset with
  | nil => rfl
  | cons value rest ih =>
    unfold Chip.write
    rw [if_neg proper]
    exact ih _ (Nat.succ_ne_zero offset)

section
variable {cache : Vector UInt8 cacheregnum} {chip : Chip} {reg : Nat}

theorem readRegCache_write (known : reg < cacheregnum) (value : UInt8) (other : Nat) :
    readRegCache (writeRegCache cache reg value) other =
      if other = reg then some value else readRegCache cache other := by
  unfold readRegCache writeRegCache cacheregnum at *
  rw [Nat.mod_eq_of_lt (by omega), Vector.getElem?_setIfInBounds]
  by_cases same : other = reg
  · simp [same, known]
  · simp [same, Ne.symm same]

theorem cached_write (cached : Cached cache chip) (known : reg < cacheregnum)
    (proper : reg % 128 ≠ 0) (selected : chip.page = reg / 128) (value : UInt8) :
    Cached (writeRegCache cache reg value) (chip.write (reg % 128) [value]) := by
  intro other below
  rw [readRegCache_write known, cached other below]
  have place : chip.page * 128 + reg % 128 = reg := by omega
  simp only [Chip.write, if_neg proper, Chip.held, place, Function.update_apply]
  by_cases same : other = reg
  · rw [if_pos same, if_pos same, same, if_neg proper]
  · rw [if_neg same, if_neg same]

theorem cached_unsent_iff (cached : Cached cache chip) (known : reg < cacheregnum)
    (value : UInt8) : Cached (writeRegCache cache reg value) chip ↔
      readRegCache cache reg = some value := by
  rw [cached reg known]
  constructor
  · intro still
    have at_reg := still reg known
    rw [readRegCache_write known, if_pos rfl] at at_reg
    exact at_reg.symm
  · intro same other below
    rw [readRegCache_write known]
    split
    · rename_i this
      rw [this]
      exact same.symm
    · exact cached other below

theorem cached_unsent_pair_iff (cached : Cached cache chip) (known : reg + 1 < cacheregnum)
    (msb lsb : UInt8) :
    Cached (writeRegCache (writeRegCache cache reg msb) (reg + 1) lsb) chip ↔
      readRegCache cache reg = some msb ∧ readRegCache cache (reg + 1) = some lsb := by
  have first : reg < cacheregnum := by omega
  constructor
  · intro still
    have at_first := still reg first
    have at_second := still (reg + 1) known
    rw [readRegCache_write known, if_neg (by omega), readRegCache_write first, if_pos rfl]
      at at_first
    rw [readRegCache_write known, if_pos rfl] at at_second
    exact ⟨(cached reg first).trans at_first.symm,(cached (reg + 1) known).trans at_second.symm⟩
  · rintro ⟨same,next⟩
    have noted := (cached_unsent_iff cached first msb).mpr same
    apply (cached_unsent_iff noted known lsb).mpr
    rw [readRegCache_write first, if_neg (by omega)]
    exact next

end

theorem reg_fields : ∀ reg < 256, (reg &&& 0x80) >>> 7 = reg / 128 ∧ reg &&& 0x7f = reg % 128 ∧
    reg >>> 7 = reg / 128 ∧ reg &&& writeWord = 0 := by
  decide +kernel

theorem word_fields : ∀ reg < 256, ((reg ||| writeWord) &&& 0x80) >>> 7 = reg / 128 ∧
    (reg ||| writeWord) &&& 0x7f = reg % 128 ∧ (reg ||| writeWord) &&& writeWord ≠ 0 ∧
    (reg ||| writeWord) % 256 = reg ∧ (reg ||| writeWord) + 1 = reg + 1 + writeWord := by
  decide +kernel

theorem writeRegCache_word {reg : Nat} (small : reg < 256) (cache : Vector UInt8 cacheregnum)
    (msb lsb : UInt8) :
    writeRegCache (writeRegCache cache (reg ||| writeWord) msb) ((reg ||| writeWord) + 1) lsb =
      writeRegCache (writeRegCache cache reg msb) (reg + 1) lsb := by
  obtain ⟨_,_,_,named,follows⟩ := word_fields reg small
  have after : ((reg ||| writeWord) + 1) % 256 = (reg + 1) % 256 := by
    rw [follows]
    unfold writeWord
    omega
  unfold writeRegCache
  rw [after, named, Nat.mod_eq_of_lt small]

theorem reached_cons {s : State} (paged : Paged s) {reg : Nat} (there : s.regPage = reg / 128) :
    ∀ a ∈ (reg, s.chip.page) :: s.reached, a.2 = a.1 / 128 := by
  intro a member
  rcases List.mem_cons.mp member with rfl | before
  · exact paged.page.trans there
  · exact paged.reached a before

theorem inStep_unsent_iff {s : State} (paged : Paged s) (cache : Vector UInt8 cacheregnum) :
    InStep { s with cache := cache } ↔ Cached cache s.chip :=
  ⟨InStep.cached,fun cached => ⟨paged.page,paged.reached,cached⟩⟩

theorem lost_iff {away noted : Prop} (there : ¬ away) : false = true ∨ away ∨ noted ↔ noted := by
  simp [there]

theorem writeByte_inStep_iff {s : State} (paged : Paged s) {reg : Nat} (known : reg < cacheregnum)
    (proper : reg % 128 ≠ 0) (value : Nat) (pageOk dataOk : Bool) :
    (writeReg reg value pageOk dataOk s).2.regPage < 2 ∧
    (InStep (writeReg reg value pageOk dataOk s).2 ↔
      Lands s (.writeByte reg value pageOk dataOk)) := by
  have small : reg < 256 := Nat.lt_trans known (by decide)
  have two : reg / 128 < 2 := by omega
  obtain ⟨page,offset,_,byte⟩ := reg_fields reg small
  simp only [writeReg, page, byte, offset, ne_eq, not_true_eq_false, if_false]
  rcases turnPage_cases paged two pageOk with
    ⟨failed,away⟩ | ⟨t,turned,there,ready,onPage,same⟩
  · rw [failed]
    exact ⟨paged.two,fun _ => .inr (.inl away),fun _ => paged.toInStep⟩
  · rw [turned]
    cases dataOk with
    | true =>
      refine ⟨ready.two,fun _ => .inl rfl,fun _ => ⟨?_,reached_cons ready onPage,?_⟩⟩
      · exact (t.chip.write_page proper _).trans ready.page
      · exact cached_write ready.cached known proper (ready.page.trans onPage) _
    | false =>
      refine ⟨ready.two,(inStep_unsent_iff ready _).trans ?_⟩
      refine (cached_unsent_iff ready.cached known _).trans ?_
      rw [same]
      exact (lost_iff there).symm

theorem writeWord_inStep_iff {s : State} (paged : Paged s) {reg : Nat} (pageB : 128 < reg)
    (known : reg + 1 < cacheregnum) (value : Nat) (pageOk dataOk : Bool) :
    (writeReg (reg ||| writeWord) value pageOk dataOk s).2.regPage < 2 ∧
    (InStep (writeReg (reg ||| writeWord) value pageOk dataOk s).2 ↔
      Lands s (.writeWord reg value pageOk dataOk)) := by
  have small : reg < 256 := Nat.lt_trans (Nat.lt_of_succ_lt known) (by decide)
  have two : reg / 128 < 2 := by omega
  have proper : reg % 128 ≠ 0 := by
    unfold cacheregnum at known
    omega
  have next : (reg + 1) % 128 = reg % 128 + 1 ∧ (reg + 1) / 128 = reg / 128 := by
    unfold cacheregnum at known
    omega
  obtain ⟨page,offset,word,named,_⟩ := word_fields reg small
  simp only [writeReg, page, word, offset, writeRegCache_word small, named, ne_eq, not_false_eq_true, if_true]
  rcases turnPage_cases paged two pageOk with
    ⟨failed,away⟩ | ⟨t,turned,there,ready,onPage,same⟩
  · rw [failed]
    exact ⟨paged.two,fun _ => .inr (.inl away),fun _ => paged.toInStep⟩
  · rw [turned]
    cases dataOk with
    | true =>
      have selected : t.chip.page = reg / 128 := ready.page.trans onPage
      have first := cached_write ready.cached (Nat.lt_of_succ_lt known) proper selected
        (UInt8.ofNat (value >>> 8))
      have still : (t.chip.write (reg % 128) [UInt8.ofNat (value >>> 8)]).page = (reg + 1) / 128 := by
        rw [t.chip.write_page proper, selected, next.2]
      have second := cached_write first known (by omega) still (UInt8.ofNat value)
      rw [next.1] at second
      refine ⟨ready.two,fun _ => .inl rfl,fun _ => ⟨?_,?_,second⟩⟩
      · exact (t.chip.write_page proper _).trans ready.page
      · intro a member
        rcases List.mem_cons.mp member with rfl | member
        · exact selected
        · rw [← next.2] at onPage
          exact reached_cons ready onPage a member
    | false =>
      refine ⟨ready.two,(inStep_unsent_iff ready _).trans ?_⟩
      refine (cached_unsent_pair_iff ready.cached known _ _).trans ?_
      rw [same]
      exact (lost_iff there).symm

theorem readReg_inStep {s : State} (paged : Paged s) {reg : Nat} (small : reg < 256)
    (pageOk : Bool) (ret : Int) : Paged (readReg reg pageOk ret s).2 := by
  have two : reg / 128 < 2 := by omega
  obtain ⟨_,_,page,_⟩ := reg_fields reg small
  simp only [readReg, page]
  rcases turnPage_cases paged two pageOk with ⟨failed,_⟩ | ⟨t,turned,_,ready,onPage,_⟩
  · rw [failed]
    exact paged
  · rw [turned]
    by_cases failed : ret < 0
    · simp only [failed, if_true]
      exact ready
    · simp only [failed, if_false]
      exact ⟨⟨ready.page,reached_cons ready onPage,ready.cached⟩,ready.two⟩

theorem selectPage_eq {page : Nat} (two : page < 2) (ok : Bool) (s : State) :
    selectPage ok page s =
      { s with chip := { s.chip with page := if ok then page else s.chip.page } } := by
  cases ok with
  | false => rfl
  | true =>
    have small : page % 2 ^ 8 = page := by omega
    simp only [selectPage, Chip.write, if_true, UInt8.toNat_ofNat', small]

theorem dump_reached_iff (reads : Nat → Bool) {regs : List Nat} {page : Nat}
    (samePage : ∀ reg ∈ regs, reg / 128 = page) (s : State) :
    (∀ a ∈ (dump reads regs s).reached, a.2 = a.1 / 128) ↔
      (s.chip.page = page ∨ ∀ reg ∈ regs, reads reg = false) ∧ ∀ a ∈ s.reached, a.2 = a.1 / 128 := by
  unfold dump
  simp only [List.forall_mem_append, List.forall_mem_map, List.mem_filter]
  apply and_congr_left'
  constructor
  · intro reached
    by_cases selected : s.chip.page = page
    · exact .inl selected
    · refine .inr fun reg member => ?_
      by_contra arrives
      rw [Bool.not_eq_false] at arrives
      exact selected ((reached reg ⟨member,arrives⟩).trans (samePage reg member))
  · rintro (selected | lost) reg ⟨member,arrives⟩
    · exact selected.trans (samePage reg member).symm
    · rw [lost reg member] at arrives
      contradiction

theorem dump_pages_iff {page : Nat} (two : page < 2) (first second last : Bool) (lostA lostB : Prop) :
    ((if first then 0 else page) = 0 ∨ lostA) ∧
      ((if second then 1 else if first then 0 else page) = 1 ∨ lostB) ∧
      (if last then page else if second then 1 else if first then 0 else page) = page ↔
    (first = true ∨ page = 0 ∨ lostA) ∧ (second = true ∨ (first = false ∧ page = 1) ∨ lostB) ∧
      (last = true ∨ (second = true ∧ page = 1) ∨
        (second = false ∧ (first = false ∨ page = 0))) := by
  have cases2 : page = 0 ∨ page = 1 := by omega
  rcases cases2 with rfl | rfl <;> cases first <;> cases second <;> cases last <;> simp

theorem showDebugreg_inStep_iff {s : State} (paged : Paged s) (first second last : Bool)
    (reads : Nat → Bool) :
    (showDebugreg first second last reads s).regPage < 2 ∧
    (InStep (showDebugreg first second last reads s) ↔
      Lands s (.showDebugreg first second last reads)) := by
  have pageA : ∀ reg ∈ List.range 127, reg / 128 = 0 := by
    intro reg member
    rw [List.mem_range] at member
    omega
  have pageB : ∀ reg ∈ List.range' 128 (cacheregnum - 128), reg / 128 = 1 := by
    intro reg member
    rw [List.mem_range'_1] at member
    unfold cacheregnum at member
    omega
  refine ⟨paged.two,?_⟩
  have dumped : showDebugreg first second last reads s = selectPage last s.regPage
      (dump reads (List.range' 128 (cacheregnum - 128)) (selectPage second 1
        (dump reads (List.range 127) (selectPage first 0 s)))) := rfl
  rw [dumped, selectPage_eq (show 0 < 2 by decide), selectPage_eq (show 1 < 2 by decide),
    selectPage_eq paged.two, paged.page]
  refine Iff.trans ?_ (dump_pages_iff paged.two first second last _ _)
  constructor
  · rintro ⟨page,reached,_⟩
    obtain ⟨readB,earlier⟩ := (dump_reached_iff reads pageB _).mp reached
    obtain ⟨readA,_⟩ := (dump_reached_iff reads pageA _).mp earlier
    exact ⟨readA,readB,page⟩
  · rintro ⟨readA,readB,page⟩
    refine ⟨page,(dump_reached_iff reads pageB _).mpr ⟨readB,?_⟩,paged.cached⟩
    exact (dump_reached_iff reads pageA _).mpr ⟨readA,paged.reached⟩

theorem step_inStep_iff {s t : State} {call : Call} (paged : Paged s) (next : step s call = some t) :
    t.regPage < 2 ∧ (InStep t ↔ Lands s call) := by
  unfold step at next
  split at next
  · rename_i legal
    cases Option.some.inj next
    cases call with
    | writeByte reg value pageOk dataOk =>
      exact writeByte_inStep_iff paged legal.1 legal.2 value pageOk dataOk
    | writeWord reg value pageOk dataOk =>
      exact writeWord_inStep_iff paged legal.1 legal.2 value pageOk dataOk
    | readReg reg pageOk ret =>
      have read := readReg_inStep paged legal pageOk ret
      exact ⟨read.two,fun _ => trivial,fun _ => read.toInStep⟩
    | showDebugreg first second last reads =>
      exact showDebugreg_inStep_iff paged first second last reads
  · contradiction

theorem Probed.paged {s : State} (probed : Probed s) : Paged s := by
  refine ⟨⟨?_,?_,probed.cached⟩,?_⟩
  · rw [probed.selected, probed.regPage]
  · rw [probed.untouched]
    simp
  · rw [probed.regPage]
    decide

/-- In every sequence of calls after the probe, with transfers that arrive or fail as they
    will, the driver keeps in step with the chip exactly when every call `Lands`. -/
theorem inStep_throughout_iff {s t : State} (probed : Probed s) {visited : List (State × Call)}
    (run : Run step s visited t) : Throughout InStep visited t ↔ Every Lands visited := by
  apply run.throughout_iff probed.paged (fun _ paged => paged.toInStep)
  · intro s call t paged lands next
    obtain ⟨two,inStep⟩ := step_inStep_iff paged next
    exact ⟨inStep.mpr lands,two⟩
  · intro s call t paged next inStep
    exact (step_inStep_iff paged next).2.mp inStep

def afterReset : State :=
  { regPage := 0, cache := aic3104Reg
    chip := { page := 0, regs := fun reg => (readRegCache aic3104Reg reg).getD 0 }, reached := [] }

theorem afterReset_probed : Probed afterReset := by
  refine ⟨rfl,rfl,rfl,?_,rfl⟩
  intro reg below
  unfold Chip.held
  by_cases select : reg % 128 = 0
  · have selects : reg = 0 ∨ reg = 128 := by
      unfold cacheregnum at below
      omega
    rcases selects with rfl | rfl
    · decide +kernel
    · decide +kernel
  · simp [afterReset, readRegCache, select, below]

theorem lost_volume : ∃ visited t, Run step afterReset visited t ∧
    readRegCache t.cache 43 = some 0x10 ∧ t.chip.held 43 = 0x80 ∧
    ¬ Throughout InStep visited t := by
  refine ⟨_,_,run_follow [.writeByte 43 0x10 true false] rfl,?_,?_,?_⟩
  · decide +kernel
  · decide +kernel
  · intro inStep
    exact absurd (inStep.2.cached 43 (by decide)) (by decide +kernel)

theorem word_and_dump : ∃ visited t, Run step afterReset visited t ∧ visited.length = 4 ∧
    Throughout InStep visited t := by
  have run : Run step afterReset _ _ := run_follow [.writeWord 129 0x1234 false true,
    .readReg 13 true 0, .writeWord 129 0x1234 true true,
    .showDebugreg true true true fun reg => reg != 5] rfl
  refine ⟨_,_,run,rfl,?_⟩
  apply (inStep_throughout_iff afterReset_probed run).mpr
  rintro p (_ | ⟨_,_ | ⟨_,_ | ⟨_,_ | ⟨_,none⟩⟩⟩⟩)
  · exact .inl rfl
  · trivial
  · exact .inl rfl
  · exact ⟨.inl rfl,.inl rfl,.inl rfl⟩
  · cases none

end Codec
