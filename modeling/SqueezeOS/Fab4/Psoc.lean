import SqueezeOS.BitFields
import SqueezeOS.ClockedLine

/- The vectors that program the infrared controller, bit by bit on SDATA and SCLK, and what a
   controller that samples these lines makes of them. -/
namespace Psoc
open ClockedLine BitFields

/-- Not a vector: wait until the controller is done. -/
def waitAndPoll : Nat := 0x800000

def psocBulkErase : List Nat :=
  [0x27e0af, 0x27f2b7, 0x37b807, 0x37b007, 0x27c1d7, 0x27c81f, 0x37a807, 0x37a01f, 0x27dc07,
    0x37c987, 0x37d207, 0x37802f, 0x37c007, 0x37f897, waitAndPoll]

def psocProgram : List Nat :=
  [0x27e2a7, 0x27f2b7, 0x37b807, 0x37b007, 0x27c1d7, 0x27c81f, 0x37a807, 0x37a01f, 0x27dc07,
    0x37c987, 0x37d207, 0x378017, 0x37c007, 0x37f897, waitAndPoll]

def psocSecure : List Nat :=
  [0x27e2a7, 0x27f2b7, 0x37b807, 0x37b007, 0x27c1d7, 0x27c81f, 0x37a807, 0x37a01f, 0x27dc07,
    0x37c987, 0x37d207, 0x378027, 0x37c007, 0x37f897, waitAndPoll]

def psocClock : List Signal := [.clock true, .clock false]

def psocWriteVector (vector : Nat) : List Event :=
  .signal (.direction false) :: shiftOut vector 22 0x200000

def psocWriteBlock (block : List UInt8) : List Event :=
  (List.range 64).flatMap fun addr =>
    psocWriteVector (0x240007 ||| addr <<< 11 ||| (block.getD addr 0).toNat <<< 3)

/-- SDATA is an input here, so that the zeros are not driven. If it does not go low in time they
    are left out. -/
def psocWaitAndPoll (low : Bool) : List Signal :=
  .direction true :: psocClock ++ if low then
    [.data false, .direction true] ++ (List.range 40).flatMap fun _ => psocClock
  else []

/-- A wait is told by the number of vectors behind it. -/
def psocSendVectors (low : Nat → Bool) : List Nat → List Event
  | [] => []
  | vector :: vectors =>
      (if vector = waitAndPoll then [.apart (psocWaitAndPoll (low vectors.length))]
        else psocWriteVector vector) ++ psocSendVectors low vectors

/-- From the bulk erase to the last checksum. The waits of each block, and of the security block
    behind the others, may end in time or not. -/
def programming (low : Nat → Nat → Bool) (program secure : List UInt8) : List Event :=
  ((List.range 64).flatMap fun block =>
    psocWriteBlock (program.drop (block * 64)) ++ psocWriteVector (0x27D007 ||| block <<< 3) ++
      psocSendVectors (low block) psocProgram) ++
  (psocWriteBlock secure ++ psocSendVectors (low 64) psocSecure)

inductive Command where
  | store (address : Nat) (data : UInt8)
  | select (block : Nat)
  | other (vector : Nat)
  | poll
  | broken
  deriving DecidableEq, Repr

def decode (vector : Nat) : Command :=
  let address := vector / 2 ^ 11 % 64
  let data := vector / 2 ^ 3 % 256
  if vector = 0x240007 ||| address <<< 11 ||| data <<< 3 then .store address (UInt8.ofNat data)
  else if vector = 0x27D007 ||| data <<< 3 then .select data
  else .other vector

def understand : Heard → Command
  | .word vector => decode vector
  | .apart => .poll
  | .broken => .broken

def commands (r : Receiver) (events : List Event) : List Command :=
  (r.run 22 events).2.map understand

def table (vectors : List Nat) : List Command :=
  vectors.map fun vector => if vector = waitAndPoll then .poll else .other vector

def stores (byte : Nat → UInt8) : List Command := (List.range 64).map fun addr => .store addr (byte addr)

def image (program secure : List UInt8) : List Command :=
  ((List.range 64).flatMap fun block =>
    stores (fun addr => program.getD (64 * block + addr) 0) ++ [.select block] ++ table psocProgram) ++
  (stores (fun addr => secure.getD addr 0) ++ table psocSecure)

theorem store_sum {address data : Nat} (small : address < 64) (byte : data < 256) :
    0x240007 ||| address <<< 11 ||| data <<< 3 = 0x240007 + address * 2 ^ 11 + data * 2 ^ 3 := by
  calc 0x240007 ||| address <<< 11 ||| data <<< 3
      = 0x12 <<< 17 ||| 7 ||| address <<< 11 ||| data <<< 3 := rfl
    _ = 0x12 <<< 17 ||| (address <<< 11 ||| (data <<< 3 ||| 7)) := by ac_rfl
    _ = 0x12 <<< 17 ||| (address <<< 11 ||| (data * 2 ^ 3 + 7)) := by rw [or_shift data 3 (by decide)]
    _ = 0x12 <<< 17 ||| (address * 2 ^ 11 + (data * 2 ^ 3 + 7)) := by
      rw [or_shift address 11 (by omega)]
    _ = 0x12 * 2 ^ 17 + (address * 2 ^ 11 + (data * 2 ^ 3 + 7)) := by
      rw [or_shift 0x12 17 (by omega)]
    _ = 0x240007 + address * 2 ^ 11 + data * 2 ^ 3 := by omega

theorem select_sum {data : Nat} (byte : data < 256) :
    0x27D007 ||| data <<< 3 = 0x27D007 + data * 2 ^ 3 := by
  calc 0x27D007 ||| data <<< 3
      = 0x4FA <<< 11 ||| 7 ||| data <<< 3 := rfl
    _ = 0x4FA <<< 11 ||| (data <<< 3 ||| 7) := by ac_rfl
    _ = 0x4FA <<< 11 ||| (data * 2 ^ 3 + 7) := by rw [or_shift data 3 (by decide)]
    _ = 0x4FA * 2 ^ 11 + (data * 2 ^ 3 + 7) := by rw [or_shift 0x4FA 11 (by omega)]
    _ = 0x27D007 + data * 2 ^ 3 := by omega

theorem decode_store {addr : Nat} (small : addr < 64) (byte : UInt8) :
    decode ((0x240007 ||| addr <<< 11 ||| byte.toNat <<< 3) % 2 ^ 22) = .store addr byte := by
  have range := byte.toNat_lt
  have sum := store_sum small range
  have fits : 0x240007 + addr * 2 ^ 11 + byte.toNat * 2 ^ 3 < 2 ^ 22 := by omega
  have address : (0x240007 + addr * 2 ^ 11 + byte.toNat * 2 ^ 3) / 2 ^ 11 % 64 = addr := by omega
  have data : (0x240007 + addr * 2 ^ 11 + byte.toNat * 2 ^ 3) / 2 ^ 3 % 256 = byte.toNat := by omega
  rw [sum, Nat.mod_eq_of_lt fits]
  simp only [decode, address, data, sum, if_true, UInt8.ofNat_toNat]

theorem decode_select {block : Nat} (small : block < 64) :
    decode ((0x27D007 ||| block <<< 3) % 2 ^ 22) = .select block := by
  have sum : 0x27D007 ||| block <<< 3 = 0x27D007 + block * 2 ^ 3 := select_sum (by omega)
  have fits : 0x27D007 + block * 2 ^ 3 < 2 ^ 22 := by omega
  have data : (0x27D007 + block * 2 ^ 3) / 2 ^ 3 % 256 = block := by omega
  have address : (0x27D007 + block * 2 ^ 3) / 2 ^ 11 % 64 < 64 := Nat.mod_lt _ (by decide)
  rw [sum, Nat.mod_eq_of_lt fits]
  simp only [decode, data, sum, if_true]
  rw [store_sum address (by omega), if_neg (by omega)]

theorem tells_writeVector (vector : Nat) :
    Tells 22 (psocWriteVector vector) [.word (vector % 2 ^ 22)] :=
  tells_shiftOut vector 21

theorem waitAndPoll_low (low : Bool) (lines : Lines) :
    ((psocWaitAndPoll low).foldl Lines.after lines).clock = false := by
  cases low <;> rfl

def heard (vector : Nat) : Heard :=
  if vector = waitAndPoll then .apart else .word (vector % 2 ^ 22)

theorem tells_sendVectors (low : Nat → Bool) (vectors : List Nat) :
    Tells 22 (psocSendVectors low vectors) (vectors.map heard) := by
  induction vectors with
  | nil => exact tells_nil
  | cons vector vectors ih =>
    have first : Tells 22 (if vector = waitAndPoll then
        [.apart (psocWaitAndPoll (low vectors.length))] else psocWriteVector vector)
        [heard vector] := by
      unfold heard
      split
      · exact tells_apart (waitAndPoll_low _)
      · exact tells_writeVector vector
    exact first.append ih

def Means (events : List Event) (commands : List Command) : Prop :=
  ∃ words, Tells 22 events words ∧ words.map understand = commands

theorem Means.append {first second : List Event} {some more : List Command}
    (one : Means first some) (two : Means second more) : Means (first ++ second) (some ++ more) := by
  obtain ⟨words,tells,rfl⟩ := one
  obtain ⟨words',tells',rfl⟩ := two
  exact ⟨words ++ words',tells.append tells',List.map_append⟩

theorem Means.flatMap {events : Nat → List Event} {commands : Nat → List Command} {n : Nat}
    (each : ∀ i < n, Means (events i) (commands i)) :
    Means ((List.range n).flatMap events) ((List.range n).flatMap commands) := by
  induction n with
  | zero => exact ⟨[],tells_nil,rfl⟩
  | succ n ih =>
    have before := ih fun i less => each i (by omega)
    have last := each n (Nat.lt_succ_self n)
    simp only [List.range_succ, List.flatMap_append, List.flatMap_singleton]
    exact before.append last

theorem means_writeBlock (block : List UInt8) :
    Means (psocWriteBlock block) (stores fun addr => block.getD addr 0) := by
  rw [stores, List.map_eq_flatMap]
  apply Means.flatMap
  intro addr small
  refine ⟨_,tells_writeVector _,?_⟩
  rw [List.map_singleton, understand, decode_store small]

theorem means_table (low : Nat → Bool) {vectors : List Nat}
    (plain : vectors.map (fun vector => understand (heard vector)) = table vectors) :
    Means (psocSendVectors low vectors) (table vectors) := by
  refine ⟨_,tells_sendVectors low vectors,?_⟩
  rw [List.map_map]
  exact plain

theorem means_programming (low : Nat → Nat → Bool) (program secure : List UInt8) :
    Means (programming low program secure) (image program secure) := by
  apply Means.append
  · apply Means.flatMap
    intro block small
    have bytes (addr : Nat) : (program.drop (block * 64)).getD addr 0 =
        program.getD (64 * block + addr) 0 := by
      rw [List.getD_eq_getElem?_getD, List.getElem?_drop, Nat.mul_comm, ← List.getD_eq_getElem?_getD]
    have written := means_writeBlock (program.drop (block * 64))
    simp only [bytes] at written
    have selected : Means (psocWriteVector (0x27D007 ||| block <<< 3)) [.select block] := by
      refine ⟨_,tells_writeVector _,?_⟩
      rw [List.map_singleton, understand, decode_select small]
    exact (written.append selected).append (means_table _ (by decide))
  · exact (means_writeBlock secure).append (means_table _ (by decide))

theorem sendVectors_wait (low : Nat → Bool) (vectors : List Nat) :
    psocSendVectors low (vectors ++ [waitAndPoll]) =
      psocSendVectors (fun n => low (n + 1)) vectors ++ [.apart (psocWaitAndPoll (low 0))] := by
  induction vectors with
  | nil => rfl
  | cons vector vectors ih =>
    rw [List.cons_append, psocSendVectors, ih, psocSendVectors, List.append_assoc,
      List.length_append, List.length_singleton]

theorem idle_bulkErase (low : Nat → Bool) (r : Receiver) :
    (r.run 22 (psocSendVectors low psocBulkErase)).1.Idle := by
  have split : psocBulkErase = psocBulkErase.dropLast ++ [waitAndPoll] := rfl
  rw [split, sendVectors_wait]
  exact idle_apart r _ _ (waitAndPoll_low _)

/-- Whatever was on the lines before the bulk erase, and whichever waits end in time, behind it a
    controller understands the image, and nothing else. -/
theorem programming_decodes (r : Receiver) (erased : Nat → Bool) (low : Nat → Nat → Bool)
    (program secure : List UInt8) :
    commands (r.run 22 (psocSendVectors erased psocBulkErase)).1 (programming low program secure) =
      image program secure := by
  obtain ⟨words,tells,same⟩ := means_programming low program secure
  obtain ⟨last,ran,_⟩ := tells _ (idle_bulkErase erased r)
  rw [commands, ran, same]

end Psoc
