import SqueezeOS.StepRuns

/- The search for the first header of an AAC stream that comes from a pipe. The buffer keeps its
   data in place while the search goes over it, and is filled up when less than five bytes of it
   are left. -/
namespace Faad
open StepRuns

structure AacBuffer where
  buffer : List UInt8
  bytesIntoBuffer : Nat
  bytesConsumed : Nat
  fileOffset : Nat
  atEof : Bool
  infile : List UInt8
  deriving DecidableEq, Repr

/-- The start of an ADTS frame, or "ADIF". -/
def header (b0 b1 b2 b3 : UInt8) : Bool :=
  b0 == 0xff && (b1 &&& 0xf6) == 0xf0 || b0 == 65 && b1 == 68 && b2 == 73 && b3 == 70

inductive Loop where
  | looking (i : Nat) (b : AacBuffer)
  | returned (b : AacBuffer)

def lookforheader (fillBuffer : AacBuffer → AacBuffer) : Loop → Unit → Option Loop
  | .returned _, _ => none
  | .looking i b, _ =>
      if b.atEof then some (.returned b)
      else if b.bytesIntoBuffer > 4 then
        if header (b.buffer.getD (0 + i) 0) (b.buffer.getD (1 + i) 0) (b.buffer.getD (2 + i) 0)
            (b.buffer.getD (3 + i) 0) then some (.returned (fillBuffer b))
        else some (.looking (i + 1) { b with
          fileOffset := b.fileOffset + 1
          bytesConsumed := b.bytesConsumed + 1
          bytesIntoBuffer := b.bytesIntoBuffer - 1 })
      else some (.looking 0 (fillBuffer b))

def Returns (fillBuffer : AacBuffer → AacBuffer) (b c : AacBuffer) : Prop :=
  ∃ visited, Run (lookforheader fillBuffer) (.looking 0 b) visited (.returned c)

def firstRead (memory : Nat → UInt8) (n : Nat) (stream : List UInt8) : AacBuffer :=
  { buffer := stream.take n ++ (List.range (n - stream.length)).map memory
    bytesIntoBuffer := (stream.take n).length, bytesConsumed := 0, fileOffset := 0
    atEof := stream.length < n, infile := stream.drop n }

/-- "TAG", "LYRICSBEGIN" and "APETAGEX". -/
def tags : List (List UInt8) :=
  [[84, 65, 71], [76, 89, 82, 73, 67, 83, 66, 69, 71, 73, 78], [65, 80, 69, 84, 65, 71, 69, 88]]

def Tagged (bytes : List UInt8) : Prop := ∃ tag ∈ tags, tag <+: bytes

instance (bytes : List UInt8) : Decidable (Tagged bytes) :=
  inferInstanceAs (Decidable (∃ tag ∈ tags, tag <+: bytes))

def AacBuffer.refill (b : AacBuffer) : List UInt8 :=
  (b.buffer.drop b.bytesConsumed).take b.bytesIntoBuffer ++ b.infile.take b.bytesConsumed

structure Refilled (b c : AacBuffer) : Prop where
  size : c.buffer.length = b.buffer.length
  moved : b.refill <+: c.buffer
  into : c.bytesIntoBuffer = if Tagged b.refill then 0 else b.refill.length
  consumed : c.bytesConsumed = 0
  atEof : c.atEof = decide (b.infile.length < b.bytesConsumed)
  infile : c.infile = b.infile.drop b.bytesConsumed

/-- What the search relies on: nothing to do when nothing is consumed, and otherwise the unread
    bytes moved to the front, the buffer filled up, and emptied if a tag is at its start. -/
structure FillBuffer (fillBuffer : AacBuffer → AacBuffer) : Prop where
  idle : ∀ b, b.bytesConsumed = 0 → fillBuffer b = b
  refills : ∀ b, 0 < b.bytesConsumed → b.bytesConsumed + b.bytesIntoBuffer ≤ b.buffer.length →
    b.atEof = false → Refilled b (fillBuffer b)

def HeaderAt (stream : List UInt8) (h : Nat) : Prop :=
  ∃ b0 b1 b2 b3 b4 rest, stream.drop h = b0 :: b1 :: b2 :: b3 :: b4 :: rest ∧ header b0 b1 b2 b3

structure Earliest (stream : List UInt8) (h : Nat) : Prop where
  here : HeaderAt stream h
  first : ∀ j < h, ¬ HeaderAt stream j

/-- The buffer holds the stream from its byte h on, and what it does not hold is still to be
    read. -/
structure From (stream : List UInt8) (h : Nat) (c : AacBuffer) : Prop where
  consumed : c.bytesConsumed = 0
  some : 0 < c.bytesIntoBuffer
  whole : c.bytesIntoBuffer ≤ c.buffer.length
  bytes : c.buffer.take c.bytesIntoBuffer ++ c.infile = stream.drop h

def FindsHeader (fillBuffer : AacBuffer → AacBuffer) (memory : Nat → UInt8) (n : Nat)
    (stream : List UInt8) : Prop :=
  ∃ c, Returns fillBuffer (firstRead memory n stream) c ∧
    ∀ h, Earliest stream h → (∀ j < h, ¬ Tagged (stream.drop j)) → From stream h c

/-- When the first read fills the buffer, the buffer has more than four bytes, and no refill
    finds a tag at its start: the refills are n - 4 bytes apart. And the first header is at the
    start of a refill, or in a buffer that is full. -/
structure Reachable (n : Nat) (stream : List UInt8) : Prop where
  room : n ≤ stream.length → 4 < n
  untagged : ∀ k, 0 < k → k * (n - 4) + n ≤ stream.length →
    (∀ j < k * (n - 4), ¬ HeaderAt stream j) → ¬ Tagged ((stream.drop (k * (n - 4))).take n)
  inFull : ∀ h, Earliest stream h → (∀ j < h, ¬ Tagged (stream.drop j)) →
    h % (n - 4) = 0 ∨ h / (n - 4) * (n - 4) + n ≤ stream.length

theorem Tagged.of_take {bytes : List UInt8} {n : Nat} (tagged : Tagged (bytes.take n)) :
    Tagged bytes := by
  obtain ⟨tag,member,start⟩ := tagged
  exact ⟨tag,member,start.trans (List.take_prefix n bytes)⟩

theorem HeaderAt.untagged {stream : List UInt8} {h : Nat} (found : HeaderAt stream h) :
    ¬ Tagged (stream.drop h) := by
  obtain ⟨b0,b1,b2,b3,b4,rest,there,starts⟩ := found
  rintro ⟨tag,member,start⟩
  rw [there] at start
  simp only [tags, List.mem_cons, List.not_mem_nil, or_false] at member
  rcases member with rfl | rfl | rfl
  · simp only [List.cons_prefix_cons] at start
    rw [← start.1] at starts
    simp [header] at starts
  · simp only [List.cons_prefix_cons] at start
    rw [← start.1] at starts
    simp [header] at starts
  · simp only [List.cons_prefix_cons] at start
    rw [← start.1, ← start.2.1] at starts
    simp [header] at starts

theorem HeaderAt.inside {stream : List UInt8} {h : Nat} (found : HeaderAt stream h) :
    h + 5 ≤ stream.length := by
  obtain ⟨b0,b1,b2,b3,b4,rest,there,_⟩ := found
  have long : (stream.drop h).length = rest.length + 5 := by
    rw [there]
    rfl
  rw [List.length_drop] at long
  omega

theorem Earliest.unique {stream : List UInt8} {h h' : Nat} (one : Earliest stream h)
    (two : Earliest stream h') : h = h' := by
  rcases Nat.lt_trichotomy h h' with less | same | more
  · exact absurd one.here (two.first h less)
  · exact same
  · exact absurd two.here (one.first h' more)

/-- The search, i bytes behind the place p of the stream at which its buffer starts, with the
    buffer full. -/
structure At (n : Nat) (stream : List UInt8) (p i : Nat) (b : AacBuffer) : Prop where
  consumed : b.bytesConsumed = i
  into : b.bytesIntoBuffer + i = n
  atEof : b.atEof = false
  bytes : b.buffer = (stream.drop p).take n
  infile : b.infile = stream.drop (p + n)
  inside : p + n ≤ stream.length

section
variable {fillBuffer : AacBuffer → AacBuffer} {n p i : Nat} {stream : List UInt8} {b : AacBuffer}

theorem At.size (now : At n stream p i b) : b.buffer.length = n := by
  rw [now.bytes, List.length_take, List.length_drop]
  have := now.inside
  omega

theorem At.refill (now : At n stream p i b) : b.refill = (stream.drop (p + i)).take n := by
  have bound := now.into
  have left : b.bytesIntoBuffer = n - i := by omega
  have split : n = n - i + i := by omega
  have behind : p + n = p + i + (n - i) := by omega
  rw [AacBuffer.refill, now.consumed, left, now.bytes, now.infile, List.drop_take, List.take_take,
    Nat.min_self, List.drop_drop, behind]
  conv_rhs => rw [split, List.take_add, List.drop_drop]

theorem five_bytes (bytes : List UInt8) (long : 5 ≤ bytes.length) :
    ∃ b0 b1 b2 b3 b4 rest, bytes = b0 :: b1 :: b2 :: b3 :: b4 :: rest := by
  match bytes, long with
  | b0 :: b1 :: b2 :: b3 :: b4 :: rest, _ => exact ⟨b0,b1,b2,b3,b4,rest,rfl⟩

theorem At.header (now : At n stream p i b) (more : i + 4 < n) :
    header (b.buffer.getD (0 + i) 0) (b.buffer.getD (1 + i) 0) (b.buffer.getD (2 + i) 0)
      (b.buffer.getD (3 + i) 0) ↔ HeaderAt stream (p + i) := by
  have read (k : Nat) (less : k + i < n) :
      b.buffer.getD (k + i) 0 = (stream.drop (p + i)).getD k 0 := by
    rw [now.bytes, List.getD_eq_getElem?_getD, List.getElem?_take_of_lt less, List.getElem?_drop,
      List.getD_eq_getElem?_getD, List.getElem?_drop, Nat.add_assoc, Nat.add_comm k i]
  have inside := now.inside
  obtain ⟨b0,b1,b2,b3,b4,rest,there⟩ := five_bytes (stream.drop (p + i))
    (by rw [List.length_drop]; omega)
  rw [read 0 (by omega), read 1 (by omega), read 2 (by omega), read 3 (by omega), there]
  constructor
  · intro found
    exact ⟨b0,b1,b2,b3,b4,rest,there,found⟩
  · rintro ⟨c0,c1,c2,c3,c4,others,there',found⟩
    cases there.symm.trans there'
    exact found

theorem At.next (fillBuffer : AacBuffer → AacBuffer) (now : At n stream p i b)
    (more : i + 4 < n) (none : ¬ HeaderAt stream (p + i)) :
    ∃ c, lookforheader fillBuffer (.looking i b) () = some (.looking (i + 1) c) ∧
      At n stream p (i + 1) c := by
  have into := now.into
  refine ⟨{ b with
    fileOffset := b.fileOffset + 1
    bytesConsumed := b.bytesConsumed + 1
    bytesIntoBuffer := b.bytesIntoBuffer - 1 },?_,?_⟩
  · rw [lookforheader, if_neg (by simp [now.atEof]), if_pos (by omega),
      if_neg (mt (now.header more).mp none)]
  · refine ⟨congrArg (· + 1) now.consumed,?_,now.atEof,now.bytes,now.infile,now.inside⟩
    dsimp only
    omega

theorem At.scan (fillBuffer : AacBuffer → AacBuffer) (now : At n stream p i b)
    (least : i + 4 ≤ n) : ∃ j c visited, i ≤ j ∧ j + 4 ≤ n ∧
      Run (lookforheader fillBuffer) (.looking i b) visited (.looking j c) ∧
      At n stream p j c ∧ (∀ k, i ≤ k → k < j → ¬ HeaderAt stream (p + k)) ∧
      (j + 4 < n → HeaderAt stream (p + j)) := by
  induction left : n - i using Nat.strongRecOn generalizing i b with
  | ind m ih =>
    by_cases more : i + 4 < n
    · by_cases found : HeaderAt stream (p + i)
      · exact ⟨i,b,[],Nat.le_refl _,least,.done,now,by omega,fun _ => found⟩
      · obtain ⟨c,step,later⟩ := now.next fillBuffer more found
        obtain ⟨j,d,visited,after,room,run,there,none,here⟩ :=
          ih (n - (i + 1)) (by omega) later (by omega) rfl
        refine ⟨j,d,_,by omega,room,.step step run,there,?_,here⟩
        intro k behind before
        rcases Nat.lt_or_eq_of_le behind with less | rfl
        · exact none k less before
        · exact found
    · exact ⟨i,b,[],Nat.le_refl _,least,.done,now,by omega,fun less => absurd less more⟩

theorem At.refilled (fills : FillBuffer fillBuffer) (now : At n stream p i b) (some : 0 < i) :
    Refilled b (fillBuffer b) := by
  have into := now.into
  have consumed := now.consumed
  exact fills.refills b (by omega) (by rw [now.size]; omega) now.atEof

theorem At.refilled_infile {c : AacBuffer} (now : At n stream p i b) (refilled : Refilled b c) :
    c.infile = stream.drop (p + i + n) := by
  rw [refilled.infile, now.consumed, now.infile, List.drop_drop, Nat.add_right_comm]

theorem At.refilled_atEof {c : AacBuffer} (now : At n stream p i b) (refilled : Refilled b c) :
    c.atEof = decide (stream.length < p + i + n) := by
  have inside := now.inside
  rw [refilled.atEof, now.consumed, now.infile, List.length_drop]
  apply decide_eq_decide.mpr
  omega

theorem At.found (fills : FillBuffer fillBuffer) (now : At n stream p i b) (more : i + 4 < n)
    (here : HeaderAt stream (p + i)) :
    lookforheader fillBuffer (.looking i b) () = some (.returned (fillBuffer b)) ∧
      From stream (p + i) (fillBuffer b) := by
  have into := now.into
  have inside := here.inside
  constructor
  · rw [lookforheader, if_neg (by simp [now.atEof]), if_pos (by omega),
      if_pos ((now.header more).mpr here)]
  · by_cases first : i = 0
    · subst first
      rw [fills.idle b now.consumed]
      refine ⟨now.consumed,by omega,by rw [now.size]; omega,?_⟩
      rw [show b.bytesIntoBuffer = n from into, now.bytes, List.take_take, Nat.min_self, now.infile,
        ← List.drop_drop]
      exact List.take_append_drop n _
    · have refilled := now.refilled fills (by omega)
      have refill := now.refill
      have plain : ¬ Tagged b.refill := by
        rw [refill]
        exact mt Tagged.of_take here.untagged
      have count : (fillBuffer b).bytesIntoBuffer = b.refill.length := by
        rw [refilled.into, if_neg plain]
      refine ⟨refilled.consumed,?_,?_,?_⟩
      · rw [count, refill, List.length_take, List.length_drop]
        omega
      · rw [count]
        exact refilled.moved.length_le
      · rw [count, ← List.prefix_iff_eq_take.mp refilled.moved, refill,
          now.refilled_infile refilled, ← List.drop_drop (i := n)]
        exact List.take_append_drop n _

structure Stuck (b : AacBuffer) : Prop where
  atEof : b.atEof = false
  into : b.bytesIntoBuffer ≤ 4
  consumed : b.bytesConsumed = 0

def LooksAt (b : AacBuffer) (s : Loop) : Prop := ∃ i, s = .looking i b

theorem Stuck.never (fills : FillBuffer fillBuffer) (stuck : Stuck b) {c : AacBuffer}
    {visited : List (Loop × Unit)} :
    ¬ Run (lookforheader fillBuffer) (.looking i b) visited (.returned c) := by
  intro run
  have start : LooksAt b (.looking i b) := ⟨i,rfl⟩
  have stays : ∀ s a t, LooksAt b s → lookforheader fillBuffer s a = some t → LooksAt b t := by
    rintro s a t ⟨i,rfl⟩ next
    rw [lookforheader, if_neg (by simp [stuck.atEof]), if_neg (Nat.not_lt.mpr stuck.into),
      fills.idle b stuck.consumed] at next
    exact ⟨0,(Option.some.inj next).symm⟩
  obtain ⟨_,_,returned⟩ := run.invariant start stays
  cases returned

structure Ended (stream : List UInt8) (q : Nat) (c : AacBuffer) : Prop where
  consumed : c.bytesConsumed = 0
  infile : c.infile = []
  held : (c.bytesIntoBuffer = 0 ∧ Tagged (stream.drop q)) ∨
    (c.bytesIntoBuffer = (stream.drop q).length ∧ stream.drop q <+: c.buffer)

theorem Ended.here {q : Nat} (ended : Ended stream q b) (found : HeaderAt stream q) :
    From stream q b := by
  rcases ended.held with ⟨_,tagged⟩ | ⟨count,held⟩
  · exact absurd tagged found.untagged
  · have inside := found.inside
    refine ⟨ended.consumed,?_,?_,?_⟩
    · rw [count, List.length_drop]
      omega
    · rw [count]
      exact held.length_le
    · rw [count, ← List.prefix_iff_eq_take.mp held, ended.infile, List.append_nil]

theorem Ended.only {q h : Nat} (ended : Ended stream q b) (found : HeaderAt stream h)
    (starts : From stream h b) : h = q := by
  have inside := found.inside
  have some := starts.some
  have length := congrArg List.length starts.bytes
  rw [ended.infile, List.append_nil, List.length_take, List.length_drop,
    Nat.min_eq_left starts.whole] at length
  rcases ended.held with ⟨empty,_⟩ | ⟨count,_⟩
  · omega
  · rw [List.length_drop] at count
    omega

theorem At.ended {c : AacBuffer} (now : At n stream p i b) (refilled : Refilled b c)
    (short : stream.length < p + i + n) : c.atEof = true ∧ Ended stream (p + i) c := by
  have rest : b.refill = stream.drop (p + i) := by
    rw [now.refill]
    apply List.take_of_length_le
    rw [List.length_drop]
    omega
  refine ⟨?_,refilled.consumed,?_,?_⟩
  · rw [now.refilled_atEof refilled]
    exact decide_eq_true short
  · rw [now.refilled_infile refilled]
    exact List.drop_eq_nil_of_le (Nat.le_of_lt short)
  · rw [refilled.into, ← rest]
    by_cases tagged : Tagged b.refill
    · exact .inl ⟨if_pos tagged,tagged⟩
    · exact .inr ⟨if_neg tagged,refilled.moved⟩

theorem At.again {c : AacBuffer} (now : At n stream p i b) (refilled : Refilled b c)
    (full : p + i + n ≤ stream.length) (plain : ¬ Tagged ((stream.drop (p + i)).take n)) :
    At n stream (p + i) 0 c := by
  have refill := now.refill
  have count : b.refill.length = n := by
    rw [refill, List.length_take, List.length_drop]
    omega
  rw [← refill] at plain
  refine ⟨refilled.consumed,?_,?_,?_,now.refilled_infile refilled,full⟩
  · rw [refilled.into, if_neg plain, count]
    rfl
  · rw [now.refilled_atEof refilled]
    exact decide_eq_false (Nat.not_lt.mpr full)
  · rw [← refill]
    exact (refilled.moved.eq_of_length (by rw [count, refilled.size, now.size])).symm

theorem At.stuck {c : AacBuffer} (now : At n stream p i b) (refilled : Refilled b c)
    (full : p + i + n ≤ stream.length) (tagged : Tagged ((stream.drop (p + i)).take n)) :
    Stuck c := by
  rw [← now.refill] at tagged
  refine ⟨?_,?_,refilled.consumed⟩
  · rw [now.refilled_atEof refilled]
    exact decide_eq_false (Nat.not_lt.mpr full)
  · rw [refilled.into, if_pos tagged]
    exact Nat.zero_le 4

/-- With only four bytes left the buffer is filled up: it is full again, or stuck on a tag, or at
    the end of the stream. -/
theorem At.filled (fills : FillBuffer fillBuffer) (now : At n stream p i b) (last : i + 4 = n)
    (some : 0 < i) :
    lookforheader fillBuffer (.looking i b) () = .some (.looking 0 (fillBuffer b)) ∧
      (if stream.length < p + i + n then
        (fillBuffer b).atEof = true ∧ Ended stream (p + i) (fillBuffer b)
      else if Tagged ((stream.drop (p + i)).take n) then Stuck (fillBuffer b)
      else At n stream (p + i) 0 (fillBuffer b)) := by
  have into := now.into
  have refilled := now.refilled fills some
  constructor
  · rw [lookforheader, if_neg (by simp [now.atEof]), if_neg (by omega)]
  · split_ifs with short tagged
    · exact now.ended refilled short
    · exact now.stuck refilled (Nat.le_of_not_lt short) tagged
    · exact now.again refilled (Nat.le_of_not_lt short) tagged

end

section
variable (fillBuffer : AacBuffer → AacBuffer) (n : Nat) (stream : List UInt8)

/-- How the search ends, from some state of the loop on: at the first header, which is in a
    buffer that is full; at the end of the stream; or never, at a refill that starts with a
    tag. -/
inductive Outcome (s : Loop) : Prop where
  | found (h : Nat) (c : AacBuffer) (visited : List (Loop × Unit))
      (run : Run (lookforheader fillBuffer) s visited (.returned c)) (earliest : Earliest stream h)
      (starts : From stream h c) (full : h / (n - 4) * (n - 4) + n ≤ stream.length)
      (untagged : ∀ k, 0 < k → k * (n - 4) ≤ h → ¬ Tagged ((stream.drop (k * (n - 4))).take n))
  | ended (k : Nat) (c : AacBuffer) (visited : List (Loop × Unit))
      (run : Run (lookforheader fillBuffer) s visited (.returned c))
      (none : ∀ j < k * (n - 4), ¬ HeaderAt stream j) (ended : Ended stream (k * (n - 4)) c)
      (short : stream.length < k * (n - 4) + n)
      (untagged : ∀ j, 0 < j → j < k → ¬ Tagged ((stream.drop (j * (n - 4))).take n))
  | stuck (k i : Nat) (c : AacBuffer) (visited : List (Loop × Unit))
      (run : Run (lookforheader fillBuffer) s visited (.looking i c)) (stuck : Stuck c)
      (later : 0 < k) (full : k * (n - 4) + n ≤ stream.length)
      (none : ∀ j < k * (n - 4), ¬ HeaderAt stream j)
      (tagged : Tagged ((stream.drop (k * (n - 4))).take n))

end

section
variable {fillBuffer : AacBuffer → AacBuffer} {n : Nat} {stream : List UInt8} {b : AacBuffer}

theorem Outcome.after {s t : Loop} {before : List (Loop × Unit)}
    (first : Run (lookforheader fillBuffer) s before t) (later : Outcome fillBuffer n stream t) :
    Outcome fillBuffer n stream s := by
  cases later with
  | found h c visited run earliest starts full untagged =>
    exact .found h c _ (first.append run) earliest starts full untagged
  | ended k c visited run none ended short untagged =>
    exact .ended k c _ (first.append run) none ended short untagged
  | stuck k i c visited run stuck later full none tagged =>
    exact .stuck k i c _ (first.append run) stuck later full none tagged

theorem outcome_at (fills : FillBuffer fillBuffer) (room : 4 < n) {k : Nat}
    (now : At n stream (k * (n - 4)) 0 b) (none : ∀ j < k * (n - 4), ¬ HeaderAt stream j)
    (untagged : ∀ j, 0 < j → j ≤ k → ¬ Tagged ((stream.drop (j * (n - 4))).take n)) :
    Outcome fillBuffer n stream (.looking 0 b) := by
  induction left : stream.length - k * (n - 4) using Nat.strongRecOn generalizing k b with
  | ind m ih =>
    have inside := now.inside
    obtain ⟨j,c,visited,_,least,run,there,between,here⟩ := now.scan fillBuffer (by omega)
    have before : ∀ h < k * (n - 4) + j, ¬ HeaderAt stream h := by
      intro h less
      by_cases earlier : h < k * (n - 4)
      · exact none h earlier
      · have place := between (h - k * (n - 4)) (by omega) (by omega)
        rwa [Nat.add_sub_cancel' (by omega)] at place
    by_cases more : j + 4 < n
    · obtain ⟨step,starts⟩ := there.found fills more (here more)
      have quotient : (k * (n - 4) + j) / (n - 4) = k := by
        rw [Nat.mul_comm, Nat.mul_add_div (by omega), Nat.div_eq_of_lt (by omega), Nat.add_zero]
      refine .found _ _ _ (run.append (.step step .done)) ⟨here more,before⟩ starts ?_ ?_
      · rw [quotient]
        exact inside
      · intro k' later reached
        have least := (Nat.le_div_iff_mul_le (Nat.sub_pos_of_lt room)).mpr reached
        rw [quotient] at least
        exact untagged k' later least
    · have last : j + 4 = n := by omega
      have next : k * (n - 4) + j = (k + 1) * (n - 4) := by
        rw [Nat.add_mul]
        omega
      obtain ⟨step,filled⟩ := there.filled fills last (by omega)
      rw [next] at filled before
      have reached := run.append (.step step .done)
      split_ifs at filled with short tagged
      · obtain ⟨eof,ended⟩ := filled
        have returns : lookforheader fillBuffer (.looking 0 (fillBuffer c)) () =
            some (.returned (fillBuffer c)) := by
          rw [lookforheader, if_pos eof]
        refine .ended (k + 1) _ _ (reached.append (.step returns .done)) before ended short ?_
        intro i later less
        exact untagged i later (by omega)
      · exact .stuck (k + 1) 0 _ _ reached filled (by omega) (by omega) before tagged
      · apply Outcome.after reached
        refine ih _ (by rw [Nat.add_mul]; omega) filled before ?_ rfl
        intro i later least
        rcases Nat.lt_or_eq_of_le least with less | rfl
        · exact untagged i later (by omega)
        · exact tagged

theorem firstRead_short (memory : Nat → UInt8) (short : stream.length < n) :
    Ended stream (0 * (n - 4)) (firstRead memory n stream) := by
  have all : stream.take n = stream := List.take_of_length_le (by omega)
  rw [Nat.zero_mul]
  refine ⟨rfl,List.drop_eq_nil_of_le (by omega),.inr ⟨?_,?_⟩⟩
  · simp only [firstRead, all, List.drop_zero]
  · simp only [firstRead, all, List.drop_zero]
    exact List.prefix_append _ _

theorem firstRead_full (memory : Nat → UInt8) (full : n ≤ stream.length) :
    At n stream (0 * (n - 4)) 0 (firstRead memory n stream) := by
  have none : n - stream.length = 0 := by omega
  rw [Nat.zero_mul]
  refine ⟨rfl,?_,?_,?_,?_,by omega⟩
  · simp only [firstRead, List.length_take]
    omega
  · exact decide_eq_false (by omega)
  · simp [firstRead, none]
  · simp [firstRead]

theorem outcome_firstRead (fills : FillBuffer fillBuffer) (memory : Nat → UInt8)
    (room : n ≤ stream.length → 4 < n) :
    Outcome fillBuffer n stream (.looking 0 (firstRead memory n stream)) := by
  by_cases full : n ≤ stream.length
  · exact outcome_at fills (room full) (firstRead_full memory full) (by simp) (by omega)
  · have short : stream.length < n := by omega
    have eof : (firstRead memory n stream).atEof = true := decide_eq_true short
    have returns : lookforheader fillBuffer (.looking 0 (firstRead memory n stream)) () =
        some (.returned (firstRead memory n stream)) := by
      rw [lookforheader, if_pos eof]
    exact .ended 0 _ _ (.step returns .done) (by simp) (firstRead_short memory short) (by omega)
      (by omega)

theorem earliest_from {q h : Nat} (none : ∀ j < q, ¬ HeaderAt stream j)
    (earliest : Earliest stream h) : q ≤ h := by
  by_contra before
  exact none h (by omega) earliest.here

theorem last_refill {k h length : Nat} (least : k * (n - 4) ≤ h) (inside : h + 5 ≤ length)
    (short : length < k * (n - 4) + n)
    (inFull : h % (n - 4) = 0 ∨ h / (n - 4) * (n - 4) + n ≤ length) : h = k * (n - 4) := by
  have positive : 0 < n - 4 := by
    by_contra none
    have zero : n - 4 = 0 := by omega
    rw [zero] at short
    omega
  have quotient : h / (n - 4) = k := by
    apply Nat.div_eq_of_lt_le least
    rw [Nat.add_mul]
    omega
  rcases inFull with multiple | full
  · rw [← Nat.div_add_mod h (n - 4), quotient, multiple, Nat.mul_comm]
    rfl
  · rw [quotient] at full
    omega

theorem room_of_returns (fills : FillBuffer fillBuffer) {memory : Nat → UInt8} {c : AacBuffer}
    (returns : Returns fillBuffer (firstRead memory n stream) c) (full : n ≤ stream.length) :
    4 < n := by
  by_contra small
  obtain ⟨visited,run⟩ := returns
  have now := firstRead_full (n := n) memory full
  have stuck : Stuck (firstRead memory n stream) :=
    ⟨now.atEof,by have := now.into; omega,now.consumed⟩
  exact stuck.never fills run

end

theorem FindsHeader.reachable {fillBuffer : AacBuffer → AacBuffer} (fills : FillBuffer fillBuffer)
    {memory : Nat → UInt8} {n : Nat} {stream : List UInt8}
    (finds : FindsHeader fillBuffer memory n stream) : Reachable n stream := by
  obtain ⟨c,⟨before,run⟩,finds⟩ := finds
  have room := room_of_returns fills ⟨before,run⟩
  cases outcome_firstRead fills memory room with
  | found h d visited run' earliest starts full untagged =>
    refine ⟨room,?_,?_⟩
    · intro k later inside none
      exact untagged k later (earliest_from none earliest)
    · intro h' earliest' _
      cases earliest.unique earliest'
      exact .inr full
  | ended k d visited run' none ended short untagged =>
    obtain ⟨_,same⟩ := run.stops_unique run' (fun _ => rfl) (fun _ => rfl)
    cases same
    refine ⟨room,?_,?_⟩
    · intro j later inside _
      apply untagged j later
      by_contra beyond
      have := Nat.mul_le_mul_right (n - 4) (Nat.le_of_not_lt beyond)
      omega
    · intro h earliest plain
      have place := ended.only earliest.here (finds h earliest plain)
      rw [place]
      exact .inl (Nat.mul_mod_left k (n - 4))
  | stuck k i d visited run' stuck later full none tagged =>
    obtain ⟨rest,ahead⟩ := run'.stop_ahead run fun _ => rfl
    exact absurd ahead (stuck.never fills)

theorem Reachable.findsHeader {fillBuffer : AacBuffer → AacBuffer} (fills : FillBuffer fillBuffer)
    (memory : Nat → UInt8) {n : Nat} {stream : List UInt8} (reachable : Reachable n stream) :
    FindsHeader fillBuffer memory n stream := by
  cases outcome_firstRead fills memory reachable.room with
  | found h d visited run earliest starts full untagged =>
    refine ⟨d,⟨_,run⟩,?_⟩
    intro h' earliest' _
    cases earliest.unique earliest'
    exact starts
  | ended k d visited run none ended short untagged =>
    refine ⟨d,⟨_,run⟩,?_⟩
    intro h earliest plain
    have place := last_refill (earliest_from none earliest) earliest.here.inside short
      (reachable.inFull h earliest plain)
    rw [place]
    exact ended.here (place ▸ earliest.here)
  | stuck k i d visited run stuck later full none tagged =>
    exact absurd tagged (reachable.untagged k later full none)

theorem findsHeader_iff {fillBuffer : AacBuffer → AacBuffer} (fills : FillBuffer fillBuffer)
    (memory : Nat → UInt8) (n : Nat) (stream : List UInt8) :
    FindsHeader fillBuffer memory n stream ↔ Reachable n stream := by
  constructor
  · intro finds
    exact finds.reachable fills
  · intro reachable
    exact reachable.findsHeader fills memory

def refillBuffer (b : AacBuffer) : AacBuffer :=
  if b.bytesConsumed = 0 then b
  else
    { buffer := b.refill ++ b.buffer.drop b.refill.length
      bytesIntoBuffer := if Tagged b.refill then 0 else b.refill.length
      bytesConsumed := 0, fileOffset := b.fileOffset
      atEof := b.infile.length < b.bytesConsumed, infile := b.infile.drop b.bytesConsumed }

theorem refillBuffer_fills : FillBuffer refillBuffer := by
  constructor
  · intro b idle
    rw [refillBuffer, if_pos idle]
  · intro b consumed room _
    have short : b.refill.length ≤ b.bytesIntoBuffer + b.bytesConsumed := by
      rw [AacBuffer.refill, List.length_append, List.length_take, List.length_take]
      omega
    rw [refillBuffer, if_neg (by omega)]
    refine ⟨?_,List.prefix_append _ _,rfl,rfl,rfl,rfl⟩
    rw [List.length_append, List.length_drop]
    omega

theorem header_behind_a_byte :
    FindsHeader refillBuffer (fun _ => 0) 8 [0, 0xff, 0xf1, 0x50, 0x80, 0, 0, 0, 0] := by
  apply (findsHeader_iff refillBuffer_fills (fun _ => 0) 8 _).mpr
  refine ⟨by decide,?_,?_⟩
  · intro k later inside
    simp only [List.length_cons, List.length_nil] at inside
    omega
  · intro h earliest _
    have inside := earliest.here.inside
    simp only [List.length_cons, List.length_nil] at inside ⊢
    omega

theorem zeros_no_header {count j : Nat} {rest : List UInt8} (less : j < count) :
    ¬ HeaderAt (List.replicate count 0 ++ rest) j := by
  rintro ⟨b0,b1,b2,b3,b4,more,there,starts⟩
  have first : (List.replicate count (0 : UInt8) ++ rest)[j]? = some b0 := by
    rw [← Nat.add_zero j, ← List.getElem?_drop, there]
    rfl
  rw [List.getElem?_append_left (by simpa using less), List.getElem?_replicate_of_lt less] at first
  cases first
  simp [header] at starts

theorem tagged_refill {w m : Nat} (long : w + 4 ≤ m + 3) :
    ¬ Reachable (w + 4) (List.replicate w 0 ++ ([84, 65, 71] ++ List.replicate m 0)) := by
  intro reachable
  have apart : 1 * (w + 4 - 4) = w := by omega
  refine reachable.untagged 1 (by omega) ?_ ?_ ?_
  · rw [apart, List.length_append, List.length_append, List.length_replicate, List.length_replicate,
      List.length_cons, List.length_cons, List.length_cons, List.length_nil]
    omega
  · rw [apart]
    intro j less
    exact zeros_no_header less
  · rw [apart, List.drop_left' List.length_replicate]
    refine ⟨[84, 65, 71],by simp [tags],?_⟩
    apply List.prefix_take_iff.mpr
    exact ⟨List.prefix_append _ _,by simp⟩

/-- In a buffer of 64 channels with 768 bytes each, a header behind a single byte is missed when
    the stream is shorter than the buffer, and a tag at the first refill is never left behind. -/
theorem headers_missed :
    ¬ FindsHeader refillBuffer (fun _ => 0) 49152 [0, 0xff, 0xf1, 0x50, 0x80, 0] ∧
    ¬ FindsHeader refillBuffer (fun _ => 0) 49152
      (List.replicate 49148 0 ++ ([84, 65, 71] ++ List.replicate 49149 0)) := by
  constructor
  · intro finds
    have reachable := finds.reachable refillBuffer_fills
    have earliest : Earliest (List.replicate 1 0 ++ [0xff, 0xf1, 0x50, 0x80, 0]) 1 := by
      refine ⟨⟨0xff,0xf1,0x50,0x80,0,[],rfl,rfl⟩,?_⟩
      intro j less
      exact zeros_no_header less
    rcases reachable.inFull 1 earliest (by decide) with multiple | full
    · omega
    · simp only [List.length_cons, List.length_nil] at full
      omega
  · intro finds
    exact tagged_refill (by decide) (finds.reachable refillBuffer_fills)

end Faad
