import SqueezeOS.UBoot.Stores

/- Well-formed images of the environment, and what each loop of fw_env.c does on one. An
   image is the entries one after the other and one more NUL, or two NULs when there is
   none; the bytes behind it are arbitrary. -/
namespace FwEnv

structure Entry where
  name : Bytes
  value : Bytes
  nameText : ∀ c ∈ name, c ≠ 0 ∧ c ≠ equals
  valueText : ∀ c ∈ value, c ≠ 0

def Entry.text (e : Entry) : Bytes := e.name ++ equals :: e.value

def body : List Entry → Bytes
  | [] => []
  | e :: es => e.text ++ 0 :: body es

def encode (es : List Entry) : Bytes := if es = [] then [0, 0] else body es ++ [0]

structure WellFormed (size : Nat) (m : Bytes) (es : List Entry) : Prop where
  distinct : (es.map Entry.name).Nodup
  fits : (encode es).length ≤ size
  mapped : size ≤ m.length
  laid : encode es <+: m

/-- The part of a queried name that envmatch compares. -/
def Arg.key (s : Arg) : Bytes := s.text.takeWhile (· ≠ equals)

theorem Entry.text_noNul (e : Entry) : ∀ c ∈ e.text, c ≠ 0 := by
  intro c member
  rcases List.mem_append.mp member with inName | behind
  · exact (e.nameText c inName).1
  · rcases List.mem_cons.mp behind with rfl | inValue
    · decide
    · exact e.valueText c inValue

theorem Entry.text_cons (e : Entry) : ∃ c rest, e.text = c :: rest ∧ c ≠ 0 := by
  obtain ⟨c,rest,whole⟩ : ∃ c rest, e.text = c :: rest :=
    List.exists_cons_of_ne_nil (by simp [Entry.text])
  exact ⟨c,rest,whole,e.text_noNul c (by simp [whole])⟩

theorem body_append (as bs : List Entry) : body (as ++ bs) = body as ++ body bs := by
  induction as with
  | nil => rfl
  | cons a as ih => simp [body, ih]

theorem body_cons_pos (e : Entry) (es : List Entry) : 0 < (body (e :: es)).length := by
  rw [body, List.length_append, List.length_cons]
  omega

theorem encode_length_pos (es : List Entry) : (body es).length < (encode es).length := by
  cases es with
  | nil => simp [body, encode]
  | cons e es => simp [encode]

theorem encode_prefix_iff (es : List Entry) (m : Bytes) :
    encode es <+: m ↔ ∃ rest, m = body es ++ 0 :: rest ∧ (es = [] → rest.head? = some 0) := by
  cases es with
  | nil =>
    constructor
    · rintro ⟨rest,rfl⟩
      exact ⟨0 :: rest,by simp [encode, body],by simp⟩
    · rintro ⟨rest,rfl,empty⟩
      obtain ⟨tail,rfl⟩ := List.head?_eq_some_iff.mp (empty rfl)
      exact ⟨tail,by simp [encode, body]⟩
  | cons e es =>
    constructor
    · rintro ⟨rest,rfl⟩
      exact ⟨rest,by simp [encode],by simp⟩
    · rintro ⟨rest,rfl,-⟩
      exact ⟨rest,by simp [encode]⟩

@[simp] theorem load_at (p : Bytes) (c : UInt8) (s : Bytes) : load (p ++ c :: s) p.length = .ok c := by
  simp [load]

@[simp] theorem store_at (p : Bytes) (c d : UInt8) (s : Bytes) :
    store (p ++ c :: s) p.length d = .ok (p ++ d :: s) := by
  simp [store]

theorem envmatch_text (t after name rest : Bytes) (noNul : ∀ c ∈ t, c ≠ 0)
    (nameText : ∀ c ∈ name, c ≠ 0 ∧ c ≠ equals) :
    envmatch (t ++ 0 :: after) (name ++ equals :: rest) =
      .ok (if t.takeWhile (· ≠ equals) = name then some rest else none) := by
  induction name generalizing t with
  | nil =>
    cases t with
    | nil => simp [envmatch, equals]
    | cons c t =>
      have : c ≠ 0 := noNul c (by simp)
      by_cases here : c = equals
      · simp [envmatch, here]
      · simp [envmatch, here, this]
  | cons d name ih =>
    have different : d ≠ 0 ∧ d ≠ equals := nameText d (by simp)
    cases t with
    | nil => simp [envmatch, different, Ne.symm different.1]
    | cons c t =>
      have : c ≠ 0 := noNul c (by simp)
      have later := ih t (fun x h => noNul x (by simp [h])) (fun x h => nameText x (by simp [h]))
      by_cases same : c = d
      · subst same
        simp only [List.cons_append, envmatch, if_true, different.2, if_false, later]
        simp [different.2]
      · by_cases here : c = equals
        · simp [envmatch, here, Ne.symm different.2, different.2]
        · simp [envmatch, same, this, here]

theorem envmatch_entry (s : Arg) (e : Entry) (tail : Bytes) :
    envmatch s.bytes (e.text ++ 0 :: tail) =
      .ok (if s.key = e.name then some (e.value ++ 0 :: tail) else none) := by
  have := envmatch_text s.text s.after e.name (e.value ++ 0 :: tail) s.noNul e.nameText
  simpa [Arg.bytes, Arg.key, Entry.text] using this

theorem findEnd_text (size nxt : Nat) (t rest : Bytes) (noNul : ∀ c ∈ t, c ≠ 0)
    (inside : nxt + t.length ≤ size) : findEnd size nxt (t ++ 0 :: rest) = .ok t.length := by
  induction t generalizing nxt with
  | nil => simp [findEnd]
  | cons c t ih =>
    have nonzero : c ≠ 0 := noNul c (by simp)
    have bound : ¬ size ≤ nxt := by
      simp only [List.length_cons] at inside
      omega
    have later := ih (nxt + 1) (fun x h => noNul x (by simp [h])) (by simp at inside; omega)
    simp [findEnd, nonzero, bound, later, Except.map]

theorem search_end (size : Nat) (name p rest : Bytes) (nxt : Nat) (oldval : Option Bytes) :
    search size name (p ++ 0 :: rest) p.length nxt oldval =
      .ok { env := p.length, nxt := nxt, oldval := oldval } := by
  rw [search]
  simp

theorem search_entry (size : Nat) (s : Arg) (p : Bytes) (e : Entry) (tail : Bytes) (nxt : Nat)
    (oldval : Option Bytes) (inside : p.length + e.text.length ≤ size) :
    search size s.bytes (p ++ (e.text ++ 0 :: tail)) p.length nxt oldval =
      if s.key = e.name then
        .ok { env := p.length, nxt := p.length + e.text.length,
              oldval := some (e.value ++ 0 :: tail) }
      else search size s.bytes (p ++ (e.text ++ 0 :: tail)) (p.length + e.text.length + 1)
        (p.length + e.text.length) none := by
  obtain ⟨c,rest,starts,nonzero⟩ := e.text_cons
  rw [search]
  have first : (p ++ (e.text ++ 0 :: tail))[p.length]? ≠ some 0 := by simp [starts, nonzero]
  have drop : (p ++ (e.text ++ 0 :: tail)).drop p.length = e.text ++ 0 :: tail := by simp
  have within : p.length < (p ++ (e.text ++ 0 :: tail)).length := by simp [starts]
  simp only [within, if_true, first, if_false, drop, envmatch_entry,
    findEnd_text size p.length e.text tail e.text_noNul inside]
  by_cases same : s.key = e.name
  · simp [same, bind, Except.bind]
  · simp [same, bind, Except.bind]

theorem search_missing (size : Nat) (s : Arg) (p : Bytes) (es : List Entry) (rest : Bytes)
    (nxt : Nat) (oldval : Option Bytes) (missing : ∀ e ∈ es, e.name ≠ s.key)
    (inside : p.length + (body es).length ≤ size) :
    ∃ last, search size s.bytes (p ++ (body es ++ 0 :: rest)) p.length nxt oldval =
      .ok { env := p.length + (body es).length, nxt := last,
            oldval := if es = [] then oldval else none } ∧ (es = [] → last = nxt) := by
  induction es generalizing p nxt oldval with
  | nil =>
    refine ⟨nxt,?_,fun _ => rfl⟩
    simpa [body] using search_end size s.bytes p rest nxt oldval
  | cons e es ih =>
    simp only [body, List.length_append, List.length_cons] at inside
    have other : s.key ≠ e.name := fun same => missing e (by simp) same.symm
    have here := search_entry size s p e (body es ++ 0 :: rest) nxt oldval (by omega)
    obtain ⟨last,later,-⟩ := ih (p ++ (e.text ++ [0])) (p.length + e.text.length) none
      (fun x member => missing x (by simp [member]))
      (by simp only [List.length_append, List.length_singleton]; omega)
    have onward : search size s.bytes (p ++ (e.text ++ 0 :: (body es ++ 0 :: rest)))
        (p.length + e.text.length + 1) (p.length + e.text.length) none =
        .ok { env := p.length + (e.text.length + 1) + (body es).length, nxt := last,
              oldval := none } := by
      simpa [Nat.add_assoc] using later
    refine ⟨last,?_,by simp⟩
    simp only [body, List.append_assoc, List.cons_append, here, other, if_false, onward]
    simp [Nat.add_assoc, Nat.add_comm, Nat.add_left_comm]

theorem search_found (size : Nat) (s : Arg) (p : Bytes) (as bs : List Entry) (e : Entry)
    (rest : Bytes) (nxt : Nat) (oldval : Option Bytes) (missing : ∀ a ∈ as, a.name ≠ s.key)
    (named : s.key = e.name) (inside : p.length + (body (as ++ e :: bs)).length ≤ size) :
    search size s.bytes (p ++ (body (as ++ e :: bs) ++ rest)) p.length nxt oldval =
      .ok { env := p.length + (body as).length,
            nxt := p.length + (body as).length + e.text.length,
            oldval := some (e.value ++ 0 :: (body bs ++ rest)) } := by
  induction as generalizing p nxt oldval with
  | nil =>
    simp only [List.nil_append, body, List.length_append, List.length_cons] at inside
    have here := search_entry size s p e (body bs ++ rest) nxt oldval (by omega)
    simpa [body, named] using here
  | cons a as ih =>
    simp only [List.cons_append, body, List.length_append, List.length_cons] at inside
    have other : s.key ≠ a.name := fun same => missing a (by simp) same.symm
    have here := search_entry size s p a (body (as ++ e :: bs) ++ rest) nxt oldval (by omega)
    have later := ih (p ++ (a.text ++ [0])) (p.length + a.text.length) none
      (fun x member => missing x (by simp [member]))
      (by simp only [List.length_append, List.length_singleton]; omega)
    simp only [List.cons_append, body, List.append_assoc, here, other, if_false]
    simpa [Nat.add_assoc, Nat.add_comm, Nat.add_left_comm] using later

theorem moveDown_step {m : Bytes} {env nxt : Nat} {c : UInt8} (here : m[nxt]? = some c)
    (inside : env < m.length) :
    moveDown m env nxt =
      if c = 0 then do
        if (← load (m.set env c) (nxt + 1)) = 0 then .ok (m.set env c, env)
        else moveDown (m.set env c) (env + 1) (nxt + 1)
      else moveDown (m.set env c) (env + 1) (nxt + 1) := by
  obtain ⟨bound,rfl⟩ := List.getElem?_eq_some_iff.mp here
  rw [moveDown]
  simp [inside, bound]

/-- The byte behind the gap goes to the place before it, and the gap turns round by one. -/
theorem set_turns (p : Bytes) (g c : UInt8) (gap s : Bytes) :
    (p ++ (g :: gap ++ c :: s)).set p.length c = (p ++ [c]) ++ (gap ++ [c] ++ s) := by
  simp

theorem byte_behind (p : Bytes) (g c : UInt8) (gap s : Bytes) :
    (p ++ (g :: gap ++ c :: s))[p.length + (gap.length + 1)]? = some c := by
  have : p ++ (g :: gap ++ c :: s) = (p ++ g :: gap) ++ c :: s := by simp
  rw [this, List.getElem?_append_right (by simp)]
  simp

theorem moveDown_text (p g t s : Bytes) (gap : g ≠ []) (noNul : ∀ c ∈ t, c ≠ 0) :
    ∃ turned : Bytes, turned.length = g.length ∧
      moveDown (p ++ (g ++ (t ++ s))) p.length (p.length + g.length) =
        moveDown ((p ++ t) ++ (turned ++ s)) (p ++ t).length ((p ++ t).length + g.length) := by
  induction t generalizing p g with
  | nil => exact ⟨g,rfl,by simp⟩
  | cons c t ih =>
    obtain ⟨first,gs,rfl⟩ := List.exists_cons_of_ne_nil gap
    have nonzero : c ≠ 0 := noNul c (by simp)
    obtain ⟨turned,count,later⟩ := ih (p ++ [c]) (gs ++ [c]) (by simp)
      (fun x member => noNul x (by simp [member]))
    refine ⟨turned,by simpa using count,?_⟩
    have step := moveDown_step (byte_behind p first c gs (t ++ s))
      (show p.length < (p ++ (first :: gs ++ c :: (t ++ s))).length by simp)
    rw [if_neg nonzero, set_turns] at step
    simp only [List.cons_append, List.length_cons] at step ⊢
    rw [step]
    simpa [Nat.add_assoc, Nat.add_comm, Nat.add_left_comm] using later

theorem moveDown_nul (p g : Bytes) (d : UInt8) (s : Bytes) (gap : g ≠ []) :
    ∃ turned : Bytes, turned.length = g.length ∧
      moveDown (p ++ (g ++ 0 :: d :: s)) p.length (p.length + g.length) =
        if d = 0 then .ok (p ++ 0 :: (turned ++ d :: s), p.length)
        else moveDown ((p ++ [0]) ++ (turned ++ d :: s)) (p ++ [0]).length
          ((p ++ [0]).length + g.length) := by
  obtain ⟨first,gs,rfl⟩ := List.exists_cons_of_ne_nil gap
  refine ⟨gs ++ [0],by simp,?_⟩
  have step := moveDown_step (byte_behind p first 0 gs (d :: s))
    (show p.length < (p ++ (first :: gs ++ 0 :: d :: s)).length by simp)
  rw [if_pos rfl, set_turns] at step
  have next : load (p ++ [0] ++ (gs ++ [0] ++ d :: s)) (p.length + (gs.length + 1) + 1) = .ok d := by
    have := load_at (p ++ [0] ++ (gs ++ [0])) d s
    simpa [Nat.add_assoc, Nat.add_comm, Nat.add_left_comm] using this
  rw [next] at step
  simp only [List.cons_append, List.length_cons] at step ⊢
  rw [step]
  simp [bind, Except.bind, Nat.add_comm, Nat.add_left_comm]

theorem ne_nil_of_length {g turned : Bytes} (count : turned.length = g.length) (gap : g ≠ []) :
    turned ≠ [] := by
  intro empty
  rw [empty] at count
  exact gap (List.length_eq_zero_iff.mp count.symm)

theorem moveDown_entries (p g : Bytes) (e : Entry) (es : List Entry) (s : Bytes) (gap : g ≠ []) :
    ∃ turned : Bytes, turned.length = g.length ∧
      moveDown (p ++ (g ++ (body (e :: es) ++ 0 :: s))) p.length (p.length + g.length) =
        .ok (p ++ (body (e :: es) ++ (turned ++ 0 :: s)),
          p.length + (body (e :: es)).length - 1) := by
  induction es generalizing p g e with
  | nil =>
    obtain ⟨middle,count,texts⟩ := moveDown_text p g e.text (0 :: 0 :: s) gap e.text_noNul
    obtain ⟨turned,same,ends⟩ := moveDown_nul (p ++ e.text) middle 0 s (ne_nil_of_length count gap)
    refine ⟨turned,same.trans count,?_⟩
    rw [if_pos rfl, count] at ends
    simp only [body, List.append_assoc, List.cons_append, List.nil_append] at texts ends ⊢
    rw [texts, ends]
    simp
  | cons next es ih =>
    obtain ⟨c,rest,starts,nonzero⟩ := next.text_cons
    obtain ⟨middle,count,texts⟩ :=
      moveDown_text p g e.text (0 :: (body (next :: es) ++ 0 :: s)) gap e.text_noNul
    obtain ⟨turned,same,ends⟩ := moveDown_nul (p ++ e.text) middle c
      (rest ++ 0 :: (body es ++ 0 :: s)) (ne_nil_of_length count gap)
    obtain ⟨final,last,later⟩ := ih (p ++ e.text ++ [0]) turned next
      (ne_nil_of_length (same.trans count) gap)
    refine ⟨final,last.trans (same.trans count),?_⟩
    rw [if_neg nonzero, count] at ends
    rw [same.trans count] at later
    have whole : body (e :: next :: es) = e.text ++ 0 :: body (next :: es) := rfl
    have head : body (next :: es) ++ 0 :: s = c :: (rest ++ 0 :: (body es ++ 0 :: s)) := by
      simp [body, starts]
    rw [head] at texts later
    simp only [whole, List.append_assoc, List.cons_append, List.nil_append, head] at texts ends later ⊢
    rw [texts, ends, later]
    have positive := body_cons_pos next es
    simp only [List.length_append, List.length_cons, List.length_nil, Except.ok.injEq,
      Prod.mk.injEq, true_and]
    omega

theorem deleteEntry_last (p : Bytes) (e : Entry) (rest : Bytes) :
    ∃ tail, tail.length = e.text.length + rest.length ∧
      deleteEntry (p ++ (e.text ++ 0 :: 0 :: rest)) p.length (p.length + e.text.length) =
        .ok (p ++ 0 :: 0 :: tail, p.length + 1) := by
  obtain ⟨c,text,starts,-⟩ := e.text_cons
  obtain ⟨d,tail,behind⟩ : ∃ d tail, text ++ 0 :: 0 :: rest = d :: tail :=
    List.exists_cons_of_ne_nil (by simp)
  have count : tail.length = e.text.length + rest.length := by
    have := congrArg List.length behind
    simp only [List.length_append, List.length_cons] at this
    simp only [starts, List.length_cons]
    omega
  have next : load (p ++ (e.text ++ 0 :: 0 :: rest)) (p.length + e.text.length + 1) = .ok 0 := by
    have := load_at (p ++ (e.text ++ [0])) 0 rest
    simpa [Nat.add_assoc] using this
  have second : store (p ++ 0 :: d :: tail) (p.length + 1) 0 = .ok (p ++ 0 :: 0 :: tail) := by
    have := store_at (p ++ [0]) d 0 tail
    simpa using this
  refine ⟨tail,count,?_⟩
  rw [deleteEntry, next]
  simp [starts, behind, bind, Except.bind, Except.map, second]

theorem deleteEntry_inner (p : Bytes) (e b : Entry) (bs : List Entry) (rest : Bytes) :
    ∃ tail, tail.length = e.text.length + 1 + rest.length ∧
      deleteEntry (p ++ (e.text ++ 0 :: (body (b :: bs) ++ 0 :: rest))) p.length
          (p.length + e.text.length) =
        .ok (p ++ (body (b :: bs) ++ 0 :: tail), p.length + (body (b :: bs)).length) := by
  obtain ⟨c,text,starts,nonzero⟩ := b.text_cons
  have next : load (p ++ (e.text ++ 0 :: (body (b :: bs) ++ 0 :: rest)))
      (p.length + e.text.length + 1) = .ok c := by
    have := load_at (p ++ (e.text ++ [0])) c (text ++ 0 :: (body bs ++ 0 :: rest))
    simpa [body, starts, Nat.add_assoc] using this
  obtain ⟨turned,count,moved⟩ := moveDown_entries p (e.text ++ [0]) b bs rest (by simp)
  obtain ⟨first,tail,rfl⟩ := List.exists_cons_of_ne_nil (ne_nil_of_length count (by simp))
  have positive := body_cons_pos b bs
  have place : p.length + (body (b :: bs)).length - 1 + 1 = p.length + (body (b :: bs)).length := by
    omega
  have final := store_at (p ++ body (b :: bs)) first 0 (tail ++ 0 :: rest)
  simp only [List.append_assoc, List.length_append, List.cons_append, List.nil_append,
    List.length_cons, List.length_nil] at moved final count
  refine ⟨tail ++ 0 :: rest,by simp only [List.length_append, List.length_cons]; omega,?_⟩
  rw [deleteEntry, next]
  simp only [bind, Except.bind, nonzero, if_false, Nat.add_assoc, moved]
  simp only [place, final, Except.map]

/-- A deletion leaves the entries before and behind, ended by a NUL, and `env` on that NUL
    or one byte behind it. -/
theorem deleteEntry_entry (p : Bytes) (e : Entry) (bs : List Entry) (rest : Bytes) :
    ∃ tail env, deleteEntry (p ++ (e.text ++ 0 :: (body bs ++ 0 :: rest))) p.length
        (p.length + e.text.length) = .ok (p ++ (body bs ++ 0 :: tail), env) ∧
      tail.length = e.text.length + 1 + rest.length ∧ (bs = [] → tail.head? = some 0) ∧
      p.length + (body bs).length ≤ env ∧ env ≤ p.length + (body bs).length + 1 := by
  cases bs with
  | nil =>
    obtain ⟨tail,count,deleted⟩ := deleteEntry_last p e rest
    refine ⟨0 :: tail,p.length + 1,?_,?_,?_,?_,?_⟩
    · simpa [body] using deleted
    · simp only [List.length_cons]
      omega
    · simp
    · simp [body]
    · simp [body]
  | cons b bs =>
    obtain ⟨tail,count,deleted⟩ := deleteEntry_inner p e b bs rest
    exact ⟨tail,_,deleted,count,by simp,Nat.le_refl _,Nat.le_succ _⟩

theorem terminator_byte (k : Nat) (c : UInt8) (s : Bytes) (nonzero : c ≠ 0) :
    terminator k (c :: s) = terminator (k + 1) s := by
  cases s with
  | nil => simp [terminator, nonzero]
  | cons d rest => simp [terminator, nonzero]

theorem terminator_text (k : Nat) (t s : Bytes) (noNul : ∀ c ∈ t, c ≠ 0) :
    terminator k (t ++ s) = terminator (k + t.length) s := by
  induction t generalizing k with
  | nil => rfl
  | cons c t ih =>
    rw [List.cons_append, terminator_byte k c (t ++ s) (noNul c (by simp)),
      ih (k + 1) (fun x member => noNul x (by simp [member])), List.length_cons]
    congr 1
    omega

theorem terminator_entries (k : Nat) (e : Entry) (es : List Entry) (s : Bytes) :
    terminator k (body (e :: es) ++ 0 :: s) = .ok (k + (body (e :: es)).length - 1) := by
  induction es generalizing k e with
  | nil =>
    simp only [body, List.append_assoc, List.cons_append, List.nil_append]
    rw [terminator_text k e.text _ e.text_noNul]
    simp [terminator]
  | cons next es ih =>
    obtain ⟨c,rest,starts,nonzero⟩ := next.text_cons
    have whole : body (e :: next :: es) = e.text ++ 0 :: body (next :: es) := rfl
    have head : body (next :: es) ++ 0 :: s = c :: (rest ++ 0 :: (body es ++ 0 :: s)) := by
      simp [body, starts]
    have positive := body_cons_pos next es
    have later := ih (k + e.text.length + 1) next
    rw [whole, List.append_assoc, terminator_text k e.text _ e.text_noNul, List.cons_append]
    rw [head] at later ⊢
    rw [terminator, if_pos (Or.inr nonzero), later, List.length_append, List.length_cons]
    congr 1
    omega

theorem copyString_text (p g t after s : Bytes) (noNul : ∀ c ∈ t, c ≠ 0)
    (room : g.length = t.length + 1) :
    copyString (p ++ (g ++ s)) p.length (t ++ 0 :: after) =
      .ok (p ++ (t ++ 0 :: s), p.length + t.length) := by
  induction t generalizing p g with
  | nil =>
    obtain ⟨c,rfl⟩ := List.length_eq_one_iff.mp room
    simp [copyString, bind, Except.bind]
  | cons c t ih =>
    obtain ⟨first,gs,rfl⟩ := List.exists_cons_of_length_eq_add_one room
    have nonzero : c ≠ 0 := noNul c (by simp)
    have later := ih (p ++ [c]) gs (fun x member => noNul x (by simp [member])) (by simpa using room)
    simp only [List.cons_append, copyString, store_at, bind, Except.bind, nonzero, if_false]
    simpa [Nat.add_assoc, Nat.add_comm, Nat.add_left_comm] using later

theorem terminator_image {m : Bytes} {es : List Entry} (laid : encode es <+: m) :
    ∃ found, terminator 0 m = .ok found ∧
      (if 0 < found then found + 1 else found) = (body es).length := by
  obtain ⟨rest,rfl,empty⟩ := (encode_prefix_iff es m).mp laid
  cases es with
  | nil =>
    obtain ⟨tail,rfl⟩ := List.head?_eq_some_iff.mp (empty rfl)
    exact ⟨0,by simp [body, terminator],by simp [body]⟩
  | cons e es =>
    refine ⟨_,terminator_entries 0 e es rest,?_⟩
    obtain ⟨c,text,starts,-⟩ := e.text_cons
    have : 2 ≤ (body (e :: es)).length := by
      simp only [body, starts, List.length_append, List.length_cons]
      omega
    rw [if_pos (by omega)]
    omega

theorem appendEntry_fits {size : Nat} {m : Bytes} {es : List Entry} (laid : encode es <+: m)
    (mapped : size ≤ m.length) (name value : Arg)
    (fits : (body es).length + (name.text.length + value.text.length + 3) ≤ size) :
    ∃ c tail, appendEntry size m name value =
        .ok (body es ++ (name.text ++ equals :: (value.text ++ 0 :: c :: tail)),
          (body es ++ (name.text ++ equals :: value.text)).length) ∧
      (body es ++ (name.text ++ equals :: (value.text ++ 0 :: c :: tail))).length = m.length := by
  obtain ⟨found,scanned,place⟩ := terminator_image laid
  obtain ⟨w,rfl⟩ : ∃ w, m = body es ++ w := by
    obtain ⟨rest,whole,-⟩ := (encode_prefix_iff es m).mp laid
    exact ⟨_,whole⟩
  rw [List.length_append] at mapped
  have first := copyString_text (body es) (w.take (name.text.length + 1)) name.text name.after
    (w.drop (name.text.length + 1)) name.noNul (by rw [List.length_take]; omega)
  rw [List.take_append_drop] at first
  have sign := store_at (body es ++ name.text) 0 equals (w.drop (name.text.length + 1))
  have second := copyString_text (body es ++ (name.text ++ [equals]))
    ((w.drop (name.text.length + 1)).take (value.text.length + 1)) value.text value.after
    ((w.drop (name.text.length + 1)).drop (value.text.length + 1)) value.noNul
    (by rw [List.length_take, List.length_drop]; omega)
  rw [List.take_append_drop, List.drop_drop] at second
  obtain ⟨c,tail,behind⟩ : ∃ c tail,
      w.drop (name.text.length + 1 + (value.text.length + 1)) = c :: tail := by
    apply List.exists_cons_of_ne_nil
    intro empty
    have := List.drop_eq_nil_iff.mp empty
    omega
  have count : tail.length + 1 = w.length - (name.text.length + 1 + (value.text.length + 1)) := by
    rw [← List.length_drop, behind, List.length_cons]
  have overflow : ¬ (name.text.length + 2 + (value.text.length + 1) : Int) >
      (size : Int) - ((body es).length : Nat) := by
    omega
  refine ⟨c,tail,?_,?_⟩
  · rw [behind] at second
    simp only [List.append_assoc, List.length_append, List.cons_append, List.nil_append,
      List.length_cons, List.length_nil] at sign second
    rw [appendEntry, scanned]
    simp only [bind, Except.bind, place, overflow, if_false, Arg.bytes, first, sign,
      Nat.add_assoc]
    simpa [Nat.add_assoc, Nat.add_comm 1] using second
  · simp only [List.length_append, List.length_cons]
    omega

theorem appendEntryWith_overflow (st : Storing) {size : Nat} {m : Bytes} {es : List Entry}
    (laid : encode es <+: m) (name value : Arg)
    (full : size < (body es).length + (name.text.length + value.text.length + 3)) :
    appendEntryWith st size m name value = .error .overflow := by
  obtain ⟨found,scanned,place⟩ := terminator_image laid
  have overflow : (name.text.length + 2 + (value.text.length + 1) : Int) >
      (size : Int) - ((body es).length : Nat) := by
    omega
  rw [appendEntryWith, scanned]
  simp only [bind, Except.bind, place, overflow, if_true]

theorem appendEntry_overflow {size : Nat} {m : Bytes} {es : List Entry} (laid : encode es <+: m)
    (name value : Arg)
    (full : size < (body es).length + (name.text.length + value.text.length + 3)) :
    appendEntry size m name value = .error .overflow := by
  rw [← appendEntryWith_store]
  exact appendEntryWith_overflow store laid name value full

theorem encode_set_behind {m : Bytes} {es : List Entry} {i : Nat} (laid : encode es <+: m)
    (behind : (body es).length < i) : encode es <+: m.set i 0 := by
  obtain ⟨rest,rfl,empty⟩ := (encode_prefix_iff es m).mp laid
  refine (encode_prefix_iff es _).mpr ⟨rest.set (i - (body es).length - 1) 0,?_,?_⟩
  · obtain ⟨k,rfl⟩ : ∃ k, i = (body es).length + (k + 1) := ⟨i - (body es).length - 1,by omega⟩
    rw [List.set_append_right _ _ (by omega)]
    simp
  · intro none
    obtain ⟨tail,rfl⟩ := List.head?_eq_some_iff.mp (empty none)
    cases i - (body es).length - 1 with
    | zero => rfl
    | succ k => rfl

end FwEnv
