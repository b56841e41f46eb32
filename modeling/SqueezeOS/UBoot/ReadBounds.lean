import SqueezeOS.UBoot.SetenvSafety
import SqueezeOS.UBoot.Printenv

/- What fw_getenv, fw_printenv and fw_setenvs read when the memory ends with the buffer, for every
   content of it: the bytes need not be an image of entries, and need not be terminated. -/
namespace FwEnv

def NulPair (m : Bytes) (j : Nat) : Prop := m[j]? = some 0 ∧ m[j + 1]? = some 0

instance (m : Bytes) (j : Nat) : Decidable (NulPair m j) := inferInstanceAs (Decidable (_ ∧ _))

def Terminated (m : Bytes) : Prop := m[0]? = some 0 ∨ ∃ j, NulPair m j

/-- The two run together to the end of one of them, and envmatch reads behind it. -/
def Collides (s1 s2 : Bytes) : Prop :=
  (s1 <+: s2 ∧ equals ∉ s1) ∨ (s2 <+: s1 ∧ equals ∉ s2)

inductive Compares (name m : Bytes) : Nat → Nat → Prop
  | here {env : Nat} : m[env]? ≠ some 0 → Compares name m env env
  | later {env here : Nat} : m[env]? ≠ some 0 → envmatch name (m.drop env) = .ok none →
      Compares name m (env + (cString (m.drop env)).length + 1) here → Compares name m env here

theorem envmatch_stop {s1 s2 : Bytes} {stop : Stop} (stopped : envmatch s1 s2 = .error stop) :
    stop = .fault := by
  induction s1 generalizing s2 with
  | nil =>
    cases stopped
    rfl
  | cons c s1 ih =>
    cases s2 with
    | nil =>
      cases stopped
      rfl
    | cons d s2 =>
      rw [envmatch] at stopped
      split_ifs at stopped
      exact ih stopped

theorem envmatch_fault_iff (s1 s2 : Bytes) : envmatch s1 s2 = .error .fault ↔ Collides s1 s2 := by
  induction s1 generalizing s2 with
  | nil => simp [envmatch, Collides]
  | cons c s1 ih =>
    cases s2 with
    | nil => simp [envmatch, Collides]
    | cons d s2 =>
      rw [envmatch]
      by_cases same : c = d
      · subst same
        by_cases sign : c = equals
        · simp [sign, Collides]
        · simp [sign, Ne.symm sign, Collides, ih, List.cons_prefix_cons]
      · rw [if_neg same]
        have apart : ¬ Collides (c :: s1) (d :: s2) := by
          simp [Collides, List.cons_prefix_cons, same, Ne.symm same]
        simp only [apart, iff_false]
        split <;> simp

theorem findEnd_inside {size nxt : Nat} {s : Bytes} (inside : nxt + s.length ≤ size) :
    findEnd size nxt s = if 0 ∈ s then .ok (cString s).length else .error .fault := by
  induction s generalizing nxt with
  | nil => simp [findEnd]
  | cons c s ih =>
    rw [List.length_cons] at inside
    by_cases zero : c = 0
    · simp [findEnd, zero, cString]
    · have bound : ¬ size ≤ nxt := by omega
      rw [findEnd, if_neg zero, if_neg bound, ih (by omega)]
      by_cases more : 0 ∈ s
      · simp [more, zero, cString, Except.map]
      · simp [more, Ne.symm zero, Except.map]

theorem findEnd_string {size : Nat} {m : Bytes} (env : Nat) (inside : m.length ≤ size) :
    findEnd size env (m.drop env) =
      if 0 ∈ m.drop env then .ok (cString (m.drop env)).length else .error .fault := by
  rcases Nat.lt_or_ge env m.length with within | behind
  · apply findEnd_inside
    rw [List.length_drop]
    omega
  · simp [List.drop_of_length_le behind, findEnd]

theorem lt_of_mem_drop {m : Bytes} {env : Nat} (nul : 0 ∈ m.drop env) : env < m.length := by
  by_contra behind
  rw [List.drop_of_length_le (Nat.le_of_not_lt behind)] at nul
  contradiction

theorem cString_before {s : Bytes} {i : Nat} (zero : s[i]? = some 0) : (cString s).length ≤ i := by
  induction s generalizing i with
  | nil => simp at zero
  | cons c s ih =>
    by_cases nul : c = 0
    · simp [cString, nul]
    · cases i with
      | zero => simp [nul] at zero
      | succ i =>
        have := ih (i := i) (by simpa using zero)
        simpa [cString, nul] using this

theorem NulPair.later {m : Bytes} {i j : Nat} (pair : NulPair m j) (after : i ≤ j)
    (other : ¬ NulPair m i) : i + 1 ≤ j := by
  rcases Nat.lt_or_ge i j with less | more
  · exact less
  · have same : i = j := Nat.le_antisymm after more
    exact absurd (same ▸ pair) other

theorem nulPair_ahead {m : Bytes} {env j : Nat} (pair : NulPair m j) (ahead : env ≤ j) :
    0 ∈ m.drop env ∧ env + (cString (m.drop env)).length ≤ j ∧
      (m[env + (cString (m.drop env)).length + 1]? ≠ some 0 →
        env + (cString (m.drop env)).length + 1 ≤ j) := by
  have here : (m.drop env)[j - env]? = some 0 := by
    rw [List.getElem?_drop, Nat.add_sub_cancel' ahead]
    exact pair.1
  have before := cString_before here
  have reached : env + (cString (m.drop env)).length ≤ j := by omega
  refine ⟨List.mem_of_getElem? here,reached,?_⟩
  intro another
  exact pair.later reached fun ends => another ends.2

theorem ahead_next {m : Bytes} {env j : Nat} (pair : NulPair m j) (after : env ≤ j) :
    m[env + (cString (m.drop env)).length + 1]? = some 0 ∨
      ∃ j, env + (cString (m.drop env)).length + 1 ≤ j ∧ NulPair m j := by
  by_cases last : m[env + (cString (m.drop env)).length + 1]? = some 0
  · exact Or.inl last
  · exact Or.inr ⟨j,(nulPair_ahead pair after).2.2 last,pair⟩

section
variable {size : Nat} {name m : Bytes} {env nxt : Nat} {oldval : Option Bytes}

theorem search_nul (zero : m[env]? = some 0) : search size name m env nxt oldval =
    .ok { env := env, nxt := nxt, oldval := oldval } := by
  have within : env < m.length := (List.getElem?_eq_some_iff.mp zero).1
  rw [search, if_pos within, if_pos zero]

theorem search_behind (behind : m.length ≤ env) :
    search size name m env nxt oldval = .error .fault := by
  rw [search, if_neg (Nat.not_lt.mpr behind)]

theorem search_unended (inside : m.length ≤ size) (nonzero : m[env]? ≠ some 0)
    (open_end : 0 ∉ m.drop env) : search size name m env nxt oldval = .error .fault := by
  rcases Nat.lt_or_ge env m.length with within | behind
  · rw [search, if_pos within, if_neg nonzero, findEnd_string env inside, if_neg open_end]
    rfl
  · exact search_behind behind

theorem search_string (inside : m.length ≤ size) (nonzero : m[env]? ≠ some 0)
    (nul : 0 ∈ m.drop env) : search size name m env nxt oldval =
      match envmatch name (m.drop env) with
      | .error stop => .error stop
      | .ok (some val) =>
          .ok { env := env, nxt := env + (cString (m.drop env)).length, oldval := some val }
      | .ok none => search size name m (env + (cString (m.drop env)).length + 1)
          (env + (cString (m.drop env)).length) none := by
  rw [search, if_pos (lt_of_mem_drop nul), if_neg nonzero, findEnd_string env inside, if_pos nul]
  cases envmatch name (m.drop env) with
  | error stop => rfl
  | ok result => cases result <;> rfl

/-- The search does not report that the environment is not terminated: its bound is the first
    byte behind the buffer, which it would have to read before. -/
theorem search_stop (inside : m.length ≤ size) {stop : Stop}
    (stopped : search size name m env nxt oldval = .error stop) : stop = .fault := by
  induction left : m.length - env using Nat.strongRecOn generalizing env nxt oldval with
  | ind k ih =>
    by_cases zero : m[env]? = some 0
    · rw [search_nul zero] at stopped
      contradiction
    · by_cases nul : 0 ∈ m.drop env
      · have within := lt_of_mem_drop nul
        rw [search_string inside zero nul] at stopped
        cases compared : envmatch name (m.drop env) with
        | error other =>
          rw [compared] at stopped
          cases stopped
          exact envmatch_stop compared
        | ok result =>
          rw [compared] at stopped
          cases result with
          | some val => contradiction
          | none => exact ih _ (by omega) stopped rfl
      · rw [search_unended inside zero nul] at stopped
        cases stopped
        rfl

theorem search_result_iff (inside : m.length ≤ size)
    (ahead : m[env]? = some 0 ∨ ∃ j, env ≤ j ∧ NulPair m j) {result : Checked (Option Bytes)}
    (start : result ≠ .ok oldval) (ends : result ≠ .ok none) :
    (search size name m env nxt oldval).map Cursor.oldval = result ↔
      ∃ here, Compares name m env here ∧ envmatch name (m.drop here) = result := by
  induction left : m.length - env using Nat.strongRecOn generalizing env nxt oldval with
  | ind k ih =>
    by_cases zero : m[env]? = some 0
    · rw [search_nul zero]
      constructor
      · intro same
        exact absurd same.symm start
      · rintro ⟨here,compares,-⟩
        cases compares <;> contradiction
    · obtain ⟨j,after,pair⟩ := ahead.resolve_left zero
      have nul := (nulPair_ahead pair after).1
      have within := lt_of_mem_drop nul
      have here_only : envmatch name (m.drop env) ≠ .ok none →
          ((∃ here, Compares name m env here ∧ envmatch name (m.drop here) = result) ↔
            envmatch name (m.drop env) = result) := by
        intro differs
        constructor
        · rintro ⟨here,compares,same⟩
          cases compares with
          | here => exact same
          | later _ missed => exact absurd missed differs
        · intro same
          exact ⟨env,.here zero,same⟩
      rw [search_string inside zero nul]
      cases compared : envmatch name (m.drop env) with
      | error stop => rw [here_only (by simp [compared]), compared]; simp [Except.map, eq_comm]
      | ok value =>
        cases value with
        | some val => rw [here_only (by simp [compared]), compared]; simp [Except.map]
        | none =>
          rw [ih _ (by omega) (ahead_next pair after) ends rfl]
          constructor
          · rintro ⟨here,compares,same⟩
            exact ⟨here,.later zero compared compares,same⟩
          · rintro ⟨here,compares,same⟩
            cases compares with
            | here => exact absurd (same.symm.trans compared) ends
            | later _ _ compares => exact ⟨here,compares,same⟩

theorem search_ahead (inside : m.length ≤ size) (ahead : ∃ j, env ≤ j ∧ NulPair m j)
    (start : oldval.isSome → nxt = env) {found : Cursor}
    (walked : search size name m env nxt oldval = .ok found) (known : found.oldval.isSome) :
    found.env ≤ found.nxt ∧ ∃ j, found.nxt ≤ j ∧ NulPair m j := by
  induction left : m.length - env using Nat.strongRecOn generalizing env nxt oldval with
  | ind k ih =>
    obtain ⟨j,after,pair⟩ := ahead
    by_cases zero : m[env]? = some 0
    · rw [search_nul zero] at walked
      cases walked
      have same := start known
      exact ⟨same.ge,j,same.le.trans after,pair⟩
    · obtain ⟨nul,behind,next⟩ := nulPair_ahead pair after
      have within := lt_of_mem_drop nul
      rw [search_string inside zero nul] at walked
      cases compared : envmatch name (m.drop env) with
      | error stop =>
        rw [compared] at walked
        contradiction
      | ok result =>
        rw [compared] at walked
        cases result with
        | some val =>
          cases walked
          exact ⟨by simp,j,behind,pair⟩
        | none =>
          by_cases last : m[env + (cString (m.drop env)).length + 1]? = some 0
          · simp only [search_nul last] at walked
            cases walked
            contradiction
          · exact ih _ (by omega) ⟨j,next last,pair⟩ (by simp) walked rfl

end

theorem terminator_pair (k : Nat) (m : Bytes) :
    (∃ j, terminator k m = .ok (k + j) ∧ NulPair m j) ∨
    (terminator k m = .error .fault ∧ ∀ j, ¬ NulPair m j) := by
  induction m generalizing k with
  | nil => exact Or.inr ⟨rfl,by simp [NulPair]⟩
  | cons c m ih =>
    cases m with
    | nil =>
      refine Or.inr ⟨?_,by simp [NulPair]⟩
      rw [terminator]
      split <;> rfl
    | cons d m =>
      rw [terminator]
      by_cases zeros : c ≠ 0 ∨ d ≠ 0
      · rw [if_pos zeros]
        rcases ih (k + 1) with ⟨j,scanned,pair⟩ | ⟨fault,none⟩
        · exact Or.inl ⟨j + 1,by rw [scanned, Nat.add_right_comm, Nat.add_assoc],pair⟩
        · refine Or.inr ⟨fault,?_⟩
          intro j pair
          cases j with
          | zero => simp [NulPair] at pair; simp [pair] at zeros
          | succ j => exact none j pair
      · rw [if_neg zeros]
        push Not at zeros
        exact Or.inl ⟨0,rfl,by simp [NulPair, zeros]⟩

theorem nulPair_set {m : Bytes} {j : Nat} (pair : NulPair m j) (i : Nat) : NulPair (m.set i 0) j := by
  have stays : ∀ k : Nat, m[k]? = some 0 → (m.set i 0)[k]? = some 0 := by
    intro k zero
    rw [List.getElem?_set]
    split
    · rename_i same
      rw [same, if_pos (List.getElem?_eq_some_iff.mp zero).1]
    · exact zero
  exact ⟨stays j pair.1,stays (j + 1) pair.2⟩

theorem nulPair_set_next {m : Bytes} {i : Nat} (zero : m[i]? = some 0) (room : i + 1 < m.length) :
    NulPair (m.set (i + 1) 0) i := by
  constructor
  · rw [List.getElem?_set_ne (by omega)]
    exact zero
  · rw [List.getElem?_set_self room]

theorem moveDown_reads {m : Bytes} {env nxt : Nat} (behind : env < nxt)
    (ahead : ∃ j, nxt ≤ j ∧ NulPair m j) :
    ∃ moved last, moveDown m env nxt = .ok (moved, last) ∧ moved.length = m.length ∧
      last + 1 < m.length ∧ moved[last]? = some 0 := by
  induction left : m.length - nxt using Nat.strongRecOn generalizing m env nxt with
  | ind k ih =>
    obtain ⟨j,after,pair⟩ := ahead
    have short : j + 1 < m.length := (List.getElem?_eq_some_iff.mp pair.2).1
    have inside : env < m.length ∧ nxt < m.length := by omega
    have onward : nxt + 1 ≤ j → ∃ moved last,
        moveDown (m.set env m[nxt]) (env + 1) (nxt + 1) = .ok (moved, last) ∧
        moved.length = m.length ∧ last + 1 < m.length ∧ moved[last]? = some 0 := by
      intro more
      have kept : NulPair (m.set env m[nxt]) j := by
        constructor
        · rw [List.getElem?_set_ne (by omega)]
          exact pair.1
        · rw [List.getElem?_set_ne (by omega)]
          exact pair.2
      have later := ih (m.length - (nxt + 1)) (by omega) (Nat.succ_lt_succ behind) ⟨j,more,kept⟩
        (by rw [List.length_set])
      simpa using later
    rw [moveDown, dif_pos inside]
    by_cases zero : m[nxt] = 0
    · obtain ⟨d,next⟩ : ∃ d, m[nxt + 1]? = some d := ⟨_,List.getElem?_eq_getElem (by omega)⟩
      have loaded : load (m.set env m[nxt]) (nxt + 1) = .ok d := by
        rw [load, List.getElem?_set_ne (by omega), next]
      simp only [zero, if_true] at loaded ⊢
      simp only [loaded, bind, Except.bind]
      by_cases last : d = 0
      · rw [if_pos last]
        exact ⟨_,env,rfl,by simp,by omega,by simp [inside.1]⟩
      · rw [if_neg last]
        rw [zero] at onward
        apply onward
        apply pair.later after
        intro ends
        rw [ends.2] at next
        cases next
        contradiction
    · simp only [zero, if_false]
      apply onward
      apply pair.later after
      intro ends
      have read := ends.1
      rw [List.getElem?_eq_getElem inside.2] at read
      exact absurd (Option.some.inj read) zero

theorem deleteEntry_reads {m : Bytes} {env nxt : Nat} (order : env ≤ nxt)
    (ahead : ∃ j, nxt ≤ j ∧ NulPair m j) :
    ∃ m' last, deleteEntryWith storeThrough m env nxt = .ok (m', last) ∧ m'.length = m.length ∧
      ∃ j, NulPair m' j := by
  obtain ⟨j,after,pair⟩ := ahead
  have short : j + 1 < m.length := (List.getElem?_eq_some_iff.mp pair.2).1
  obtain ⟨d,behind⟩ : ∃ d, m[nxt + 1]? = some d := ⟨_,List.getElem?_eq_getElem (by omega)⟩
  have loaded : load m (nxt + 1) = .ok d := by rw [load, behind]
  rw [deleteEntryWith, loaded]
  simp only [bind, Except.bind, storeThrough]
  by_cases last : d = 0
  · refine ⟨(m.set env 0).set (env + 1) 0,env + 1,by rw [if_pos last]; rfl,by simp,env,?_⟩
    apply nulPair_set_next
    · rw [List.getElem?_set_self (by omega)]
    · rw [List.length_set]
      omega
  · have more : nxt + 1 ≤ j := by
      apply pair.later after
      intro ends
      rw [ends.2] at behind
      cases behind
      contradiction
    obtain ⟨moved,stop,copied,length,room,zero⟩ :=
      moveDown_reads (Nat.lt_succ_of_le order) ⟨j,more,pair⟩
    refine ⟨moved.set (stop + 1) 0,stop + 1,by rw [if_neg last, copied]; rfl,by simp [length],stop,?_⟩
    exact nulPair_set_next zero (by omega)

theorem copyString_reads (m : Bytes) (env : Nat) (t after : Bytes) (noNul : ∀ c ∈ t, c ≠ 0) :
    ∃ m', copyStringWith storeThrough m env (t ++ 0 :: after) = .ok (m', env + t.length) ∧
      m'.length = m.length ∧ (env + t.length < m.length → m'[env + t.length]? = some 0) := by
  induction t generalizing m env with
  | nil =>
    refine ⟨m.set env 0,?_,by simp,fun within => List.getElem?_set_self within⟩
    simp [copyStringWith, storeThrough, bind, Except.bind]
  | cons c t ih =>
    have nonzero : c ≠ 0 := noNul c (by simp)
    obtain ⟨m',copied,length,ends⟩ := ih (m.set env c) (env + 1) (fun d member => noNul d (by simp [member]))
    rw [List.length_set] at length ends
    have place : env + (c :: t).length = env + 1 + t.length := by
      rw [List.length_cons]
      omega
    rw [place]
    refine ⟨m',?_,length,ends⟩
    simp only [List.cons_append, copyStringWith, storeThrough, bind, Except.bind, nonzero, if_false]
    exact copied

theorem appendEntry_reads {size : Nat} {m : Bytes} (name value : Arg) (exact_size : m.length = size)
    (terminated : ∃ j, NulPair m j) :
    appendEntryWith storeThrough size m name value = .error .overflow ∨
      ∃ m' last, appendEntryWith storeThrough size m name value = .ok (m', last) ∧
        m'.length = size ∧ last + 1 < size ∧ m'[last]? = some 0 := by
  rcases terminator_pair 0 m with ⟨found,scanned,-⟩ | ⟨-,none⟩
  · rw [appendEntryWith, scanned]
    simp only [bind, Except.bind]
    generalize (if 0 < 0 + found then 0 + found + 1 else 0 + found) = env
    by_cases full : (name.text.length + 2 + (value.text.length + 1) : Int) > (size : Int) - env
    · exact Or.inl (if_pos full)
    · obtain ⟨named,copied,length,-⟩ := copyString_reads m env name.text name.after name.noNul
      obtain ⟨valued,copied',length',ends⟩ := copyString_reads (named.set (env + name.text.length) equals)
        (env + name.text.length + 1) value.text value.after value.noNul
      rw [List.length_set] at length' ends
      refine Or.inr ⟨valued,env + name.text.length + 1 + value.text.length,?_,by omega,by omega,
        ends (by omega)⟩
      rw [if_neg full, Arg.bytes, copied]
      exact copied'
  · obtain ⟨j,pair⟩ := terminated
    exact absurd pair (none j)

/-- A turn reads behind the buffer only in its search, and leaves two NULs in the buffer. -/
structure Reads (size : Nat) (walked : Checked Cursor) (turned : Checked (Option Bytes × Bytes)) :
    Prop where
  fault : turned = .error .fault ↔ walked = .error .fault
  kept : ∀ old m', turned = .ok (old, m') → m'.length = size ∧ ∃ j, NulPair m' j

def finishPair (size : Nat) (p : Pair) (old : Option Bytes) (m : Bytes) (env : Nat) :
    Checked (Option Bytes × Bytes) := do
  let (m, env) ← if p.value.text ≠ [] then appendEntryWith storeThrough size m p.name p.value
    else .ok (m, env)
  let m ← storeThrough m (env + 1) 0
  .ok (old, m)

theorem finishPair_reads {size : Nat} {m : Bytes} (p : Pair) (env : Nat) (old : Option Bytes)
    (exact_size : m.length = size)
    (ready : (∃ j, NulPair m j) ∨ (p.value.text = [] ∧ env = 0 ∧ m[0]? = some 0 ∧ 2 ≤ size)) :
    finishPair size p old m env = .error .overflow ∨
      ∃ m', finishPair size p old m env = .ok (old, m') ∧ m'.length = size ∧ ∃ j, NulPair m' j := by
  unfold finishPair
  by_cases empty : p.value.text = []
  · right
    refine ⟨m.set (env + 1) 0,by simp [empty, bind, Except.bind, storeThrough],by simp [exact_size],?_⟩
    rcases ready with ⟨j,pair⟩ | ⟨-,rfl,zero,large⟩
    · exact ⟨j,nulPair_set pair _⟩
    · exact ⟨0,nulPair_set_next zero (by omega)⟩
  · have terminated := ready.resolve_right fun short => empty short.1
    rcases appendEntry_reads p.name p.value exact_size terminated with
      overflow | ⟨m',last,appended,length,room,zero⟩
    · left
      simp [empty, overflow, bind, Except.bind]
    · right
      refine ⟨m'.set (last + 1) 0,by simp [empty, appended, bind, Except.bind, storeThrough],
        by simp [length],last,?_⟩
      exact nulPair_set_next zero (by omega)

theorem setPair_reads {size : Nat} {m : Bytes} (p : Pair) (oldval : Option Bytes)
    (exact_size : m.length = size) (large : 2 ≤ size)
    (ready : (∃ j, NulPair m j) ∨ (p.value.text = [] ∧ oldval = none ∧ m[0]? = some 0)) :
    Reads size (search size p.name.bytes m 0 0 oldval)
      (setPairWith storeThrough size p.name (some p.value) oldval m) := by
  have inside := exact_size.le
  rw [setPairWith]
  cases walked : search size p.name.bytes m 0 0 oldval with
  | error stop =>
    obtain rfl := search_stop inside walked
    exact ⟨by simp [bind, Except.bind],by simp [bind, Except.bind]⟩
  | ok found =>
    have reads : ∀ rest : Checked (Option Bytes × Bytes), (rest = .error .cantOverwrite ∨
        rest = .error .overflow ∨ ∃ m', rest = .ok (found.oldval, m') ∧ m'.length = size ∧
          ∃ j, NulPair m' j) → Reads size (.ok found) rest := by
      rintro rest (rfl | rfl | ⟨m',rfl,length,pair⟩)
      · exact ⟨by simp,by simp⟩
      · exact ⟨by simp,by simp⟩
      · refine ⟨by simp,?_⟩
        rintro _ _ ⟨⟩
        exact ⟨length,pair⟩
    apply reads
    simp only [bind, Except.bind]
    by_cases known : found.oldval.isSome
    · rw [if_pos known]
      by_cases once : setOnce p.name.text
      · left
        rw [if_pos once]
      · have terminated : ∃ j, NulPair m j := by
          rcases ready with pair | ⟨-,rfl,zero⟩
          · exact pair
          · rw [search_nul zero] at walked
            cases walked
            contradiction
        obtain ⟨j,pair⟩ := terminated
        obtain ⟨order,ahead⟩ := search_ahead inside ⟨j,Nat.zero_le j,pair⟩ (fun _ => rfl) walked known
        obtain ⟨m',last,deleted,length,left⟩ := deleteEntry_reads order ahead
        right
        rw [if_neg once, deleted]
        exact finishPair_reads p last found.oldval (length.trans exact_size) (Or.inl left)
    · right
      rw [if_neg known]
      apply finishPair_reads p found.env found.oldval exact_size
      rcases ready with pair | ⟨empty,-,zero⟩
      · exact Or.inl pair
      · rw [search_nul zero] at walked
        cases walked
        exact Or.inr ⟨empty,rfl,zero,large⟩

structure Silent {α : Type} (size : Nat) (memory : α → Bytes) (result : Checked α) : Prop where
  reported : result ≠ .error .notTerminated
  length : ∀ a, result = .ok a → (memory a).length = size

theorem Silent.bind {α β : Type} {size : Nat} {memory : α → Bytes} {memory' : β → Bytes}
    {result : Checked α} {rest : α → Checked β} (first : Silent size memory result)
    (then_ : ∀ a, (memory a).length = size → Silent size memory' (rest a)) :
    Silent size memory' (result.bind rest) := by
  cases result with
  | error stop =>
    refine ⟨?_,by simp [Except.bind]⟩
    intro same
    cases same
    exact first.reported rfl
  | ok a => exact then_ a (first.length a rfl)

theorem Silent.ok {α : Type} {size : Nat} {memory : α → Bytes} {a : α}
    (length : (memory a).length = size) : Silent size memory (.ok a) := by
  refine ⟨by simp,?_⟩
  rintro _ ⟨⟩
  exact length

theorem Silent.error {α : Type} {size : Nat} {memory : α → Bytes} {stop : Stop}
    (other : stop ≠ .notTerminated) : Silent size memory (.error stop : Checked α) :=
  ⟨by simpa using other,by simp⟩

theorem moveDown_silent (m : Bytes) (env nxt : Nat) : Silent m.length Prod.fst (moveDown m env nxt) := by
  induction left : m.length - nxt using Nat.strongRecOn generalizing m env nxt with
  | ind k ih =>
    rw [moveDown]
    split
    · rename_i inside
      have onward : Silent m.length Prod.fst (moveDown (m.set env m[nxt]) (env + 1) (nxt + 1)) := by
        have later := ih (m.length - (nxt + 1)) (by omega) (m.set env m[nxt]) (env + 1) (nxt + 1)
          (by rw [List.length_set])
        rwa [List.length_set] at later
      dsimp only
      split
      · rw [load]
        split
        · simp only [bind, Except.bind]
          split
          · exact .ok (by simp)
          · exact onward
        · exact .error (by decide)
      · exact onward
    · exact .error (by decide)

theorem deleteEntry_silent (m : Bytes) (env nxt : Nat) :
    Silent m.length Prod.fst (deleteEntryWith storeThrough m env nxt) := by
  rw [deleteEntryWith, load]
  split
  · simp only [bind, Except.bind]
    split
    · exact .ok (by simp)
    · refine Silent.bind (moveDown_silent m env (nxt + 1)) ?_
      intro moved length
      exact .ok (by simpa using length)
  · exact .error (by decide)

theorem appendEntry_silent {size : Nat} {m : Bytes} (name value : Arg) (exact_size : m.length = size) :
    Silent size Prod.fst (appendEntryWith storeThrough size m name value) := by
  rcases terminator_pair 0 m with ⟨j,-,pair⟩ | ⟨fault,-⟩
  · rcases appendEntry_reads name value exact_size ⟨j,pair⟩ with overflow | ⟨m',last,appended,length,-⟩
    · rw [overflow]
      exact .error (by decide)
    · rw [appended]
      exact .ok length
  · rw [appendEntryWith, fault]
    exact .error (by decide)

theorem finishPair_silent {size : Nat} {m : Bytes} (p : Pair) (env : Nat) (old : Option Bytes)
    (exact_size : m.length = size) : Silent size Prod.snd (finishPair size p old m env) := by
  rw [finishPair]
  dsimp only
  split
  · refine (appendEntry_silent p.name p.value exact_size).bind ?_
    intro result length
    exact .ok (by simpa using length)
  · exact .ok (by simpa using exact_size)

theorem setPair_silent {size : Nat} {m : Bytes} (p : Pair) (oldval : Option Bytes)
    (exact_size : m.length = size) :
    Silent size Prod.snd (setPairWith storeThrough size p.name (some p.value) oldval m) := by
  rw [setPairWith]
  cases walked : search size p.name.bytes m 0 0 oldval with
  | error stop =>
    obtain rfl := search_stop exact_size.le walked
    exact .error (by decide)
  | ok found =>
    simp only [bind, Except.bind]
    split
    · split
      · exact .error (by decide)
      · refine Silent.bind (exact_size ▸ deleteEntry_silent m found.env found.nxt) ?_
        intro result length
        exact finishPair_silent p result.2 found.oldval length
    · exact finishPair_silent p found.env found.oldval exact_size

theorem setPairs_silent {size : Nat} {m : Bytes} (ps : List Pair) (oldval : Option Bytes)
    (exact_size : m.length = size) :
    Silent size id (setPairsWith storeThrough size (pairArgs ps) oldval m) := by
  induction ps generalizing oldval m with
  | nil => exact .ok exact_size
  | cons p ps ih =>
    rw [pairArgs, setPairsWith]
    refine (setPair_silent p oldval exact_size).bind ?_
    intro result length
    exact ih result.1 length

/-- A string of the environment that is compared with the argument has no equals sign, and the
    bytes from there on and those of the argument agree up to the end of the shorter. -/
def RunsOn (name : Arg) (m : Bytes) : Prop :=
  ∃ here, Compares name.bytes m 0 here ∧ Collides name.bytes (m.drop here)

theorem terminated_ahead {m : Bytes} (terminated : Terminated m) :
    m[0]? = some 0 ∨ ∃ j, 0 ≤ j ∧ NulPair m j := by
  rcases terminated with zero | ⟨j,pair⟩
  · exact Or.inl zero
  · exact Or.inr ⟨j,Nat.zero_le j,pair⟩

theorem search_runsOn {size : Nat} {m : Bytes} (name : Arg) (oldval : Option Bytes)
    (inside : m.length ≤ size) (terminated : Terminated m) :
    search size name.bytes m 0 0 oldval = .error .fault ↔ RunsOn name m := by
  have ends : (search size name.bytes m 0 0 oldval).map Cursor.oldval = .error .fault ↔ _ :=
    search_result_iff inside (terminated_ahead terminated) (by simp) (by simp)
  simp only [envmatch_fault_iff] at ends
  rw [RunsOn, ← ends]
  cases search size name.bytes m 0 0 oldval <;> simp [Except.map]

def RunsOnAmong (size : Nat) (ps : List Pair) (oldval : Option Bytes) (m : Bytes) : Prop :=
  ∃ front p back m', ps = front ++ p :: back ∧
    setPairsWith storeThrough size (pairArgs front) oldval m = .ok m' ∧ RunsOn p.name m'

theorem runsOnAmong_cons {size : Nat} {p : Pair} {ps : List Pair} {oldval : Option Bytes} {m : Bytes} :
    RunsOnAmong size (p :: ps) oldval m ↔ RunsOn p.name m ∨
      ∃ old m', setPairWith storeThrough size p.name (some p.value) oldval m = .ok (old, m') ∧
        RunsOnAmong size ps old m' := by
  constructor
  · rintro ⟨front,q,back,m',split,reached,runs⟩
    cases front with
    | nil =>
      cases split
      cases reached
      exact Or.inl runs
    | cons r front =>
      cases split
      rw [pairArgs, setPairsWith] at reached
      cases turned : setPairWith storeThrough size p.name (some p.value) oldval m with
      | error stop =>
        rw [turned] at reached
        contradiction
      | ok result =>
        rw [turned] at reached
        exact Or.inr ⟨result.1,result.2,rfl,front,q,back,m',rfl,reached,runs⟩
  · rintro (runs | ⟨old,m',turned,front,q,back,m'',rfl,reached,runs⟩)
    · exact ⟨[],p,ps,m,rfl,rfl,runs⟩
    · refine ⟨p :: front,q,back,m'',rfl,?_,runs⟩
      rw [pairArgs, setPairsWith, turned]
      exact reached

/-- The first pair finds the environment as it is in flash: it may start with a NUL and hold no
    two NULs in a row, which the scan of the append looks for. -/
def Ready (ps : List Pair) (oldval : Option Bytes) (m : Bytes) : Prop :=
  (∃ j, NulPair m j) ∨ ∀ p ∈ ps.head?, p.value.text = [] ∧ oldval = none ∧ m[0]? = some 0

theorem setPairs_reads {size : Nat} {m : Bytes} (ps : List Pair) (oldval : Option Bytes)
    (exact_size : m.length = size) (large : 2 ≤ size) (ready : Ready ps oldval m) :
    setPairsWith storeThrough size (pairArgs ps) oldval m = .error .fault ↔
      RunsOnAmong size ps oldval m := by
  induction ps generalizing oldval m with
  | nil =>
    constructor
    · intro stopped
      contradiction
    · rintro ⟨front,p,back,m',split,-⟩
      cases front <;> contradiction
  | cons p ps ih =>
    have first : (∃ j, NulPair m j) ∨ (p.value.text = [] ∧ oldval = none ∧ m[0]? = some 0) :=
      ready.imp id fun start => start p rfl
    have terminated : Terminated m := by
      rcases first with pair | ⟨-,-,zero⟩
      · exact Or.inr pair
      · exact Or.inl zero
    have reads := setPair_reads p oldval exact_size large first
    have walks := search_runsOn p.name oldval exact_size.le terminated
    rw [runsOnAmong_cons, pairArgs, setPairsWith, ← walks, ← reads.fault]
    cases turned : setPairWith storeThrough size p.name (some p.value) oldval m with
    | error stop => simp [bind, Except.bind]
    | ok result =>
      obtain ⟨length,pair⟩ := reads.kept result.1 result.2 turned
      have later := ih result.1 length (Or.inl pair)
      simp only [bind, Except.bind, later]
      simp [Prod.ext_iff]

theorem setPairs_unready {size : Nat} {m : Bytes} {p : Pair} (ps : List Pair) (zero : m[0]? = some 0)
    (none : ∀ j, ¬ NulPair m j) (valued : p.value.text ≠ []) :
    setPairsWith storeThrough size (pairArgs (p :: ps)) .none m = .error .fault := by
  rcases terminator_pair 0 m with ⟨j,-,pair⟩ | ⟨fault,-⟩
  · exact absurd pair (none j)
  · rw [pairArgs, setPairsWith, setPairWith, search_nul zero]
    simp [bind, Except.bind, valued, appendEntryWith, fault]

theorem setPairs_faultless_iff {size : Nat} {m : Bytes} (ps : List Pair) (exact_size : m.length = size)
    (large : 2 ≤ size) (terminated : Terminated m) :
    setPairsWith storeThrough size (pairArgs ps) none m ≠ .error .fault ↔
      Ready ps none m ∧ ¬ RunsOnAmong size ps none m := by
  by_cases ready : Ready ps none m
  · rw [ne_eq, setPairs_reads ps none exact_size large ready]
    simp [ready]
  · simp only [ready, false_and, iff_false, not_not]
    have lone : ∀ j, ¬ NulPair m j := fun j pair => ready (Or.inl ⟨j,pair⟩)
    have zero : m[0]? = some 0 := terminated.resolve_right fun ⟨j,pair⟩ => lone j pair
    cases ps with
    | nil => exact absurd (Or.inr (by simp)) ready
    | cons p ps =>
      apply setPairs_unready ps zero lone
      intro empty
      apply ready
      right
      rintro _ ⟨⟩
      exact ⟨empty,rfl,zero⟩

def OpenValue (name : Arg) (m : Bytes) : Prop :=
  ∃ here val, Compares name.bytes m 0 here ∧ envmatch name.bytes (m.drop here) = .ok (some val) ∧
    0 ∉ val

theorem search_openValue {size : Nat} {m : Bytes} (name : Arg) (inside : m.length ≤ size)
    (terminated : Terminated m) : OpenValue name m ↔
      ∃ found val, search size name.bytes m 0 0 none = .ok found ∧ found.oldval = some val ∧
        0 ∉ val := by
  have finds : ∀ val, (search size name.bytes m 0 0 none).map Cursor.oldval = .ok (some val) ↔ _ :=
    fun val => search_result_iff inside (terminated_ahead terminated) (by simp) (by simp)
  constructor
  · rintro ⟨here,val,compares,compared,open_end⟩
    have result := (finds val).mpr ⟨here,compares,compared⟩
    cases walked : search size name.bytes m 0 0 none with
    | error stop => simp [walked, Except.map] at result
    | ok found => exact ⟨found,val,rfl,by simpa [walked, Except.map] using result,open_end⟩
  · rintro ⟨found,val,walked,value,open_end⟩
    obtain ⟨here,compares,compared⟩ := (finds val).mp (by simp [walked, Except.map, value])
    exact ⟨here,val,compares,compared,open_end⟩

theorem printAll_reads {size : Nat} {m : Bytes} {env : Nat} (inside : m.length ≤ size)
    (ahead : m[env]? = some 0 ∨ ∃ j, env ≤ j ∧ NulPair m j) :
    printAll size m env ≠ .error .fault := by
  induction left : m.length - env using Nat.strongRecOn generalizing env with
  | ind k ih =>
    by_cases zero : m[env]? = some 0
    · rw [printAll, if_pos (List.getElem?_eq_some_iff.mp zero).1, if_pos zero]
      simp
    · obtain ⟨j,after,pair⟩ := ahead.resolve_left zero
      have nul := (nulPair_ahead pair after).1
      have within := lt_of_mem_drop nul
      rw [printAll, if_pos within, if_neg zero, findEnd_string env inside, if_pos nul]
      have later := ih _ (by omega) (ahead_next pair after) rfl
      cases printed : printAll size m (env + (cString (m.drop env)).length + 1) with
      | error stop =>
        rw [printed] at later
        simpa [Except.map, printed] using later
      | ok out => simp [Except.map, printed]

theorem printAll_silent {size : Nat} {m : Bytes} {env : Nat} {out : List Said}
    (inside : m.length ≤ size) (printed : printAll size m env = .ok out) : .notTerminated ∉ out := by
  induction left : m.length - env using Nat.strongRecOn generalizing env out with
  | ind k ih =>
    rw [printAll] at printed
    split at printed
    · rename_i within
      split at printed
      · cases printed
        simp
      · rw [findEnd_string env inside] at printed
        split at printed
        · rename_i stopped
          split at stopped <;> contradiction
        · contradiction
        · rename_i n _
          cases rest : printAll size m (env + n + 1) with
          | error stop => simp [rest, Except.map] at printed
          | ok out' =>
            have later := ih _ (by omega) rest rfl
            simp only [rest, Except.map, Except.ok.injEq] at printed
            subst printed
            simpa using later
    · contradiction

theorem printNames_fault_iff {size : Nat} {m : Bytes} (quiet : Bool) (names : List Arg)
    (inside : m.length ≤ size) (terminated : Terminated m) :
    printNames size quiet m names = .error .fault ↔
      ∃ name ∈ names, RunsOn name m ∨ OpenValue name m := by
  induction names with
  | nil => simp [printNames]
  | cons name names ih =>
    rw [List.exists_mem_cons_iff, ← search_runsOn name none inside terminated,
      search_openValue name inside terminated, ← ih, printNames]
    cases walked : search size name.bytes m 0 0 none with
    | error stop =>
      obtain rfl := search_stop inside walked
      simp
    | ok found =>
      have onward : ∀ said : Said, (printNames size quiet m names).map (said :: ·) = .error .fault ↔
          printNames size quiet m names = .error .fault := by
        intro said
        cases printNames size quiet m names <;> simp [Except.map]
      cases value : found.oldval with
      | none => simp [bind, Except.bind, onward, value]
      | some val =>
        by_cases nul : 0 ∈ val
        · simp [bind, Except.bind, puts, onward, value, nul]
        · simp [bind, Except.bind, puts, value, nul]

theorem printNames_silent {size : Nat} {m : Bytes} {quiet : Bool} {names : List Arg} {out : List Said}
    (inside : m.length ≤ size) (printed : printNames size quiet m names = .ok out) :
    .notTerminated ∉ out := by
  induction names generalizing out with
  | nil =>
    cases printed
    simp
  | cons name names ih =>
    rw [printNames] at printed
    cases walked : search size name.bytes m 0 0 none with
    | error stop =>
      obtain rfl := search_stop inside walked
      simp [walked] at printed
    | ok found =>
      rw [walked] at printed
      cases rest : printNames size quiet m names with
      | error stop =>
        cases value : found.oldval with
        | none => simp [bind, Except.bind, value, rest, Except.map] at printed
        | some val =>
          cases shown : puts val <;> simp [bind, Except.bind, value, rest, shown, Except.map] at printed
      | ok out' =>
        have later := ih rest
        cases value : found.oldval with
        | none =>
          simp only [bind, Except.bind, value, rest, Except.map, Except.ok.injEq] at printed
          subst printed
          simpa using later
        | some val =>
          cases shown : puts val with
          | error stop => simp [bind, Except.bind, value, shown] at printed
          | ok text =>
            simp only [bind, Except.bind, value, rest, shown, Except.map, Except.ok.injEq] at printed
            subst printed
            simpa using later

def queried : List Arg → List Arg
  | [] => []
  | first :: rest =>
      if first.text = ascii "-n" then (if rest.length ≠ 1 then [] else rest) else first :: rest

theorem fwPrintenv_fault_iff {size : Nat} {m : Bytes} (args : List Arg) (inside : m.length ≤ size)
    (terminated : Terminated m) : fwPrintenv size args m = .error .fault ↔
      ∃ name ∈ queried args, RunsOn name m ∨ OpenValue name m := by
  cases args with
  | nil =>
    have reads := printAll_reads inside (terminated_ahead terminated)
    simp [fwPrintenv, queried, reads]
  | cons first rest =>
    rw [fwPrintenv, queried]
    split
    · split
      · simp
      · exact printNames_fault_iff true rest inside terminated
    · exact printNames_fault_iff false (first :: rest) inside terminated

theorem fwPrintenv_silent {size : Nat} {m : Bytes} {args : List Arg} {out : List Said}
    (inside : m.length ≤ size) (printed : fwPrintenv size args m = .ok out) : .notTerminated ∉ out := by
  cases args with
  | nil => exact printAll_silent inside printed
  | cons first rest =>
    rw [fwPrintenv] at printed
    split at printed
    · split at printed
      · cases printed
        simp
      · exact printNames_silent inside printed
    · exact printNames_silent inside printed

end FwEnv

namespace FwEnvFlash
open FwEnv

/- The three entry points in a memory that ends with the buffer: each reads inside it, and reports
   an environment that is not terminated. A store of fw_setenvs behind the buffer goes through. -/

def GetsInside (flash : Flash) (name : Arg) : Prop :=
  fwGetenv envSize name (memory [] flash) ≠ .error .fault ∧
  (¬ Terminated (memory [] flash) →
    search envSize name.bytes (memory [] flash) 0 0 none = .error .notTerminated)

def PrintsInside (flash : Flash) (args : List Arg) : Prop :=
  fwPrintenv envSize args (memory [] flash) ≠ .error .fault ∧
  (¬ Terminated (memory [] flash) →
    ∃ out, fwPrintenv envSize args (memory [] flash) = .ok out ∧ .notTerminated ∈ out)

def SetsInside (flash : Flash) (ps : List Pair) : Prop := ps = [] ∨
  setPairsWith storeThrough envSize (pairArgs ps) none (memory [] flash) ≠ .error .fault ∧
  (¬ Terminated (memory [] flash) →
    setPairsWith storeThrough envSize (pairArgs ps) none (memory [] flash) = .error .notTerminated)

theorem fwGetenv_fault_iff {size : Nat} {m : Bytes} (name : Arg) :
    fwGetenv size name m = .error .fault ↔ search size name.bytes m 0 0 none = .error .fault := by
  rw [fwGetenv]
  cases walked : search size name.bytes m 0 0 none with
  | ok found => simp
  | error stop => cases stop <;> simp

theorem reports_iff {m : Bytes} {inside reported : Prop} (never : ¬ reported) :
    (inside ∧ (¬ Terminated m → reported)) ↔ Terminated m ∧ inside := by
  by_cases terminated : Terminated m
  · simp [terminated]
  · simp [terminated, never]

theorem getsInside_iff (flash : Flash) (name : Arg) : GetsInside flash name ↔
    Terminated (memory [] flash) ∧ ¬ RunsOn name (memory [] flash) := by
  have inside := (memory_length flash).le
  have never : ¬ search envSize name.bytes (memory [] flash) 0 0 none = .error .notTerminated := by
    intro stopped
    cases search_stop inside stopped
  rw [GetsInside, reports_iff never, ne_eq, fwGetenv_fault_iff]
  refine and_congr_right fun terminated => not_congr ?_
  exact search_runsOn name none inside terminated

theorem printsInside_iff (flash : Flash) (args : List Arg) : PrintsInside flash args ↔
    Terminated (memory [] flash) ∧ ∀ name ∈ queried args,
      ¬ RunsOn name (memory [] flash) ∧ ¬ OpenValue name (memory [] flash) := by
  have inside := (memory_length flash).le
  have never : ¬ ∃ out, fwPrintenv envSize args (memory [] flash) = .ok out ∧ .notTerminated ∈ out := by
    rintro ⟨out,printed,said⟩
    exact fwPrintenv_silent inside printed said
  rw [PrintsInside, reports_iff never]
  refine and_congr_right fun terminated => ?_
  rw [ne_eq, fwPrintenv_fault_iff args inside terminated]
  simp only [not_exists, not_and, not_or]

theorem setsInside_iff (flash : Flash) (ps : List Pair) : SetsInside flash ps ↔ ps = [] ∨
    Terminated (memory [] flash) ∧ Ready ps none (memory [] flash) ∧
      ¬ RunsOnAmong envSize ps none (memory [] flash) := by
  have exact_size := memory_length flash
  have never := (setPairs_silent ps none exact_size).reported
  rw [SetsInside, reports_iff never]
  refine or_congr_right (and_congr_right fun terminated => ?_)
  exact setPairs_faultless_iff ps exact_size (by decide) terminated

theorem readsInside_iff (flash : Flash) (name : Arg) (args : List Arg) (ps : List Pair) :
    (GetsInside flash name ↔
      Terminated (memory [] flash) ∧ ¬ RunsOn name (memory [] flash)) ∧
    (PrintsInside flash args ↔
      Terminated (memory [] flash) ∧ ∀ name ∈ queried args,
        ¬ RunsOn name (memory [] flash) ∧ ¬ OpenValue name (memory [] flash)) ∧
    (SetsInside flash ps ↔ ps = [] ∨
      Terminated (memory [] flash) ∧ Ready ps none (memory [] flash) ∧
        ¬ RunsOnAmong envSize ps none (memory [] flash)) :=
  ⟨getsInside_iff flash name,printsInside_iff flash args,setsInside_iff flash ps⟩

def flashOpen : Flash := fun _ => sealed fun _ => 120

theorem memory_flashOpen : memory [] flashOpen = List.replicate envSize 120 := by
  have valid : (flashOpen 0).Valid := sealed_valid _
  rw [memory, envInit, if_pos valid, List.append_nil]
  exact List.ofFn_const envSize 120

theorem open_read_behind : HasValid flashOpen ∧ ¬ Terminated (memory [] flashOpen) ∧
    fwGetenv envSize dropB.name (memory [] flashOpen) = .error .fault ∧
    ¬ GetsInside flashOpen dropB.name := by
  have nowhere : ∀ i : Nat, (memory [] flashOpen)[i]? ≠ some 0 := by
    intro i
    rw [memory_flashOpen, List.getElem?_replicate]
    split <;> simp
  have unended : 0 ∉ (memory [] flashOpen).drop 0 := by
    intro member
    obtain ⟨i,here⟩ := List.mem_iff_getElem?.mp member
    exact nowhere i (by simpa using here)
  have faults : fwGetenv envSize dropB.name (memory [] flashOpen) = .error .fault :=
    (fwGetenv_fault_iff _).mpr (search_unended (memory_length _).le (nowhere 0) unended)
  refine ⟨Or.inl (sealed_valid _),?_,faults,fun inside => inside.1 faults⟩
  rintro (zero | ⟨j,pair⟩)
  · exact nowhere 0 zero
  · exact nowhere j pair.1

end FwEnvFlash
