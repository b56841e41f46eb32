import SqueezeOS.UBoot.PowerFail
import Mathlib.Data.List.Induction

/- Where fw_setenvs stores on a well-formed image, and when it refuses to overwrite a variable
   that can be set only once. -/
namespace FwEnv

theorem turns_append (size mapped : Nat) (front back : List Pair) (s : Bool × List Entry) :
    turns size mapped (front ++ back) s = match turns size mapped front s with
      | .ok t => turns size mapped back t
      | .error stop => .error stop := by
  induction front generalizing s with
  | nil => rfl
  | cons p front ih =>
    rw [List.cons_append, turns, turns]
    cases turn size mapped p s with
    | ok t => exact ih t
    | error stop => rfl

theorem turns_concat {size mapped : Nat} {front : List Pair} {p : Pair} {s u : Bool × List Entry} :
    turns size mapped (front ++ [p]) s = .ok u ↔
      ∃ t, turns size mapped front s = .ok t ∧ turn size mapped p t = .ok u := by
  rw [turns_append]
  cases turns size mapped front s with
  | error stop => simp
  | ok t =>
    simp only [turns]
    cases turned : turn size mapped p t <;> simp [turned]

theorem turns_error_iff {size mapped : Nat} {ps : List Pair} {s : Bool × List Entry} {stop : Stop} :
    turns size mapped ps s = .error stop ↔ ∃ front p back t, ps = front ++ p :: back ∧
      turns size mapped front s = .ok t ∧ turn size mapped p t = .error stop := by
  constructor
  · intro stopped
    induction ps generalizing s with
    | nil => contradiction
    | cons p ps ih =>
      rw [turns] at stopped
      cases outcome : turn size mapped p s with
      | error other =>
        rw [outcome] at stopped
        exact ⟨[],p,ps,s,rfl,rfl,outcome.trans stopped⟩
      | ok t =>
        rw [outcome] at stopped
        obtain ⟨front,q,back,u,rfl,reached,here⟩ := ih stopped
        refine ⟨p :: front,q,back,u,rfl,?_,here⟩
        rw [turns, outcome]
        exact reached
  · rintro ⟨front,p,back,t,rfl,reached,here⟩
    simp only [turns_append, reached, turns, here]

theorem turns_stop_unique {size mapped : Nat} {s t u : Bool × List Entry}
    {front front' back back' : List Pair} {p q : Pair} {stop stop' : Stop}
    (same : front ++ p :: back = front' ++ q :: back')
    (one : turns size mapped front s = .ok t) (stops : turn size mapped p t = .error stop)
    (two : turns size mapped front' s = .ok u) (stops' : turn size mapped q u = .error stop') :
    p = q ∧ t = u := by
  rcases List.append_eq_append_iff.mp same with ⟨more,rfl,rest⟩ | ⟨more,rfl,rest⟩
  · cases more with
    | nil =>
      rw [List.append_nil, one] at two
      cases two
      exact ⟨(List.cons.inj rest).1,rfl⟩
    | cons r more =>
      cases rest
      simp [turns_append, one, turns, stops] at two
  · cases more with
    | nil =>
      rw [List.append_nil, two] at one
      cases one
      exact ⟨(List.cons.inj rest).1.symm,rfl⟩
    | cons r more =>
      cases rest
      simp [turns_append, two, turns, stops'] at one

section
variable {size : Nat} {m : Bytes} {es : List Entry}

theorem reached_turns (image : WellFormed size m es) {front : List Pair} {m' : Bytes}
    (reached : setPairs size (pairArgs front) none m = .ok m') :
    ∃ t, turns size m.length front (false, es) = .ok t ∧ WellFormed size m' t.2 := by
  obtain ⟨stops,goesOn⟩ := setPairs_turns image front none (by simp)
  cases outcome : turns size m.length front (false, es) with
  | error stop =>
    rw [stops stop outcome] at reached
    contradiction
  | ok t =>
    obtain ⟨m'',run,next,-⟩ := goesOn t.1 t.2 outcome
    rw [run] at reached
    cases reached
    exact ⟨t,rfl,next⟩

theorem turns_reached (image : WellFormed size m es) {front : List Pair} {t : Bool × List Entry}
    (outcome : turns size m.length front (false, es) = .ok t) :
    ∃ m', setPairs size (pairArgs front) none m = .ok m' ∧ WellFormed size m' t.2 := by
  obtain ⟨m',run,next,-⟩ := (setPairs_turns image front none (by simp)).2 t.1 t.2 outcome
  exact ⟨m',run,next⟩

theorem setPairs_error_iff (image : WellFormed size m es) {ps : List Pair} {stop : Stop} :
    setPairs size (pairArgs ps) none m = .error stop ↔
      turns size m.length ps (false, es) = .error stop := by
  constructor
  · intro stopped
    cases outcome : turns size m.length ps (false, es) with
    | ok t =>
      obtain ⟨m',run,-⟩ := turns_reached image outcome
      rw [run] at stopped
      contradiction
    | error other =>
      rw [(setPairs_turns image ps none (by simp)).1 other outcome] at stopped
      cases stopped
      rfl
  · exact (setPairs_turns image ps none (by simp)).1 stop

theorem fwGetenv_none_iff (image : WellFormed size m es) (name : Arg) :
    fwGetenv size name m = .ok none ↔ defined es name.key = false := by
  obtain ⟨found,read,value⟩ := fwGetenv_value image name
  have known : lookup es name.key = none ↔ defined es name.key = false := by
    simp [lookup, defined]
  rw [read, ← known, ← value]
  simp

theorem fwGetenv_some_iff (image : WellFormed size m es) (name : Arg) :
    (∃ val, fwGetenv size name m = .ok (some val)) ↔ defined es name.key = true := by
  obtain ⟨found,read,-⟩ := fwGetenv_value image name
  have unknown := fwGetenv_none_iff image name
  rw [read] at unknown ⊢
  cases found with
  | none =>
    rw [unknown.mp rfl]
    simp
  | some val =>
    have : ¬ defined es name.key = false := fun no => by simpa using unknown.mpr no
    simpa using this

theorem head_iff (image : WellFormed size m es) : m.head? = some 0 ↔ es = [] := by
  obtain ⟨rest,rfl,-⟩ := (encode_prefix_iff es m).mp image.laid
  cases es with
  | nil => simp [body]
  | cons e es =>
    obtain ⟨c,text,starts,nonzero⟩ := e.text_cons
    simp [body, starts, nonzero]

theorem terminator_full_iff (image : WellFormed size m es) (large : 2 < size) :
    terminator 0 m = .ok (size - 2) ↔ es ≠ [] ∧ (encode es).length = size := by
  have fits := image.fits
  obtain ⟨found,scanned,place⟩ := terminator_image image.laid
  rw [scanned]
  cases es with
  | nil =>
    have zero : found = 0 := by
      simp only [body, List.length_nil] at place
      split at place
      · omega
      · exact place
    subst zero
    simp only [Except.ok.injEq, ne_eq, not_true_eq_false, false_and, iff_false]
    omega
  | cons e es =>
    have ends : (encode (e :: es)).length = (body (e :: es)).length + 1 := by simp [encode]
    have positive := body_cons_pos e es
    simp only [Except.ok.injEq, ne_eq, reduceCtorEq, not_false_eq_true, true_and]
    rw [ends] at fits ⊢
    split at place
    · omega
    · omega

theorem turn_fault_iff {size mapped : Nat} {p : Pair} {s : Bool × List Entry} :
    turn size mapped p s = .error .fault ↔ mapped = size ∧ p.Spills size s.2 := by
  unfold turn
  constructor
  · intro stopped
    split_ifs at stopped with once empty spills
    · cases stopped
    · exact spills
    · cases stopped
  · rintro ⟨exact_size,spills⟩
    have missing : finds s.1 s.2 p.name.key = false := by
      rw [finds, if_neg spills.2.1]
      exact spills.2.2.1
    rw [if_neg (by simp [missing]), if_pos spills.1, if_pos ⟨exact_size,spills⟩]

theorem turn_once_iff {size mapped : Nat} {p : Pair} {s : Bool × List Entry} :
    turn size mapped p s = .error .cantOverwrite ↔
      finds s.1 s.2 p.name.key = true ∧ setOnce p.name.text := by
  unfold turn
  constructor
  · intro stopped
    split_ifs at stopped with once
    · exact once
    all_goals cases stopped
  · intro once
    exact if_pos once

theorem without_nil {key : Bytes} {es : List Entry} (nonempty : es ≠ []) (gone : without key es = []) :
    defined es key = true := by
  obtain ⟨e,rest,rfl⟩ := List.exists_cons_of_ne_nil nonempty
  have removed := List.filter_eq_nil_iff.mp gone e (by simp)
  refine defined_iff.mpr ⟨e,by simp,?_⟩
  simpa using removed

theorem turn_emptied {size mapped : Nat} {p : Pair} {before found : Bool} {es : List Entry}
    (turned : turn size mapped p (before, es) = .ok (found, [])) :
    found = finds before es p.name.key ∧ without p.name.key es = [] := by
  unfold turn at turned
  split_ifs at turned
  · simp only [Except.ok.injEq, Prod.mk.injEq] at turned
    exact ⟨turned.1.symm,turned.2⟩
  · simp at turned

/-- An environment that is empty now and was not at some time before leaves `oldval` set. -/
theorem stale_iff {size mapped : Nat} {es : List Entry} {front : List Pair} {found : Bool}
    (reached : turns size mapped front (false, es) = .ok (found, [])) :
    found = true ↔ ∃ early late t, front = early ++ late ∧
      turns size mapped early (false, es) = .ok t ∧ t.2 ≠ [] := by
  induction front using List.reverseRecOn generalizing found with
  | nil =>
    cases reached
    constructor
    · intro no
      contradiction
    · rintro ⟨early,late,t,split,start,nonempty⟩
      obtain ⟨rfl,rfl⟩ := List.append_eq_nil_iff.mp split.symm
      cases start
      contradiction
  | append_singleton front p ih =>
    obtain ⟨⟨before,es'⟩,outcome,turned⟩ := turns_concat.mp reached
    obtain ⟨rfl,gone⟩ := turn_emptied turned
    by_cases none : es' = []
    · subst none
      have earlier := ih outcome
      rw [finds, if_pos rfl, earlier]
      constructor
      · rintro ⟨early,late,t,split,start,nonempty⟩
        exact ⟨early,late ++ [p],t,by rw [split, List.append_assoc],start,nonempty⟩
      · rintro ⟨early,late,t,split,start,nonempty⟩
        rcases List.eq_nil_or_concat late with rfl | ⟨late,q,rfl⟩
        · rw [List.append_nil] at split
          subst split
          rw [reached] at start
          cases start
          contradiction
        · rw [List.concat_eq_append, ← List.append_assoc] at split
          exact ⟨early,late,t,(List.append_inj_left' split rfl),start,nonempty⟩
    · rw [finds, if_neg none, without_nil none gone]
      simp only [true_iff]
      exact ⟨front,[p],_,rfl,outcome,none⟩

theorem defined_finds {stale : Bool} {key : Bytes} (known : defined es key = true) :
    finds stale es key = true := by
  obtain ⟨e,member,-⟩ := defined_iff.mp known
  rw [finds, if_neg (List.ne_nil_of_mem member)]
  exact known

end

def Overwrites (size : Nat) (ps : List Pair) (m : Bytes) : Prop :=
  ∃ front p back m' val, ps = front ++ p :: back ∧
    setPairs size (pairArgs front) none m = .ok m' ∧ setOnce p.name.text ∧
    fwGetenv size p.name m' = .ok (some val)

/-- Some pair names such a variable when the pairs before have deleted the last entry of the
    environment. -/
def OnceEmptied (size : Nat) (ps : List Pair) (m : Bytes) : Prop :=
  ∃ early late p back m'' m', ps = early ++ late ++ p :: back ∧ setOnce p.name.text ∧
    setPairs size (pairArgs early) none m = .ok m'' ∧ m''.head? ≠ some 0 ∧
    setPairs size (pairArgs (early ++ late)) none m = .ok m' ∧ m'.head? = some 0

section
variable {size : Nat} {m : Bytes} {es : List Entry}

theorem overwrites_iff (image : WellFormed size m es) (ps : List Pair) : Overwrites size ps m ↔
    ∃ front p back t, ps = front ++ p :: back ∧ turns size m.length front (false, es) = .ok t ∧
      setOnce p.name.text ∧ defined t.2 p.name.key = true := by
  constructor
  · rintro ⟨front,p,back,m',val,split,reached,once,read⟩
    obtain ⟨t,outcome,next⟩ := reached_turns image reached
    exact ⟨front,p,back,t,split,outcome,once,(fwGetenv_some_iff next p.name).mp ⟨val,read⟩⟩
  · rintro ⟨front,p,back,t,split,outcome,once,known⟩
    obtain ⟨m',reached,next⟩ := turns_reached image outcome
    obtain ⟨val,read⟩ := (fwGetenv_some_iff next p.name).mpr known
    exact ⟨front,p,back,m',val,split,reached,once,read⟩

theorem onceEmptied_iff (image : WellFormed size m es) (ps : List Pair) : OnceEmptied size ps m ↔
    ∃ front p back, ps = front ++ p :: back ∧ setOnce p.name.text ∧
      turns size m.length front (false, es) = .ok (true, []) := by
  constructor
  · rintro ⟨early,late,p,back,m'',m',split,once,before,nonempty,reached,empty⟩
    obtain ⟨t,outcome,next⟩ := reached_turns image reached
    obtain ⟨u,start,earlier⟩ := reached_turns image before
    obtain ⟨found,es'⟩ := t
    obtain rfl : es' = [] := (head_iff next).mp empty
    have stale := (stale_iff outcome).mpr
      ⟨early,late,u,rfl,start,fun none => nonempty ((head_iff earlier).mpr none)⟩
    subst stale
    exact ⟨early ++ late,p,back,split,once,outcome⟩
  · rintro ⟨front,p,back,split,once,outcome⟩
    obtain ⟨m',reached,next⟩ := turns_reached image outcome
    obtain ⟨early,late,u,rfl,start,nonempty⟩ := (stale_iff outcome).mp rfl
    obtain ⟨m'',before,earlier⟩ := turns_reached image start
    exact ⟨early,late,p,back,m'',m',split,once,before,fun none => nonempty ((head_iff earlier).mp none),
      reached,(head_iff next).mpr rfl⟩

theorem cantOverwrite_iff (image : WellFormed size m es) (ps : List Pair) :
    (setPairs size (pairArgs ps) none m = .error .cantOverwrite ↔ Overwrites size ps m) ↔
      ¬ OnceEmptied size ps m := by
  rw [setPairs_error_iff image, turns_error_iff, overwrites_iff image, onceEmptied_iff image]
  constructor
  · rintro same ⟨front,p,back,split,once,outcome⟩
    have refused : turn size m.length p (true, []) = .error .cantOverwrite :=
      turn_once_iff.mpr ⟨rfl,once⟩
    obtain ⟨front',q,back',t,split',outcome',once',known⟩ :=
      same.mp ⟨front,p,back,_,split,outcome,refused⟩
    have refused' : turn size m.length q t = .error .cantOverwrite :=
      turn_once_iff.mpr ⟨defined_finds known,once'⟩
    obtain ⟨-,rfl⟩ := turns_stop_unique (split.symm.trans split') outcome refused outcome' refused'
    simp [defined] at known
  · intro kept
    constructor
    · rintro ⟨front,p,back,t,split,outcome,refused⟩
      obtain ⟨found,once⟩ := turn_once_iff.mp refused
      refine ⟨front,p,back,t,split,outcome,once,?_⟩
      obtain ⟨stale,es'⟩ := t
      rw [finds] at found
      split at found
      · rename_i none
        subst none
        subst found
        exact absurd ⟨front,p,back,split,once,outcome⟩ kept
      · exact found
    · rintro ⟨front,p,back,t,split,outcome,once,known⟩
      exact ⟨front,p,back,t,split,outcome,turn_once_iff.mpr ⟨defined_finds known,once⟩⟩

theorem setPairs_append (front back : List Pair) (oldval : Option Bytes) {m m' : Bytes}
    (reached : setPairs size (pairArgs front) oldval m = .ok m') :
    ∃ old, setPairs size (pairArgs (front ++ back)) oldval m = setPairs size (pairArgs back) old m' := by
  induction front generalizing oldval m with
  | nil =>
    cases reached
    exact ⟨oldval,rfl⟩
  | cons p front ih =>
    simp only [pairArgs, List.cons_append, setPairs] at reached ⊢
    cases turned : setPair size p.name (some p.value) oldval m with
    | error stop => simp [turned, bind, Except.bind] at reached
    | ok result =>
      rw [turned] at reached
      exact ih result.1 reached

theorem unfit_stops (image : WellFormed size m es) (large : 3 ≤ size) {p : Pair} (back : List Pair)
    (oldval : Option Bytes) (valued : p.value.text ≠ []) (unfit : ¬ p.Fits size es) :
    setPairs size (pairArgs (p :: back)) oldval m = .error .overflow ∨
      setOnce p.name.text ∧ setPairs size (pairArgs (p :: back)) oldval m = .error .cantOverwrite := by
  have stops := (setPair_turn image p oldval (fun _ => large)).stops
  rw [turn] at stops
  split_ifs at stops with once
  · right
    refine ⟨once.2,?_⟩
    rw [pairArgs, setPairs, stops _ rfl]
    rfl
  · left
    rw [pairArgs, setPairs, stops _ rfl]
    rfl

theorem unfit_unstored (image : WellFormed size m es) (large : 3 ≤ size) {p : Pair}
    (unfit : ¬ p.Fits size es) (st : Storing) {oldval old : Option Bytes} {cleared : Bytes} {env : Nat}
    (clears : clear size p.name oldval m = .ok (old, cleared, env)) :
    appendEntryWith st size cleared p.name p.value = .error .overflow := by
  obtain ⟨_,_,_,same,-,after,-⟩ := clear_turn image p.name oldval (fun _ => large)
  rw [same] at clears
  cases clears
  exact appendEntryWith_overflow st after.laid p.name p.value (Nat.lt_of_not_le unfit)

end

/-- Some pair deletes a name that is not defined when the image behind the pairs before ends with
    the last byte of the buffer. -/
def FullUnfound (size : Nat) (ps : List Pair) (m : Bytes) : Prop :=
  ∃ front p back m', ps = front ++ p :: back ∧
    setPairs size (pairArgs front) none m = .ok m' ∧ p.value.text = [] ∧
    fwGetenv size p.name m' = .ok none ∧ terminator 0 m' = .ok (size - 2)

theorem fullUnfound_iff {size : Nat} {m : Bytes} {es : List Entry} (image : WellFormed size m es)
    (large : 2 < size) (ps : List Pair) : FullUnfound size ps m ↔
      ∃ front p back t, ps = front ++ p :: back ∧
        turns size m.length front (false, es) = .ok t ∧ p.Spills size t.2 := by
  constructor
  · rintro ⟨front,p,back,m',split,reached,empty,unknown,full⟩
    obtain ⟨t,outcome,next⟩ := reached_turns image reached
    obtain ⟨nonempty,ends⟩ := (terminator_full_iff next large).mp full
    exact ⟨front,p,back,t,split,outcome,empty,nonempty,(fwGetenv_none_iff next p.name).mp unknown,ends⟩
  · rintro ⟨front,p,back,t,split,outcome,empty,nonempty,unknown,ends⟩
    obtain ⟨m',reached,next⟩ := turns_reached image outcome
    exact ⟨front,p,back,m',split,reached,empty,(fwGetenv_none_iff next p.name).mpr unknown,
      (terminator_full_iff next large).mpr ⟨nonempty,ends⟩⟩

/-- The last NUL of a turn is the only store that can leave the buffer. -/
theorem setPairs_fault_iff {size : Nat} {m : Bytes} {es : List Entry} (image : WellFormed size m es)
    (large : 2 < size) (exact_size : m.length = size) (ps : List Pair) :
    setPairs size (pairArgs ps) none m = .error .fault ↔ FullUnfound size ps m := by
  rw [setPairs_error_iff image, turns_error_iff, fullUnfound_iff image large]
  simp only [turn_fault_iff, exact_size, true_and]

end FwEnv

namespace FwEnvFlash
open FwEnv

def memory (heap : Bytes) (flash : Flash) : Bytes := List.ofFn (envInit flash).data ++ heap

theorem edited_ok {args : List Arg} {heap m' : Bytes} {flash : Flash}
    (run : setPairs envSize args none (memory heap flash) = .ok m') :
    edited args heap (envInit flash).data = .ok fun i => m'.getD i 0 := by
  rw [memory] at run
  rw [edited, run]
  rfl

theorem fwSetenvs_pairs {ps : List Pair} {heap : Bytes} {flash : Flash} (device : Device)
    {stop : Stop} (stopped : setPairs envSize (pairArgs ps) none (memory heap flash) = .error stop) :
    fwSetenvs (pairArgs ps) heap device flash = match stop with
      | .fault => none
      | .notTerminated => some (einval, flash)
      | .cantOverwrite => some (erofs, flash)
      | .overflow => some (-1, flash) := by
  have nonempty : ¬ (pairArgs ps).length + 1 < 2 := by
    cases ps with
    | nil => contradiction
    | cons p ps => simp [pairArgs]
  have same : edited (pairArgs ps) heap (envInit flash).data = .error stop := by
    rw [memory] at stopped
    rw [edited, stopped]
    rfl
  rw [fwSetenvs, if_neg nonempty, same]
  cases stop <;> rfl

theorem fwSetenvs_erofs_iff {ps : List Pair} {heap : Bytes} {device : Device} {flash t : Flash} :
    fwSetenvs (pairArgs ps) heap device flash = some (erofs, t) ↔
      t = flash ∧ setPairs envSize (pairArgs ps) none (memory heap flash) = .error .cantOverwrite := by
  cases run : setPairs envSize (pairArgs ps) none (memory heap flash) with
  | error stop =>
    rw [fwSetenvs_pairs device run]
    cases stop with
    | cantOverwrite => simp [eq_comm]
    | fault => simp
    | notTerminated => simp [einval, erofs]
    | overflow => simp [erofs]
  | ok m' =>
    rw [fwSetenvs, edited_ok run]
    simp only [reduceCtorEq, and_false, iff_false]
    split_ifs <;> simp [einval, erofs]

theorem fwSetenvs_none_iff {ps : List Pair} {heap : Bytes} {device : Device} {flash : Flash} :
    fwSetenvs (pairArgs ps) heap device flash = none ↔
      setPairs envSize (pairArgs ps) none (memory heap flash) = .error .fault := by
  cases run : setPairs envSize (pairArgs ps) none (memory heap flash) with
  | error stop =>
    rw [fwSetenvs_pairs device run]
    cases stop <;> simp
  | ok m' =>
    rw [fwSetenvs, edited_ok run]
    simp only [reduceCtorEq, iff_false]
    split_ifs <;> simp

/-- A pair that the image has no room for is refused before a byte of it is stored. That it names
    a variable that can be set only once is found out earlier. -/
def UnfitRefused (ps : List Pair) (device : Device) (flash : Flash) : Prop :=
  ∀ front p back m' es, ps = front ++ p :: back →
    setPairs envSize (pairArgs front) none (memory [] flash) = .ok m' → WellFormed envSize m' es →
    p.value.text ≠ [] → ¬ p.Fits envSize es →
    (fwSetenvs (pairArgs ps) [] device flash = some (-1, flash) ∨
      setOnce p.name.text ∧ fwSetenvs (pairArgs ps) [] device flash = some (erofs, flash)) ∧
    ∀ st oldval old cleared env, clear envSize p.name oldval m' = .ok (old, cleared, env) →
      appendEntryWith st envSize cleared p.name p.value = .error .overflow

/-- The memory ends with the buffer here, so that a store behind it is a fault. -/
def StoresInside (ps : List Pair) (device : Device) (flash : Flash) : Prop :=
  fwSetenvs (pairArgs ps) [] device flash ≠ none ∧ UnfitRefused ps device flash

theorem unfitRefused (ps : List Pair) (device : Device) (flash : Flash) :
    UnfitRefused ps device flash := by
  rintro front p back m' es rfl reached image valued unfit
  have large : 3 ≤ envSize := by decide
  refine ⟨?_,fun st oldval old cleared env => unfit_unstored image large unfit st⟩
  obtain ⟨old,rest⟩ := setPairs_append front (p :: back) none reached
  rcases unfit_stops image large back old valued unfit with overflow | ⟨once,refused⟩
  · left
    exact fwSetenvs_pairs device (rest.trans overflow)
  · right
    exact ⟨once,fwSetenvs_pairs device (rest.trans refused)⟩

theorem memory_length (flash : Flash) : (memory [] flash).length = envSize := by simp [memory]

theorem storesInside_iff {flash : Flash} {es : List Entry}
    (image : WellFormed envSize (memory [] flash) es) (ps : List Pair) (device : Device) :
    StoresInside ps device flash ↔ ¬ FullUnfound envSize ps (memory [] flash) := by
  rw [StoresInside, ne_eq, fwSetenvs_none_iff,
    setPairs_fault_iff image (by decide) (memory_length flash)]
  exact and_iff_left (unfitRefused ps device flash)

theorem memory_flashB (heap : Bytes) : WellFormed envSize (memory heap flashB) [entryB] := by
  rw [memory, envInit_flashB]
  exact encoded_wellFormed (by decide) (by decide) heap

theorem drop_storesInside : WellFormed envSize (memory [] flashB) [entryB] ∧
    StoresInside [dropB.pair] working flashB := by
  refine ⟨memory_flashB [],(storesInside_iff (memory_flashB []) [dropB.pair] working).mpr ?_⟩
  rw [fullUnfound_iff (memory_flashB []) (by decide)]
  rintro ⟨front,p,back,t,split,outcome,-,-,unknown,-⟩
  cases front with
  | nil =>
    cases split
    cases outcome
    revert unknown
    decide
  | cons q front => simp at split

def entryFull : Entry where
  name := [97]
  value := List.replicate (envSize - 4) 120
  nameText := entryA.nameText
  valueText c member := by
    rw [List.eq_of_mem_replicate member]
    decide

theorem encode_one_length (e : Entry) :
    (encode [e]).length = e.name.length + e.value.length + 3 := by
  simp only [encode, body, Entry.text, reduceCtorEq, if_false, List.length_append, List.length_cons,
    List.length_nil]
  omega

theorem entryFull_length : (encode [entryFull]).length = envSize := by
  have name : entryFull.name.length = 1 := rfl
  have value : entryFull.value.length = envSize - 4 := by
    rw [entryFull]
    exact List.length_replicate
  rw [encode_one_length, name, value]
  decide

def flashFull : Flash := fun _ => sealed fun i => (encode [entryFull]).getD i 0

theorem memory_flashFull : WellFormed envSize (memory [] flashFull) [entryFull] := by
  have valid : (flashFull 0).Valid := sealed_valid _
  rw [memory, envInit, if_pos valid]
  exact encoded_wellFormed (by simp) entryFull_length.le []

theorem drop_stores_behind : WellFormed envSize (memory [] flashFull) [entryFull] ∧
    ¬ StoresInside [dropB.pair] working flashFull := by
  refine ⟨memory_flashFull,?_⟩
  rintro ⟨faultless,-⟩
  apply faultless
  rw [fwSetenvs_none_iff, setPairs_fault_iff memory_flashFull (by decide) (memory_length flashFull),
    fullUnfound_iff memory_flashFull (by decide)]
  refine ⟨[],dropB.pair,[],_,rfl,rfl,rfl,by simp,?_,entryFull_length⟩
  have name : entryFull.name = [97] := rfl
  simp [defined, name, Setting.pair, dropB, Arg.key, equals]

def OverwritesRefused (ps : List Pair) (heap : Bytes) (device : Device) (flash : Flash) : Prop :=
  ∀ t, fwSetenvs (pairArgs ps) heap device flash = some (erofs, t) ↔
    t = flash ∧ Overwrites envSize ps (memory heap flash)

theorem overwritesRefused_agrees {ps : List Pair} {heap : Bytes} {device : Device} {flash : Flash} :
    OverwritesRefused ps heap device flash ↔
      (setPairs envSize (pairArgs ps) none (memory heap flash) = .error .cantOverwrite ↔
        Overwrites envSize ps (memory heap flash)) := by
  simp only [OverwritesRefused, fwSetenvs_erofs_iff]
  constructor
  · intro same
    simpa using same flash
  · intro same t
    rw [same]

theorem overwritesRefused_iff {heap : Bytes} {flash : Flash} {es : List Entry}
    (image : WellFormed envSize (memory heap flash) es) (ps : List Pair) (device : Device) :
    OverwritesRefused ps heap device flash ↔ ¬ OnceEmptied envSize ps (memory heap flash) := by
  rw [overwritesRefused_agrees]
  exact cantOverwrite_iff image ps

def setMac : Pair where
  name := { text := ascii "ethaddr", after := [], noNul := by decide +kernel }
  value := { text := ascii "00:04:20:00:00:01", after := [], noNul := by decide +kernel }

theorem mac_accepted : WellFormed envSize (memory [] flashB) [entryB] ∧
    OverwritesRefused [setMac] [] working flashB := by
  refine ⟨memory_flashB [],(overwritesRefused_iff (memory_flashB []) [setMac] working).mpr ?_⟩
  rw [onceEmptied_iff (memory_flashB [])]
  rintro ⟨front,p,back,split,-,outcome⟩
  cases front with
  | nil => simp [turns] at outcome
  | cons q front => simp at split

/-- Behind a pair that deletes b, the last variable, ethaddr is refused though it is not set. -/
theorem mac_refused_unset : WellFormed envSize (memory [] flashB) [entryB] ∧
    ¬ OverwritesRefused [dropB.pair, setMac] [] working flashB := by
  refine ⟨memory_flashB [],?_⟩
  rw [overwritesRefused_agrees, cantOverwrite_iff (memory_flashB []), not_not,
    onceEmptied_iff (memory_flashB [])]
  exact ⟨[dropB.pair],setMac,[],rfl,by decide,turns_drop _⟩

end FwEnvFlash
