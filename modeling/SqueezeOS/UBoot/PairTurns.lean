import SqueezeOS.UBoot.EnvImage
import Mathlib.Data.List.Nodup
import Mathlib.Data.List.TakeWhile

/- What a turn of fw_setenvs does to a well-formed image, said on the entries: for every name and
   every value that argv can hold, and for a memory that may end with the buffer. -/
namespace FwEnv

structure Pair where
  name : Arg
  value : Arg

def pairArgs : List Pair → List Arg
  | [] => []
  | p :: ps => p.name :: p.value :: pairArgs ps

/-- The entry that a pair appends. A name with an equals sign in it ends there. -/
def Pair.entry (p : Pair) : Entry where
  name := p.name.key
  value := match p.name.text.dropWhile (· ≠ equals) with
    | [] => p.value.text
    | _ :: rest => rest ++ equals :: p.value.text
  nameText c member := by
    refine ⟨p.name.noNul c (List.takeWhile_sublist _ |>.mem member),?_⟩
    simpa using List.mem_takeWhile_imp member
  valueText c member := by
    split at member
    · exact p.value.noNul c member
    · rename_i rest dropped
      have part : ∀ d ∈ rest, d ≠ 0 := by
        intro d inside
        apply p.name.noNul d
        apply (List.dropWhile_sublist (· ≠ equals)).mem
        rw [dropped]
        exact List.mem_cons_of_mem _ inside
      rcases List.mem_append.mp member with front | behind
      · exact part c front
      · rcases List.mem_cons.mp behind with rfl | inValue
        · decide
        · exact p.value.noNul c inValue

def defined (es : List Entry) (key : Bytes) : Bool := es.any fun e => e.name = key

def without (key : Bytes) (es : List Entry) : List Entry := es.filter fun e => e.name ≠ key

/-- Whether `oldval` is set behind the search, which does not run on an environment without
    entries. -/
def finds (stale : Bool) (es : List Entry) (key : Bytes) : Bool :=
  if es = [] then stale else defined es key

def Pair.Fits (size : Nat) (es : List Entry) (p : Pair) : Prop :=
  (body (without p.name.key es)).length + (p.name.text.length + p.value.text.length + 3) ≤ size

instance (size : Nat) (es : List Entry) (p : Pair) : Decidable (p.Fits size es) :=
  inferInstanceAs (Decidable ((body (without p.name.key es)).length +
    (p.name.text.length + p.value.text.length + 3) ≤ size))

/-- Nothing to delete, nothing to append, and the image ends with the buffer: the NUL that ends
    every turn is stored behind it. -/
def Pair.Spills (size : Nat) (es : List Entry) (p : Pair) : Prop :=
  p.value.text = [] ∧ es ≠ [] ∧ defined es p.name.key = false ∧ (encode es).length = size

instance (size : Nat) (es : List Entry) (p : Pair) : Decidable (p.Spills size es) :=
  inferInstanceAs (Decidable (_ ∧ _ ∧ _ ∧ _))

def turn (size mapped : Nat) (p : Pair) (s : Bool × List Entry) : Checked (Bool × List Entry) :=
  if finds s.1 s.2 p.name.key ∧ setOnce p.name.text then .error .cantOverwrite
  else if p.value.text = [] then
    if mapped = size ∧ p.Spills size s.2 then .error .fault
    else .ok (finds s.1 s.2 p.name.key, without p.name.key s.2)
  else if p.Fits size s.2 then
    .ok (finds s.1 s.2 p.name.key, without p.name.key s.2 ++ [p.entry])
  else .error .overflow

def turns (size mapped : Nat) : List Pair → Bool × List Entry → Checked (Bool × List Entry)
  | [], s => .ok s
  | p :: ps, s => match turn size mapped p s with
    | .ok t => turns size mapped ps t
    | .error stop => .error stop

theorem Pair.entry_text (p : Pair) : p.entry.text = p.name.text ++ equals :: p.value.text := by
  have split := (List.takeWhile_append_dropWhile (p := (· ≠ equals)) (l := p.name.text)).symm
  change p.name.key ++ equals :: (match p.name.text.dropWhile (· ≠ equals) with
    | [] => p.value.text
    | _ :: rest => rest ++ equals :: p.value.text) = _
  cases dropped : p.name.text.dropWhile (· ≠ equals) with
  | nil =>
    rw [dropped, List.append_nil] at split
    rw [Arg.key, ← split]
  | cons c rest =>
    have sign : c = equals := by
      have stops := List.head?_dropWhile_not (· ≠ equals) p.name.text
      rw [dropped] at stops
      simpa using stops
    rw [dropped, sign] at split
    rw [Arg.key, ← List.cons_append, ← List.append_assoc, ← split]

theorem without_of_missing {key : Bytes} {es : List Entry} (missing : ∀ e ∈ es, e.name ≠ key) :
    without key es = es := by
  rw [without, List.filter_eq_self]
  intro e member
  simp [missing e member]

theorem without_split {key : Bytes} {es : List Entry} (distinct : (es.map Entry.name).Nodup)
    {e : Entry} (member : e ∈ es) (named : e.name = key) :
    ∃ as bs, es = as ++ e :: bs ∧ (∀ a ∈ as, a.name ≠ key) ∧ without key es = as ++ bs := by
  obtain ⟨as,bs,rfl⟩ := List.append_of_mem member
  rw [List.map_append, List.map_cons, List.nodup_middle, List.nodup_cons] at distinct
  have absent : ∀ a ∈ as ++ bs, a.name ≠ key := by
    intro a inside same
    apply distinct.1
    rw [named, ← same, ← List.map_append]
    exact List.mem_map_of_mem inside
  refine ⟨as,bs,rfl,fun a inside => absent a (by simp [inside]),?_⟩
  have left := without_of_missing (fun a inside => absent a (List.mem_append_left bs inside))
  have right := without_of_missing (fun a inside => absent a (List.mem_append_right as inside))
  rw [without] at left right ⊢
  rw [List.filter_append, List.filter_cons_of_neg (by simp [named]), left, right]

theorem body_without_length (key : Bytes) (es : List Entry) :
    (body (without key es)).length ≤ (body es).length := by
  induction es with
  | nil => exact Nat.le_refl _
  | cons e es ih =>
    rw [without, List.filter_cons]
    split
    · simp only [body, List.length_append, List.length_cons]
      exact Nat.add_le_add_left (Nat.succ_le_succ ih) _
    · simp only [body, List.length_append, List.length_cons]
      exact ih.trans (by omega)

theorem encode_without_length (key : Bytes) (es : List Entry) :
    (encode (without key es)).length ≤ (encode es).length := by
  have shorter := body_without_length key es
  cases es with
  | nil => exact Nat.le_refl _
  | cons e es =>
    obtain ⟨c,text,starts,-⟩ := e.text_cons
    by_cases none : without key (e :: es) = []
    · simp only [encode, none, if_true, reduceCtorEq, if_false, body, starts, List.length_append,
        List.length_cons, List.length_nil]
      omega
    · simp only [encode, none, if_false, reduceCtorEq, List.length_append, List.length_singleton]
      omega

theorem without_distinct {es : List Entry} (distinct : (es.map Entry.name).Nodup) (key : Bytes) :
    ((without key es).map Entry.name).Nodup :=
  (List.filter_sublist.map Entry.name).nodup distinct

theorem append_distinct {es : List Entry} (distinct : (es.map Entry.name).Nodup) (p : Pair) :
    ((without p.name.key es ++ [p.entry]).map Entry.name).Nodup := by
  rw [List.map_append, List.nodup_append]
  refine ⟨without_distinct distinct _,by simp,?_⟩
  intro name member other same
  obtain ⟨e,kept,rfl⟩ := List.mem_map.mp member
  rw [List.map_singleton, List.mem_singleton] at same
  have different := (List.mem_filter.mp kept).2
  rw [same]
  simpa [Pair.entry] using different

structure Cleared (size : Nat) (m : Bytes) (es : List Entry) (cleared : Bytes) (env : Nat) :
    Prop where
  laid : encode es <+: cleared
  length : cleared.length = m.length
  behind : (body es).length ≤ env
  room : size < m.length → env + 1 < m.length

def clear (size : Nat) (name : Arg) (oldval : Option Bytes) (m : Bytes) :
    Checked (Option Bytes × Bytes × Nat) := do
  let found ← search size name.bytes m 0 0 oldval
  let (m, env) ←
    if found.oldval.isSome then deleteEntry m found.env found.nxt else .ok (m, found.env)
  .ok (found.oldval, m, env)

theorem clear_found {size : Nat} {m : Bytes} {es : List Entry} (image : WellFormed size m es)
    (name : Arg) (oldval : Option Bytes) {e : Entry} (member : e ∈ es) (named : e.name = name.key) :
    ∃ old cleared env, clear size name oldval m = .ok (some old, cleared, env) ∧
      Cleared size m (without name.key es) cleared env ∧ env + 1 < size ∧ 3 ≤ size := by
  have fits := image.fits
  obtain ⟨as,bs,rfl,missing,rest⟩ := without_split image.distinct member named
  obtain ⟨tail,rfl,-⟩ := (encode_prefix_iff _ m).mp image.laid
  have inside : (body (as ++ e :: bs)).length ≤ size :=
    (encode_length_pos _).le.trans image.fits
  have found := search_found size name [] as bs e (0 :: tail) 0 oldval missing named.symm
    (by simpa using inside)
  simp only [List.nil_append, List.length_nil, Nat.zero_add] at found
  obtain ⟨left,env,deleted,count,empty,behind,near⟩ := deleteEntry_entry (body as) e bs tail
  have shape : body (as ++ e :: bs) ++ 0 :: tail = body as ++ (e.text ++ 0 :: (body bs ++ 0 :: tail)) := by
    simp [body_append, body]
  have room : 0 < e.text.length := by
    rw [Entry.text, List.length_append, List.length_cons]
    omega
  have whole : (body as).length + (e.text.length + ((body bs).length + 2)) ≤ size := by
    simp only [encode, List.append_eq_nil_iff, reduceCtorEq, and_false, if_false, body_append, body,
      List.length_append, List.length_cons, List.length_nil] at fits
    omega
  refine ⟨e.value ++ 0 :: (body bs ++ 0 :: tail),body as ++ (body bs ++ 0 :: left),env,?_,?_,
    by omega,by omega⟩
  · rw [clear, found]
    simp only [bind, Except.bind, Option.isSome_some, if_true, shape, deleted]
  · constructor
    · rw [rest]
      refine (encode_prefix_iff _ _).mpr ⟨left,by simp [body_append],?_⟩
      intro none
      exact empty (List.append_eq_nil_iff.mp none).2
    · rw [shape]
      simp only [List.length_append, List.length_cons]
      omega
    · rw [rest, body_append, List.length_append]
      exact behind
    · intro _
      rw [shape]
      simp only [List.length_append, List.length_cons]
      omega

/-- The loop did not run and `oldval` is still that of an earlier pair: the deletion clears two
    bytes that are NUL already. -/
theorem clear_stale {size : Nat} {m : Bytes} (image : WellFormed size m []) (name : Arg)
    (old : Bytes) : clear size name (some old) m = .ok (some old, m, 1) := by
  obtain ⟨tail,rfl,empty⟩ := (encode_prefix_iff _ m).mp image.laid
  obtain ⟨rest,rfl⟩ := List.head?_eq_some_iff.mp (empty rfl)
  have walked := search_end size name.bytes [] (0 :: rest) 0 (some old)
  simp only [List.nil_append, List.length_nil] at walked
  rw [clear]
  simp [body, walked, bind, Except.bind, deleteEntry, load, store, Except.map]

theorem clear_missing {size : Nat} {m : Bytes} {es : List Entry} (image : WellFormed size m es)
    (name : Arg) (oldval : Option Bytes) (missing : ∀ e ∈ es, e.name ≠ name.key)
    (fresh : es = [] → oldval = none) :
    clear size name oldval m = .ok (none, m, (body es).length) := by
  obtain ⟨tail,rfl,empty⟩ := (encode_prefix_iff _ m).mp image.laid
  obtain ⟨last,walked,-⟩ := search_missing size name [] es tail 0 oldval missing
    (by simpa using (encode_length_pos _).le.trans image.fits)
  simp only [List.nil_append, List.length_nil, Nat.zero_add] at walked
  have unset : (if es = [] then oldval else none) = none := by
    split
    · rename_i none
      exact fresh none
    · rfl
  rw [unset] at walked
  rw [clear, walked]
  rfl

theorem defined_iff {es : List Entry} {key : Bytes} :
    defined es key = true ↔ ∃ e ∈ es, e.name = key := by
  simp [defined]

theorem clear_turn {size : Nat} {m : Bytes} {es : List Entry} (image : WellFormed size m es)
    (name : Arg) (oldval : Option Bytes) (wide : oldval.isSome → 3 ≤ size) :
    ∃ old cleared env, clear size name oldval m = .ok (old, cleared, env) ∧
      old.isSome = finds oldval.isSome es name.key ∧
      Cleared size m (without name.key es) cleared env ∧
      (old.isSome = true → env + 1 < size ∧ 3 ≤ size) ∧
      (old.isSome = false → cleared = m ∧ env = (body es).length ∧ without name.key es = es) := by
  by_cases present : ∃ e ∈ es, e.name = name.key
  · obtain ⟨e,member,named⟩ := present
    obtain ⟨old,cleared,env,clears,after,room⟩ := clear_found image name oldval member named
    refine ⟨some old,cleared,env,clears,?_,after,fun _ => room,by simp⟩
    have nonempty : es ≠ [] := List.ne_nil_of_mem member
    rw [finds, if_neg nonempty, defined_iff.mpr ⟨e,member,named⟩]
    rfl
  · have missing : ∀ e ∈ es, e.name ≠ name.key := by
      intro e member named
      exact present ⟨e,member,named⟩
    have kept := without_of_missing missing
    by_cases stale : es = [] ∧ oldval.isSome = true
    · obtain ⟨rfl,set⟩ := stale
      obtain ⟨old,rfl⟩ := Option.isSome_iff_exists.mp set
      have room := wide rfl
      refine ⟨some old,m,1,clear_stale image name old,rfl,?_,fun _ => ⟨by omega,room⟩,by simp⟩
      exact ⟨image.laid,rfl,by simp [without, body],fun outside => by omega⟩
    · have fresh : es = [] → oldval = none := by
        intro none
        have := fun set => stale ⟨none,set⟩
        simpa using this
      have unknown : finds oldval.isSome es name.key = false := by
        rw [finds]
        split
        · rename_i none
          simp [fresh none]
        · have := mt defined_iff.mp present
          simpa using this
      refine ⟨none,m,(body es).length,clear_missing image name oldval missing fresh,unknown.symm,?_,
        by simp,fun _ => ⟨rfl,rfl,kept⟩⟩
      rw [kept]
      refine ⟨image.laid,rfl,Nat.le_refl _,?_⟩
      intro outside
      have := encode_length_pos es
      have := image.fits
      omega

theorem clear_search {size : Nat} {name : Arg} {oldval old : Option Bytes} {m cleared : Bytes}
    {env : Nat} (clears : clear size name oldval m = .ok (old, cleared, env)) :
    ∃ found, search size name.bytes m 0 0 oldval = .ok found ∧ found.oldval = old ∧
      (if found.oldval.isSome then deleteEntry m found.env found.nxt else .ok (m, found.env)) =
        .ok (cleared, env) := by
  rw [clear] at clears
  cases walked : search size name.bytes m 0 0 oldval with
  | error stop => simp [walked, bind, Except.bind] at clears
  | ok found =>
    simp only [walked, bind, Except.bind] at clears
    split at clears
    · rename_i known
      cases deleted : deleteEntry m found.env found.nxt with
      | error stop => simp [deleted] at clears
      | ok result =>
        rw [deleted] at clears
        cases clears
        exact ⟨found,rfl,rfl,by rw [if_pos known, deleted]⟩
    · rename_i unknown
      cases clears
      exact ⟨found,rfl,rfl,if_neg unknown⟩

theorem setPair_once {size : Nat} {m cleared : Bytes} {old oldval : Option Bytes} {env : Nat}
    {name : Arg} (value : Option Arg)
    (clears : clear size name oldval m = .ok (old, cleared, env)) (known : old.isSome = true)
    (once : setOnce name.text) : setPair size name value oldval m = .error .cantOverwrite := by
  obtain ⟨found,walked,rfl,-⟩ := clear_search clears
  simp [setPair, walked, bind, Except.bind, known, once]

theorem setPair_cleared {size : Nat} {m cleared : Bytes} {old oldval : Option Bytes} {env : Nat}
    {name : Arg} (value : Arg) (clears : clear size name oldval m = .ok (old, cleared, env))
    (allowed : ¬ (old.isSome = true ∧ setOnce name.text)) :
    setPair size name (some value) oldval m = (do
      let (m, env) ← if value.text ≠ [] then appendEntry size cleared name value
        else .ok (cleared, env)
      let m ← store m (env + 1) 0
      .ok (old, m)) := by
  obtain ⟨found,walked,rfl,deleted⟩ := clear_search clears
  rw [setPair, walked]
  simp only [bind, Except.bind]
  by_cases known : found.oldval.isSome = true
  · have free : ¬ setOnce name.text := fun once => allowed ⟨known,once⟩
    rw [if_pos known] at deleted
    simp only [known, if_true, free, if_false, deleted]
  · rw [if_neg known] at deleted
    cases deleted
    simp only [known]
    rfl

theorem setPair_append {size : Nat} {m cleared : Bytes} {es : List Entry} {old oldval : Option Bytes}
    {env : Nat} (image : WellFormed size m es) (p : Pair)
    (clears : clear size p.name oldval m = .ok (old, cleared, env))
    (allowed : ¬ (old.isSome = true ∧ setOnce p.name.text))
    (after : Cleared size m (without p.name.key es) cleared env) (valued : p.value.text ≠ [])
    (fits : p.Fits size es) :
    ∃ m', setPair size p.name (some p.value) oldval m = .ok (old, m') ∧
      WellFormed size m' (without p.name.key es ++ [p.entry]) ∧ m'.length = m.length := by
  obtain ⟨c,tail,appended,count⟩ :=
    appendEntry_fits after.laid (after.length ▸ image.mapped) p.name p.value fits
  have whole : body (without p.name.key es ++ [p.entry]) = body (without p.name.key es) ++
      (p.name.text ++ equals :: (p.value.text ++ [0])) := by
    rw [body_append]
    simp [body, p.entry_text]
  generalize grown : without p.name.key es ++ [p.entry] = es' at whole
  have final := store_at (body es') c 0 tail
  have place : (body (without p.name.key es) ++
      (p.name.text ++ equals :: p.value.text)).length + 1 = (body es').length := by
    simp only [whole, List.length_append, List.length_cons, List.length_nil]
    omega
  have shape : body (without p.name.key es) ++
      (p.name.text ++ equals :: (p.value.text ++ 0 :: c :: tail)) = body es' ++ c :: tail := by
    simp [whole]
  rw [shape, after.length] at count
  rw [shape] at appended
  have same : m.length = (body es' ++ 0 :: tail).length := by simpa using count.symm
  refine ⟨body es' ++ 0 :: tail,?_,?_,same.symm⟩
  · rw [setPair_cleared p.value clears allowed, if_pos valued]
    simp only [appended, bind, Except.bind, place, final]
  · constructor
    · rw [← grown]
      exact append_distinct image.distinct p
    · rw [encode, if_neg (by simp [← grown]), whole]
      unfold Pair.Fits at fits
      simp only [List.length_append, List.length_cons, List.length_nil]
      omega
    · rw [← same]
      exact image.mapped
    · refine (encode_prefix_iff _ _).mpr ⟨tail,rfl,?_⟩
      simp [← grown]

theorem setPair_delete {size : Nat} {m cleared : Bytes} {es : List Entry} {old oldval : Option Bytes}
    {env : Nat} (image : WellFormed size m es) (p : Pair)
    (clears : clear size p.name oldval m = .ok (old, cleared, env))
    (allowed : ¬ (old.isSome = true ∧ setOnce p.name.text))
    (after : Cleared size m (without p.name.key es) cleared env) (empty : p.value.text = []) :
    (env + 1 < m.length → ∃ m', setPair size p.name (some p.value) oldval m = .ok (old, m') ∧
      WellFormed size m' (without p.name.key es) ∧ m'.length = m.length) ∧
    (¬ env + 1 < m.length → setPair size p.name (some p.value) oldval m = .error .fault) := by
  rw [setPair_cleared p.value clears allowed, if_neg (by simpa using empty), ← after.length]
  constructor
  · intro room
    refine ⟨cleared.set (env + 1) 0,?_,?_,?_⟩
    · simp [bind, Except.bind, store, room]
    · constructor
      · exact without_distinct image.distinct _
      · exact (encode_without_length _ es).trans image.fits
      · rw [List.length_set, after.length]
        exact image.mapped
      · exact encode_set_behind after.laid (Nat.lt_succ_of_le after.behind)
    · rw [List.length_set]
  · intro out
    simp [bind, Except.bind, store, out]

theorem spills_iff {size env : Nat} {m : Bytes} {es : List Entry} {p : Pair} {known stale : Bool}
    (image : WellFormed size m es) (same : known = finds stale es p.name.key)
    (empty : p.value.text = []) (room : known = true → env + 1 < size)
    (kept : known = false → env = (body es).length) :
    ¬ env + 1 < m.length ↔ m.length = size ∧ p.Spills size es := by
  have mapped := image.mapped
  have fits := image.fits
  by_cases none : es = []
  · subst none
    have short : env + 1 < m.length := by
      cases known with
      | true => exact lt_of_lt_of_le (room rfl) mapped
      | false =>
        rw [kept rfl]
        simp only [encode, if_true, List.length_cons, List.length_nil, body] at fits ⊢
        omega
    simp [short, Pair.Spills]
  · have ends : (encode es).length = (body es).length + 1 := by simp [encode, none]
    rw [finds, if_neg none] at same
    cases known with
    | true =>
      have short : env + 1 < m.length := lt_of_lt_of_le (room rfl) mapped
      simp [short, Pair.Spills, ← same]
    | false =>
      rw [kept rfl, Pair.Spills, ← same]
      constructor
      · intro full
        exact ⟨by omega,empty,none,rfl,by omega⟩
      · rintro ⟨exact_size,-,-,-,full⟩
        omega

structure Follows (size : Nat) (m : Bytes) (outcome : Checked (Bool × List Entry))
    (concrete : Checked (Option Bytes × Bytes)) : Prop where
  stops : ∀ stop, outcome = .error stop → concrete = .error stop
  goesOn : ∀ found es, outcome = .ok (found, es) → ∃ old m', concrete = .ok (old, m') ∧
    old.isSome = found ∧ WellFormed size m' es ∧ m'.length = m.length ∧ (found = true → 3 ≤ size)

theorem setPair_turn {size : Nat} {m : Bytes} {es : List Entry} (image : WellFormed size m es)
    (p : Pair) (oldval : Option Bytes) (wide : oldval.isSome = true → 3 ≤ size) :
    Follows size m (turn size m.length p (oldval.isSome, es))
      (setPair size p.name (some p.value) oldval m) := by
  obtain ⟨old,cleared,env,clears,same,after,room,kept⟩ := clear_turn image p.name oldval wide
  have mapped := image.mapped
  unfold turn
  dsimp only
  rw [← same]
  by_cases once : old.isSome = true ∧ setOnce p.name.text
  · rw [if_pos once]
    refine ⟨?_,by simp⟩
    rintro _ ⟨⟩
    exact setPair_once _ clears once.1 once.2
  · rw [if_neg once]
    by_cases empty : p.value.text = []
    · rw [if_pos empty]
      obtain ⟨done,out⟩ := setPair_delete image p clears once after empty
      have spills := spills_iff image same empty (fun known => (room known).1)
        (fun unknown => (kept unknown).2.1)
      by_cases spill : m.length = size ∧ p.Spills size es
      · rw [if_pos spill]
        refine ⟨?_,by simp⟩
        rintro _ ⟨⟩
        exact out (spills.mpr spill)
      · rw [if_neg spill]
        obtain ⟨m',turned,next,length⟩ := done (by_contra fun full => spill (spills.mp full))
        refine ⟨by simp,?_⟩
        rintro _ _ ⟨⟩
        exact ⟨old,m',turned,rfl,next,length,fun known => (room known).2⟩
    · rw [if_neg empty]
      by_cases fits : p.Fits size es
      · rw [if_pos fits]
        obtain ⟨m',turned,next,length⟩ := setPair_append image p clears once after empty fits
        refine ⟨by simp,?_⟩
        rintro _ _ ⟨⟩
        exact ⟨old,m',turned,rfl,next,length,fun known => (room known).2⟩
      · rw [if_neg fits]
        refine ⟨?_,by simp⟩
        rintro _ ⟨⟩
        rw [setPair_cleared p.value clears once, if_pos empty,
          appendEntry_overflow after.laid p.name p.value (Nat.lt_of_not_le fits)]
        rfl

theorem setPairs_turns {size : Nat} {m : Bytes} {es : List Entry} (image : WellFormed size m es)
    (ps : List Pair) (oldval : Option Bytes) (wide : oldval.isSome = true → 3 ≤ size) :
    (∀ stop, turns size m.length ps (oldval.isSome, es) = .error stop →
      setPairs size (pairArgs ps) oldval m = .error stop) ∧
    (∀ found es', turns size m.length ps (oldval.isSome, es) = .ok (found, es') →
      ∃ m', setPairs size (pairArgs ps) oldval m = .ok m' ∧ WellFormed size m' es' ∧
        m'.length = m.length) := by
  induction ps generalizing m es oldval with
  | nil =>
    refine ⟨by simp [turns],?_⟩
    rintro _ _ ⟨⟩
    exact ⟨m,rfl,image,rfl⟩
  | cons p ps ih =>
    obtain ⟨stops,goesOn⟩ := setPair_turn image p oldval wide
    rw [turns, pairArgs, setPairs]
    cases outcome : turn size m.length p (oldval.isSome, es) with
    | error stop =>
      rw [stops stop outcome]
      refine ⟨?_,by simp⟩
      rintro _ ⟨⟩
      rfl
    | ok t =>
      obtain ⟨found,es'⟩ := t
      obtain ⟨old,m',turned,rfl,next,length,large⟩ := goesOn found es' outcome
      obtain ⟨stopped,done⟩ := ih next old large
      rw [turned]
      rw [length] at stopped done
      exact ⟨stopped,done⟩

end FwEnv
