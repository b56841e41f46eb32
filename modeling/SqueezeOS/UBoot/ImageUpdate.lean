import SqueezeOS.UBoot.PairTurns

/- What fw_setenvs does to a well-formed environment: every pair of arguments replaces one
   variable, or deletes it. -/
namespace FwEnv

/-- A pair of arguments of the kind that fw_setenvs is meant for. -/
structure Setting where
  name : Arg
  value : Arg
  named : name.text ≠ []
  noEquals : equals ∉ name.text
  notOnce : ¬ setOnce name.text

def Setting.entry (p : Setting) : Entry where
  name := p.name.text
  value := p.value.text
  nameText c member := ⟨p.name.noNul c member,fun same => p.noEquals (same ▸ member)⟩
  valueText := p.value.noNul

def others (p : Setting) (es : List Entry) : List Entry :=
  es.filter fun e => e.name ≠ p.name.text

def update (es : List Entry) (p : Setting) : List Entry :=
  others p es ++ if p.value.text = [] then [] else [p.entry]

theorem Setting.name_key (p : Setting) : p.name.key = p.name.text := by
  rw [Arg.key, List.takeWhile_eq_self_iff]
  intro c member
  have : c ≠ equals := fun same => p.noEquals (same ▸ member)
  simp [this]

def Setting.pair (p : Setting) : Pair := { name := p.name, value := p.value }

theorem Setting.pair_entry (p : Setting) : p.pair.entry = p.entry := by
  have whole : p.name.text.dropWhile (· ≠ equals) = [] := by
    rw [List.dropWhile_eq_nil_iff]
    intro c member
    have : c ≠ equals := fun same => p.noEquals (same ▸ member)
    simp [this]
  have value : p.pair.entry.value = p.value.text := by
    simp only [Setting.pair, Pair.entry, whole]
  cases entry : p.pair.entry with
  | mk name text nameText valueText =>
    have named : name = p.name.text := by
      rw [← p.name_key]
      exact (congrArg Entry.name entry).symm
    rw [entry] at value
    cases named
    cases value
    rfl

def argv : List Setting → List Arg
  | [] => []
  | p :: ps => p.name :: p.value :: argv ps

theorem argv_eq (ps : List Setting) : argv ps = pairArgs (ps.map Setting.pair) := by
  induction ps with
  | nil => rfl
  | cons p ps ih => rw [argv, List.map_cons, pairArgs, ih]; rfl

theorem turn_setting (size mapped : Nat) (p : Setting) (s : Bool × List Entry) :
    turn size mapped p.pair s = .ok (finds s.1 s.2 p.name.key, update s.2 p) ∨
    turn size mapped p.pair s = .error .overflow ∨
    (turn size mapped p.pair s = .error .fault ∧ mapped = size) := by
  have kept : without p.name.key s.2 = others p s.2 := by rw [p.name_key]; rfl
  have free : ¬ (finds s.1 s.2 p.name.key ∧ setOnce p.name.text) := fun once => p.notOnce once.2
  have start : turn size mapped p.pair s = if p.value.text = [] then
      if mapped = size ∧ p.pair.Spills size s.2 then .error .fault
      else .ok (finds s.1 s.2 p.name.key, others p s.2)
    else if p.pair.Fits size s.2 then .ok (finds s.1 s.2 p.name.key, others p s.2 ++ [p.entry])
    else .error .overflow := by
    rw [← kept, ← p.pair_entry]
    exact if_neg free
  rw [start, update]
  by_cases empty : p.value.text = []
  · rw [if_pos empty, if_pos empty, List.append_nil]
    by_cases spills : mapped = size ∧ p.pair.Spills size s.2
    · rw [if_pos spills]
      exact Or.inr (Or.inr ⟨rfl,spills.1⟩)
    · rw [if_neg spills]
      exact Or.inl rfl
  · rw [if_neg empty, if_neg empty]
    by_cases fits : p.pair.Fits size s.2
    · rw [if_pos fits]
      exact Or.inl rfl
    · rw [if_neg fits]
      exact Or.inr (Or.inl rfl)

theorem turns_settings {size mapped : Nat} (ps : List Setting) (s : Bool × List Entry) :
    (∃ found, turns size mapped (ps.map Setting.pair) s = .ok (found, ps.foldl update s.2)) ∨
    turns size mapped (ps.map Setting.pair) s = .error .overflow ∨
    (turns size mapped (ps.map Setting.pair) s = .error .fault ∧ mapped = size) := by
  induction ps generalizing s with
  | nil => exact Or.inl ⟨s.1,rfl⟩
  | cons p ps ih =>
    rw [List.map_cons, turns]
    rcases turn_setting size mapped p s with turned | overflow | ⟨fault,exact_size⟩
    · rw [turned]
      exact ih _
    · rw [overflow]
      exact Or.inr (Or.inl rfl)
    · rw [fault]
      exact Or.inr (Or.inr ⟨rfl,exact_size⟩)

theorem setPairs_spec {size : Nat} {m : Bytes} {es : List Entry} (image : WellFormed size m es)
    (ps : List Setting) :
    (∃ m', setPairs size (argv ps) none m = .ok m' ∧ WellFormed size m' (ps.foldl update es)) ∨
    setPairs size (argv ps) none m = .error .overflow ∨
    (setPairs size (argv ps) none m = .error .fault ∧ m.length = size) := by
  obtain ⟨stops,goesOn⟩ := setPairs_turns image (ps.map Setting.pair) none (by simp)
  rw [argv_eq]
  rcases turns_settings ps (false, es) with ⟨found,done⟩ | overflow | ⟨fault,exact_size⟩
  · obtain ⟨m',run,next,-⟩ := goesOn _ _ done
    exact Or.inl ⟨m',run,next⟩
  · exact Or.inr (Or.inl (stops _ overflow))
  · exact Or.inr (Or.inr ⟨stops _ fault,exact_size⟩)

def lookup (es : List Entry) (k : Bytes) : Option Bytes :=
  (es.find? fun e => e.name = k).map Entry.value

theorem cString_text (t rest : Bytes) (noNul : ∀ c ∈ t, c ≠ 0) : cString (t ++ 0 :: rest) = t := by
  rw [cString, List.takeWhile_append_of_pos (by simpa using noNul)]
  simp

theorem fwGetenv_value {size : Nat} {m : Bytes} {es : List Entry} (image : WellFormed size m es)
    (q : Arg) : ∃ p, fwGetenv size q m = .ok p ∧ p.map cString = lookup es q.key := by
  have inside : (body es).length ≤ size := (encode_length_pos _).le.trans image.fits
  obtain ⟨rest,rfl,-⟩ := (encode_prefix_iff es m).mp image.laid
  cases hit : es.find? fun e => e.name = q.key with
  | none =>
    have missing : ∀ e ∈ es, e.name ≠ q.key := by simpa using hit
    obtain ⟨last,walked,-⟩ := search_missing size q [] es rest 0 none missing (by simpa using inside)
    simp only [List.nil_append, List.length_nil, Nat.zero_add, ite_self] at walked
    exact ⟨none,by rw [fwGetenv, walked],by simp [lookup, hit]⟩
  | some e =>
    obtain ⟨named,as,bs,rfl,missing⟩ := List.find?_eq_some_iff_append.mp hit
    have found := search_found size q [] as bs e (0 :: rest) 0 none (by simpa using missing)
      (by simpa using (of_decide_eq_true named).symm) (by simpa using inside)
    simp only [List.nil_append, List.length_nil] at found
    refine ⟨some (e.value ++ 0 :: (body bs ++ 0 :: rest)),by rw [fwGetenv, found],?_⟩
    rw [lookup, hit, Option.map_some, Option.map_some, cString_text _ _ e.valueText]

theorem others_find (p : Setting) (es : List Entry) (k : Bytes) :
    (others p es).find? (fun e => e.name = k) =
      if p.name.text = k then none else es.find? (fun e => e.name = k) := by
  rw [others, List.find?_filter]
  by_cases same : p.name.text = k
  · rw [if_pos same, List.find?_eq_none]
    intro e _
    simp [same]
  · rw [if_neg same]
    congr 1
    funext e
    by_cases named : e.name = k
    · simp [named, Ne.symm same]
    · simp [named]

theorem lookup_update (es : List Entry) (p : Setting) (k : Bytes) :
    lookup (update es p) k =
      if p.name.text = k then (if p.value.text = [] then none else some p.value.text)
      else lookup es k := by
  rw [lookup, update, List.find?_append, others_find]
  by_cases same : p.name.text = k
  · rw [if_pos same, if_pos same]
    by_cases empty : p.value.text = []
    · simp [empty]
    · simp [empty, Setting.entry, same]
  · rw [if_neg same, if_neg same, lookup]
    by_cases empty : p.value.text = []
    · simp [empty]
    · simp [empty, Setting.entry, same]

def lastValue : List Setting → Bytes → Option Bytes
  | [], _ => none
  | p :: ps, k => (lastValue ps k).or (if p.name.text = k then some p.value.text else none)

theorem lookup_updates (es : List Entry) (ps : List Setting) (k : Bytes) :
    lookup (ps.foldl update es) k =
      match lastValue ps k with
      | none => lookup es k
      | some v => if v = [] then none else some v := by
  induction ps generalizing es with
  | nil => rfl
  | cons p ps ih =>
    rw [List.foldl_cons, ih, lookup_update, lastValue]
    cases lastValue ps k with
    | none => by_cases same : p.name.text = k <;> simp [same]
    | some v => simp

def untouched (ps : List Setting) (e : Entry) : Bool := ps.all fun p => e.name ≠ p.name.text

theorem untouched_update (es : List Entry) {ps : List Setting} {p : Setting} (member : p ∈ ps) :
    (update es p).filter (untouched ps) = es.filter (untouched ps) := by
  have differs : ∀ e, untouched ps e = true → e.name ≠ p.name.text := by
    intro e free
    have := List.all_eq_true.mp free p member
    simpa using this
  have added : (if p.value.text = [] then [] else [p.entry]).filter (untouched ps) = [] := by
    rw [List.filter_eq_nil_iff]
    intro e inside free
    split at inside
    · cases inside
    · obtain rfl := List.mem_singleton.mp inside
      exact differs p.entry free rfl
  rw [update, List.filter_append, added, List.append_nil, others, List.filter_filter]
  apply List.filter_congr
  intro e _
  cases free : untouched ps e with
  | false => rfl
  | true => simpa using differs e free

theorem untouched_updates (es : List Entry) (all ps : List Setting) (part : ∀ p ∈ ps, p ∈ all) :
    (ps.foldl update es).filter (untouched all) = es.filter (untouched all) := by
  induction ps generalizing es with
  | nil => rfl
  | cons p ps ih =>
    rw [List.foldl_cons, ih (update es p) (fun x member => part x (by simp [member])),
      untouched_update es (part p (by simp))]

/-- fw_setenvs updates the variables one pair after the other. -/
theorem setPairs_updates {size : Nat} {m : Bytes} {es : List Entry} (image : WellFormed size m es)
    (ps : List Setting) :
    (∀ m', setPairs size (argv ps) none m = .ok m' →
      ∃ es', WellFormed size m' es' ∧ es'.filter (untouched ps) = es.filter (untouched ps) ∧
        ∀ q : Arg, ∃ old new, fwGetenv size q m = .ok old ∧ fwGetenv size q m' = .ok new ∧
          new.map cString =
            match lastValue ps q.key with
            | none => old.map cString
            | some v => if v = [] then none else some v) ∧
    (size < m.length → ∀ stop, setPairs size (argv ps) none m = .error stop → stop = .overflow) := by
  rcases setPairs_spec image ps with ⟨m',run,updated⟩ | overflow | ⟨fault,exact_size⟩
  · rw [run]
    refine ⟨?_,by simp⟩
    rintro _ ⟨⟩
    refine ⟨ps.foldl update es,updated,untouched_updates es ps ps (fun _ => id),?_⟩
    intro q
    obtain ⟨old,before,oldValue⟩ := fwGetenv_value image q
    obtain ⟨new,after,newValue⟩ := fwGetenv_value updated q
    refine ⟨old,new,before,after,?_⟩
    rw [newValue, oldValue, lookup_updates]
  · rw [overflow]
    exact ⟨by simp,by simp⟩
  · rw [fault]
    refine ⟨by simp,?_⟩
    intro outside
    omega

def entryA : Entry := { name := [97], value := [49], nameText := by simp [equals], valueText := by simp }

def entryB : Entry := { name := [98], value := [50], nameText := by simp [equals], valueText := by simp }

def setA : Setting where
  name := { text := [97], after := [], noNul := by simp }
  value := { text := [53], after := [], noNul := by simp }
  named := by decide
  noEquals := by decide
  notOnce := by decide

def dropB : Setting where
  name := { text := [98], after := [], noNul := by simp }
  value := { text := [], after := [], noNul := by simp }
  named := by decide
  noEquals := by decide
  notOnce := by decide

theorem set_and_drop :
    WellFormed 12 (encode [entryA, entryB] ++ [7, 7, 7, 7]) [entryA, entryB] ∧
    ∃ m' a b, setPairs 12 (argv [setA, dropB]) none (encode [entryA, entryB] ++ [7, 7, 7, 7]) =
        .ok m' ∧
      fwGetenv 12 setA.name m' = .ok a ∧ a.map cString = some [53] ∧
      fwGetenv 12 dropB.name m' = .ok b ∧ b.map cString = none := by
  have image : WellFormed 12 (encode [entryA, entryB] ++ [7, 7, 7, 7]) [entryA, entryB] :=
    { distinct := by decide
      fits := by decide
      mapped := by decide
      laid := List.prefix_append _ _ }
  have run : setPairs 12 (argv [setA, dropB]) none (encode [entryA, entryB] ++ [7, 7, 7, 7]) =
      .ok [97, 61, 53, 0, 0, 0, 53, 0, 0, 7, 7, 7, 7] := by
    decide +kernel
  obtain ⟨_,_,_,values⟩ := (setPairs_updates image [setA, dropB]).1 _ run
  obtain ⟨_,a,_,readA,valueA⟩ := values setA.name
  obtain ⟨_,b,_,readB,valueB⟩ := values dropB.name
  exact ⟨image,_,a,b,run,readA,valueA,readB,valueB⟩

end FwEnv
