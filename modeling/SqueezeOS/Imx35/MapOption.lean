import SqueezeOS.Kernel.Strings

/- The option maps of the kernel command line, key1:99,key2:98,50, and the priorities of the
   interrupt threads that are looked up in them. -/
namespace MapOption
open KernelStrings

/-- What stands before the terminating NUL. -/
structure CString where
  bytes : List UInt8
  ends : 0 ∉ bytes
  deriving DecidableEq

def strncmp : List UInt8 → List UInt8 → UInt8
  | _, [] => 0
  | [], k :: _ => 0 - k
  | c :: cs, k :: ct => if c - k ≠ 0 then c - k else strncmp cs ct

def strnchr (c : UInt8) : List UInt8 → Nat → Bool
  | s :: rest, count + 1 => s == c || strnchr c rest count
  | _, _ => false

/-- A pointer is what can be read through it up to the NUL; `none` when it points behind that. -/
def plus (p : List UInt8) (n : Nat) : Option (List UInt8) :=
  if n ≤ p.length then some (p.drop n) else none

def deref (p : List UInt8) : UInt8 := p.headD 0

def readInt (cp : List UInt8) : Int := (BitVec.ofNat 32 (simpleStrtol cp 10)).toInt

/-- `none` for a byte read behind the NUL, `some none` when nothing is found. -/
def parseMapField (key : Option CString) (substr : List UInt8) (len : Int) :
    Option (Option Int) :=
  if len ≠ 0 then
    match key with
    | some key =>
        if strncmp substr key.bytes = 0 then
          match plus substr key.bytes.length with
          | none => none
          | some strval =>
              if deref strval = 58 then
                if len - (key.bytes.length + 1) > 0 then some (some (readInt strval.tail))
                else some none
              else some none
        else some none
    | none => if strnchr 58 substr len.toNat then some none else some (some (readInt substr))
  else some none

/-- The loop, with len = end - start. -/
def scan (key : Option CString) (start : List UInt8) (len : Int) :
    List UInt8 → Option (Option Int)
  | [] => none
  | _ :: ends =>
      match ends with
      | [] => parseMapField key start (len + 1)
      | c :: next =>
          if c = 44 then
            match parseMapField key start (len + 1) with
            | some none => scan key next (-1) ends
            | found => found
          else scan key start (len + 1) ends

def getMapOption (str : CString) (key : Option CString) : Option (Option Int) :=
  scan key str.bytes 0 str.bytes

def maxUserRtPrio : Int := 100

def checkPrioRange (prio : Int) : Int :=
  if prio ≤ 0 ∨ prio ≥ maxUserRtPrio then maxUserRtPrio / 2 else prio

def getDefaultIrqPrio (prioMap : CString) : Option Int :=
  (getMapOption prioMap none).map fun found => found.getD (maxUserRtPrio / 2)

/-- What get_irq_prio and get_softirq_prio do with their map. -/
def prioIn (prioMap : CString) (name : Option CString) : Option Int :=
  match getMapOption prioMap name with
  | none => none
  | some (some prio) => some (checkPrioRange prio)
  | some none => (getDefaultIrqPrio prioMap).map checkPrioRange

/-- `config` is CONFIG_PREEMPT_HARDIRQS_PRIORITIES. -/
def getIrqPrio (cmdline : Option CString) (config : CString) (name : Option CString) :
    Option Int :=
  prioIn (cmdline.getD config) name

/-- `config` is CONFIG_PREEMPT_SOFTIRQS_PRIORITIES, where it is defined. -/
def getSoftirqPrio (cmdline config : Option CString) (name : Option CString) : Option Int :=
  match cmdline.or config with
  | none => none
  | some prioMap => prioIn prioMap name

def fieldValue : Option CString → List UInt8 → Option Int
  | some key, field =>
      if key.bytes ++ [58] <+: field ∧ key.bytes.length + 1 < field.length then
        some (readInt (field.drop (key.bytes.length + 1)))
      else none
  | none, field => if field = [] ∨ 58 ∈ field then none else some (readInt field)

def lookup (key : Option CString) (fields : List (List UInt8)) : Option Int :=
  fields.findSome? (fieldValue key)

def fields (str : List UInt8) : List (List UInt8) := str.splitOn 44

theorem fieldValue_key {key : CString} {field : List UInt8} {value : Int} :
    fieldValue (some key) field = some value ↔
      ∃ rest, rest ≠ [] ∧ field = key.bytes ++ 58 :: rest ∧ value = readInt rest := by
  rw [fieldValue]
  constructor
  · intro found
    by_cases named : key.bytes ++ [58] <+: field ∧ key.bytes.length + 1 < field.length
    · rw [if_pos named] at found
      obtain ⟨⟨rest,rfl⟩,longer⟩ := named
      refine ⟨rest,?_,by simp,?_⟩
      · rintro rfl
        simp at longer
      · rw [← Option.some.inj found, List.drop_left' (by simp)]
    · rw [if_neg named] at found
      contradiction
  · rintro ⟨rest,nonempty,rfl,rfl⟩
    have longer := List.length_pos_iff.mpr nonempty
    rw [if_pos ⟨⟨rest,by simp⟩,by simp; omega⟩]
    simp

@[simp] theorem fieldValue_nil (key : Option CString) : fieldValue key [] = none := by
  cases key <;> simp [fieldValue]

@[simp] theorem lookup_cons (key : Option CString) (field : List UInt8)
    (rest : List (List UInt8)) :
    lookup key (field :: rest) = (fieldValue key field).or (lookup key rest) := by
  unfold lookup
  rw [List.findSome?_cons]
  cases fieldValue key field <;> rfl

theorem lookup_nonempty (key : Option CString) (fields : List (List UInt8)) :
    lookup key (fields.filter (· ≠ [])) = lookup key fields := by
  induction fields with
  | nil => rfl
  | cons field rest ih =>
    by_cases empty : field = []
    · subst empty
      simpa using ih
    · rw [List.filter_cons_of_pos (by simpa using empty), lookup_cons, lookup_cons, ih]

theorem byte_sub_zero (c k : UInt8) : c - k = 0 ↔ c = k := by grind

theorem strncmp_zero (cs ct : List UInt8) (ends : 0 ∉ ct) : strncmp cs ct = 0 ↔ ct <+: cs := by
  induction ct generalizing cs with
  | nil => simp [strncmp]
  | cons k ct ih =>
    obtain ⟨nonzero,later⟩ := not_or.mp (fun h => ends (List.mem_cons.mpr h))
    cases cs with
    | nil =>
      simp only [strncmp, List.prefix_nil, reduceCtorEq, iff_false]
      intro same
      exact nonzero ((byte_sub_zero 0 k).mp same)
    | cons c cs =>
      rw [strncmp, List.cons_prefix_cons, ← ih cs later]
      by_cases differ : c - k = 0
      · rw [if_neg (not_not.mpr differ)]
        exact ⟨fun rest => ⟨((byte_sub_zero c k).mp differ).symm,rest⟩,And.right⟩
      · rw [if_pos differ]
        constructor
        · exact fun same => absurd same differ
        · rintro ⟨rfl,_⟩
          exact absurd ((byte_sub_zero k k).mpr rfl) differ

theorem strnchr_append (c : UInt8) (field tail : List UInt8) :
    strnchr c (field ++ tail) field.length = true ↔ c ∈ field := by
  induction field with
  | nil => cases tail <;> simp [strnchr]
  | cons s field ih =>
    rw [List.cons_append, List.length_cons, strnchr, Bool.or_eq_true, ih, List.mem_cons,
      beq_iff_eq, eq_comm]

def Behind (tail : List UInt8) : Prop := tail = [] ∨ ∃ next, tail = 44 :: next

theorem strtoulDigits_field (result : Nat) (field : List UInt8) {tail : List UInt8}
    (behind : Behind tail) :
    strtoulDigits 10 result (field ++ tail) = strtoulDigits 10 result field := by
  induction field generalizing result with
  | nil =>
    rcases behind with rfl | ⟨next,rfl⟩
    · rfl
    · rw [List.nil_append, strtoulDigits]
      rfl
  | cons c field ih =>
    rw [List.cons_append, strtoulDigits, strtoulDigits, ih]

theorem readInt_field {field tail : List UInt8} (nonempty : field ≠ []) (behind : Behind tail) :
    readInt (field ++ tail) = readInt field := by
  have unsigned (cp : List UInt8) : simpleStrtoul (cp ++ tail) 10 = simpleStrtoul cp 10 :=
    strtoulDigits_field 0 cp behind
  obtain ⟨c,rest,rfl⟩ := List.exists_cons_of_ne_nil nonempty
  have signed : simpleStrtol (c :: rest ++ tail) 10 = simpleStrtol (c :: rest) 10 := by
    by_cases minus : c = 45
    · subst minus
      exact congrArg (fun n => (2 ^ 32 - n) % 2 ^ 32) (unsigned rest)
    · have plain (cp : List UInt8) : simpleStrtol (c :: cp) 10 = simpleStrtoul (c :: cp) 10 := by
        simp [simpleStrtol, minus]
      rw [plain, List.cons_append, plain]
      exact unsigned (c :: rest)
  rw [readInt, signed, readInt]

section
variable {field tail : List UInt8}

/-- The key is compared with the rest of the string, but its value has to lie in the field. -/
theorem prefix_of_field (tail : List UInt8) {key : List UInt8}
    (longer : key.length + 1 < field.length) :
    key ++ [58] <+: field ↔
      key <+: field ++ tail ∧ deref ((field ++ tail).drop key.length) = 58 := by
  constructor
  · rintro ⟨rest,rfl⟩
    exact ⟨⟨58 :: rest ++ tail,by simp⟩,by simp [deref]⟩
  · rintro ⟨⟨rest,whole⟩,colon⟩
    rw [← whole, List.drop_left] at colon
    cases rest with
    | nil => exact absurd colon (by decide)
    | cons c rest =>
      have same : c = 58 := colon
      subst same
      have long : (key ++ [58]) <+: field ++ tail := ⟨rest,by simp [whole]⟩
      exact List.prefix_of_prefix_length_le long ⟨tail,rfl⟩ (by simp; omega)

theorem parseMapField_field (key : Option CString) (field : List UInt8) (behind : Behind tail) :
    parseMapField key (field ++ tail) field.length = some (fieldValue key field) := by
  by_cases empty : field = []
  · subst empty
    simp [parseMapField]
  have length : (field.length : Int) ≠ 0 := by
    have positive := List.length_pos_iff.mpr empty
    omega
  rw [parseMapField.eq_def, if_pos length]
  cases key with
  | none =>
    have found := strnchr_append 58 field tail
    rw [fieldValue]
    simp only [Int.toNat_natCast, found, empty, false_or, readInt_field empty behind]
    split <;> rfl
  | some key =>
    have compared := strncmp_zero (field ++ tail) key.bytes key.ends
    rw [fieldValue]
    simp only [compared]
    by_cases matched : key.bytes <+: field ++ tail
    · have inside : key.bytes.length ≤ (field ++ tail).length := matched.length_le
      simp only [matched, if_true, plus, inside]
      by_cases longer : key.bytes.length + 1 < field.length
      · have named := prefix_of_field tail longer
        have left : (field.length : Int) - (key.bytes.length + 1) > 0 := by omega
        have value : ((field ++ tail).drop key.bytes.length).tail =
            field.drop (key.bytes.length + 1) ++ tail := by
          rw [List.tail_drop, List.drop_append_of_le_length (by omega)]
        have nonempty : field.drop (key.bytes.length + 1) ≠ [] := by
          rw [Ne, List.drop_eq_nil_iff]
          omega
        simp only [left, if_true, value, readInt_field nonempty behind, named, matched, longer,
          true_and, and_true]
        split <;> rfl
      · have left : ¬((field.length : Int) - (key.bytes.length + 1) > 0) := by omega
        simp only [left, if_false, longer, and_false, ite_self]
    · have unnamed : ¬(key.bytes ++ [58] <+: field ∧ key.bytes.length + 1 < field.length) := by
        rintro ⟨named,longer⟩
        exact matched ((prefix_of_field tail longer).mp named).1
      simp only [matched, if_false, unnamed]

def scanBehind (key : Option CString) (found : Option Int) : List UInt8 → Option (Option Int)
  | [] => some found
  | c :: next => if found.isSome then some found else scan key next (-1) (c :: next)

theorem scan_field (key : Option CString) (done : List UInt8) (x : UInt8)
    (single : 44 ∉ field) (behind : Behind tail) :
    scan key (done ++ x :: (field ++ tail)) done.length (x :: (field ++ tail)) =
      scanBehind key (fieldValue key (done ++ x :: field)) tail := by
  induction field generalizing done x with
  | nil =>
    have parsed := parseMapField_field key (done ++ [x]) behind
    have length : ((done ++ [x]).length : Int) = done.length + 1 := by simp
    rw [length, List.append_assoc, List.singleton_append] at parsed
    rcases behind with rfl | ⟨next,rfl⟩
    · rw [List.append_nil, scan]
      exact parsed
    · rw [List.nil_append, scan, if_pos rfl, parsed]
      cases fieldValue key (done ++ [x]) <;> rfl
  | cons c field ih =>
    obtain ⟨other,later⟩ := not_or.mp (fun h => single (List.mem_cons.mpr h))
    have step := ih (done ++ [x]) c later
    have length : ((done ++ [x]).length : Int) = done.length + 1 := by simp
    rw [length, List.append_assoc, List.singleton_append] at step
    rw [List.cons_append, scan, if_neg (Ne.symm other), step]
    simp

end

theorem fields_cons (x : UInt8) (rest : List UInt8) :
    fields (x :: rest) = if x = 44 then [] :: fields rest
      else (fields rest).modifyHead (List.cons x) := by
  have split := List.splitOn_cons_eq_if_modifyHead x rest (a := 44)
  simp only [beq_iff_eq] at split
  exact split

theorem fields_exists (str : List UInt8) : ∃ first others, fields str = first :: others :=
  List.exists_cons_of_ne_nil (List.splitOn_ne_nil 44 str)

def fieldsBehind : List UInt8 → List (List UInt8)
  | [] => []
  | _ :: next => fields next

theorem field_cases (str : List UInt8) :
    ∃ field tail, str = field ++ tail ∧ 44 ∉ field ∧ Behind tail ∧
      fields str = field :: fieldsBehind tail := by
  by_cases separated : 44 ∈ str
  · obtain ⟨field,next,rfl,single⟩ := List.eq_append_cons_of_mem separated
    exact ⟨field,44 :: next,rfl,single,.inr ⟨next,rfl⟩,
      List.splitOn_append_cons_self_of_not_mem single next⟩
  · exact ⟨str,[],by simp,separated,.inl rfl,List.splitOn_eq_singleton separated⟩

theorem scan_first (key : Option CString) (x : UInt8) (rest : List UInt8)
    (later : ∀ next, next.length < rest.length →
      scan key next (-1) (44 :: next) = some (lookup key (fields next))) :
    scan key (x :: rest) 0 (x :: rest) =
      some (lookup key ((fields rest).modifyHead (List.cons x))) := by
  obtain ⟨field,tail,rfl,single,behind,split⟩ := field_cases rest
  have first := scan_field key [] x single behind
  simp only [List.nil_append, List.length_nil, Nat.cast_zero] at first
  rw [first, split, List.modifyHead_cons, lookup_cons]
  rcases behind with rfl | ⟨next,rfl⟩
  · simp [scanBehind, fieldsBehind, lookup]
  · rw [scanBehind, fieldsBehind, later next (by simp; omega)]
    cases fieldValue key (x :: field) <;> rfl

theorem scan_fields (key : Option CString) (str : List UInt8) :
    scan key str (-1) (44 :: str) = some (lookup key (fields str)) := by
  induction length : str.length using Nat.strongRecOn generalizing str with
  | ind n ih =>
    cases str with
    | nil => simp [scan, parseMapField, fields, lookup]
    | cons x rest =>
      have later (next : List UInt8) (shorter : next.length ≤ rest.length) :
          scan key next (-1) (44 :: next) = some (lookup key (fields next)) :=
        ih next.length (by rw [← length, List.length_cons]; omega) next rfl
      by_cases separator : x = 44
      · subst separator
        rw [scan, if_pos rfl, fields_cons, if_pos rfl, lookup_cons, fieldValue_nil]
        exact later rest (Nat.le_refl _)
      · rw [scan, if_neg separator, fields_cons, if_neg separator]
        exact scan_first key x rest fun next shorter => later next (Nat.le_of_lt shorter)

theorem getMapOption_cons (str : CString) (key : Option CString) {x : UInt8} {rest : List UInt8}
    (bytes : str.bytes = x :: rest) :
    getMapOption str key = some (lookup key ((fields rest).modifyHead (List.cons x))) := by
  rw [getMapOption, bytes]
  exact scan_first key x rest fun next _ => scan_fields key next

def Begins (str : CString) : Prop := (fields str.bytes).head? ≠ some []

theorem getMapOption_lookup (str : CString) (key : Option CString) (begins : Begins str) :
    getMapOption str key = some (lookup key (fields str.bytes)) := by
  unfold Begins at begins
  cases bytes : str.bytes with
  | nil => simp [bytes, fields] at begins
  | cons x rest =>
    rw [bytes, fields_cons] at begins
    by_cases separator : x = 44
    · simp [separator] at begins
    · rw [getMapOption_cons str key bytes, fields_cons, if_neg separator]

/-- The value of the named entry, else of the default entry, else 50; and 50 for one that is no
    priority. -/
def prioFor (prioMap : CString) (name : Option CString) : Int :=
  let prio := ((lookup name (fields prioMap.bytes)).or (lookup none (fields prioMap.bytes))).getD 50
  if 1 ≤ prio ∧ prio ≤ 99 then prio else 50

theorem prioIn_prioFor (prioMap : CString) (name : Option CString) (begins : Begins prioMap) :
    prioIn prioMap name = some (prioFor prioMap name) := by
  have range (prio : Int) :
      checkPrioRange prio = if 1 ≤ prio ∧ prio ≤ 99 then prio else 50 := by
    unfold checkPrioRange maxUserRtPrio
    split <;> split <;> omega
  rw [prioIn, getMapOption_lookup prioMap name begins, prioFor]
  cases named : lookup name (fields prioMap.bytes) with
  | some prio => exact congrArg some (range prio)
  | none =>
    rw [getDefaultIrqPrio, getMapOption_lookup prioMap none begins]
    exact congrArg some (range _)

/-- Every map without an empty first field is read field by field, for any key; and the
    priorities come from it. -/
theorem get_map_option_lookup (str : CString) (begins : Begins str) :
    (∀ key, getMapOption str key = some (lookup key (fields str.bytes))) ∧
    (∀ cmdline config name, cmdline.getD config = str →
      getIrqPrio cmdline config name = some (prioFor str name)) ∧
    ∀ cmdline config name, cmdline.or config = some str →
      getSoftirqPrio cmdline config name = some (prioFor str name) := by
  refine ⟨?_,?_,?_⟩
  · intro key
    exact getMapOption_lookup str key begins
  · rintro cmdline config name rfl
    exact prioIn_prioFor _ name begins
  · intro cmdline config name given
    rw [getSoftirqPrio, given]
    exact prioIn_prioFor str name begins

/-- "ab:7,a:8,3" -/
def threeFields : CString := ⟨[97,98,58,55,44,97,58,56,44,51],by decide⟩

theorem threeFields_a :
    getMapOption threeFields (some ⟨[97],by decide⟩) = some (some 8) ∧
      getIrqPrio (some threeFields) threeFields none = some 3 := by
  have begins : Begins threeFields := by
    unfold Begins
    decide
  obtain ⟨found,prio,_⟩ := get_map_option_lookup threeFields begins
  rw [found, prio (some threeFields) threeFields none rfl]
  decide

end MapOption
