import SqueezeOS.Imx35.MapOption

/- The first byte of a map is never taken for a separator, nor for the end of the map. -/
namespace MapOption
open KernelStrings

theorem fields_bytes {str field : List UInt8} (member : field ∈ fields str) :
    ∀ c ∈ field, c ∈ str ∧ c ≠ 44 := by
  induction str generalizing field with
  | nil => simp_all [fields]
  | cons x rest ih =>
    rw [fields_cons] at member
    by_cases separator : x = 44
    · rw [if_pos separator] at member
      intro c hc
      cases List.mem_cons.mp member with
      | inl empty => simp [empty] at hc
      | inr later => exact ⟨List.mem_cons_of_mem x (ih later c hc).1,(ih later c hc).2⟩
    · rw [if_neg separator] at member
      obtain ⟨first,others,split⟩ := fields_exists rest
      rw [split] at member ih
      intro c hc
      cases List.mem_cons.mp member with
      | inl same =>
        subst same
        cases List.mem_cons.mp hc with
        | inl here => exact ⟨by simp [here],here ▸ separator⟩
        | inr there =>
          have old := ih List.mem_cons_self c there
          exact ⟨List.mem_cons_of_mem x old.1,old.2⟩
      | inr later =>
        have old := ih (List.mem_cons_of_mem first later) c hc
        exact ⟨List.mem_cons_of_mem x old.1,old.2⟩

def join (parts : List (List UInt8)) : List UInt8 := [44].intercalate parts

theorem join_cons (part : List UInt8) (parts : List (List UInt8)) :
    join (part :: parts) = part ++ if parts = [] then [] else 44 :: join parts := by
  unfold join
  cases parts <;> simp

theorem join_bytes {parts : List (List UInt8)} {c : UInt8} (member : c ∈ join parts) :
    c = 44 ∨ ∃ part ∈ parts, c ∈ part := by
  induction parts with
  | nil => simp [join] at member
  | cons part parts ih =>
    rw [join_cons] at member
    cases List.mem_append.mp member with
    | inl here => exact .inr ⟨part,List.mem_cons_self,here⟩
    | inr later =>
      by_cases last : parts = []
      · simp [last] at later
      · rw [if_neg last] at later
        cases List.mem_cons.mp later with
        | inl separator => exact .inl separator
        | inr inner =>
          cases ih inner with
          | inl separator => exact .inl separator
          | inr found =>
            obtain ⟨other,mem,inside⟩ := found
            exact .inr ⟨other,List.mem_cons_of_mem part mem,inside⟩

def nonemptyFields (str : List UInt8) : List (List UInt8) := (fields str).filter (· ≠ [])

def withoutEmpty (str : CString) : CString :=
  { bytes := join (nonemptyFields str.bytes)
    ends := by
      intro zero
      cases join_bytes zero with
      | inl separator => exact absurd separator (by decide)
      | inr found =>
        obtain ⟨field,member,inside⟩ := found
        exact str.ends (fields_bytes (List.mem_filter.mp member).1 0 inside).1 }

theorem fields_withoutEmpty {str : CString} (some : nonemptyFields str.bytes ≠ []) :
    fields (withoutEmpty str).bytes = nonemptyFields str.bytes := by
  refine List.splitOn_intercalate 44 ?_ some
  intro field member separator
  exact (fields_bytes (List.mem_filter.mp member).1 44 separator).2 rfl

theorem getMapOption_withoutEmpty (str : CString) (key : Option CString) :
    getMapOption (withoutEmpty str) key =
      if nonemptyFields str.bytes = [] then none else some (lookup key (fields str.bytes)) := by
  by_cases none : nonemptyFields str.bytes = []
  · rw [if_pos none, getMapOption]
    simp [withoutEmpty, none, join, scan]
  · have split := fields_withoutEmpty none
    have begins : Begins (withoutEmpty str) := by
      unfold Begins
      rw [split]
      intro first
      have member := List.mem_of_mem_head? first
      simp [nonemptyFields] at member
    rw [if_neg none, getMapOption_lookup _ key begins, split, nonemptyFields, lookup_nonempty]

/-- No byte behind the NUL is read, and the answer is that without the empty fields. -/
def Sound (str : CString) (key : Option CString) : Prop :=
  ∃ found, getMapOption str key = some found ∧ getMapOption (withoutEmpty str) key = some found

def CommaHarmless (key : Option CString) (first : List UInt8) (rest : List (List UInt8)) : Prop :=
  match key with
  | none => 58 ∈ first ∨ lookup none (first :: rest) = some 0
  | some key =>
      fieldValue (some key) (44 :: first) = none ∧
        (fieldValue (some key) first = none ∨
          fieldValue (some key) first = lookup (some key) rest)

def Parsed (str : CString) (key : Option CString) : Prop :=
  (∃ field ∈ fields str.bytes, field ≠ []) ∧
    ∀ first rest, fields str.bytes = [] :: first :: rest → CommaHarmless key first rest

theorem readInt_comma (rest : List UInt8) : readInt (44 :: rest) = 0 := by
  have digit : (isxdigit 44 && digitValue 44 < 10) = false := by decide
  simp [readInt, simpleStrtol, simpleStrtoul, strtoulDigits, digit]

theorem fieldValue_comma (first : List UInt8) :
    fieldValue none (44 :: first) = if 58 ∈ first then none else some 0 := by
  rw [fieldValue, readInt_comma]
  simp

theorem fieldValue_single {key : CString} {field : List UInt8} {value : Int}
    (comma : fieldValue (some key) (44 :: field) = some value) {other : List UInt8}
    (single : 44 ∉ other) : fieldValue (some key) other = none := by
  obtain ⟨rest,_,same,_⟩ := fieldValue_key.mp comma
  cases found : fieldValue (some key) other with
  | none => rfl
  | some value =>
    obtain ⟨more,_,rfl,_⟩ := fieldValue_key.mp found
    cases named : key.bytes with
    | nil => simp [named] at same
    | cons c cs =>
      rw [named, List.cons_append] at same
      have separator : 44 = c := (List.cons.inj same).1
      simp [named, separator] at single

theorem lookup_single {key : CString} {field : List UInt8} {value : Int}
    (comma : fieldValue (some key) (44 :: field) = some value) (others : List (List UInt8))
    (single : ∀ other ∈ others, 44 ∉ other) : lookup (some key) others = none := by
  unfold lookup
  rw [List.findSome?_eq_none_iff]
  intro other member
  exact fieldValue_single comma (single other member)

theorem commaHarmless_iff (key : Option CString) {first : List UInt8} {rest : List (List UInt8)}
    (single : ∀ field ∈ first :: rest, 44 ∉ field) :
    lookup key ((44 :: first) :: rest) = lookup key (first :: rest) ↔
      CommaHarmless key first rest := by
  rw [lookup_cons]
  unfold CommaHarmless
  cases key with
  | none =>
    rw [fieldValue_comma]
    by_cases colon : 58 ∈ first
    · simp [colon, fieldValue]
    · simp only [colon, if_false, false_or, Option.some_or]
      exact eq_comm
  | some key =>
    cases comma : fieldValue (some key) (44 :: first) with
    | none =>
      simp only [lookup_cons, Option.none_or, comma, true_and]
      cases fieldValue (some key) first with
      | none => simp
      | some value => simp [eq_comm]
    | some value =>
      have nothing := lookup_single comma _ single
      simp [nothing, comma]

/-- Where all fields are empty there is nothing to compare with: without them the string is
    empty, and of that the byte behind the NUL is read. -/
theorem sound_iff_lookup (str : CString) (key : Option CString) :
    Sound str key ↔ nonemptyFields str.bytes ≠ [] ∧
      getMapOption str key = some (lookup key (fields str.bytes)) := by
  unfold Sound
  rw [getMapOption_withoutEmpty]
  by_cases none : nonemptyFields str.bytes = []
  · simp [none]
  · simp [none]

theorem nonemptyFields_iff (str : List UInt8) :
    nonemptyFields str ≠ [] ↔ ∃ field ∈ fields str, field ≠ [] := by
  simp [nonemptyFields, List.filter_eq_nil_iff]

/-- The map is read as it is without its empty fields exactly when a field is not empty and a ','
    at the beginning does no harm. -/
theorem get_map_option_sound (str : CString) (key : Option CString) :
    Sound str key ↔ Parsed str key := by
  rw [sound_iff_lookup, nonemptyFields_iff, Parsed]
  refine and_congr_right fun nonempty => ?_
  by_cases begins : Begins str
  · rw [getMapOption_lookup str key begins]
    refine iff_of_true rfl ?_
    intro first rest split
    exact absurd (by rw [split]; rfl) begins
  · cases bytes : str.bytes with
    | nil => simp [bytes, fields] at nonempty
    | cons x rest =>
      obtain ⟨first,others,split⟩ := fields_exists rest
      have separator : x = 44 := by
        by_contra other
        simp [Begins, bytes, fields_cons, other, split] at begins
      have single : ∀ field ∈ first :: others, 44 ∉ field := by
        intro field member inside
        exact (fields_bytes (split ▸ member) 44 inside).2 rfl
      subst separator
      have harmless := commaHarmless_iff key single
      rw [getMapOption_cons str key bytes, fields_cons, if_pos rfl, split, List.modifyHead_cons,
        Option.some_inj, lookup_cons key [], fieldValue_nil, Option.none_or, harmless]
      simp

def emptyMap : CString := ⟨[],by decide⟩

/-- ",40" -/
def commaFirst : CString := ⟨[44,52,48],by decide⟩

/-- The byte behind the NUL is read; and the default of 40 is read as 0. -/
theorem emptyMap_unsound :
    getMapOption emptyMap none = none ∧ ¬Sound emptyMap none ∧
      getMapOption commaFirst none = some (some 0) ∧
      getMapOption (withoutEmpty commaFirst) none = some (some 40) := by
  refine ⟨rfl,?_,by decide,by decide⟩
  rintro ⟨found,here,_⟩
  contradiction

end MapOption
