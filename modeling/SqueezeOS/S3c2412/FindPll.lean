import SqueezeOS.S3c2412.CpuFreq
import SqueezeOS.LargestUpTo

/- Changing the frequency where a PLL table is registered: which entry is taken for it. The
   entries are in Hz, while s3c24xx_cpufreq_target looks for a frequency in kHz. -/
namespace S3c2412
open LargestUpTo

structure Pllval where
  freq : BitVec 32
  pllReg : BitVec 32
  deriving DecidableEq, Repr

def Pllval.hz (ptr : Pllval) : Nat := ptr.freq.toNat

/-- The differences are unsigned, and abs makes ints of them. -/
def closer (target n c : BitVec 32) : Bool :=
  let diffCur := (target - c).abs
  let diffNew := (target - n).abs
  diffNew.slt diffCur

structure Search where
  got : Option Pllval
  best : BitVec 32
  deriving DecidableEq, Repr

def look (targetFreq : BitVec 32) (s : Search) (ptr : Pllval) : Search :=
  if ptr.freq > targetFreq then s
  else if closer targetFreq ptr.freq s.best then { got := some ptr, best := ptr.freq }
  else s

/-- `none` is -ENOENT. -/
def cpufreqFindpll (vals : List Pllval) (targetFreq : BitVec 32) : Option Pllval :=
  match vals.find? fun ptr => ptr.freq == targetFreq with
  | some got => some got
  | none => (vals.foldl (look targetFreq) { got := none, best := 0 }).got

/-- What s3c24xx_cpufreq_target finds missing where it returns -EINVAL. -/
inductive Refusal where
  | noPll
  | noDivisors
  | noTiming
  deriving DecidableEq, Repr

/-- The PLL stays as it runs where no table is registered. -/
def newPll (mpllcon : BitVec 32) (vals : List Pllval) (s : Cpu) (targetFreq : BitVec 32) :
    Option Pllval :=
  if vals.length = 0 then some { freq := BitVec.ofNat 32 (cpufreqGetcur s).pll, pllReg := mpllcon }
  else cpufreqFindpll vals targetFreq

def settingsAt (board : Board) (max : Limits) (s : Cpu) (targetFreq : BitVec 32) (pll : Nat) :
    Except Refusal Config :=
  let cur := cpufreqGetcur s
  let wanted : Config :=
    { freq := { fclk := pll, armclk := (targetFreq * 1000).toNat, hclkTns := 0, hclk := 0
                pclk := 0 }
      pll := pll
      divs := { pDivisor := 0, hDivisor := 0, armDivisor := 0 } }
  match cpufreqCalcdivs max wanted with
  | none => .error .noDivisors
  | some new =>
    let new := cpufreqCalc new
    if new.freq.hclk ≠ cur.freq.hclk then
      match iotimingCalc board with
      | none => .error .noTiming
      | some _ => .ok new
    else .ok new

def tableSettings (board : Board) (max : Limits) (mpllcon : BitVec 32) (vals : List Pllval)
    (s : Cpu) (targetFreq : BitVec 32) : Except Refusal (Pllval × Config) :=
  match newPll mpllcon vals s targetFreq with
  | none => .error .noPll
  | some pll =>
    match settingsAt board max s targetFreq pll.hz with
    | .error refusal => .error refusal
    | .ok new => .ok (pll, new)

theorem tableSettings_nil (board : Board) (max : Limits) (mpllcon : BitVec 32) {s : Cpu}
    (targetFreq : Nat) (fits : s.fclk < 2 ^ 32) :
    (tableSettings board max mpllcon [] s (BitVec.ofNat 32 targetFreq)).toOption.map Prod.snd =
      settings board max s targetFreq := by
  have pll : (BitVec.ofNat 32 (cpufreqGetcur s).pll).toNat = (cpufreqGetcur s).pll :=
    (BitVec.toNat_ofNat _ _).trans (Nat.mod_eq_of_lt fits)
  have armclk : (BitVec.ofNat 32 targetFreq * 1000).toNat = targetFreq * 1000 % 2 ^ 32 := by
    simp [BitVec.toNat_mul]
  simp only [tableSettings, newPll, List.length_nil, reduceIte, settingsAt, Pllval.hz, pll, armclk,
    settings]
  cases cpufreqCalcdivs max _ with
  | none => rfl
  | some new =>
    by_cases same : (cpufreqCalc new).freq.hclk = (cpufreqGetcur s).freq.hclk
    · simp only [same, ne_eq, not_true, reduceIte]
      rfl
    · simp only [same, ne_eq, not_false_eq_true, reduceIte]
      cases iotimingCalc board <;> rfl

structure Tracks (targetFreq : BitVec 32) (s : Search) : Prop where
  best : s.best = (s.got.map Pllval.freq).getD 0
  upTo : ∀ pll, s.got = some pll → pll.hz ≤ targetFreq.toNat

theorem abs_sub_toInt {target n : BitVec 32} (small : target.toNat < 2 ^ 31)
    (below : n.toNat ≤ target.toNat) : (target - n).abs.toInt = target.toNat - n.toNat := by
  have difference : (target - n).toNat = target.toNat - n.toNat :=
    BitVec.toNat_sub_of_le (BitVec.le_def.mpr below)
  have plus : (target - n).msb = false := by
    rw [BitVec.msb_eq_false_iff_two_mul_lt, difference]
    omega
  rw [BitVec.abs_eq, plus]
  simp only [Bool.false_eq_true, reduceIte]
  rw [BitVec.toInt_eq_toNat_of_msb plus, difference]
  omega

theorem closer_iff {target n c : BitVec 32} (small : target.toNat < 2 ^ 31)
    (new : n.toNat ≤ target.toNat) (cur : c.toNat ≤ target.toNat) :
    closer target n c = true ↔ c.toNat < n.toNat := by
  simp only [closer, BitVec.slt_iff_toInt_lt, abs_sub_toInt small new, abs_sub_toInt small cur]
  omega

theorem look_better {targetFreq : BitVec 32} {s : Search} {ptr : Pllval}
    (small : targetFreq.toNat < 2 ^ 31) (positive : 0 < ptr.hz) (tracks : Tracks targetFreq s) :
    (look targetFreq s ptr).got = better Pllval.hz targetFreq.toNat s.got ptr ∧
    Tracks targetFreq (look targetFreq s ptr) := by
  unfold look
  split
  · rename_i above
    have notUpTo : ¬ptr.hz ≤ targetFreq.toNat := Nat.not_le.mpr above
    refine ⟨?_,tracks⟩
    cases s.got with
    | none => simp only [better, notUpTo, if_false]
    | some pll => simp only [better, notUpTo, false_and, if_false]
  · rename_i notAbove
    have upTo : ptr.hz ≤ targetFreq.toNat := Nat.not_lt.mp notAbove
    have taken : Tracks targetFreq { got := some ptr, best := ptr.freq } := by
      refine ⟨rfl,?_⟩
      rintro _ ⟨⟩
      exact upTo
    cases got : s.got with
    | none =>
      -- anything is closer than the 0 the search starts from
      have best := tracks.best
      rw [got] at best
      have closest : closer targetFreq ptr.freq s.best = true := by
        rw [best]
        exact (closer_iff small upTo (Nat.zero_le _)).mpr positive
      rw [if_pos closest]
      exact ⟨(if_pos upTo).symm,taken⟩
    | some pll =>
      have best := tracks.best
      rw [got] at best
      have compared : closer targetFreq ptr.freq s.best = true ↔ pll.hz < ptr.hz := by
        rw [best]
        exact closer_iff small upTo (tracks.upTo pll got)
      by_cases larger : pll.hz < ptr.hz
      · rw [if_pos (compared.mpr larger)]
        exact ⟨(if_pos ⟨upTo,larger⟩).symm,taken⟩
      · rw [if_neg fun closest => larger (compared.mp closest)]
        refine ⟨?_,tracks⟩
        rw [got]
        exact (if_neg fun both => larger both.2).symm

theorem foldl_look {targetFreq : BitVec 32} (small : targetFreq.toNat < 2 ^ 31)
    {vals : List Pllval} (positive : ∀ ptr ∈ vals, 0 < ptr.hz) {s : Search}
    (tracks : Tracks targetFreq s) :
    (vals.foldl (look targetFreq) s).got =
      vals.foldl (better Pllval.hz targetFreq.toNat) s.got := by
  induction vals generalizing s with
  | nil => rfl
  | cons ptr vals ih =>
    have ⟨first,later⟩ := List.forall_mem_cons.mp positive
    obtain ⟨taken,next⟩ := look_better small first tracks
    rw [List.foldl_cons, List.foldl_cons, ih later next, taken]

theorem findpll_found {vals : List Pllval} {targetFreq : BitVec 32}
    (small : targetFreq.toNat < 2 ^ 31) (positive : ∀ ptr ∈ vals, 0 < ptr.hz) :
    Found Pllval.hz vals targetFreq.toNat (cpufreqFindpll vals targetFreq) := by
  unfold cpufreqFindpll
  cases exactly : vals.find? fun ptr => ptr.freq == targetFreq with
  | none =>
    have start : Tracks targetFreq { got := none, best := 0 } := ⟨rfl,fun _ => nofun⟩
    simp only
    rw [foldl_look small positive start]
    exact search_found Pllval.hz targetFreq.toNat vals
  | some got =>
    have equal : got.freq = targetFreq := by simpa using List.find?_some exactly
    have same : got.hz = targetFreq.toNat := congrArg BitVec.toNat equal
    refine ⟨List.mem_of_find?_eq_some exactly,same.le,?_⟩
    intro other _ upTo
    rw [same]
    exact upTo

structure Selects (vals : List Pllval) (requested : Nat) (selected : Option Pllval)
    (refused : Prop) : Prop where
  largest : ∀ pll, selected = some pll → Largest Pllval.hz vals requested pll
  refused : refused ↔ NoneUpTo Pllval.hz vals requested

/-- There is a table, and none of its entries lies above target_freq in Hz but not above it
    in kHz. -/
structure Gapless (vals : List Pllval) (targetFreq : BitVec 32) : Prop where
  registered : vals ≠ []
  gap : ∀ ptr ∈ vals, ptr.hz ≤ targetFreq.toNat * 1000 → ptr.hz ≤ targetFreq.toNat

section
variable {board : Board} {max : Limits} {mpllcon : BitVec 32} {vals : List Pllval} {s : Cpu}
  {targetFreq : BitVec 32}

theorem newPll_found (mpllcon : BitVec 32) (s : Cpu) (registered : vals ≠ [])
    (small : targetFreq.toNat < 2 ^ 31) (positive : ∀ ptr ∈ vals, 0 < ptr.hz) :
    Found Pllval.hz vals targetFreq.toNat (newPll mpllcon vals s targetFreq) := by
  have filled : ¬vals.length = 0 := fun empty => registered (List.length_eq_zero_iff.mp empty)
  rw [newPll, if_neg filled]
  exact findpll_found small positive

theorem settingsAt_refusal {pll : Nat} :
    settingsAt board max s targetFreq pll ≠ .error .noPll := by
  simp only [settingsAt]
  split
  · simp
  · split
    · split <;> simp
    · simp

theorem settingsAt_armclk {pll : Nat} {new : Config}
    (ok : settingsAt board max s targetFreq pll = .ok new) :
    new.freq.armclk = (targetFreq * 1000).toNat := by
  simp only [settingsAt] at ok
  split at ok
  · contradiction
  · rename_i divided calculated
    obtain ⟨_,_,_,chosen⟩ := calcdivs_chosen calculated
    have same : cpufreqCalc divided = new := by
      split at ok
      · split at ok
        · contradiction
        · exact Except.ok.inj ok
      · exact Except.ok.inj ok
    rw [← same]
    exact chosen.armclk

theorem tableSettings_ok {pll : Pllval} {new : Config}
    (ok : tableSettings board max mpllcon vals s targetFreq = .ok (pll, new)) :
    newPll mpllcon vals s targetFreq = some pll ∧
    settingsAt board max s targetFreq pll.hz = .ok new := by
  unfold tableSettings at ok
  split at ok
  · contradiction
  · rename_i got selected
    split at ok
    · contradiction
    · rename_i settled
      cases Except.ok.inj ok
      exact ⟨selected,settled⟩

theorem tableSettings_noPll :
    tableSettings board max mpllcon vals s targetFreq = .error .noPll ↔
      newPll mpllcon vals s targetFreq = none := by
  unfold tableSettings
  split
  · rename_i absent
    exact iff_of_true rfl absent
  · rename_i pll selected
    rw [selected]
    refine iff_of_false ?_ (nomatch ·)
    split
    · rename_i refusal refused
      intro same
      exact settingsAt_refusal (refused.trans (congrArg _ (Except.error.inj same)))
    · simp

theorem tableSettings_refused :
    ((∃ refusal, tableSettings board max mpllcon vals s targetFreq = .error refusal) ↔
      newPll mpllcon vals s targetFreq = none) ↔
    ∀ pll, newPll mpllcon vals s targetFreq = some pll →
      ∃ new, settingsAt board max s targetFreq pll.hz = .ok new := by
  constructor
  · intro only pll selected
    cases settled : settingsAt board max s targetFreq pll.hz with
    | ok new => exact ⟨new,rfl⟩
    | error refusal =>
      have absent := only.mp ⟨refusal,by simp [tableSettings, selected, settled]⟩
      exact nomatch selected.symm.trans absent
  · intro accepted
    refine ⟨?_,fun absent => ⟨.noPll,tableSettings_noPll.mpr absent⟩⟩
    rintro ⟨refusal,refused⟩
    cases selected : newPll mpllcon vals s targetFreq with
    | none => rfl
    | some pll =>
      obtain ⟨new,ok⟩ := accepted pll selected
      simp [tableSettings, selected, ok] at refused

theorem gapless_of_selects {refused : Prop} (small : targetFreq.toNat < 2 ^ 31)
    (positive : ∀ ptr ∈ vals, 0 < ptr.hz)
    (refuses : newPll mpllcon vals s targetFreq = none → refused)
    (selects : Selects vals (targetFreq.toNat * 1000) (newPll mpllcon vals s targetFreq) refused) :
    Gapless vals targetFreq := by
  have registered : vals ≠ [] := by
    rintro rfl
    exact nomatch (selects.largest _ rfl).entry
  refine ⟨registered,?_⟩
  intro ptr member requested
  have found := newPll_found mpllcon s registered small positive
  cases selected : newPll mpllcon vals s targetFreq with
  | none =>
    have above := selects.refused.mp (refuses selected) ptr member
    omega
  | some pll =>
    have upTo := (found.largest selected).upTo
    exact ((selects.largest pll selected).largest ptr member requested).trans upTo

theorem accepted_iff (mpllcon : BitVec 32) (registered : vals ≠ [])
    (small : targetFreq.toNat < 2 ^ 31) (positive : ∀ ptr ∈ vals, 0 < ptr.hz) :
    (∀ pll, newPll mpllcon vals s targetFreq = some pll →
      ∃ new, settingsAt board max s targetFreq pll.hz = .ok new) ↔
    ∀ pll, Largest Pllval.hz vals targetFreq.toNat pll →
      ∃ new, settingsAt board max s targetFreq pll.hz = .ok new := by
  have found := newPll_found mpllcon s registered small positive
  constructor
  · intro accepted pll largest
    cases selected : newPll mpllcon vals s targetFreq with
    | none =>
      have above := found.none_iff.mp selected pll largest.entry
      exact absurd largest.upTo (Nat.not_le.mpr above)
    | some got =>
      rw [largest.key_eq (found.largest selected)]
      exact accepted got selected
  · intro accepted pll selected
    exact accepted pll (found.largest selected)

/-- For any table the setting selected is the one requested exactly where the table has no
    entry between target_freq Hz and target_freq kHz. For the call to be refused for nothing
    else, settings must exist for that entry as well. -/
theorem findpll_choice_exact (positive : ∀ ptr ∈ vals, 0 < ptr.hz)
    (fits : targetFreq.toNat * 1000 < 2 ^ 31) :
    (Selects vals (targetFreq.toNat * 1000) (newPll mpllcon vals s targetFreq)
        (tableSettings board max mpllcon vals s targetFreq = .error .noPll) ↔
      Gapless vals targetFreq) ∧
    (Selects vals (targetFreq.toNat * 1000) (newPll mpllcon vals s targetFreq)
        (∃ refusal, tableSettings board max mpllcon vals s targetFreq = .error refusal) ↔
      Gapless vals targetFreq ∧ ∀ pll, Largest Pllval.hz vals targetFreq.toNat pll →
        ∃ new, settingsAt board max s targetFreq pll.hz = .ok new) ∧
    ∀ pll new, tableSettings board max mpllcon vals s targetFreq = .ok (pll, new) →
      newPll mpllcon vals s targetFreq = some pll ∧
      new.freq.armclk = targetFreq.toNat * 1000 := by
  have small : targetFreq.toNat < 2 ^ 31 := by omega
  have choice (gapless : Gapless vals targetFreq) :
      Selects vals (targetFreq.toNat * 1000) (newPll mpllcon vals s targetFreq)
        (newPll mpllcon vals s targetFreq = none) := by
    have found := newPll_found mpllcon s gapless.registered small positive
    have wider := found.widen (by omega) gapless.gap
    exact ⟨fun _ => wider.largest,wider.none_iff⟩
  refine ⟨⟨?_,?_⟩,⟨?_,?_⟩,?_⟩
  · exact gapless_of_selects small positive tableSettings_noPll.mpr
  · intro gapless
    rw [tableSettings_noPll]
    exact choice gapless
  · intro selects
    have gapless := gapless_of_selects small positive
      (fun absent => ⟨.noPll,tableSettings_noPll.mpr absent⟩) selects
    have only := selects.refused.trans (choice gapless).refused.symm
    exact ⟨gapless,(accepted_iff mpllcon gapless.registered small positive).mp
      (tableSettings_refused.mp only)⟩
  · rintro ⟨gapless,accepted⟩
    have only := tableSettings_refused.mpr
      ((accepted_iff mpllcon gapless.registered small positive).mpr accepted)
    rw [only]
    exact choice gapless
  · intro pll new ok
    obtain ⟨selected,settled⟩ := tableSettings_ok ok
    rw [settingsAt_armclk settled]
    refine ⟨selected,?_⟩
    rw [BitVec.toNat_mul]
    exact Nat.mod_eq_of_lt (by simp; omega)

end

theorem slowPll_selected :
    Selects [⟨200000,0⟩,⟨266000000,1⟩] ((200000 : BitVec 32).toNat * 1000)
      (newPll 0 [⟨200000,0⟩,⟨266000000,1⟩] (boot 200000000 ⟨0x5,780⟩) 200000)
      (tableSettings jiveCpufreq infoMax 0 [⟨200000,0⟩,⟨266000000,1⟩]
        (boot 200000000 ⟨0x5,780⟩) 200000 = .error .noPll) := by
  refine (findpll_choice_exact ?_ ?_).1.mpr ⟨?_,?_⟩
  all_goals decide

def twoPlls : List Pllval := [⟨200000000,0⟩,⟨266000000,1⟩]

theorem twoPlls_refused :
    tableSettings jiveCpufreq infoMax 0 twoPlls (boot 200000000 ⟨0x5,780⟩) 200000 =
      .error .noPll ∧
    ¬Selects twoPlls 200000000 (newPll 0 twoPlls (boot 200000000 ⟨0x5,780⟩) 200000)
      (tableSettings jiveCpufreq infoMax 0 twoPlls (boot 200000000 ⟨0x5,780⟩) 200000 =
        .error .noPll) ∧
    ¬Selects twoPlls 200000000 (newPll 0 twoPlls (boot 200000000 ⟨0x5,780⟩) 200000)
      (∃ refusal, tableSettings jiveCpufreq infoMax 0 twoPlls (boot 200000000 ⟨0x5,780⟩)
        200000 = .error refusal) := by
  have refused : tableSettings jiveCpufreq infoMax 0 twoPlls (boot 200000000 ⟨0x5,780⟩) 200000 =
      .error .noPll := rfl
  have entry : ¬NoneUpTo Pllval.hz twoPlls 200000000 := by
    unfold NoneUpTo
    decide
  refine ⟨refused,fun selects => ?_,fun selects => ?_⟩
  · exact entry (selects.refused.mp refused)
  · exact entry (selects.refused.mp ⟨.noPll,refused⟩)

end S3c2412
