import SqueezeOS.BitFields
import SqueezeOS.StepRuns

/- The link of the Ethernet controller: what a poll of the RTL8201E leaves in phy_status, and
   what mii_relink makes of it. -/
namespace Fec
open BitFields StepRuns

def phyConfAne : BitVec 32 := 0x0001
def phyConfLoop : BitVec 32 := 0x0002
def phyConfSpmask : BitVec 32 := 0x00f0
def phyConf10Hdx : BitVec 32 := 0x0010
def phyConf10Fdx : BitVec 32 := 0x0020
def phyConf100Hdx : BitVec 32 := 0x0040
def phyConf100Fdx : BitVec 32 := 0x0080
def phyStatLink : BitVec 32 := 0x0100
def phyStatFault : BitVec 32 := 0x0200
def phyStatAnc : BitVec 32 := 0x0400
def phyStatSpmask : BitVec 32 := 0xf000
def phyStat10Hdx : BitVec 32 := 0x1000
def phyStat10Fdx : BitVec 32 := 0x2000
def phyStat100Hdx : BitVec 32 := 0x4000
def phyStat100Fdx : BitVec 32 := 0x8000

def miiParseSr (miiReg s : BitVec 32) : BitVec 32 :=
  let status := s &&& ~~~(phyStatLink ||| phyStatFault ||| phyStatAnc)
  let status := if miiReg &&& 0x0004 ≠ 0 then status ||| phyStatLink else status
  let status := if miiReg &&& 0x0010 ≠ 0 then status ||| phyStatFault else status
  if miiReg &&& 0x0020 ≠ 0 then status ||| phyStatAnc else status

def miiParseAnar (miiReg s : BitVec 32) : BitVec 32 :=
  let status := s &&& ~~~phyConfSpmask
  let status := if miiReg &&& 0x0020 ≠ 0 then status ||| phyConf10Hdx else status
  let status := if miiReg &&& 0x0040 ≠ 0 then status ||| phyConf10Fdx else status
  let status := if miiReg &&& 0x0080 ≠ 0 then status ||| phyConf100Hdx else status
  if miiReg &&& 0x0100 ≠ 0 then status ||| phyConf100Fdx else status

def miiParseRtl8201eCr (miiReg s : BitVec 32) : BitVec 32 :=
  let status := s &&& ~~~(phyConfAne ||| phyConfLoop ||| phyStatSpmask)
  let status := if miiReg &&& (1 <<< 12) ≠ 0 then status ||| phyConfAne else status
  let status := if miiReg &&& (1 <<< 14) ≠ 0 then status ||| phyConfLoop else status
  if status &&& phyStatAnc ≠ 0 then
    if miiReg &&& (1 <<< 13) ≠ 0 then
      if miiReg &&& (1 <<< 8) ≠ 0 then status ||| phyStat100Fdx else status ||| phyStat100Hdx
    else
      if miiReg &&& (1 <<< 8) ≠ 0 then status ||| phyStat10Fdx else status ||| phyStat10Hdx
  else status

/-- What the registers hold when the commands of act_int read them. -/
structure Poll where
  sr : BitVec 32
  anar : BitVec 32
  cr : BitVec 32
  deriving DecidableEq, Repr

/-- The parsers in the order of the command list. -/
def actInt (poll : Poll) (s : BitVec 32) : BitVec 32 :=
  miiParseRtl8201eCr poll.cr (miiParseAnar poll.anar (miiParseSr poll.sr s))

inductive Action where
  | restart (duplex : Bool)
  | stop
  deriving DecidableEq, Repr

/-- `last` is not in the driver: it is the last call of fec_restart or fec_stop. -/
structure Mac where
  phyStatus : BitVec 32
  link : Bool
  oldLink : Bool
  miigskCfgr : BitVec 32
  last : Option Action
  deriving DecidableEq, Repr

def ifModeRmii : BitVec 32 := 1 <<< 0

/-- Of fec_restart, the gasket that fec_localhw_setup configures for RMII. -/
def fecRestart (duplex : Bool) (s : Mac) : Mac :=
  { s with miigskCfgr := ifModeRmii, last := some (.restart duplex) }

def fecStop (s : Mac) : Mac := { s with last := some .stop }

def frcont : BitVec 32 := 1 <<< 6

def miiRelink (s : Mac) : Mac :=
  let s := { s with link := s.phyStatus &&& phyStatLink ≠ 0 }
  if s.oldLink ≠ s.link then
    let s := { s with oldLink := s.link }
    if s.link then
      let duplex := s.phyStatus &&& (phyStat100Fdx ||| phyStat10Fdx) ≠ 0
      let s := fecRestart duplex s
      if s.phyStatus &&& (phyStat10Fdx ||| phyStat10Hdx) ≠ 0 then
        { s with miigskCfgr := s.miigskCfgr ||| frcont }
      else { s with miigskCfgr := s.miigskCfgr &&& ~~~frcont }
    else fecStop s
  else s

def poll (s : Mac) (read : Poll) : Mac :=
  miiRelink { s with phyStatus := actInt read s.phyStatus }

def step (s : Mac) (read : Poll) : Option Mac := some (poll s read)

def opened (phyStatus miigskCfgr : BitVec 32) (link : Bool) : Mac :=
  { phyStatus := phyStatus, link := link, oldLink := false, miigskCfgr := miigskCfgr, last := none }

def LinkUp (phyStatus : BitVec 32) : Prop := phyStatus &&& phyStatLink ≠ 0

def FullDuplex (phyStatus : BitVec 32) : Prop :=
  phyStatus &&& (phyStat100Fdx ||| phyStat10Fdx) ≠ 0

def TenMbit (phyStatus : BitVec 32) : Prop :=
  phyStatus &&& (phyStat10Fdx ||| phyStat10Hdx) ≠ 0

instance (phyStatus : BitVec 32) : Decidable (LinkUp phyStatus) :=
  inferInstanceAs (Decidable (_ ≠ _))

instance (phyStatus : BitVec 32) : Decidable (FullDuplex phyStatus) :=
  inferInstanceAs (Decidable (_ ≠ _))

instance (phyStatus : BitVec 32) : Decidable (TenMbit phyStatus) :=
  inferInstanceAs (Decidable (_ ≠ _))

structure Programmed (s : Mac) : Prop where
  duplex : s.last = some (.restart (FullDuplex s.phyStatus))
  speed : s.miigskCfgr &&& frcont ≠ 0 ↔ TenMbit s.phyStatus

instance (s : Mac) : Decidable (Programmed s) :=
  decidable_of_iff (s.last = some (.restart (FullDuplex s.phyStatus)) ∧
      (s.miigskCfgr &&& frcont ≠ 0 ↔ TenMbit s.phyStatus))
    ⟨fun both => ⟨both.1,both.2⟩,fun programmed => ⟨programmed.duplex,programmed.speed⟩⟩

def Follows (s : Mac) : Prop :=
  if LinkUp s.phyStatus then Programmed s else s.last = some .stop ∨ s.last = none

instance (s : Mac) : Decidable (Follows s) := inferInstanceAs (Decidable (ite ..))

def Poll.Link (read : Poll) : Prop := read.sr &&& 0x0004 ≠ 0

/-- The modes are known from when autonegotiation is complete. -/
def Poll.FullDuplex (read : Poll) : Prop :=
  read.sr &&& 0x0020 ≠ 0 ∧ read.cr &&& (1 <<< 8) ≠ 0

def Poll.TenMbit (read : Poll) : Prop :=
  read.sr &&& 0x0020 ≠ 0 ∧ read.cr &&& (1 <<< 13) = 0

def Steady (s : Mac) (read : Poll) : Prop :=
  s.oldLink = true → read.Link →
    (read.FullDuplex ↔ FullDuplex s.phyStatus) ∧ (read.TenMbit ↔ TenMbit s.phyStatus)

instance (s : Mac) (read : Poll) : Decidable (Steady s read) :=
  inferInstanceAs (Decidable (s.oldLink = true → read.sr &&& 0x0004 ≠ 0 →
    (read.sr &&& 0x0020 ≠ 0 ∧ read.cr &&& (1 <<< 8) ≠ 0 ↔ FullDuplex s.phyStatus) ∧
    (read.sr &&& 0x0020 ≠ 0 ∧ read.cr &&& (1 <<< 13) = 0 ↔ TenMbit s.phyStatus)))

def srMask : BitVec 32 := phyStatLink ||| phyStatFault ||| phyStatAnc
def crMask : BitVec 32 := phyConfAne ||| phyConfLoop ||| phyStatSpmask

def srBits (miiReg : BitVec 32) : BitVec 32 :=
  (if miiReg &&& 0x0004 ≠ 0 then phyStatLink else 0) |||
  (if miiReg &&& 0x0010 ≠ 0 then phyStatFault else 0) |||
  (if miiReg &&& 0x0020 ≠ 0 then phyStatAnc else 0)

def anarBits (miiReg : BitVec 32) : BitVec 32 :=
  (if miiReg &&& 0x0020 ≠ 0 then phyConf10Hdx else 0) |||
  (if miiReg &&& 0x0040 ≠ 0 then phyConf10Fdx else 0) |||
  (if miiReg &&& 0x0080 ≠ 0 then phyConf100Hdx else 0) |||
  (if miiReg &&& 0x0100 ≠ 0 then phyConf100Fdx else 0)

def modeBits (miiReg : BitVec 32) : BitVec 32 :=
  if miiReg &&& (1 <<< 13) ≠ 0 then
    if miiReg &&& (1 <<< 8) ≠ 0 then phyStat100Fdx else phyStat100Hdx
  else
    if miiReg &&& (1 <<< 8) ≠ 0 then phyStat10Fdx else phyStat10Hdx

def confBits (miiReg : BitVec 32) : BitVec 32 :=
  (if miiReg &&& (1 <<< 12) ≠ 0 then phyConfAne else 0) |||
  (if miiReg &&& (1 <<< 14) ≠ 0 then phyConfLoop else 0)

def crBits (miiReg s : BitVec 32) : BitVec 32 :=
  confBits miiReg ||| (if s &&& phyStatAnc ≠ 0 then modeBits miiReg else 0)

theorem miiParseSr_eq (miiReg s : BitVec 32) :
    miiParseSr miiReg s = write s srMask (srBits miiReg) := by
  simp only [miiParseSr, write, srMask, srBits]
  split_ifs <;> simp [BitVec.or_assoc]

theorem miiParseAnar_eq (miiReg s : BitVec 32) :
    miiParseAnar miiReg s = write s phyConfSpmask (anarBits miiReg) := by
  simp only [miiParseAnar, write, anarBits]
  split_ifs <;> simp [BitVec.or_assoc]

theorem confBits_within (miiReg : BitVec 32) : confBits miiReg &&& crMask = confBits miiReg := by
  unfold confBits
  split_ifs <;> rfl

theorem modeBits_within (miiReg : BitVec 32) :
    modeBits miiReg &&& phyStatSpmask = modeBits miiReg := by
  unfold modeBits
  split_ifs <;> rfl

theorem crBits_within (miiReg s : BitVec 32) : crBits miiReg s &&& crMask = crBits miiReg s := by
  unfold crBits confBits modeBits
  split_ifs <;> rfl

theorem anarBits_within (miiReg : BitVec 32) :
    anarBits miiReg &&& phyConfSpmask = anarBits miiReg := by
  unfold anarBits
  split_ifs <;> rfl

theorem miiParseRtl8201eCr_eq (miiReg s : BitVec 32) :
    miiParseRtl8201eCr miiReg s = write s crMask (crBits miiReg s) := by
  have conf : (if miiReg &&& (1 <<< 14) ≠ 0 then
      (if miiReg &&& (1 <<< 12) ≠ 0 then s &&& ~~~crMask ||| phyConfAne else s &&& ~~~crMask) |||
        phyConfLoop
      else
      if miiReg &&& (1 <<< 12) ≠ 0 then s &&& ~~~crMask ||| phyConfAne else s &&& ~~~crMask) =
      write s crMask (confBits miiReg) := by
    unfold write confBits
    split_ifs <;> simp [BitVec.or_assoc]
  have anc := write_apart s (confBits_within miiReg) (show phyStatAnc &&& crMask = 0 from rfl)
  unfold crMask at conf anc
  simp only [miiParseRtl8201eCr, conf, anc]
  unfold crBits modeBits write crMask
  split_ifs <;> simp [BitVec.or_assoc]

theorem parsed_sr (read : Poll) (s : BitVec 32) {field : BitVec 32}
    (inside : field &&& srMask = field) (anar : field &&& phyConfSpmask = 0) :
    miiParseAnar read.anar (miiParseSr read.sr s) &&& field = srBits read.sr &&& field := by
  rw [miiParseAnar_eq, write_apart _ (anarBits_within _) anar, miiParseSr_eq, write_inside inside]

theorem srBits_link (miiReg : BitVec 32) :
    srBits miiReg &&& phyStatLink ≠ 0 ↔ miiReg &&& 0x0004 ≠ 0 := by
  unfold srBits
  split_ifs <;> simp_all <;> decide

theorem srBits_anc (miiReg : BitVec 32) :
    srBits miiReg &&& phyStatAnc ≠ 0 ↔ miiReg &&& 0x0020 ≠ 0 := by
  unfold srBits
  split_ifs <;> simp_all <;> decide

theorem actInt_link (read : Poll) (s : BitVec 32) :
    LinkUp (actInt read s) ↔ read.Link := by
  rw [LinkUp, actInt, miiParseRtl8201eCr_eq, write_apart _ (crBits_within _ _) (by rfl),
    parsed_sr read s rfl rfl]
  exact srBits_link read.sr

theorem confBits_mode (miiReg : BitVec 32) : confBits miiReg &&& phyStatSpmask = 0#32 := by
  unfold confBits
  split_ifs <;> rfl

theorem actInt_mode (read : Poll) (s : BitVec 32) :
    actInt read s &&& phyStatSpmask =
      if read.sr &&& 0x0020 ≠ 0 then modeBits read.cr else 0 := by
  have anc := parsed_sr read s (show phyStatAnc &&& srMask = _ from rfl) rfl
  rw [actInt, miiParseRtl8201eCr_eq, write_inside (by rfl), crBits, anc, BitVec.and_or_distrib_right,
    confBits_mode, BitVec.zero_or]
  simp only [srBits_anc]
  split
  · exact modeBits_within read.cr
  · rfl

theorem mode_inside (status : BitVec 32) {field : BitVec 32}
    (inside : field &&& phyStatSpmask = field) :
    status &&& field = status &&& phyStatSpmask &&& field := by
  rw [BitVec.and_assoc, BitVec.and_comm phyStatSpmask, inside]

theorem actInt_fullDuplex (read : Poll) (s : BitVec 32) :
    FullDuplex (actInt read s) ↔ read.FullDuplex := by
  rw [FullDuplex, mode_inside _ rfl, actInt_mode]
  unfold modeBits Poll.FullDuplex
  split_ifs <;> simp_all <;> decide

theorem actInt_tenMbit (read : Poll) (s : BitVec 32) :
    TenMbit (actInt read s) ↔ read.TenMbit := by
  rw [TenMbit, mode_inside _ rfl, actInt_mode]
  unfold modeBits Poll.TenMbit
  split_ifs <;> simp_all <;> decide

structure Inv (s : Mac) : Prop where
  up : s.oldLink = true → Programmed s
  down : s.oldLink = false → s.last = some .stop ∨ s.last = none

theorem relink_up {s : Mac} (before : s.oldLink = false) (now : LinkUp s.phyStatus) :
    miiRelink s =
      { s with link := true, oldLink := true
               miigskCfgr := if TenMbit s.phyStatus then ifModeRmii ||| frcont
                 else ifModeRmii &&& ~~~frcont
               last := some (.restart (FullDuplex s.phyStatus)) } := by
  have up : decide (s.phyStatus &&& phyStatLink ≠ 0) = true := decide_eq_true now
  simp only [miiRelink, before, up, fecRestart]
  rw [if_pos (by decide), if_pos trivial]
  by_cases ten : TenMbit s.phyStatus
  · rw [if_pos ten]
    exact if_pos ten
  · rw [if_neg ten]
    exact if_neg ten

theorem relink_down {s : Mac} (before : s.oldLink = true) (now : ¬LinkUp s.phyStatus) :
    miiRelink s = fecStop { s with link := false, oldLink := false } := by
  have down : decide (s.phyStatus &&& phyStatLink ≠ 0) = false := decide_eq_false now
  simp only [miiRelink, before, down]
  rfl

theorem relink_same {s : Mac} (same : s.oldLink = decide (LinkUp s.phyStatus)) :
    miiRelink s = { s with link := LinkUp s.phyStatus } := by
  exact if_neg (fun differ => differ same)

theorem programmed_up {s : Mac} (before : s.oldLink = false)
    (now : LinkUp s.phyStatus) : Programmed (miiRelink s) := by
  rw [relink_up before now]
  refine ⟨rfl,?_⟩
  by_cases ten : TenMbit s.phyStatus
  · simp only [ten, if_pos, iff_true]
    decide
  · simp only [ten, if_false, iff_false]
    decide

theorem relink_linked (s : Mac) :
    (miiRelink s).phyStatus = s.phyStatus ∧
    (miiRelink s).oldLink = decide (LinkUp s.phyStatus) := by
  by_cases same : s.oldLink = decide (LinkUp s.phyStatus)
  · rw [relink_same same]
    exact ⟨rfl,same⟩
  · by_cases now : LinkUp s.phyStatus
    · rw [relink_up (by simpa [now] using same) now]
      exact ⟨rfl,(decide_eq_true now).symm⟩
    · rw [relink_down (by simpa [now] using same) now]
      exact ⟨rfl,(decide_eq_false now).symm⟩

theorem relink_inv_iff {s : Mac} (down : s.oldLink = false → s.last = some .stop ∨ s.last = none) :
    Inv (miiRelink s) ↔
      (s.oldLink = true → LinkUp s.phyStatus → Programmed s) := by
  by_cases same : s.oldLink = decide (LinkUp s.phyStatus)
  · rw [relink_same same]
    constructor
    · intro inv before _
      obtain ⟨duplex,speed⟩ := inv.up before
      exact ⟨duplex,speed⟩
    · intro kept
      refine ⟨?_,down⟩
      intro before
      obtain ⟨duplex,speed⟩ := kept before (of_decide_eq_true (same.symm.trans before))
      exact ⟨duplex,speed⟩
  · by_cases now : LinkUp s.phyStatus
    · have before : s.oldLink = false := by simpa [now] using same
      have programmed := programmed_up before now
      refine iff_of_true ⟨fun _ => programmed,?_⟩ (by simp [before])
      rw [relink_up before now]
      simp
    · have before : s.oldLink = true := by simpa [now] using same
      refine iff_of_true ?_ (fun _ up => absurd up now)
      rw [relink_down before now]
      exact ⟨by simp [fecStop],fun _ => .inl rfl⟩

theorem follows_iff_inv {s : Mac} (linked : s.oldLink = decide (LinkUp s.phyStatus)) :
    Follows s ↔ Inv s := by
  unfold Follows
  by_cases now : LinkUp s.phyStatus
  · rw [if_pos now]
    refine ⟨fun programmed => ⟨fun _ => programmed,?_⟩,fun inv => inv.up (by simp [linked, now])⟩
    simp [linked, now]
  · rw [if_neg now]
    refine ⟨fun stopped => ⟨?_,fun _ => stopped⟩,fun inv => inv.down (by simp [linked, now])⟩
    simp [linked, now]

theorem programmed_modes_iff {s : Mac} (programmed : Programmed s) (phyStatus : BitVec 32) :
    Programmed { s with phyStatus := phyStatus } ↔
      (FullDuplex phyStatus ↔ FullDuplex s.phyStatus) ∧ (TenMbit phyStatus ↔ TenMbit s.phyStatus) := by
  obtain ⟨duplex,speed⟩ := programmed
  constructor
  · rintro ⟨duplex',speed'⟩
    have same := duplex.symm.trans duplex'
    simp only [Option.some.injEq, Action.restart.injEq, decide_eq_decide] at same
    exact ⟨same.symm,speed'.symm.trans speed⟩
  · rintro ⟨sameDuplex,sameSpeed⟩
    refine ⟨?_,speed.trans sameSpeed.symm⟩
    simp only [duplex, sameDuplex]

theorem poll_follows_iff {s : Mac} (inv : Inv s) (read : Poll) :
    Follows (poll s read) ↔ Steady s read := by
  have linked := relink_linked { s with phyStatus := actInt read s.phyStatus }
  rw [follows_iff_inv (by rw [poll, linked.1, linked.2]), poll,
    relink_inv_iff (s := { s with phyStatus := actInt read s.phyStatus }) inv.down]
  unfold Steady
  refine forall_congr' fun before => ?_
  simp only [actInt_link, programmed_modes_iff (inv.up before), actInt_fullDuplex, actInt_tenMbit]

theorem poll_inv {s : Mac} (inv : Inv s) {read : Poll} (steady : Steady s read) :
    Inv (poll s read) := by
  have linked := relink_linked { s with phyStatus := actInt read s.phyStatus }
  exact (follows_iff_inv (by rw [poll, linked.1, linked.2])).mp
    ((poll_follows_iff inv read).mpr steady)

theorem opened_inv (phyStatus miigskCfgr : BitVec 32) (link : Bool) :
    Inv (opened phyStatus miigskCfgr link) :=
  ⟨by simp [opened],fun _ => .inr rfl⟩

/-- The controller follows the PHY after every poll exactly when every link that stays up keeps
    its modes. -/
theorem follows_iff_steady {phyStatus miigskCfgr : BitVec 32} {link : Bool}
    {visited : List (Mac × Poll)} {t : Mac}
    (run : Run step (opened phyStatus miigskCfgr link) visited t) :
    Every (fun s read => Follows (poll s read)) visited ↔ Every Steady visited := by
  apply run.every_iff (opened_inv ..)
  · intro s read u inv steady next
    cases Option.some.inj next
    exact poll_inv inv steady
  · intro s read u inv next
    exact poll_follows_iff inv read

theorem follows_at_once : ∃ visited t, visited.length = 2 ∧
    Run step (opened 0 0 true) visited t ∧
    Every (fun s read => Follows (poll s read)) visited := by
  have run : Run step (opened 0 0 true) _ _ :=
    run_follow [⟨0x24,0x1e0,0x3100⟩, ⟨0x24,0x1e0,0x3100⟩] rfl
  refine ⟨_,_,?_,run,?_⟩
  · rfl
  · apply (follows_iff_steady run).mpr
    unfold Every
    decide

/-- The link is seen one poll before autonegotiation is complete: the controller is set to half
    duplex at 100 Mbit, and stays so when the PHY turns out to be at 10 Mbit full duplex. -/
theorem late_autonegotiation : ∃ visited t, visited.length = 2 ∧
    Run step (opened 0 0 true) visited t ∧
    ¬Every (fun s read => Follows (poll s read)) visited := by
  have run : Run step (opened 0 0 true) _ _ :=
    run_follow [⟨0x04,0x1e0,0x1000⟩, ⟨0x24,0x1e0,0x1100⟩] rfl
  refine ⟨_,_,?_,run,?_⟩
  · rfl
  · unfold Every
    decide

end Fec
