import SqueezeOS.Msp430.Registers

/- The clock of the MSP430 behind rtc_class_ops (rtc.patch, with the locking of
   fix-i2c-mutex.patch), and the conversions of rtc-lib.c that it calls. An int is the 32 bits
   it is stored in. -/
namespace Msp430Rtc
open Guarded Msp430Registers

abbrev Words := Nat → BitVec 32

structure RtcTime where
  tmSec : BitVec 32
  tmMin : BitVec 32
  tmHour : BitVec 32
  tmMday : BitVec 32
  tmMon : BitVec 32
  tmYear : BitVec 32
  tmWday : BitVec 32
  tmYday : BitVec 32
  tmIsdst : BitVec 32
  deriving DecidableEq, Repr

structure RtcWkalrm where
  enabled : BitVec 8
  pending : BitVec 8
  time : RtcTime
  deriving DecidableEq, Repr

def RtcTime.load (p : Words) : RtcTime := ⟨p 0,p 1,p 2,p 3,p 4,p 5,p 6,p 7,p 8⟩

/-- The two flags share the first word, with two bytes of padding. -/
def RtcWkalrm.load (p : Words) : RtcWkalrm :=
  ⟨(p 0).extractLsb' 0 8,(p 0).extractLsb' 8 8,RtcTime.load fun i => p (i + 1)⟩

def leapsThruEndOf (y : Int) : Int := y / 4 - y / 100 + y / 400

def leapYear (year : Int) : Bool := year % 4 == 0 && year % 100 != 0 || year % 400 == 0

def rtcDaysInMonth : List Int := [31, 28, 31, 30, 31, 30, 31, 31, 30, 31, 30, 31]

def rtcMonthDays (month : Nat) (year : Int) : Int :=
  rtcDaysInMonth.getD month 0 + if leapYear year && month == 1 then 1 else 0

def months (year : Int) : Nat → Nat → Int → Nat × Int
  | 0, month, days => (month, days)
  | left + 1, month, days =>
      let newdays := days - rtcMonthDays month year
      if newdays < 0 then (month, days) else months year left (month + 1) newdays

def yearAndDay (days : Int) : Int × Int :=
  let year := 1970 + days / 365
  let left := days - ((year - 1970) * 365 + leapsThruEndOf (year - 1) - leapsThruEndOf (1970 - 1))
  if left < 0 then (year - 1, left + 365 + if leapYear (year - 1) then 1 else 0) else (year, left)

/-- tm_isdst is left as it was. -/
def rtcTimeToTm (time : BitVec 32) (tm : Words) : Words :=
  let days : Int := time.toNat / 86400
  let inDay := time.toNat % 86400
  let date := yearAndDay days
  let month := months date.1 11 0 date.2
  fun
    | 0 => BitVec.ofNat 32 (inDay % 3600 % 60)
    | 1 => BitVec.ofNat 32 (inDay % 3600 / 60)
    | 2 => BitVec.ofNat 32 (inDay / 3600)
    | 3 => BitVec.ofInt 32 (month.2 + 1)
    | 4 => BitVec.ofNat 32 month.1
    | 5 => BitVec.ofInt 32 (date.1 - 1900)
    | 6 => BitVec.ofInt 32 ((days + 4) % 7)
    | 7 => BitVec.ofInt 32 (date.2 + 1)
    | i => tm i

def mktime (year0 mon0 day hour min sec : BitVec 32) : BitVec 32 :=
  let wraps : Bool := (mon0 - 2).toInt ≤ 0
  let mon := if wraps then mon0 - 2 + 12 else mon0 - 2
  let year := if wraps then year0 - 1 else year0
  (((year / 4 - year / 100 + year / 400 + 367 * mon / 12 + day + year * 365 - 719499) * 24 +
    hour) * 60 + min) * 60 + sec

def rtcTmToTime (tm : RtcTime) : BitVec 32 :=
  mktime (tm.tmYear + 1900) (tm.tmMon + 1) tm.tmMday tm.tmHour tm.tmMin tm.tmSec

def rtcValidTm (tm : RtcTime) : Bool :=
  ! (tm.tmYear.toInt < 70 || tm.tmMon.toNat ≥ 12 || tm.tmMday.toInt < 1 ||
    tm.tmMday.toInt > rtcMonthDays tm.tmMon.toNat (tm.tmYear.toInt + 1900) ||
    tm.tmHour.toNat ≥ 24 || tm.tmMin.toNat ≥ 60 || tm.tmSec.toNat ≥ 60)

def readBlock (register : Nat) (bus : Bus) : List UInt8 :=
  (((bus.filter fun write => write.1 = register).getLast?).map (·.2)).getD []

def bytesToSeconds (val : List UInt8) : BitVec 32 :=
  (val.getD 0 0).toBitVec.setWidth 32 ||| (val.getD 1 0).toBitVec.setWidth 32 <<< 8 |||
    (val.getD 2 0).toBitVec.setWidth 32 <<< 16 ||| (val.getD 3 0).toBitVec.setWidth 32 <<< 24

def secondsToBytes (seconds : BitVec 32) : List UInt8 :=
  [0, 8, 16, 24].map fun shift => UInt8.ofBitVec ((seconds >>> shift).setWidth 8)

/-- The driver's functions take a pointer to struct rtc_time, for the alarm too; `ret` is what
    the transfer returns. -/
def readRegister (register : Nat) (ret : Int) (tm : Words) (s : Driver Bus) :
    Option (Int × Words × Driver Bus) :=
  if s.locked then none
  else if ret < 0 then some (ret, tm, s)
  else some (0, rtcTimeToTm (bytesToSeconds (readBlock register s.data)) tm, s)

def setRegister (register : Nat) (ret : Int) (tm : Words) (s : Driver Bus) :
    Option (Int × Driver Bus) :=
  let val := secondsToBytes (rtcTmToTime (RtcTime.load tm))
  if s.locked then none
  else if ret < 0 then some (ret, s)
  else some (0, { s with data := s.data ++ [(register, val)] })

def timeRegister : Nat := 70
def alarmRegister : Nat := 71

def msp430RtcReadTime := readRegister timeRegister
def msp430RtcSetTime := setRegister timeRegister
def msp430RtcReadAlarm := readRegister alarmRegister
def msp430RtcSetAlarm := setRegister alarmRegister

/-- The entries that the driver fills in. The time functions are handed a struct rtc_time, the
    alarm functions a struct rtc_wkalrm. -/
structure RtcClassOps where
  readTime : Int → Words → Driver Bus → Option (Int × Words × Driver Bus)
  setTime : Int → Words → Driver Bus → Option (Int × Driver Bus)
  readAlarm : Int → Words → Driver Bus → Option (Int × Words × Driver Bus)
  setAlarm : Int → Words → Driver Bus → Option (Int × Driver Bus)

def msp430RtcOps : RtcClassOps where
  readTime := msp430RtcReadTime
  setTime := msp430RtcSetTime
  readAlarm := msp430RtcReadAlarm
  setAlarm := msp430RtcSetAlarm

structure Settable (tm : RtcTime) : Prop where
  valid : rtcValidTm tm = true
  representable : ∃ seconds,
    let same := RtcTime.load (rtcTimeToTm seconds fun _ => 0)
    tm.tmSec = same.tmSec ∧ tm.tmMin = same.tmMin ∧ tm.tmHour = same.tmHour ∧
      tm.tmMday = same.tmMday ∧ tm.tmMon = same.tmMon ∧ tm.tmYear = same.tmYear

/-- set_alarm with the alarm at `p` writes the seconds of its time, and read_alarm into `q`
    returns the same time. -/
def AlarmKept (s : Driver Bus) (ret : Int) (p q : Words) : Prop :=
  ∃ t, msp430RtcOps.setAlarm ret p s = some (0, t) ∧
    t.data = s.data ++ [(alarmRegister, secondsToBytes (rtcTmToTime (RtcWkalrm.load p).time))] ∧
    ∃ r u, msp430RtcOps.readAlarm ret q t = some (0, r, u) ∧
      (RtcWkalrm.load r).time = (RtcWkalrm.load p).time

theorem load_year (seconds : BitVec 32) (q : Words) :
    (RtcWkalrm.load (rtcTimeToTm seconds q)).time.tmYear.toInt ≤ 6 := by
  have week : (((seconds.toNat / 86400 : Int) + 4) % 7) < 7 := Int.emod_lt_of_pos _ (by decide)
  have start : 0 ≤ (((seconds.toNat / 86400 : Int) + 4) % 7) := Int.emod_nonneg _ (by decide)
  change (BitVec.ofInt 32 (((seconds.toNat / 86400 : Int) + 4) % 7)).toInt ≤ 6
  rw [BitVec.toInt_ofInt, Int.bmod_eq_of_le (by omega) (by omega)]
  omega

theorem valid_year {tm : RtcTime} (valid : rtcValidTm tm = true) : 70 ≤ tm.tmYear.toInt := by
  by_contra early
  have small : tm.tmYear.toInt < 70 := by omega
  simp [rtcValidTm, small] at valid

theorem alarm_lost {s : Driver Bus} {ret : Int} {p : Words} (q : Words)
    (valid : rtcValidTm (RtcWkalrm.load p).time = true) : ¬ AlarmKept s ret p q := by
  rintro ⟨t,_,_,r,u,read,same⟩
  have late := valid_year valid
  rw [← same] at late
  simp only [msp430RtcOps, msp430RtcReadAlarm, readRegister] at read
  split at read
  · contradiction
  · split at read
    · rename_i failed
      have code : ret = 0 := congrArg Prod.fst (Option.some.inj read)
      omega
    · simp only [Option.some.injEq, Prod.mk.injEq] at read
      rw [← read.2.1] at late
      have early := load_year (bytesToSeconds (readBlock alarmRegister t.data)) q
      omega

/-- No alarm survives: the driver takes the struct rtc_wkalrm for a struct rtc_time, so each
    field is one word off. -/
theorem alarm_never_kept (s : Driver Bus) (ret : Int) (p q : Words)
    (settable : Settable (RtcWkalrm.load p).time) : ¬ AlarmKept s ret p q :=
  alarm_lost q settable.valid

/-- 14 August 2009, 8:59:10, as the struct rtc_wkalrm of an enabled alarm. -/
def morning : Words
  | 0 => 1
  | 1 => 10
  | 2 => 59
  | 3 => 8
  | 4 => 14
  | 5 => 7
  | 6 => 109
  | 7 => 5
  | 8 => 226
  | _ => 0

theorem morning_never_kept : Settable (RtcWkalrm.load morning).time ∧
    ¬ AlarmKept ⟨false,[]⟩ 4 morning morning := by
  have settable : Settable (RtcWkalrm.load morning).time := by
    constructor
    · decide
    · exact ⟨1250240350,by decide⟩
  exact ⟨settable,alarm_never_kept ⟨false,[]⟩ 4 morning morning settable⟩

theorem morning_lost : rtcValidTm (RtcWkalrm.load morning).time = true ∧
    ¬ AlarmKept ⟨false,[]⟩ 4 morning (fun _ => 0) :=
  ⟨by decide,alarm_lost _ (by decide)⟩

end Msp430Rtc
