import Mathlib.Data.List.Infix

/- The upgrade branch of linuxrc, as commands on the regular files of /mnt/storage. The
   programs it calls are not part of the repository: what they do with one line or one word
   is a parameter, the scripts that are written out in linuxrc are not. Directories other
   than etc and etc/network do not matter to it. -/
namespace Linuxrc

abbrev Text := List Char

-- Under one name for all modules that look for a path in a list.
instance : LawfulBEq Text := inferInstance

structure Tools where
  /-- The words that the shell makes of a variable without quotes. -/
  words : Text → List Text
  /-- What echo prints, up to the newline. -/
  echo : List Text → Text
  /-- The arguments that xargs takes from a line; it gives up on a quote without end. -/
  xargs : Text → Option (List Text)
  /-- grep -q for a pattern in the contents of a file. -/
  grep : Text → Text → Bool
  /-- The operators of awk on two fields. -/
  less : Text → Text → Bool
  same : Text → Text → Bool
  /-- What awk prints when it cannot open its file. -/
  unopened : Text
  words_nil : words [] = []
  echo_word : ∀ w, w.head? ≠ some '-' → '\\' ∉ w → echo [w] = w

def versionFile : Text := "/mnt/storage/etc/squeezeos.version".toList

def versionBak : Text := "/mnt/storage/etc/squeezeos.version.bak".toList

def devTar : Text := "/mnt/storage/etc/dev.tar".toList

def wpaSupplicantConf : Text := "/mnt/storage/etc/wpa_supplicant.conf".toList

def interfaces : Text := "/mnt/storage/etc/network/interfaces".toList

def isBlank (c : Char) : Bool := c = ' ' ∨ c = '\t' ∨ c = '\n'

def isSpace (c : Char) : Bool := isBlank c ∨ c = '\r' ∨ c = '\x0b' ∨ c = '\x0c'

def fields (line : Text) : List Text := (line.splitOnP isBlank).filter (· ≠ [])

/-- SQUEEZEOS_VERSION, from head and cut; a file that is not there gives nothing. -/
def squeezeosVersion (stored : Option Text) : Text :=
  ((stored.getD []).takeWhile (· ≠ '\n')).takeWhile (· ≠ 'r')

/-- The test of the previous version: whether awk exits with 1. -/
def previousVersion (tools : Tools) (stored : Option Text) : Bool :=
  let f := fields (tools.echo (tools.words (squeezeosVersion stored) ++ ["7.4".toList]))
  f.length = 1 || tools.less (f.getD 0 []) (f.getD 1 [])

structure Scan where
  ssid : Text
  last : Text

def scanLine (tools : Tools) (s : Scan) (line : Text) : Scan :=
  let s :=
    if "ssid=\"".toList <:+: line then
      let name := (line.splitOn '"').getD 1 []
      { ssid := if s.ssid = ['?'] then name else s.ssid, last := name }
    else s
  if "disabled=1".toList <:+: line ∧ tools.same s.ssid s.last then { s with ssid := ['?'] } else s

def ssid (tools : Tools) (conf : Option Text) : Text :=
  let found := match conf with
    | none => tools.unopened
    | some conf => ((conf.splitOn '\n').foldl (scanLine tools) { ssid := ['?'], last := [] }).ssid
  (tools.echo (tools.words found)).map fun c => if isSpace c then '_' else c

def autoLine (name : Text) : Text := "auto eth0=".toList ++ name

theorem autoLine_eq (name : Text) :
    autoLine name = ['a', 'u', 't', 'o', ' ', 'e', 't', 'h', '0', '='] ++ name := rfl

/-- The patterns of keep-after-upgrade, the first of which is its comment. -/
def keepAfterUpgrade (path : Text) : Bool :=
  decide ("# Files matching the following pattern are preserved after an SqueezeOS upgrade".toList <:+: path) ||
  (match path.reverse with
    | 'a' :: 'u' :: 'l' :: _ :: rest => decide ("settings".toList.reverse <+: rest)
    | _ => false) ||
  decide ("/etc/".toList <:+: path) || decide ("/root/".toList <:+: path)

structure Storage where
  files : List (Text × Text)
  etcDir : Bool
  networkDir : Bool

def Storage.read (s : Storage) (path : Text) : Option Text :=
  (s.files.find? fun f => f.1 = path).map Prod.snd

def Storage.remove (s : Storage) (paths : List Text) : Storage :=
  { s with files := s.files.filter fun f => f.1 ∉ paths }

def Storage.write (s : Storage) (path contents : Text) : Storage :=
  { s with files := (path, contents) :: s.files.filter fun f => f.1 ≠ path }

/-- What find and grep pass on to xargs. -/
def Storage.modified (s : Storage) : List Text :=
  (s.files.map Prod.fst).filter fun path => !keepAfterUpgrade path

/-- What rm is called with, which is nothing when xargs gives up. -/
def toRemove (tools : Tools) (s : Storage) : List Text :=
  if s.modified.all fun path => (tools.xargs path).isSome then
    s.modified.flatMap fun path => (tools.xargs path).getD []
  else []

def removeModified (tools : Tools) (s : Storage) : Storage := s.remove (toRemove tools s)

def removeDevTar (s : Storage) : Storage := s.remove [devTar]

def addInterface (tools : Tools) (name : Text) (networkDir : Bool) (old : Option Text) : Option Text :=
  if name = [] then old
  else if old.elim false (tools.grep (autoLine name)) then old
  else if networkDir then some (old.getD [] ++ autoLine name ++ ['\n'])
  else old

def upgradeInterfaces (tools : Tools) (s : Storage) : Storage :=
  match addInterface tools (ssid tools (s.read wpaSupplicantConf)) s.networkDir (s.read interfaces) with
  | none => s
  | some contents => s.write interfaces contents

def makeEtc (s : Storage) : Storage := { s with etcDir := true }

def moveVersion (s : Storage) : Storage :=
  match s.read versionFile with
  | none => s
  | some stored => (s.remove [versionFile]).write versionBak stored

/-- /etc/squeezeos.version of the base image, which has a line at least. -/
structure Image where
  version : Text
  written : version ≠ []

def copyVersion (image : Image) (s : Storage) : Storage :=
  if s.etcDir then s.write versionFile image.version else s

/-- diff -N takes a file that is not there for an empty one. -/
def Upgraded (image : Image) (s : Storage) : Prop := (s.read versionFile).getD [] ≠ image.version

instance (image : Image) (s : Storage) : Decidable (Upgraded image s) :=
  inferInstanceAs (Decidable ((s.read versionFile).getD [] ≠ image.version))

/-- The commands of a boot that change the storage. Which ones run is decided by the
    version that the boot finds. -/
def commands (tools : Tools) (image : Image) (s : Storage) : List (Storage → Storage) :=
  if Upgraded image s then
    [removeModified tools, removeDevTar] ++
    (if previousVersion tools (s.read versionFile) then [upgradeInterfaces tools] else []) ++
    [makeEtc, moveVersion, copyVersion image]
  else []

def cutBoot (tools : Tools) (image : Image) (s : Storage) (done : Nat) : Storage :=
  ((commands tools image s).take done).foldl (fun t command => command t) s

def boot (tools : Tools) (image : Image) (s : Storage) : Storage :=
  (commands tools image s).foldl (fun t command => command t) s

theorem read_remove (s : Storage) (paths : List Text) (p : Text) :
    (s.remove paths).read p = if p ∈ paths then none else s.read p := by
  rw [Storage.read, Storage.remove, List.find?_filter]
  by_cases removed : p ∈ paths
  · rw [if_pos removed, Option.map_eq_none_iff, List.find?_eq_none]
    intro f _ both
    simp only [decide_eq_true_eq] at both
    exact both.1 (both.2 ▸ removed)
  · rw [if_neg removed, Storage.read]
    congr 2
    funext f
    by_cases named : f.1 = p
    · simp [named, removed]
    · simp [named]

theorem read_write (s : Storage) (path contents p : Text) :
    (s.write path contents).read p = if p = path then some contents else s.read p := by
  have rest := read_remove s [path] p
  simp only [List.mem_singleton] at rest
  by_cases named : p = path
  · simp [Storage.read, Storage.write, named]
  · rw [if_neg named] at rest ⊢
    rw [← rest]
    simp [Storage.read, Storage.write, Storage.remove, Ne.symm named]

theorem read_removeModified (tools : Tools) (s : Storage) (p : Text) :
    (removeModified tools s).read p = if p ∈ toRemove tools s then none else s.read p :=
  read_remove s _ p

theorem read_removeDevTar (s : Storage) (p : Text) :
    (removeDevTar s).read p = if p = devTar then none else s.read p := by
  rw [removeDevTar, read_remove]
  simp

theorem addInterface_eq_none {tools : Tools} {name : Text} {networkDir : Bool} {old : Option Text}
    (none : addInterface tools name networkDir old = none) : old = Option.none := by
  unfold addInterface at none
  split at none
  · exact none
  · split at none
    · exact none
    · split at none
      · cases none
      · exact none

theorem read_upgradeInterfaces (tools : Tools) (s : Storage) (p : Text) :
    (upgradeInterfaces tools s).read p =
      if p = interfaces then
        addInterface tools (ssid tools (s.read wpaSupplicantConf)) s.networkDir (s.read interfaces)
      else s.read p := by
  unfold upgradeInterfaces
  split
  · rename_i nothing
    rw [nothing]
    by_cases here : p = interfaces
    · rw [if_pos here, here, addInterface_eq_none nothing]
    · rw [if_neg here]
  · rename_i contents added
    rw [read_write, added]

theorem read_moveVersion (s : Storage) (p : Text) (other : p ≠ versionBak) :
    (moveVersion s).read p = if p = versionFile then none else s.read p := by
  unfold moveVersion
  split
  · rename_i missing
    by_cases here : p = versionFile
    · rw [if_pos here, here, missing]
    · rw [if_neg here]
  · rw [read_write, if_neg other, read_remove]
    simp

theorem read_copyVersion (image : Image) {s : Storage} (etc : s.etcDir = true) (p : Text) :
    (copyVersion image s).read p = if p = versionFile then some image.version else s.read p := by
  rw [copyVersion, if_pos etc, read_write]

end Linuxrc
