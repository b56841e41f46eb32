import SqueezeOS.Boot.Linuxrc
import SqueezeOS.StepRuns

/- Boots that are cut off inside the upgrade branch and then one that is not. A cut is
   harmless when the next boot still takes the same branch through the migration and does
   not add a second line. -/
namespace Linuxrc
open StepRuns

/-- The files that the later commands work on, all of them kept. -/
def Special (p : Text) : Prop :=
  p = versionFile ∨ p = versionBak ∨ p = devTar ∨ p = interfaces

theorem special_kept {p : Text} (special : Special p) : keepAfterUpgrade p = true := by
  rcases special with rfl | rfl | rfl | rfl
  all_goals decide +kernel

theorem special_not_modified {p : Text} (special : Special p) (s : Storage) : p ∉ s.modified := by
  intro member
  have modified := (List.mem_filter.mp member).2
  rw [special_kept special] at modified
  cases modified

theorem mem_modified_remove (s : Storage) (paths : List Text) (q : Text) :
    q ∈ (s.remove paths).modified ↔ q ∈ s.modified ∧ q ∉ paths := by
  simp only [Storage.modified, Storage.remove, List.mem_filter, List.mem_map, decide_eq_true_eq]
  constructor
  · rintro ⟨⟨f,⟨member,kept⟩,rfl⟩,modified⟩
    exact ⟨⟨⟨f,member,rfl⟩,modified⟩,kept⟩
  · rintro ⟨⟨⟨f,member,rfl⟩,modified⟩,kept⟩
    exact ⟨⟨f,⟨member,kept⟩,rfl⟩,modified⟩

theorem mem_modified_write (s : Storage) {path : Text} (contents : Text) (special : Special path)
    (q : Text) : q ∈ (s.write path contents).modified ↔ q ∈ s.modified := by
  have whole : (s.write path contents).modified = (s.remove [path]).modified := by
    simp [Storage.modified, Storage.write, Storage.remove, special_kept special]
  rw [whole, mem_modified_remove, List.mem_singleton]
  constructor
  · exact fun both => both.1
  · intro member
    exact ⟨member,fun same => special_not_modified special s (same ▸ member)⟩

/-- A storage between the first command of a boot on `s` and the end of that boot. -/
structure Started (tools : Tools) (s t : Storage) : Prop where
  network : t.networkDir = s.networkDir
  modified : ∀ q, q ∈ t.modified ↔ q ∈ s.modified ∧ q ∉ toRemove tools s
  others : ∀ p, ¬ Special p → t.read p = (removeModified tools s).read p

theorem toRemove_subset {tools : Tools} {s t : Storage} (started : Started tools s t) :
    toRemove tools t ⊆ toRemove tools s := by
  intro p removed
  by_cases all : (s.modified.all fun path => (tools.xargs path).isSome) = true
  · unfold toRemove at removed
    split at removed
    · obtain ⟨q,member,args⟩ := List.mem_flatMap.mp removed
      rw [toRemove, if_pos all]
      exact List.mem_flatMap.mpr ⟨q,((started.modified q).mp member).1,args⟩
    · cases removed
  · -- xargs gave up on a file, which is still there.
    have none : toRemove tools s = [] := by rw [toRemove, if_neg all]
    have again : ¬ (t.modified.all fun path => (tools.xargs path).isSome) = true := by
      intro accepted
      apply all
      rw [List.all_eq_true] at accepted ⊢
      intro q member
      exact accepted q ((started.modified q).mpr ⟨member,by simp [none]⟩)
    rw [toRemove, if_neg again] at removed
    cases removed

theorem started_removeModified (tools : Tools) (s : Storage) :
    Started tools s (removeModified tools s) :=
  { network := rfl
    modified := mem_modified_remove s _
    others := fun _ _ => rfl }

theorem started_remove {tools : Tools} {s t : Storage} (started : Started tools s t) {path : Text}
    (special : Special path) : Started tools s (t.remove [path]) := by
  constructor
  · exact started.network
  · intro q
    rw [mem_modified_remove, started.modified, List.mem_singleton]
    constructor
    · exact fun both => both.1
    · intro member
      exact ⟨member,fun same => special_not_modified special s (same ▸ member.1)⟩
  · intro p plain
    have other : p ≠ path := fun same => plain (same ▸ special)
    rw [read_remove, if_neg (by simpa using other)]
    exact started.others p plain

theorem started_write {tools : Tools} {s t : Storage} (started : Started tools s t) {path : Text}
    (special : Special path) (contents : Text) : Started tools s (t.write path contents) := by
  constructor
  · exact started.network
  · intro q
    rw [mem_modified_write t contents special, started.modified]
  · intro p plain
    have other : p ≠ path := fun same => plain (same ▸ special)
    rw [read_write, if_neg other]
    exact started.others p plain

theorem started_upgradeInterfaces {tools : Tools} {s t : Storage} (started : Started tools s t) :
    Started tools s (upgradeInterfaces tools t) := by
  unfold upgradeInterfaces
  split
  · exact started
  · exact started_write started (Or.inr (Or.inr (Or.inr rfl))) _

theorem started_makeEtc {tools : Tools} {s t : Storage} (started : Started tools s t) :
    Started tools s (makeEtc t) :=
  { network := started.network, modified := started.modified, others := started.others }

theorem started_moveVersion {tools : Tools} {s t : Storage} (started : Started tools s t) :
    Started tools s (moveVersion t) := by
  unfold moveVersion
  split
  · exact started
  · exact started_write (started_remove started (Or.inl rfl)) (Or.inr (Or.inl rfl)) _

theorem started_clean {tools : Tools} {s t : Storage} (started : Started tools s t) {p : Text}
    (same : t.read p = (removeModified tools s).read p) :
    (removeModified tools t).read p = (removeModified tools s).read p := by
  rw [read_removeModified, same]
  by_cases removed : p ∈ toRemove tools t
  · rw [if_pos removed, read_removeModified, if_pos (toRemove_subset started removed)]
  · rw [if_neg removed]

theorem moveVersion_dirs (s : Storage) :
    (moveVersion s).etcDir = s.etcDir ∧ (moveVersion s).networkDir = s.networkDir := by
  unfold moveVersion
  split
  · exact ⟨rfl,rfl⟩
  · exact ⟨rfl,rfl⟩

theorem read_stored (image : Image) (s : Storage) (p : Text) (other : p ≠ versionBak) :
    (copyVersion image (moveVersion (makeEtc s))).read p =
      if p = versionFile then some image.version else s.read p := by
  rw [read_copyVersion image (moveVersion_dirs _).1, read_moveVersion _ p other]
  by_cases here : p = versionFile
  · rw [if_pos here, if_pos here]
  · rw [if_neg here, if_neg here, if_neg here]
    rfl

theorem stored_dirs (image : Image) (s : Storage) :
    (copyVersion image (moveVersion (makeEtc s))).etcDir = true ∧
    (copyVersion image (moveVersion (makeEtc s))).networkDir = s.networkDir := by
  have dirs : (moveVersion (makeEtc s)).etcDir = true ∧
      (moveVersion (makeEtc s)).networkDir = s.networkDir := moveVersion_dirs (makeEtc s)
  rw [copyVersion, if_pos dirs.1]
  exact dirs

def migrated (tools : Tools) (s : Storage) : Option Text :=
  if previousVersion tools (s.read versionFile) then
    addInterface tools (ssid tools ((removeModified tools s).read wpaSupplicantConf)) s.networkDir
      ((removeModified tools s).read interfaces)
  else (removeModified tools s).read interfaces

def cleared (tools : Tools) (s : Storage) : Storage := removeDevTar (removeModified tools s)

def extended (tools : Tools) (s : Storage) : Storage := upgradeInterfaces tools (cleared tools s)

theorem read_cleared (tools : Tools) (s : Storage) (p : Text) (other : p ≠ devTar) :
    (cleared tools s).read p = (removeModified tools s).read p := by
  rw [cleared, read_removeDevTar, if_neg other]

theorem paths_differ : versionFile ≠ devTar ∧ versionFile ≠ interfaces ∧ interfaces ≠ versionBak ∧
    versionFile ≠ versionBak ∧ interfaces ≠ devTar ∧ wpaSupplicantConf ≠ devTar ∧
    ¬ Special wpaSupplicantConf := by
  unfold Special
  decide +kernel

theorem read_upgraded (tools : Tools) (s : Storage)
    (prev : previousVersion tools (s.read versionFile) = true) (p : Text) (other : p ≠ devTar) :
    (extended tools s).read p =
      if p = interfaces then migrated tools s else (removeModified tools s).read p := by
  obtain ⟨-,-,-,-,interfacesTar,confTar,-⟩ := paths_differ
  rw [extended, read_upgradeInterfaces, read_cleared tools s _ confTar, read_cleared tools s _ interfacesTar,
    read_cleared tools s _ other, migrated, if_pos prev]
  rfl

theorem boot_upgraded {tools : Tools} {image : Image} {s : Storage} (upgraded : Upgraded image s) :
    boot tools image s = copyVersion image (moveVersion (makeEtc
      (if previousVersion tools (s.read versionFile) then extended tools s else cleared tools s))) := by
  unfold boot commands
  rw [if_pos upgraded]
  cases previousVersion tools (s.read versionFile) with
  | true => rfl
  | false => rfl

theorem boot_read {tools : Tools} {image : Image} {s : Storage} (upgraded : Upgraded image s)
    (p : Text) (other : p ≠ versionBak) : (boot tools image s).read p =
      if p = versionFile then some image.version
      else if p = devTar then none
      else if p = interfaces then migrated tools s
      else (removeModified tools s).read p := by
  rw [boot_upgraded upgraded, read_stored image _ p other]
  by_cases tar : p = devTar
  · have apart : devTar ≠ interfaces := Ne.symm paths_differ.2.2.2.2.1
    have gone : (cleared tools s).read devTar = none := by
      rw [cleared, read_removeDevTar, if_pos rfl]
    rw [if_pos tar, tar]
    split
    · rfl
    · split
      · rw [extended, read_upgradeInterfaces, if_neg apart, gone]
      · exact gone
  · rw [if_neg tar]
    cases prev : previousVersion tools (s.read versionFile) with
    | true => rw [if_pos rfl, read_upgraded tools s prev p tar]
    | false =>
      rw [if_neg Bool.false_ne_true, read_cleared tools s p tar, migrated, prev]
      by_cases here : p = interfaces
      · simp [here]
      · simp [here]

theorem boot_dirs {tools : Tools} {image : Image} {s : Storage} (upgraded : Upgraded image s) :
    (boot tools image s).etcDir = true ∧ (boot tools image s).networkDir = s.networkDir := by
  have added : (extended tools s).networkDir = s.networkDir := by
    unfold extended upgradeInterfaces
    split
    · rfl
    · rfl
  rw [boot_upgraded upgraded]
  obtain ⟨etc,network⟩ := stored_dirs image
    (if previousVersion tools (s.read versionFile) then extended tools s else cleared tools s)
  refine ⟨etc,network.trans ?_⟩
  split
  · exact added
  · rfl

/-- The same contents, apart from squeezeos.version.bak. -/
structure Same (t s : Storage) : Prop where
  etc : t.etcDir = s.etcDir
  network : t.networkDir = s.networkDir
  files : ∀ p, p ≠ versionBak → t.read p = s.read p

theorem previousVersion_missing (tools : Tools) : previousVersion tools none = true := by
  have words : tools.words (squeezeosVersion none) = [] := tools.words_nil
  have printed : tools.echo ["7.4".toList] = "7.4".toList :=
    tools.echo_word _ (by decide) (by decide)
  unfold previousVersion
  rw [words, List.nil_append, printed]
  rfl

/-- A storage on the way, and the facts that decide what the next boot does with it: it
    is taken for an upgrade again, and its migration comes to the same. -/
theorem same_of_started {tools : Tools} {image : Image} {s t : Storage}
    (upgraded : Upgraded image s) (started : Started tools s t)
    (version : t.read versionFile = s.read versionFile ∨ t.read versionFile = none)
    (same : migrated tools t = migrated tools s) : Same (boot tools image t) (boot tools image s) := by
  have again : Upgraded image t := by
    unfold Upgraded at *
    rcases version with kept | missing
    · rw [kept]
      exact upgraded
    · rw [missing]
      exact image.written.symm
  constructor
  · rw [(boot_dirs again).1, (boot_dirs upgraded).1]
  · rw [(boot_dirs again).2, (boot_dirs upgraded).2, started.network]
  · intro p other
    rw [boot_read again p other, boot_read upgraded p other, same]
    by_cases special : Special p
    · rcases special with rfl | rfl | rfl | rfl
      · rfl
      · contradiction
      · rw [if_pos rfl, if_pos rfl]
      · rw [if_pos rfl, if_pos rfl]
    · rw [started_clean started (started.others p special)]

section
variable {tools : Tools} {s t : Storage}

def newName (tools : Tools) (s : Storage) : Text :=
  ssid tools ((removeModified tools s).read wpaSupplicantConf)

def NothingToAdd (tools : Tools) (s : Storage) : Prop :=
  newName tools s = [] ∨ s.networkDir = false ∨
    ∃ old, (removeModified tools s).read interfaces = some old ∧
      tools.grep (autoLine (newName tools s)) old = true

def FoundAgain (tools : Tools) (s : Storage) : Prop :=
  tools.grep (autoLine (newName tools s))
    (((removeModified tools s).read interfaces).getD [] ++ autoLine (newName tools s) ++ ['\n']) = true

theorem addInterface_nothing (nothing : NothingToAdd tools s) :
    addInterface tools (newName tools s) s.networkDir ((removeModified tools s).read interfaces) =
      (removeModified tools s).read interfaces := by
  unfold addInterface
  rcases nothing with empty | missing | ⟨old,there,found⟩
  · rw [if_pos empty]
  · rw [missing]
    simp
  · rw [there]
    simp [found]

theorem addInterface_added (something : ¬ NothingToAdd tools s) :
    addInterface tools (newName tools s) s.networkDir ((removeModified tools s).read interfaces) =
      some (((removeModified tools s).read interfaces).getD [] ++ autoLine (newName tools s) ++ ['\n']) := by
  unfold NothingToAdd at something
  push Not at something
  obtain ⟨named,directory,absent⟩ := something
  have network : s.networkDir = true := by simpa using directory
  have unfound : ¬ (((removeModified tools s).read interfaces).elim false
      (tools.grep (autoLine (newName tools s))) = true) := by
    cases there : (removeModified tools s).read interfaces with
    | none => simp
    | some old => exact absent old there
  rw [addInterface, if_neg named, if_neg unfound, if_pos network]

theorem addInterface_again (again : NothingToAdd tools s ∨ FoundAgain tools s) :
    addInterface tools (newName tools s) s.networkDir
        (addInterface tools (newName tools s) s.networkDir ((removeModified tools s).read interfaces)) =
      addInterface tools (newName tools s) s.networkDir ((removeModified tools s).read interfaces) := by
  by_cases nothing : NothingToAdd tools s
  · rw [addInterface_nothing nothing, addInterface_nothing nothing]
  · have found : FoundAgain tools s := again.resolve_left nothing
    unfold FoundAgain at found
    rw [addInterface_added nothing, addInterface]
    simp only [Option.elim_some, found, if_true, ite_self]

theorem newName_started (started : Started tools s t) : newName tools t = newName tools s := by
  obtain ⟨-,-,-,-,-,-,plain⟩ := paths_differ
  rw [newName, newName, started_clean started (started.others _ plain)]

theorem migrated_eq (tools : Tools) (s : Storage) : migrated tools s =
    if previousVersion tools (s.read versionFile) then
      addInterface tools (newName tools s) s.networkDir ((removeModified tools s).read interfaces)
    else (removeModified tools s).read interfaces := rfl

theorem migrated_before (started : Started tools s t)
    (read : t.read interfaces = (removeModified tools s).read interfaces)
    (branch : previousVersion tools (t.read versionFile) = previousVersion tools (s.read versionFile)) :
    migrated tools t = migrated tools s := by
  rw [migrated_eq, migrated_eq, branch, newName_started started, started.network,
    started_clean started read]

theorem migrated_gone (started : Started tools s t)
    (read : t.read interfaces = (removeModified tools s).read interfaces)
    (branch : previousVersion tools (s.read versionFile) = false) (nothing : NothingToAdd tools s) :
    migrated tools t = migrated tools s := by
  rw [migrated_eq, migrated_eq, branch, newName_started started, started.network,
    started_clean started read, addInterface_nothing nothing]
  simp

theorem migrated_after (started : Started tools s t)
    (branch : previousVersion tools (s.read versionFile) = true)
    (branchAgain : previousVersion tools (t.read versionFile) = true)
    (read : t.read interfaces = migrated tools s)
    (again : NothingToAdd tools s ∨ FoundAgain tools s) : migrated tools t = migrated tools s := by
  rw [migrated_eq tools t, if_pos branchAgain, newName_started started, started.network]
  by_cases removed : interfaces ∈ toRemove tools t
  · have first : (removeModified tools s).read interfaces = none := by
      rw [read_removeModified, if_pos (toRemove_subset started removed)]
    rw [read_removeModified, if_pos removed, migrated_eq, if_pos branch, first]
  · rw [read_removeModified, if_neg removed, read, migrated_eq, if_pos branch, addInterface_again again]

end

/-- When the boot on `s` may be cut off after `done` commands. If the stored version is
    older than 7.4 the third command adds the line and the sixth stores the version. If it
    is not, the fourth moves the version file away and the fifth puts the new one there. -/
def Allowed (tools : Tools) (image : Image) (s : Storage) (done : Nat) : Prop :=
  Upgraded image s →
    if previousVersion tools (s.read versionFile) then
      done < 3 ∨ 6 ≤ done ∨ NothingToAdd tools s ∨ FoundAgain tools s
    else
      done = 0 ∨ 5 ≤ done ∨ NothingToAdd tools s ∨ (done < 4 ∧ versionFile ∉ toRemove tools s)

theorem boot_of_not_upgraded {tools : Tools} {image : Image} {s : Storage}
    (current : ¬ Upgraded image s) : boot tools image s = s := by
  rw [boot, commands, if_neg current]
  rfl

theorem boot_boot (tools : Tools) (image : Image) (s : Storage) :
    boot tools image (boot tools image s) = boot tools image s := by
  by_cases upgraded : Upgraded image s
  · apply boot_of_not_upgraded
    obtain ⟨-,-,-,differ,-⟩ := paths_differ
    unfold Upgraded
    rw [boot_read upgraded versionFile differ, if_pos rfl]
    simp
  · rw [boot_of_not_upgraded upgraded, boot_of_not_upgraded upgraded]

section
variable {tools : Tools} {image : Image} {s : Storage}

theorem removeModified_version (tools : Tools) (s : Storage) :
    (removeModified tools s).read versionFile = s.read versionFile ∨
    (removeModified tools s).read versionFile = none := by
  rw [read_removeModified]
  split
  · exact Or.inr rfl
  · exact Or.inl rfl

theorem previousVersion_left {stored left : Option Text}
    (branch : previousVersion tools stored = true) (kept : left = stored ∨ left = none) :
    previousVersion tools left = true := by
  rcases kept with rfl | rfl
  · exact branch
  · exact previousVersion_missing tools

theorem started_cleared (tools : Tools) (s : Storage) :
    Started tools s (cleared tools s) :=
  started_remove (started_removeModified tools s) (Or.inr (Or.inr (Or.inl rfl)))

theorem cutBoot_whole {done : Nat} (all : (commands tools image s).length ≤ done) :
    Same (boot tools image (cutBoot tools image s done)) (boot tools image s) := by
  have finished : cutBoot tools image s done = boot tools image s := by
    rw [cutBoot, List.take_of_length_le all, boot]
  rw [finished, boot_boot]
  exact ⟨rfl,rfl,fun _ _ => rfl⟩

theorem moveVersion_reads (s : Storage) : (moveVersion s).read versionFile = none ∧
    (moveVersion s).read interfaces = s.read interfaces := by
  obtain ⟨-,versionInterfaces,interfacesBak,versionBak,-⟩ := paths_differ
  rw [read_moveVersion s versionFile versionBak, if_pos rfl, read_moveVersion s interfaces interfacesBak,
    if_neg (Ne.symm versionInterfaces)]
  exact ⟨rfl,rfl⟩

theorem cutBoot_old (upgraded : Upgraded image s)
    (branch : previousVersion tools (s.read versionFile) = true) (done : Nat)
    (allowed : done < 3 ∨ 6 ≤ done ∨ NothingToAdd tools s ∨ FoundAgain tools s) :
    Same (boot tools image (cutBoot tools image s done)) (boot tools image s) := by
  obtain ⟨versionTar,versionInterfaces,-,-,interfacesTar,-⟩ := paths_differ
  have list : commands tools image s = [removeModified tools, removeDevTar, upgradeInterfaces tools,
      makeEtc, moveVersion, copyVersion image] := by
    simp [commands, upgraded, branch]
  have first := removeModified_version tools s
  have started := started_cleared tools s
  have added := started_makeEtc (started_upgradeInterfaces started)
  have left : (makeEtc (extended tools s)).read
      versionFile = s.read versionFile ∨
      (makeEtc (extended tools s)).read versionFile = none := by
    have kept := read_upgraded tools s branch versionFile versionTar
    rw [if_neg versionInterfaces] at kept
    rw [← kept] at first
    exact first
  have line : (makeEtc (extended tools s)).read
      interfaces = migrated tools s := by
    have written := read_upgraded tools s branch interfaces interfacesTar
    rw [if_pos rfl] at written
    exact written
  -- Until the line is added the interfaces file is the one before, and behind that the new one.
  have before : ∀ t, Started tools s t →
      t.read versionFile = (removeModified tools s).read versionFile →
      t.read interfaces = (removeModified tools s).read interfaces →
      Same (boot tools image t) (boot tools image s) := by
    intro t started version same
    rw [← version] at first
    apply same_of_started upgraded started first
    exact migrated_before started same ((previousVersion_left branch first).trans branch.symm)
  have after : ∀ t, Started tools s t → 3 ≤ done → done < 6 →
      (t.read versionFile = s.read versionFile ∨ t.read versionFile = none) →
      t.read interfaces = migrated tools s → Same (boot tools image t) (boot tools image s) := by
    intro t started low high left line
    have again : NothingToAdd tools s ∨ FoundAgain tools s := by
      rcases allowed with few | all | found
      · omega
      · omega
      · exact found
    apply same_of_started upgraded started left
    exact migrated_after started branch (previousVersion_left branch left) line again
  by_cases all : 6 ≤ done
  · exact cutBoot_whole (by rw [list]; exact all)
  unfold cutBoot
  rw [list]
  match done, after with
  | 0, _ => exact ⟨rfl,rfl,fun _ _ => rfl⟩
  | 1, _ => exact before _ (started_removeModified tools s) rfl rfl
  | 2, _ =>
    exact before _ started (read_cleared tools s versionFile versionTar)
      (read_cleared tools s interfaces interfacesTar)
  | 3, after =>
    exact after _ (started_upgradeInterfaces started) (by omega) (by omega) left line
  | 4, after => exact after _ added (by omega) (by omega) left line
  | 5, after =>
    obtain ⟨gone,moved⟩ := moveVersion_reads (makeEtc (extended tools s))
    exact after _ (started_moveVersion added) (by omega) (by omega) (Or.inr gone) (moved.trans line)
  | n + 6, _ => omega

theorem cutBoot_new (upgraded : Upgraded image s)
    (branch : previousVersion tools (s.read versionFile) = false) (done : Nat)
    (allowed : done = 0 ∨ 5 ≤ done ∨ NothingToAdd tools s ∨
      (done < 4 ∧ versionFile ∉ toRemove tools s)) :
    Same (boot tools image (cutBoot tools image s done)) (boot tools image s) := by
  obtain ⟨versionTar,-,-,-,interfacesTar,-⟩ := paths_differ
  have list : commands tools image s = [removeModified tools, removeDevTar, makeEtc, moveVersion,
      copyVersion image] := by
    simp [commands, upgraded, branch]
  have first := removeModified_version tools s
  have started := started_cleared tools s
  -- Before the move either the version is still there or nothing would be added.
  have before : ∀ t, Started tools s t → 1 ≤ done → done < 4 →
      t.read versionFile = (removeModified tools s).read versionFile →
      t.read interfaces = (removeModified tools s).read interfaces →
      Same (boot tools image t) (boot tools image s) := by
    intro t started low high version same
    apply same_of_started upgraded started (version ▸ first)
    rcases allowed with zero | all | nothing | ⟨-,kept⟩
    · omega
    · omega
    · exact migrated_gone started same branch nothing
    · apply migrated_before started same
      rw [version, read_removeModified, if_neg kept]
  have read := read_cleared tools s interfaces interfacesTar
  have version := read_cleared tools s versionFile versionTar
  by_cases all : 5 ≤ done
  · exact cutBoot_whole (by rw [list]; exact all)
  unfold cutBoot
  rw [list]
  match done, before, allowed with
  | 0, _, _ => exact ⟨rfl,rfl,fun _ _ => rfl⟩
  | 1, before, _ => exact before _ (started_removeModified tools s) (by omega) (by omega) rfl rfl
  | 2, before, _ => exact before _ started (by omega) (by omega) version read
  | 3, before, _ => exact before _ (started_makeEtc started) (by omega) (by omega) version read
  | 4, _, allowed =>
    have nothing : NothingToAdd tools s := by
      rcases allowed with zero | all | nothing | ⟨early,-⟩
      · omega
      · omega
      · exact nothing
      · omega
    obtain ⟨gone,moved⟩ := moveVersion_reads (makeEtc (cleared tools s))
    have last := started_moveVersion (started_makeEtc started)
    apply same_of_started upgraded last (Or.inr gone)
    exact migrated_gone last (moved.trans read) branch nothing
  | n + 5, _, _ => omega

theorem cutBoot_same {done : Nat} (allowed : Allowed tools image s done) :
    Same (boot tools image (cutBoot tools image s done)) (boot tools image s) := by
  by_cases upgraded : Upgraded image s
  · have condition := allowed upgraded
    cases branch : previousVersion tools (s.read versionFile) with
    | true =>
      rw [branch, if_pos rfl] at condition
      exact cutBoot_old upgraded branch done condition
    | false =>
      rw [branch, if_neg (by decide)] at condition
      exact cutBoot_new upgraded branch done condition
  · have unchanged : cutBoot tools image s done = s := by
      simp [cutBoot, commands, upgraded]
    rw [unchanged]
    exact ⟨rfl,rfl,fun _ _ => rfl⟩

/-- The interfaces file after an uninterrupted boot: migrated when the boot is an upgrade
    from a version older than 7.4, and only then. -/
theorem boot_interfaces (tools : Tools) (image : Image) (s : Storage) :
    (boot tools image s).read interfaces =
      if Upgraded image s then migrated tools s else s.read interfaces := by
  obtain ⟨-,versionInterfaces,interfacesBak,-,interfacesTar,-⟩ := paths_differ
  by_cases upgraded : Upgraded image s
  · rw [boot_read upgraded interfaces interfacesBak, if_neg (Ne.symm versionInterfaces),
      if_neg interfacesTar, if_pos rfl, if_pos upgraded]
  · rw [boot_of_not_upgraded upgraded, if_neg upgraded]

def cutStep (tools : Tools) (image : Image) (s : Storage) (done : Nat) : Option Storage :=
  some (cutBoot tools image s done)

def Completes (tools : Tools) (image : Image) (s t : Storage) : Prop :=
  Same (boot tools image t) (boot tools image s)

theorem cutStep_completes {done : Nat} (t u : Storage) (so_far : Completes tools image s t)
    (allowed : Allowed tools image t done) (next : cutStep tools image t done = some u) :
    Completes tools image s u := by
  cases Option.some.inj next
  have here := cutBoot_same allowed
  exact ⟨here.etc.trans so_far.etc,here.network.trans so_far.network,
    fun p other => (here.files p other).trans (so_far.files p other)⟩

/-- Boots that are cut off where they may be, and then one that is not, leave what a
    single boot leaves, with the network migrated when the first version was an old one. -/
theorem interrupted_upgrade_completes {t : Storage} {visited : List (Storage × Nat)}
    (run : Run (cutStep tools image) s visited t) (allowed : Every (Allowed tools image) visited) :
    Same (boot tools image t) (boot tools image s) ∧
    (boot tools image t).read interfaces =
      if Upgraded image s then
        if previousVersion tools (s.read versionFile) then
          addInterface tools (newName tools s) s.networkDir ((removeModified tools s).read interfaces)
        else (removeModified tools s).read interfaces
      else s.read interfaces := by
  have start : Completes tools image s s := ⟨rfl,rfl,fun _ _ => rfl⟩
  have final := (run.invariant_of_allowed start
    (fun t _ u so_far allowed next => cutStep_completes t u so_far allowed next) allowed).2
  refine ⟨final,?_⟩
  rw [final.files interfaces paths_differ.2.2.1, boot_interfaces, migrated_eq]

end

def plainTools : Tools where
  words := fields
  echo words := [' '].intercalate words
  xargs path := some [path]
  grep pattern contents := decide (pattern <:+: contents)
  less a b := decide (a < b)
  same a b := decide (a = b)
  unopened := []
  words_nil := by decide
  echo_word w _ _ := by simp [List.intercalate]

def release77 : Image := { version := "7.7 r10000\n".toList, written := by decide }

def player (version : String) : Storage :=
  { files := [(versionFile, version.toList), (wpaSupplicantConf, "ssid=\"home\"\n".toList),
      (interfaces, "auto lo\n".toList)]
    etcDir := true
    networkDir := true }

/-- From 7.3 a boot may even be cut off between mv and cp. -/
theorem old_version_moved_away : ∃ t, Run (cutStep plainTools release77) (player "7.3 r5000\n")
      [(player "7.3 r5000\n", 5)] t ∧
    Same (boot plainTools release77 t) (boot plainTools release77 (player "7.3 r5000\n")) ∧
    (boot plainTools release77 t).read interfaces = some "auto lo\nauto eth0=home\n".toList := by
  have run : Run (cutStep plainTools release77) (player "7.3 r5000\n") [(player "7.3 r5000\n", 5)] _ :=
    .step rfl .done
  have found : FoundAgain plainTools (player "7.3 r5000\n") := by
    unfold FoundAgain
    decide +kernel
  have old : previousVersion plainTools ((player "7.3 r5000\n").read versionFile) = true := by
    decide +kernel
  have allowed : Every (Allowed plainTools release77) [(player "7.3 r5000\n", 5)] := by
    intro p member
    obtain rfl := List.mem_singleton.mp member
    intro _
    rw [if_pos old]
    exact Or.inr (Or.inr (Or.inr found))
  obtain ⟨same,migrated⟩ := interrupted_upgrade_completes run allowed
  refine ⟨_,run,same,migrated.trans ?_⟩
  decide +kernel

/-- From 7.5 a single boot leaves the network alone. Cut off between mv and cp, the next
    boot finds no version and migrates. -/
theorem new_version_moved_away : ∃ t, Run (cutStep plainTools release77) (player "7.5 r9009\n")
      [(player "7.5 r9009\n", 4)] t ∧
    (boot plainTools release77 (player "7.5 r9009\n")).read interfaces = some "auto lo\n".toList ∧
    (boot plainTools release77 t).read interfaces = some "auto lo\nauto eth0=home\n".toList ∧
    ¬ Same (boot plainTools release77 t) (boot plainTools release77 (player "7.5 r9009\n")) := by
  have run : Run (cutStep plainTools release77) (player "7.5 r9009\n") [(player "7.5 r9009\n", 4)] _ :=
    .step rfl .done
  have kept : (boot plainTools release77 (player "7.5 r9009\n")).read interfaces =
      some "auto lo\n".toList := by
    decide +kernel
  have migrated : (boot plainTools release77 (cutBoot plainTools release77 (player "7.5 r9009\n") 4)).read
      interfaces = some "auto lo\nauto eth0=home\n".toList := by
    decide +kernel
  refine ⟨_,run,kept,migrated,?_⟩
  intro same
  have equal := same.files interfaces paths_differ.2.2.1
  rw [kept, migrated] at equal
  exact absurd equal (by decide)

end Linuxrc
