import SqueezeOS.Arm.Rules

/- The words of memory that instructions read and write, and runs that keep to those they may.
   Fetching the code, and the jump tables in it, is not counted. -/
namespace Arm

structure Access where
  write : Bool
  base : Reg
  address : Word
  deriving DecidableEq

def Address.base : Address → Reg
  | .at rn _ => rn
  | .pre rn _ => rn
  | .post rn _ => rn

def transfers (write : Bool) (rn : Reg) (a : Word) (n : Nat) : List Access :=
  (List.range n).map fun k => { write := write, base := rn, address := addr a k }

def Instr.accesses {L : Type} : Instr L → State → List Access
  | .ldr _ a, s => [{ write := false, base := a.base, address := a.target s }]
  | .str _ a, s => [{ write := true, base := a.base, address := a.target s }]
  | .ldm mode rn _ rs, s => transfers false rn (mode.start (s.reg rn) rs.length) rs.length
  | .stm mode rn _ rs, s => transfers true rn (mode.start (s.reg rn) rs.length) rs.length
  | .ldmfdPc rn rs, s => transfers false rn (s.reg rn) (rs.length + 1)
  | .when cond i, s => if cond.holds s then i.accesses s else []
  | _, _ => []

def Config.accesses {L : Type} : Config L → List Access
  | .running (i :: _) s => i.accesses s
  | _ => []

section
variable {L : Type} [DecidableEq L] {p : Program L}

def Inside (p : Program L) (allowed : Access → Prop) (c : Config L) : Prop :=
  (∃ pc s, Steps p c (.returned pc s)) ∧ ∀ c', Steps p c c' → ∀ a ∈ c'.accesses, allowed a

inductive Trace (p : Program L) : Config L → List Access → Config L → Prop where
  | done {c : Config L} : Trace p c [] c
  | step {c c' c'' : Config L} {as : List Access} (h : Step p c c') (rest : Trace p c' as c'') :
      Trace p c (c.accesses ++ as) c''

theorem step_unique {c d e : Config L} (first : Step p c d) (second : Step p c e) : d = e := by
  cases first with
  | next h =>
    cases second with
    | next h' => cases h.symm.trans h'; rfl
    | jump h' => cases h.symm.trans h'
    | ret h' => cases h.symm.trans h'
  | jump h =>
    cases second with
    | next h' => cases h.symm.trans h'
    | jump h' => cases h.symm.trans h'; rfl
    | ret h' => cases h.symm.trans h'
  | ret h =>
    cases second with
    | next h' => cases h.symm.trans h'
    | jump h' => cases h.symm.trans h'
    | ret h' => cases h.symm.trans h'; rfl

theorem Trace.made {c d : Config L} {as : List Access} (trace : Trace p c as d) {a : Access}
    (member : a ∈ as) : ∃ c', Steps p c c' ∧ a ∈ c'.accesses := by
  induction trace with
  | done => contradiction
  | @step c c' _ _ h _ ih =>
    rcases List.mem_append.mp member with here | later
    · exact ⟨c,.refl,here⟩
    · obtain ⟨c'',steps,made⟩ := ih later
      exact ⟨c'',.head h steps,made⟩

/-- There is one run only, so that a part of it that makes allowed transfers can be left out. -/
theorem Trace.inside_iff {c d : Config L} {as : List Access} {allowed : Access → Prop}
    (trace : Trace p c as d) (good : ∀ a ∈ as, allowed a) : Inside p allowed c ↔ Inside p allowed d := by
  induction trace with
  | done => exact Iff.rfl
  | @step c c' d as h rest ih =>
    have here : ∀ a ∈ c.accesses, allowed a := fun a member => good a (List.mem_append_left _ member)
    rw [← ih fun a member => good a (List.mem_append_right _ member)]
    constructor
    · rintro ⟨⟨pc,s,run⟩,allowed⟩
      refine ⟨⟨pc,s,?_⟩,fun e steps => allowed e (.head h steps)⟩
      rcases run.cases_head with same | ⟨e,first,run⟩
      · subst same
        cases h
      · rwa [step_unique h first]
    · rintro ⟨⟨pc,s,run⟩,later⟩
      refine ⟨⟨pc,s,.head h run⟩,?_⟩
      intro e steps
      rcases steps.cases_head with same | ⟨e',first,steps⟩
      · subst same
        exact here
      · rw [← step_unique h first] at steps
        exact later e steps

theorem inside_returned (allowed : Access → Prop) (pc : Word) (s : State) :
    Inside p allowed (.returned pc s) := by
  refine ⟨⟨pc,s,.refl⟩,?_⟩
  intro c steps a member
  rcases steps.cases_head with same | ⟨e,first,-⟩
  · subst same
    contradiction
  · cases first

end

end Arm
