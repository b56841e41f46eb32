import Mathlib.Data.List.Basic

/- Runs of a system whose steps may be refused. A run lists the steps it takes, each
   with the state it is taken in. -/
namespace StepRuns

variable {σ α : Type}

inductive Run (step : σ → α → Option σ) : σ → List (σ × α) → σ → Prop where
  | done {s : σ} : Run step s [] s
  | step {s t u : σ} {a : α} {visited : List (σ × α)} (next : step s a = some t)
      (rest : Run step t visited u) : Run step s ((s, a) :: visited) u

/-- Along a run, in every state it passes and in the one it reaches. -/
def Throughout (P : σ → Prop) (visited : List (σ × α)) (t : σ) : Prop :=
  (∀ p ∈ visited, P p.1) ∧ P t

def Every (Allowed : σ → α → Prop) (visited : List (σ × α)) : Prop :=
  ∀ p ∈ visited, Allowed p.1 p.2

theorem every_cons {Allowed : σ → α → Prop} {visited : List (σ × α)} {s : σ} {a : α} :
    Every Allowed ((s, a) :: visited) ↔ Allowed s a ∧ Every Allowed visited :=
  List.forall_mem_cons

theorem throughout_cons {P : σ → Prop} {visited : List (σ × α)} {s t : σ} {a : α} :
    Throughout P ((s, a) :: visited) t ↔ P s ∧ Throughout P visited t := by
  unfold Throughout
  rw [List.forall_mem_cons, and_assoc]

def follow (step : σ → α → Option σ) (s : σ) : List α → Option (List (σ × α) × σ)
  | [] => some ([], s)
  | a :: rest => match step s a with
    | some t => (follow step t rest).map fun run => ((s, a) :: run.1, run.2)
    | none => none

theorem run_follow {step : σ → α → Option σ} (actions : List α) {s t : σ}
    {visited : List (σ × α)} (taken : follow step s actions = some (visited, t)) :
    Run step s visited t := by
  induction actions generalizing s visited with
  | nil =>
    cases Option.some.inj taken
    exact .done
  | cons a rest ih =>
    unfold follow at taken
    split at taken
    · rename_i u next
      obtain ⟨run,later,same⟩ := Option.map_eq_some_iff.mp taken
      cases same
      exact .step next (ih later)
    · contradiction

section
variable {step : σ → α → Option σ} {s t : σ} {visited : List (σ × α)}
variable {Inv Good : σ → Prop} {Allowed : σ → α → Prop}

theorem Run.drop {before : List (σ × α)} (run : Run step s (before ++ visited) t) :
    ∃ u, Run step u visited t := by
  induction before generalizing s with
  | nil => exact ⟨s,run⟩
  | cons p before ih =>
    cases run with
    | step next rest => exact ih rest

theorem Run.take {after : List (σ × α)} (run : Run step s (visited ++ after) t) :
    ∃ u, Run step s visited u := by
  induction visited generalizing s with
  | nil => exact ⟨s,.done⟩
  | cons p visited ih =>
    cases run with
    | step next rest =>
      obtain ⟨u,first⟩ := ih rest
      exact ⟨u,.step next first⟩

theorem Run.stop_ahead [Subsingleton α] {u : σ} {before after : List (σ × α)}
    (one : Run step s before t) (two : Run step s after u) (stop : ∀ a, step u a = none) :
    ∃ rest, Run step t rest u := by
  induction one generalizing after with
  | done => exact ⟨after,two⟩
  | @step s t u a visited next rest ih =>
    cases two with
    | done => cases (stop _).symm.trans next
    | @step _ t' _ b _ next' rest' =>
      cases Subsingleton.elim a b
      cases next.symm.trans next'
      exact ih rest'

theorem Run.append {u : σ} {after : List (σ × α)} (one : Run step s visited t)
    (two : Run step t after u) : Run step s (visited ++ after) u := by
  induction one with
  | done => exact two
  | step next rest ih => exact .step next (ih two)

theorem Run.stops_unique [Subsingleton α] {u : σ} {before after : List (σ × α)}
    (one : Run step s before t) (two : Run step s after u) (stop : ∀ a, step t a = none)
    (stop' : ∀ a, step u a = none) : before = after ∧ t = u := by
  induction one generalizing after with
  | done =>
    cases two with
    | done => exact ⟨rfl,rfl⟩
    | step next rest => cases (stop _).symm.trans next
  | @step s t u a visited next rest ih =>
    cases two with
    | done => cases (stop' _).symm.trans next
    | @step _ t' _ b _ next' rest' =>
      cases Subsingleton.elim a b
      cases next.symm.trans next'
      obtain ⟨same,last⟩ := ih rest' stop
      exact ⟨congrArg _ same,last⟩

theorem Run.head (run : Run step s visited t) (good : Throughout Good visited t) : Good s := by
  cases run with
  | done => exact good.2
  | step next rest => exact (throughout_cons.mp good).1

theorem Run.invariant_of_allowed (start : Inv s)
    (keeps : ∀ s a t, Inv s → Allowed s a → step s a = some t → Inv t)
    (run : Run step s visited t) (allowed : Every Allowed visited) :
    Throughout Inv visited t := by
  induction run with
  | done => exact ⟨by simp,start⟩
  | step next rest ih =>
    obtain ⟨first,later⟩ := every_cons.mp allowed
    exact throughout_cons.mpr ⟨start,ih (keeps _ _ _ start first next) later⟩

theorem Run.invariant (start : Inv s) (keeps : ∀ s a t, Inv s → step s a = some t → Inv t)
    (run : Run step s visited t) : Throughout Inv visited t :=
  run.invariant_of_allowed start (fun s a t inv (_ : True) next => keeps s a t inv next)
    fun _ _ => trivial

/-- If the allowed steps are exactly those that keep things good, a run is good
    throughout exactly when all its steps are allowed. -/
theorem Run.throughout_iff (start : Inv s) (sound : ∀ s, Inv s → Good s)
    (keeps : ∀ s a t, Inv s → Allowed s a → step s a = some t → Inv t)
    (needs : ∀ s a t, Inv s → step s a = some t → Good t → Allowed s a)
    (run : Run step s visited t) : Throughout Good visited t ↔ Every Allowed visited := by
  constructor
  · intro good
    induction run with
    | done => exact fun _ none => by simp at none
    | step next rest ih =>
      have later := (throughout_cons.mp good).2
      have allowed := needs _ _ _ start next (rest.head later)
      exact every_cons.mpr ⟨allowed,ih (keeps _ _ _ start allowed next) later⟩
  · intro allowed
    obtain ⟨before,last⟩ := run.invariant_of_allowed start keeps allowed
    exact ⟨fun p member => sound _ (before p member),sound _ last⟩

/-- If from a sound state the steps that meet a demand are exactly the allowed ones, and these
    lead to sound states, then all steps of a run meet it exactly when all are allowed. -/
theorem Run.every_iff {Met : σ → α → Prop} (start : Inv s)
    (keeps : ∀ s a t, Inv s → Allowed s a → step s a = some t → Inv t)
    (meets : ∀ s a t, Inv s → step s a = some t → (Met s a ↔ Allowed s a))
    (run : Run step s visited t) : Every Met visited ↔ Every Allowed visited := by
  induction run with
  | done => exact ⟨fun _ _ none => by simp at none,fun _ _ none => by simp at none⟩
  | step next rest ih =>
    rw [every_cons, every_cons, meets _ _ _ start next]
    exact and_congr_right fun allowed => ih (keeps _ _ _ start allowed next)

end

end StepRuns
