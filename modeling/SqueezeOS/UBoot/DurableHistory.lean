import SqueezeOS.UBoot.BurstDamage

/- The environment as a store: whatever calls of fw_setenvs are made and wherever they lose power,
   what is read in the end is what the calls have set one after the other, but for some of those that
   did not come to their end. -/
namespace FwEnvFlash
open FwEnv StepRuns

structure Call where
  settings : List Setting
  heap : Bytes
  cut : Option Cut

/-- The flash behind a call. One that faults has not touched it. -/
def serve (flash : Flash) (call : Call) : Option Flash :=
  match call.cut with
  | some cut => some ((invoke flash ⟨argv call.settings,call.heap,cut⟩).getD flash)
  | none => some (((fwSetenvs (argv call.settings) call.heap working flash).map Prod.snd).getD flash)

def Applies (flash : Flash) (call : Call) : Prop :=
  ∃ data, edited (argv call.settings) call.heap (envInit flash).data = .ok data

/-- The calls of a run that have taken effect. One that has not was cut, or refused. -/
inductive Effective : List (Flash × Call) → List (List Setting) → Prop where
  | done : Effective [] []
  | kept {flash : Flash} {call : Call} {visited : List (Flash × Call)} {kept : List (List Setting)}
      (applies : Applies flash call) (later : Effective visited kept) :
      Effective ((flash, call) :: visited) (call.settings :: kept)
  | lost {flash : Flash} {call : Call} {visited : List (Flash × Call)} {kept : List (List Setting)}
      (unfinished : call.cut.isSome ∨ ¬ Applies flash call) (later : Effective visited kept) :
      Effective ((flash, call) :: visited) kept

structure Env (data : Data) (es : List Entry) : Prop where
  distinct : (es.map Entry.name).Nodup
  fits : (encode es).length ≤ envSize
  laid : encode es <+: List.ofFn data

/-- What is read for a name behind its last value, an empty one for a deletion. -/
def readBehind (before last : Option Bytes) : Option Bytes :=
  last.elim before fun v => if v = [] then none else some v

structure Holds (flash : Flash) (es : List Entry) : Prop where
  valid : HasValid flash
  env : Env (envInit flash).data es

theorem Env.wellFormed {data : Data} {es : List Entry} (env : Env data es) (heap : Bytes) :
    WellFormed envSize (List.ofFn data ++ heap) es where
  distinct := env.distinct
  fits := env.fits
  mapped := by rw [List.length_append, List.length_ofFn]; omega
  laid := env.laid.trans (List.prefix_append _ _)

theorem ofFn_take (m : Bytes) (long : envSize ≤ m.length) :
    (List.ofFn fun i : Fin envSize => m.getD i 0) = m.take envSize := by
  apply List.ext_getElem
  · rw [List.length_ofFn, List.length_take]
    omega
  · intro i inside _
    rw [List.length_ofFn] at inside
    rw [List.getElem_ofFn, List.getElem_take, List.getD_eq_getElem]

theorem edited_env {data new : Data} {es : List Entry} (env : Env data es) (settings : List Setting)
    (heap : Bytes) (reached : edited (argv settings) heap data = .ok new) :
    Env new (settings.foldl update es) := by
  unfold edited at reached
  rcases setPairs_spec (env.wellFormed heap) settings with ⟨m,run,image⟩ | overflow | ⟨fault,-⟩
  · rw [run] at reached
    have same : (fun i : Fin envSize => m.getD i 0) = new := Except.ok.inj reached
    refine ⟨image.distinct,image.fits,?_⟩
    rw [← same, ofFn_take m image.mapped]
    exact List.prefix_take_iff.mpr ⟨image.laid,image.fits⟩
  · rw [overflow] at reached
    cases reached
  · rw [fault] at reached
    cases reached

theorem holds_of_loads {flash : Flash} {data : Data} {es : List Entry} (loads : Loads flash data)
    (env : Env data es) : Holds flash es :=
  ⟨loads_valid loads,loads.2 ▸ env⟩

theorem served_whole (args : List Arg) (heap : Bytes) (flash : Flash) :
    (args ≠ [] ∧ ∃ data, edited args heap (envInit flash).data = .ok data ∧
      Loads (((fwSetenvs args heap working flash).map Prod.snd).getD flash) data) ∨
    ((args = [] ∨ ∀ data, edited args heap (envInit flash).data ≠ .ok data) ∧
      ((fwSetenvs args heap working flash).map Prod.snd).getD flash = flash) := by
  by_cases none : args = []
  · right
    refine ⟨Or.inl none,?_⟩
    rw [none, fwSetenvs, if_pos (by decide)]
    rfl
  · cases outcome : edited args heap (envInit flash).data with
    | ok data =>
      left
      refine ⟨none,data,rfl,?_⟩
      rw [setenvs_working none outcome, loads_iff]
      exact Or.inl ⟨sealed_valid data,rfl⟩
    | error stop =>
      right
      refine ⟨Or.inr (by simp),?_⟩
      have count := List.length_pos_of_ne_nil none
      rw [fwSetenvs, if_neg (by omega), outcome]
      cases stop <;> rfl

theorem argv_nil {settings : List Setting} (none : argv settings = []) : settings = [] := by
  cases settings with
  | nil => rfl
  | cons p settings => cases none

theorem serve_holds {flash t : Flash} {call : Call} {es : List Entry} (holds : Holds flash es)
    (next : serve flash call = some t) :
    (Applies flash call ∧ Holds t (call.settings.foldl update es)) ∨
    ((call.cut.isSome ∨ ¬ Applies flash call) ∧ Holds t es) := by
  obtain ⟨settings,heap,cut⟩ := call
  cases cut with
  | some cut =>
    obtain rfl := Option.some.inj next
    cases left : invoke flash ⟨argv settings,heap,cut⟩ with
    | none => exact Or.inr ⟨Or.inl rfl,holds⟩
    | some u =>
      rcases invoke_oldOrNew holds.valid _ u left with old | ⟨data,reached,new⟩
      · exact Or.inr ⟨Or.inl rfl,holds_of_loads old holds.env⟩
      · exact Or.inl ⟨⟨data,reached⟩,
          holds_of_loads new (edited_env holds.env settings heap reached)⟩
  | none =>
    obtain rfl := Option.some.inj next
    rcases served_whole (argv settings) heap flash with ⟨-,data,reached,loads⟩ | ⟨refused,same⟩
    · exact Or.inl ⟨⟨data,reached⟩,
        holds_of_loads loads (edited_env holds.env settings heap reached)⟩
    · rw [same]
      rcases refused with empty | refused
      · rw [argv_nil empty]
        exact Or.inl ⟨⟨_,rfl⟩,holds⟩
      · exact Or.inr ⟨Or.inr fun ⟨data,reached⟩ => refused data reached,holds⟩

theorem effective_holds {flash final : Flash} {visited : List (Flash × Call)} {es : List Entry}
    (holds : Holds flash es) (run : Run serve flash visited final) :
    ∃ kept, Effective visited kept ∧ Holds final (kept.flatten.foldl update es) := by
  induction run generalizing es with
  | done => exact ⟨[],.done,holds⟩
  | @step flash t final call visited next rest ih =>
    rcases serve_holds holds next with ⟨applies,after⟩ | ⟨unfinished,after⟩
    · obtain ⟨kept,effective,last⟩ := ih after
      refine ⟨call.settings :: kept,.kept applies effective,?_⟩
      rw [List.flatten_cons, List.foldl_append]
      exact last
    · obtain ⟨kept,effective,last⟩ := ih after
      exact ⟨kept,.lost unfinished effective,last⟩

/-- After any calls of fw_setenvs, each cut anywhere or not at all, env_init finds a good copy and
    fw_getenv reads from it what the calls that have taken effect have set last; only a call that was
    cut can be missing among those that were not refused. -/
theorem history_durable {flash final : Flash} {visited : List (Flash × Call)} {es : List Entry}
    (holds : Holds flash es) (run : Run serve flash visited final) : ∃ kept,
      Effective visited kept ∧ (envInit final).warned = false ∧
      ∀ (q : Arg) (heap : Bytes), ∃ p,
        fwGetenv envSize q (List.ofFn (envInit final).data ++ heap) = .ok p ∧
        p.map cString = readBehind (lookup es q.key) (lastValue kept.flatten q.key) := by
  obtain ⟨kept,effective,last⟩ := effective_holds holds run
  refine ⟨kept,effective,(loads_self last.valid).1,?_⟩
  intro q heap
  obtain ⟨p,read,value⟩ := fwGetenv_value (last.env.wellFormed heap) q
  refine ⟨p,read,?_⟩
  rw [value, lookup_updates]
  cases lastValue kept.flatten q.key <;> rfl

theorem flashB_holds : Holds flashB [entryB] where
  valid := flashB_valid
  env := by
    rw [envInit_flashB]
    exact ⟨by decide,by decide,prefix_ofFn _ (by decide)⟩

theorem drop_durable : ∃ kept final,
    Effective [(flashB, ⟨[dropB],[0],some { done := 3, torn := none }⟩)] kept ∧
    ∃ p, fwGetenv envSize dropB.name (List.ofFn (envInit final).data ++ []) = .ok p ∧
      p.map cString =
        readBehind (lookup [entryB] dropB.name.key) (lastValue kept.flatten dropB.name.key) := by
  have next : serve flashB ⟨[dropB],[0],some { done := 3, torn := none }⟩ = some _ := rfl
  obtain ⟨kept,effective,-,reads⟩ := history_durable flashB_holds (Run.step next Run.done)
  exact ⟨kept,_,effective,reads dropB.name []⟩

end FwEnvFlash
