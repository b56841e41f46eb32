import SqueezeOS.UBoot.CrcRemainder
import SqueezeOS.UBoot.WriteErrors

/- Damage to one of the copies behind fw_setenvs: env_init sees it, and takes the other copy if that
   has been written. -/
namespace FwEnvFlash
open FwEnv Crc32

inductive Hit (b c : Block) : Prop where
  | sum (kept : c.data = b.data) (changed : c.crc ≠ b.crc)
  | burst (kept : c.crc = b.crc) (front u v behind : List Bool)
      (inside : Burst (List.ofFn b.data) (List.ofFn c.data) front u v behind)

theorem hit_bad {b c : Block} (valid : b.Valid) (hit : Hit b c) : ¬ c.Valid := by
  intro still
  rw [Block.Valid] at valid still
  cases hit with
  | sum kept changed =>
    rw [kept, valid] at still
    exact changed (UInt32.toNat_inj.mp still.symm)
  | burst kept front u v behind inside =>
    rw [kept, ← valid] at still
    exact crc32_burst (Nat.two_pow_pos 32) inside still.symm

def sumOff (n : UInt32) (b : Block) : Block := { crc := b.crc + n, data := b.data }

theorem sumOff_hit {n : UInt32} (some_off : n ≠ 0) (b : Block) : Hit b (sumOff n b) :=
  .sum rfl (by simpa [sumOff] using some_off)

theorem exists_hit_bad (b : Block) : ∃ c, Hit b c ∧ ¬ c.Valid := by
  by_cases valid : (sumOff 1 b).Valid
  · refine ⟨sumOff 2 b,sumOff_hit (by decide) b,?_⟩
    intro still
    have same : b.crc + 1 = b.crc + 2 := by
      apply UInt32.toNat_inj.mp
      rw [Block.Valid] at valid still
      exact valid.symm.trans still
    exact absurd ((UInt32.add_right_inj b.crc).mp same) (by decide)
  · exact ⟨sumOff 1 b,sumOff_hit (by decide) b,valid⟩

theorem setenvs_zero {args : List Arg} {heap : Bytes} {device : Device} {flash t : Flash}
    (returned : fwSetenvs args heap device flash = some (0, t)) : ∃ data,
      edited args heap (envInit flash).data = .ok data ∧
      t = fun c => (device.part c).leaves (sealed data) (flash c) := by
  by_cases none : args = []
  · exact absurd rfl (fwSetenvs_early (Or.inl none) returned).1
  · cases reached : edited args heap (envInit flash).data with
    | error stop => exact absurd rfl (fwSetenvs_early (Or.inr ⟨stop,reached⟩) returned).1
    | ok data =>
      refine ⟨data,rfl,?_⟩
      rw [fwSetenvs_written none reached] at returned
      split at returned
      · exact (congrArg Prod.snd (Option.some.inj returned)).symm
      · have code : (-1 : Int) = 0 := congrArg Prod.fst (Option.some.inj returned)
        exact absurd code (by decide)

theorem damaged_loads_iff (t : Flash) (data : Data) :
    (∀ (damaged : Fin 2) (left : Block), Hit (t damaged) left →
      Loads (Function.update t damaged left) data) ↔ ∀ c, (t c).Valid ∧ (t c).data = data := by
  constructor
  · intro survived c
    obtain rfl | rfl : c = 0 ∨ c = 1 := by omega
    · obtain ⟨left,hit,bad⟩ := exists_hit_bad (t 1)
      rcases (loads_iff _ _).mp (survived 1 left hit) with first | ⟨-,second,-⟩
      · rwa [Function.update_of_ne (by decide)] at first
      · rw [Function.update_self] at second
        exact absurd second bad
    · obtain ⟨left,hit,bad⟩ := exists_hit_bad (t 0)
      rcases (loads_iff _ _).mp (survived 0 left hit) with ⟨first,-⟩ | ⟨-,second⟩
      · rw [Function.update_self] at first
        exact absurd first bad
      · rwa [Function.update_of_ne (by decide)] at second
  · intro both damaged left hit
    have bad : ¬ left.Valid := hit_bad (both damaged).1 hit
    rw [loads_iff]
    obtain rfl | rfl : damaged = 0 ∨ damaged = 1 := by omega
    · rw [Function.update_self, Function.update_of_ne (by decide)]
      exact Or.inr ⟨bad,both 1⟩
    · rw [Function.update_of_ne (by decide)]
      exact Or.inl (both 0)

/-- Behind a call that reported success either copy can be hit and the new environment is still
    loaded, exactly when both parts have left it in their copy. -/
theorem damage_survived_iff {args : List Arg} {heap : Bytes} {device : Device} {flash t : Flash}
    (returned : fwSetenvs args heap device flash = some (0, t)) : ∃ data,
      edited args heap (envInit flash).data = .ok data ∧
      ((∀ (damaged : Fin 2) (left : Block), Hit (t damaged) left →
        Loads (Function.update t damaged left) data) ↔
          ∀ c, (device.part c).Keeps data (flash c)) := by
  obtain ⟨data,reached,rfl⟩ := setenvs_zero returned
  refine ⟨data,reached,(damaged_loads_iff _ data).trans ?_⟩
  exact forall_congr' fun c => leaves_keeps data (flash c) (device.part c)

theorem setenvs_working {args : List Arg} {heap : Bytes} {flash : Flash} {data : Data}
    (some_args : args ≠ []) (reached : edited args heap (envInit flash).data = .ok data) :
    fwSetenvs args heap working flash = some (0, fun _ => sealed data) :=
  fwSetenvs_written some_args reached

theorem damage_survived_drop : ∃ data t, edited (argv [dropB]) [0] (envInit flashB).data = .ok data ∧
    fwSetenvs (argv [dropB]) [0] working flashB = some (0, t) ∧
    Loads (Function.update t 0 (sumOff 1 (t 0))) data := by
  obtain ⟨data,reached⟩ := edited_drop
  have returned := setenvs_working (by simp [argv]) reached
  obtain ⟨found,same,survives⟩ := damage_survived_iff returned
  obtain rfl := Except.ok.inj (reached.symm.trans same)
  exact ⟨_,_,reached,returned,survives.mpr (fun _ => trivial) 0 _ (sumOff_hit (by decide) _)⟩

end FwEnvFlash
