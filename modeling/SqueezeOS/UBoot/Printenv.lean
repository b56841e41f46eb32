import SqueezeOS.UBoot.EnvImage

/- fw_printenv, which prints the whole environment or the values of the names it is given. What
   it has printed when an access faults is not kept. -/
namespace FwEnv

inductive Said where
  | line (text : Bytes)
  | notTerminated
  | notDefined (name : Bytes)
  | oneArgument
  deriving DecidableEq, Repr

/-- The loop without arguments. The string that is printed ends where the inner loop stopped. -/
def printAll (size : Nat) (m : Bytes) (env : Nat) : Checked (List Said) :=
  if env < m.length then
    if m[env]? = some 0 then .ok []
    else match findEnd size env (m.drop env) with
      | .error .notTerminated => .ok [.notTerminated]
      | .error stop => .error stop
      | .ok n => (printAll size m (env + n + 1)).map (.line ((m.drop env).take n) :: ·)
  else .error .fault
termination_by m.length - env

def puts (p : Bytes) : Checked Bytes := if 0 ∈ p then .ok (cString p) else .error .fault

def printNames (size : Nat) (quiet : Bool) (m : Bytes) : List Arg → Checked (List Said)
  | [] => .ok []
  | name :: rest => match search size name.bytes m 0 0 none with
      | .error .notTerminated => .ok [.notTerminated]
      | .error stop => .error stop
      | .ok found => do
          let said ← match found.oldval with
            | none => .ok (.notDefined name.text)
            | some val => do
                let value ← puts val
                .ok (.line (if quiet then value else name.text ++ equals :: value))
          (printNames size quiet m rest).map (said :: ·)

def fwPrintenv (size : Nat) (args : List Arg) (m : Bytes) : Checked (List Said) :=
  match args with
  | [] => printAll size m 0
  | first :: rest =>
      if first.text = ascii "-n" then
        if rest.length ≠ 1 then .ok [.oneArgument] else printNames size true m rest
      else printNames size false m (first :: rest)

theorem printAll_body (size : Nat) (p : Bytes) (es : List Entry) (rest : Bytes)
    (inside : p.length + (body es).length ≤ size) :
    printAll size (p ++ (body es ++ 0 :: rest)) p.length = .ok (es.map fun e => .line e.text) := by
  induction es generalizing p with
  | nil =>
    rw [printAll]
    simp [body]
  | cons e es ih =>
    simp only [body, List.length_append, List.length_cons] at inside
    obtain ⟨c,text,starts,nonzero⟩ := e.text_cons
    have first : (p ++ (body (e :: es) ++ 0 :: rest))[p.length]? ≠ some 0 := by
      simp [body, starts, nonzero]
    have within : p.length < (p ++ (body (e :: es) ++ 0 :: rest)).length := by
      simp [body, starts]
    have ends : findEnd size p.length ((p ++ (body (e :: es) ++ 0 :: rest)).drop p.length) =
        .ok e.text.length := by
      simpa [body] using
        findEnd_text size p.length e.text (body es ++ 0 :: rest) e.text_noNul (by omega)
    have later := ih (p ++ (e.text ++ [0]))
      (by simp only [List.length_append, List.length_singleton]; omega)
    rw [printAll, if_pos within, if_neg first, ends]
    have onward : printAll size (p ++ (body (e :: es) ++ 0 :: rest)) (p.length + e.text.length + 1) =
        .ok (es.map fun e => .line e.text) := by
      simpa [body, Nat.add_assoc] using later
    simp only [onward, Except.map, List.map_cons]
    simp [body]

theorem fwPrintenv_all {size : Nat} {m : Bytes} {es : List Entry} (image : WellFormed size m es) :
    fwPrintenv size [] m = .ok (es.map fun e => .line e.text) := by
  obtain ⟨rest,rfl,-⟩ := (encode_prefix_iff es m).mp image.laid
  have inside := Nat.le_trans (Nat.le_of_lt (encode_length_pos es)) image.fits
  simpa [fwPrintenv] using printAll_body size [] es rest (by simpa using inside)

end FwEnv
