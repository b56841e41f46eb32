import SqueezeOS.SignatureRegister
import SqueezeOS.Msp430.Responses

/- The signature by which VerifyPSA_sbw compares the memory of the chip with an array. -/
namespace Sbw
open Tap SpyBiWire SignatureRegister

/-- The word that is expected at an index; without an array it is erased. -/
def expected (dataArray : Option (Nat → Word)) (i : Nat) : Word :=
  dataArray.elim 0xFFFF fun data => data i

end Sbw
