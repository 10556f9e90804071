import FeeWindow.Amount.Quantity
import FeeWindow.Bytes.Hex
import FeeWindow.Json
import FeeWindow.Uint256

/-!
JSON forms of amounts, byte sequences and public natural numbers. Amounts are quantities and
bytes are hexadecimal strings. A public natural number is written as its limbs, and read from
limbs, from a decimal string, or from an integer of up to 64 bits.
-/

namespace FeeWindow

def Amount.toJson (a : Amount) : Json := .str a.quantity

def Amount.ofJson? (j : Json) : Option Amount := j.str?.bind ofQuantity?

def Bytes.toJson {n : Nat} (bytes : Bytes n) : Json := .str bytes.hex

def Bytes.ofJson? (n : Nat) (j : Json) : Option (Bytes n) :=
  j.str?.bind fun s => (ofHex n s).toOption

def Hash.ofJson? (j : Json) : Option Hash := Bytes.ofJson? 32 j

def Uint256.toJson (n : Uint256) : Json := Json.ofList (fun limb => .int limb.toNat) n.limbs

def Uint256.ofJson? : Json → Option Uint256
  | .str s => ofDecimal? s
  | .arr items => (items.mapM Json.limb?).bind ofLimbs?
  | j => j.count?.bind fun n => ofNat? n.toNat

end FeeWindow
