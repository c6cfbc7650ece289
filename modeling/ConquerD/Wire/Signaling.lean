import ConquerD.Wire.Space
import Mathlib.Algebra.Order.Group.Abs
import Mathlib.Algebra.Order.Ring.Rat

/-!
# The signed envelope

Every signaling message travels in one envelope: type, sender, payload,
timestamp, target, version and a signature over all of them but itself. Client
and supernode have their own message types and read the envelope in their own
way, so both are parameters here. Times are seconds.
-/

namespace ConquerD.Wire

open Lib.Encoding

def protocolVersion : Nat := 2

/-- How message types and floating point numbers are read from JSON and written
to it. -/
structure Codec (τ : Type) where
  typeFromValue : Json → Option τ
  asWireStr : τ → String
  asF64 : Json → Option Rat
  /-- A number; something else when it is not finite. -/
  fromF64 : Rat → Json

/-- A message and its envelope. -/
structure Envelope (τ : Type) where
  msgType : τ
  sender : String
  payload : Json
  timestamp : Rat
  target : Option String
  signature : Option String
  protocolVersion : Nat
  /-- The timestamp as it stood on the wire. -/
  timestampRaw : Option Json

variable {τ : Type} (P : Platform) (C : Codec τ) (m : Envelope τ)

/-- What is signed: every field but the signature, by name, with the given value
for the timestamp. -/
def Envelope.canonicalJson (timestamp : Json) : Json :=
  .obj ([("payload", m.payload), ("sender", .str m.sender)] ++
    (m.target.map fun t => ("target", .str t)).toList ++
    [("timestamp", timestamp), ("type", .str (C.asWireStr m.msgType)),
      ("v", .int m.protocolVersion)])

/-- The timestamp is no further than `maxAgeSecs` from now, on either side. -/
def Envelope.isFresh (now maxAgeSecs : Rat) : Bool :=
  decide (|now - m.timestamp| ≤ maxAgeSecs)

variable {m} in
theorem Envelope.age_le_of_isFresh {now maxAgeSecs : Rat}
    (h : m.isFresh now maxAgeSecs = true) : now - m.timestamp ≤ maxAgeSecs :=
  (le_abs_self _).trans (of_decide_eq_true h)

/-! ## One key and one signature -/

/-- The id of the key of thirty-two ones. -/
def onesId : String := "AQEBAQEBAQEBAQEBAQEBAQEBAQEBAQEBAQEBAQEBAQE"

/-- A signature of sixty-four twos. -/
def twosSignature : String :=
  "AgICAgICAgICAgICAgICAgICAgICAgICAgICAgICAgICAgICAgICAgICAgICAgICAgICAgICAgICAgICAgICAg"

/-- A platform that decodes one id and one signature, which is good for every
message. -/
def Platform.oneKey : Platform :=
  { Platform.symbolic with
    decodeB64Url := fun _ => none
    decodeB64UrlNoPad := fun s =>
      if s = onesId then some (List.replicate 32 1)
      else if s = twosSignature then some (List.replicate 64 2) else none
    ed25519Verify := fun key sig _ => key == List.replicate 32 1 && sig == List.replicate 64 2 }

end ConquerD.Wire
