import Mathlib.Algebra.Group.Int.Defs
import Mathlib.Data.String.Basic

/-!
# JSON payloads

The payload of a signaling message is a parsed JSON value. Handlers read it by
field name and fall back to a default when the field is absent or of another
type; the accessors below are those reads.
-/

namespace ConquerD.Wire

/-- A parsed JSON value. An object is its list of fields with distinct names;
a number is an integer or the text of any other number. -/
inductive Json where
  | null
  | bool (b : Bool)
  | int (n : Int)
  | float (text : String)
  | str (s : String)
  | arr (items : List Json)
  | obj (fields : List (String × Json))
  deriving Repr, Inhabited

namespace Json

/-- The field of an object; nothing for any other value. -/
def get? (j : Json) (field : String) : Option Json :=
  match j with
  | obj fields => fields.lookup field
  | _ => none

def asStr? : Json → Option String
  | str s => some s
  | _ => none

def asBool? : Json → Option Bool
  | bool b => some b
  | _ => none

def asArray? : Json → Option (List Json)
  | arr items => some items
  | _ => none

/-- A non-negative integer below `2 ^ 64`. -/
def asU64? : Json → Option Nat
  | int n => if 0 ≤ n ∧ n < 2 ^ 64 then some n.toNat else none
  | _ => none

/-- An integer that fits in 64 bits with a sign. -/
def asI64? : Json → Option Int
  | int n => if -(2 ^ 63) ≤ n ∧ n < 2 ^ 63 then some n else none
  | _ => none

def str? (j : Json) (field : String) : Option String :=
  (j.get? field).bind asStr?

/-- A string field that is not empty. -/
def nonemptyStr? (j : Json) (field : String) : Option String :=
  (j.str? field).filter (· ≠ "")

end Json

end ConquerD.Wire
