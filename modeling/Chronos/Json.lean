import Mathlib

/-!
# JSON values

A parsed document. Integers are kept as they stand in the text; a number with
a fraction or an exponent is a value of an arbitrary type, of which only the
conversion to an integer is ever needed.
-/

set_option autoImplicit false

namespace Chronos

inductive Json (F : Type) where
  | null
  | bool (b : Bool)
  | integer (z : ℤ)
  | float (x : F)
  | string (s : String)
  | array (items : List (Json F))
  | object (fields : List (String × Json F))

namespace Json
variable {F : Type}

def fieldIn (name : String) : List (String × Json F) → Option (Json F)
  | [] => none
  | x::xs => if x.1 = name then some x.2 else fieldIn name xs

def field (name : String) : Json F → Option (Json F)
  | .object fields => fieldIn name fields
  | _ => none

end Json
end Chronos
