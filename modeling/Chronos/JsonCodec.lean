import Chronos.Json

/-!
# Values kept as JSON

A codec writes the values of a type as JSON and reads them back; that it reads
what it wrote is part of it. Numbers convert into each other on reading, words
wrap, and the number types of a machine are words of a width and binary
floating-point numbers, the latter an arbitrary type with its conversions.

Strings are sequences of characters; one of bytes uses those below 256.
-/

set_option autoImplicit false

namespace Chronos

namespace JsonCodec

inductive JsonError where
  | typeError
  | outOfRange
  deriving DecidableEq

class Conversions (F : Type) where
  trunc : F → ℤ
  ofInt : ℤ → F

end JsonCodec

open JsonCodec in
structure JsonCodec (F A : Type) where
  toJson : A → Json F
  fromJson : Json F → Except JsonError A
  roundTrip : ∀ a, fromJson (toJson a) = .ok a

namespace JsonCodec
variable {F A : Type}

attribute [simp] roundTrip

def atKey (key : String) : Json F → Except JsonError (Json F)
  | .object fields => ((Json.fieldIn key fields).map .ok).getD (.error .outOfRange)
  | _ => .error .typeError

def contains (key : String) (j : Json F) : Bool := (j.field key).isSome

section Reading
variable (c : JsonCodec F A)

def readAt (key : String) (j : Json F) : Except JsonError A := (atKey key j).bind c.fromJson

def readIfContains (key : String) (j : Json F) (x : A) : Except JsonError A :=
  if contains key j then c.readAt key j else .ok x

@[simp] theorem readAt_cons (key name : String) (v : Json F) (fields : List (String × Json F)) :
    c.readAt key (.object ((name,v)::fields)) =
      if name = key then c.fromJson v else c.readAt key (.object fields) := by
  by_cases h : name = key
  · simp [readAt, atKey, Json.fieldIn, h, Except.bind]
  · simp [readAt, atKey, Json.fieldIn, h]

@[simp] theorem readIfContains_cons (key name : String) (v : Json F)
    (fields : List (String × Json F)) (x : A) :
    c.readIfContains key (.object ((name,v)::fields)) x =
      if name = key then c.fromJson v else c.readIfContains key (.object fields) x := by
  rw [readIfContains, readIfContains, readAt_cons]
  by_cases h : name = key
  · have hthere : contains key (.object ((name,v)::fields)) = true := by
      simp [contains, Json.field, Json.fieldIn, h]
    rw [hthere, if_pos rfl, if_pos h, if_pos h]
  · have hlater : contains key (.object ((name,v)::fields)) = contains key (.object fields) := by
      simp [contains, Json.field, Json.fieldIn, h]
    rw [hlater, if_neg h, if_neg h]

end Reading

def string : JsonCodec F String where
  toJson := .string
  fromJson
    | .string s => .ok s
    | _ => .error .typeError
  roundTrip _ := rfl

def boolean : JsonCodec F Bool where
  toJson := .bool
  fromJson
    | .bool b => .ok b
    | _ => .error .typeError
  roundTrip _ := rfl

def json : JsonCodec F (Json F) where
  toJson j := j
  fromJson j := .ok j
  roundTrip _ := rfl

theorem mapM_roundTrip (c : JsonCodec F A) (xs : List A) :
    (xs.map c.toJson).mapM c.fromJson = .ok xs := by
  induction xs with
  | nil => rfl
  | cons x xs ih =>
    rw [List.map_cons, List.mapM_cons, c.roundTrip, ih]
    rfl

def list (c : JsonCodec F A) : JsonCodec F (List A) where
  toJson xs := .array (xs.map c.toJson)
  fromJson
    | .array items => items.mapM c.fromJson
    | _ => .error .typeError
  roundTrip := c.mapM_roundTrip

section Numbers
variable [Conversions F]

def double : JsonCodec F F where
  toJson := .float
  fromJson
    | .integer z => .ok (Conversions.ofInt z)
    | .float x => .ok x
    | _ => .error .typeError
  roundTrip _ := rfl

def integerOf (acceptsBoolean : Bool) : Json F → Except JsonError ℤ
  | .integer z => .ok z
  | .float x => .ok (Conversions.trunc x)
  | .bool b => if acceptsBoolean then .ok b.toNat else .error .typeError
  | _ => .error .typeError

def wordOf (acceptsBoolean : Bool) (width : ℕ) (j : Json F) : Except JsonError ℕ :=
  (integerOf acceptsBoolean j).map (fun z => (z%2^width).toNat)

theorem wordOf_integer (acceptsBoolean : Bool) (width n : ℕ) (h : n < 2^width) :
    wordOf (F := F) acceptsBoolean width (.integer n) = .ok n := by
  have hmod : ((n : ℤ)%2^width).toNat = n := by
    have hcast : (n : ℤ)%2^width = (n%2^width : ℕ) := by norm_cast
    rw [hcast, Int.toNat_natCast, Nat.mod_eq_of_lt h]
  exact congrArg Except.ok hmod

def uint16 : JsonCodec F UInt16 where
  toJson n := .integer n.toNat
  fromJson j := (wordOf true 16 j).map UInt16.ofNat
  roundTrip n := by
    rw [wordOf_integer true 16 n.toNat n.toNat_lt]
    exact congrArg Except.ok UInt16.ofNat_toNat

def uint32 : JsonCodec F UInt32 where
  toJson n := .integer n.toNat
  fromJson j := (wordOf true 32 j).map UInt32.ofNat
  roundTrip n := by
    rw [wordOf_integer true 32 n.toNat n.toNat_lt]
    exact congrArg Except.ok UInt32.ofNat_toNat

def uint64 : JsonCodec F UInt64 where
  toJson n := .integer n.toNat
  fromJson j := (wordOf false 64 j).map UInt64.ofNat
  roundTrip n := by
    rw [wordOf_integer false 64 n.toNat n.toNat_lt]
    exact congrArg Except.ok UInt64.ofNat_toNat

end Numbers
end JsonCodec
end Chronos
