import Mathlib.Algebra.Ring.Int.Defs
import Mathlib.Data.Prod.Lex
import Mathlib.Data.String.Basic
import Sluice.Foundations.Members

/-
  JSON documents as clients send them, what a JSONB column
  makes of them, and how `encoding/json` reads their members
  into the fields of a struct.

  An object is the list of its members in document order, in
  which a key may be repeated. A JSONB column keeps the last
  value of each key and gives the members back by the length
  and then the bytes of their keys. Go goes through the
  members in order, takes a key for a field when the two
  differ in letter case at most, and overwrites the field.

  Key definitions include:
    * `Number` and `Json`
    * `Json.jsonb`
    * `spells`
    * `decodeString`, `decodeInt` and `decodeIntPtr`

  Key theorems include:
    * `Json.jsonb_object`
-/

------------------------------------------------------------
-- Documents
------------------------------------------------------------

namespace Sluice

open Foundations

/-
  A number literal: all of its digits as one integer, how
  many of them come after the point, and the exponent.
-/
structure Number where
  digits : Int
  fraction : Nat
  exponent : Option Int
deriving DecidableEq, Repr

inductive Json
| null
| bool (b : Bool)
| number (n : Number)
| string (s : String)
| array (elements : List Json)
| object (members : List (String × Json))

namespace Number

/- `strconv.ParseInt`: no fraction and no exponent. -/
def toInt? (n : Number) : Option Int :=
  if n.fraction = 0 ∧ n.exponent = none then some n.digits
  else none

/- The literal that type `numeric` writes for the number. -/
def numeric (n : Number) : Number :=
  let scale : Int := n.fraction - n.exponent.getD 0
  if 0 ≤ scale then ⟨n.digits, scale.toNat, none⟩
  else ⟨n.digits * 10 ^ (-scale).toNat, 0, none⟩

end Number

------------------------------------------------------------
-- JSONB Columns
------------------------------------------------------------

/-
  The order of keys in a JSONB object. Strings of one length
  are compared by code points, as UTF-8 keeps their order.
-/
def jsonbRank (key : String) : Nat ×ₗ String :=
  toLex (key.utf8ByteSize, key)

namespace Json

mutual

/- The document that a JSONB column gives back. -/
def jsonb : Json → Json
| .null => .null
| .bool b => .bool b
| .number n => .number n.numeric
| .string s => .string s
| .array elements => .array (jsonbElements elements)
| .object members =>
    .object
      (Members.canonical jsonbRank (jsonbMembers members))

def jsonbElements : List Json → List Json
| [] => []
| v :: vs => v.jsonb :: jsonbElements vs

def jsonbMembers :
    List (String × Json) → List (String × Json)
| [] => []
| (key, v) :: members =>
    (key, v.jsonb) :: jsonbMembers members

end

/- The word that decoding errors have for a value. -/
def kind : Json → String
| .null => "null"
| .bool _ => "bool"
| .number _ => "number"
| .string _ => "string"
| .array _ => "array"
| .object _ => "object"

end Json

------------------------------------------------------------
-- Decoding
------------------------------------------------------------

/-
  Upper case, for the letters of field names: the Kelvin sign
  folds to `K` and the long s to `S`.
-/
def foldRune (c : Char) : Char :=
  if c = '\u212a' then 'K'
  else if c = '\u017f' then 'S'
  else c.toUpper

/- Whether a member's key is taken for the field `name`. -/
def spells (name key : String) : Bool :=
  key.toList.map foldRune = name.toList.map foldRune

/- `UnmarshalTypeError`. -/
def typeError
    {A : Type}
    (field type : String)
    (v : Json) :
    Except String A :=
  .error
    ("json: cannot unmarshal " ++ v.kind ++
      " into Go struct field " ++ field ++ " of type " ++
        type)

/- A member of type `string`; `null` has no effect. -/
def decodeString
    (field : String)
    (old : String) :
    Json → Except String String
| .null => .ok old
| .string s => .ok s
| v => typeError field "string" v

/- The integers of a signed type of this many bits. -/
def inBits (bits : Nat) (n : Int) : Bool :=
  -(2 ^ (bits - 1)) ≤ n && n < 2 ^ (bits - 1)

/- The integer that a value is decoded to. -/
def Json.int?
    (bits : Nat) :
    Json → Option Int
| .number n => n.toInt?.filter (inBits bits)
| _ => none

/- A member of type `int`; `null` has no effect. -/
def decodeInt
    (field : String)
    (old : Int64) :
    Json → Except String Int64
| .null => .ok old
| v =>
    match v.int? 64 with
    | some n => .ok (Int64.ofInt n)
    | none => typeError field "int" v

/- A pointer to an integer: `null` makes it nil. -/
def decodeIntPtr
    (bits : Nat)
    (field type : String) :
    Json → Except String (Option Int)
| .null => .ok none
| v =>
    match v.int? bits with
    | some n => .ok (some n)
    | none => typeError field type v

/- The values of a `map[string]string` are strings. -/
def decodeStringMap
    (field : String)
    (old : List (String × String)) :
    Json → Except String (List (String × String))
| .null => .ok []
| .object members =>
    members.foldlM
      (fun map m => do
        let s ← decodeString field "" m.2
        return Members.put id (m.1, s) map)
      old
| v => typeError field "map[string]string" v

------------------------------------------------------------
-- Basic Facts
------------------------------------------------------------

theorem jsonbRank_injective :
    Function.Injective jsonbRank := by
  intro a b hRank
  have hPair := toLex.injective hRank
  exact congrArg Prod.snd hPair

namespace Json

theorem jsonbMembers_eq_map
    (members : List (String × Json)) :
    jsonbMembers members =
      members.map (fun m => (m.1, m.2.jsonb)) := by
  induction members with
  | nil => rfl
  | cons m members ih =>
      simp only [jsonbMembers, ih, List.map_cons]

/- The members that a JSONB column keeps, in its order. -/
def stored
    (members : List (String × Json)) :
    List (String × Json) :=
  Members.canonical jsonbRank
    (members.map (fun m => (m.1, m.2.jsonb)))

@[simp] theorem jsonb_object
    (members : List (String × Json)) :
    (Json.object members).jsonb =
      .object (stored members) := by
  simp only [jsonb, jsonbMembers_eq_map, stored]

/- Only numbers change within a scalar. -/
theorem int?_jsonb
    {bits : Nat}
    {v : Json}
    {n : Int}
    (hInt : v.int? bits = some n) :
    v.jsonb.int? bits = some n := by
  cases v with
  | number literal =>
      rcases literal with ⟨digits, fraction, exponent⟩
      simp only [int?, Number.toInt?] at hInt
      split at hInt
      · rename_i hPlain
        rcases hPlain with ⟨hFraction, hExponent⟩
        subst hFraction
        subst hExponent
        simpa [jsonb, Number.numeric, int?,
          Number.toInt?] using hInt
      · cases hInt
  | null => cases hInt
  | bool b => cases hInt
  | string s => cases hInt
  | array elements => cases hInt
  | object members => cases hInt

end Json

end Sluice
