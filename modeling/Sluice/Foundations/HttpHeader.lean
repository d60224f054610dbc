import Mathlib.Logic.Function.Basic

/-
  Header fields of HTTP messages, by canonical name.

  A name is written in one way: the first letter and every
  letter after a hyphen in upper case, the others in lower
  case. Text that is not a name is left as it is.

  Key definitions include:
    * `isTokenChar`
    * `canonicalMIMEHeaderKey`
    * `Header`, `Header.set` and `Header.get`

  Key theorems include:
    * `Header.values_set_self`
    * `Header.values_set_of_ne`
    * `Header.get_of_values`
-/

------------------------------------------------------------
-- Names
------------------------------------------------------------

namespace Foundations

namespace Http

/- The characters of a name. -/
def isTokenChar (c : Char) : Bool :=
  c.isAlphanum || "!#$%&'*+-.^_`|~".toList.contains c

/- The letter case of a name; `upper` is that of the next. -/
def recase : Bool → List Char → List Char
| _, [] => []
| upper, c :: name =>
    (if upper then c.toUpper else c.toLower) ::
      recase (c = '-') name

def canonicalMIMEHeaderKey (key : String) : String :=
  if key.toList.all isTokenChar then
    String.ofList (recase true key.toList)
  else key

------------------------------------------------------------
-- Fields
------------------------------------------------------------

/- The values of each name; a missing name has none. -/
abbrev Header := String → List String

namespace Header

def empty : Header :=
  fun _ => []

/- Replaces all values of a name. -/
def set (key value : String) (h : Header) : Header :=
  Function.update h (canonicalMIMEHeaderKey key) [value]

def values (key : String) (h : Header) : List String :=
  h (canonicalMIMEHeaderKey key)

/- The first value of a name, or nothing. -/
def get (key : String) (h : Header) : String :=
  (h.values key).head?.getD ""

theorem values_set_self
    (key value : String)
    (h : Header) :
    (h.set key value).values key = [value] :=
  Function.update_self _ _ _

theorem values_set_of_ne
    {key key' : String}
    (value : String)
    (h : Header)
    (hNe :
      canonicalMIMEHeaderKey key' ≠
        canonicalMIMEHeaderKey key) :
    (h.set key value).values key' = h.values key' :=
  Function.update_of_ne hNe _ _

theorem get_of_values
    {key value : String}
    {h : Header}
    (hValues : h.values key = [value]) :
    h.get key = value := by
  unfold get
  rw [hValues]
  rfl

end Header

/- Letter case does not matter, and only that. -/
example :
    canonicalMIMEHeaderKey "wEBHOOK-id" = "Webhook-Id" ∧
      canonicalMIMEHeaderKey "webhook id" = "webhook id" := by
  decide

end Http

end Foundations
