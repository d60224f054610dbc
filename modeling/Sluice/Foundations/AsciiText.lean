import Mathlib.Algebra.Group.Nat.Defs
import Mathlib.Data.List.Basic

/-
  ASCII text as bytes, and numbers in hexadecimal.

  Text that does not contain a separator can be told from
  what follows the separator, whatever that is.

  Key definitions include:
    * `utf8`
    * `Ascii`
    * `hexDigits`

  Key theorems include:
    * `split_at_first`
    * `utf8_injective`
    * `hexDigits_injective`
-/

------------------------------------------------------------
-- Separators
------------------------------------------------------------

namespace Foundations

namespace AsciiText

/- The first separator is where the two texts meet it. -/
theorem split_at_first
    {α : Type}
    {a : α}
    {x x' rest rest' : List α}
    (hx : a ∉ x)
    (hx' : a ∉ x')
    (hSame : x ++ a :: rest = x' ++ a :: rest') :
    x = x' ∧ rest = rest' := by
  induction x generalizing x' with
  | nil =>
      cases x' with
      | nil => exact ⟨rfl, (List.cons.inj hSame).2⟩
      | cons b x' =>
          have hHead := (List.cons.inj hSame).1
          exact absurd (hHead ▸ List.mem_cons_self) hx'
  | cons b x ih =>
      cases x' with
      | nil =>
          have hHead := (List.cons.inj hSame).1
          exact absurd (hHead ▸ List.mem_cons_self) hx
      | cons b' x' =>
          rcases List.cons.inj hSame with ⟨rfl, hTail⟩
          rw [List.mem_cons, not_or] at hx hx'
          rcases ih hx.2 hx'.2 hTail with ⟨rfl, hRest⟩
          exact ⟨rfl, hRest⟩

------------------------------------------------------------
-- Bytes
------------------------------------------------------------

/- The bytes of a text in UTF-8. -/
def utf8 (text : List Char) : List UInt8 :=
  text.flatMap String.utf8EncodeChar

theorem utf8_append (text text' : List Char) :
    utf8 (text ++ text') = utf8 text ++ utf8 text' :=
  List.flatMap_append

def Ascii (text : List Char) : Prop :=
  ∀ c ∈ text, c.toNat < 128

theorem utf8EncodeChar_of_ascii
    {c : Char}
    (hc : c.toNat < 128) :
    String.utf8EncodeChar c = [UInt8.ofNat c.toNat] := by
  have hOne : c.val.toNat ≤ 127 := Nat.le_of_lt_succ hc
  unfold String.utf8EncodeChar
  exact if_pos hOne

/- An ASCII character is one byte. -/
theorem utf8_of_ascii
    {text : List Char}
    (hAscii : Ascii text) :
    utf8 text = text.map (fun c => UInt8.ofNat c.toNat) := by
  induction text with
  | nil => rfl
  | cons c text ih =>
      have hHead := hAscii c List.mem_cons_self
      have hTail : Ascii text :=
        fun c' hc' => hAscii c' (List.mem_cons_of_mem c hc')
      unfold utf8 at ih ⊢
      rw [List.flatMap_cons, utf8EncodeChar_of_ascii hHead,
        ih hTail]
      rfl

theorem byte_injective
    {c c' : Char}
    (hc : c.toNat < 128)
    (hc' : c'.toNat < 128)
    (hSame : UInt8.ofNat c.toNat = UInt8.ofNat c'.toNat) :
    c = c' := by
  have hNat := congrArg UInt8.toNat hSame
  rw [UInt8.toNat_ofNat', UInt8.toNat_ofNat'] at hNat
  apply Char.toNat_inj.mp
  omega

theorem utf8_injective
    {text text' : List Char}
    (hAscii : Ascii text)
    (hAscii' : Ascii text')
    (hSame : utf8 text = utf8 text') :
    text = text' := by
  rw [utf8_of_ascii hAscii, utf8_of_ascii hAscii'] at hSame
  induction text generalizing text' with
  | nil =>
      cases text' with
      | nil => rfl
      | cons c' text' => cases hSame
  | cons c text ih =>
      cases text' with
      | nil => cases hSame
      | cons c' text' =>
          rcases List.cons.inj hSame with ⟨hHead, hTail⟩
          rw [byte_injective
              (hAscii c List.mem_cons_self)
              (hAscii' c' List.mem_cons_self) hHead,
            ih
              (fun d hd =>
                hAscii d (List.mem_cons_of_mem c hd))
              (fun d hd =>
                hAscii' d (List.mem_cons_of_mem c' hd))
              hTail]

theorem notMem_utf8
    {text : List Char}
    {c : Char}
    (hAscii : Ascii text)
    (hc : c.toNat < 128)
    (hNotMem : c ∉ text) :
    UInt8.ofNat c.toNat ∉ utf8 text := by
  rw [utf8_of_ascii hAscii]
  intro hMem
  rcases List.mem_map.mp hMem with ⟨d, hd, hByte⟩
  have hSame : d = c := byte_injective (hAscii d hd) hc hByte
  exact hNotMem (hSame ▸ hd)

------------------------------------------------------------
-- Hexadecimal Digits
------------------------------------------------------------

/- The lower digits of a number, in lower case. -/
def hexDigits : Nat → Nat → List Char
| 0, _ => []
| width + 1, n =>
    hexDigits width (n / 16) ++ [Nat.digitChar (n % 16)]

/- A property that all the digits have. -/
theorem forall_mem_hexDigits
    (P : Char → Prop)
    (hDigits : ∀ d < 16, P (Nat.digitChar d))
    (width n : Nat) :
    ∀ c ∈ hexDigits width n, P c := by
  induction width generalizing n with
  | zero =>
      intro c hc
      cases hc
  | succ width ih =>
      intro c hc
      rcases List.mem_append.mp hc with hFront | hLast
      · exact ih (n / 16) c hFront
      · rw [List.mem_singleton.mp hLast]
        exact hDigits (n % 16) (Nat.mod_lt n (by decide))

theorem digitChar_injective :
    ∀ d < 16, ∀ d' < 16,
      Nat.digitChar d = Nat.digitChar d' → d = d' := by
  decide

theorem hexDigits_injective
    {width n n' : Nat}
    (hn : n < 16 ^ width)
    (hn' : n' < 16 ^ width)
    (hSame : hexDigits width n = hexDigits width n') :
    n = n' := by
  induction width generalizing n n' with
  | zero =>
      rw [Nat.pow_zero] at hn hn'
      omega
  | succ width ih =>
      rcases List.append_inj' hSame rfl with
        ⟨hFront, hLast⟩
      have hDigit : n % 16 = n' % 16 :=
        digitChar_injective _ (Nat.mod_lt n (by decide)) _
          (Nat.mod_lt n' (by decide))
          (List.cons.inj hLast).1
      rw [Nat.pow_succ] at hn hn'
      have hUpper : n / 16 = n' / 16 :=
        ih (by omega) (by omega) hFront
      omega

end AsciiText

end Foundations
