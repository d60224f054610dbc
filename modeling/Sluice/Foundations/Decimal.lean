import Mathlib.Data.Nat.Digits.Lemmas

/-
  Decimal numerals with leading zeros.

  Key definitions include:
    * `digit?` and `number?`
    * `padded`
    * `signedPadded`

  Key theorems include:
    * `number?_padded`
    * `padded_of_number?`
    * `padded_injective` and `signedPadded_injective`
-/

------------------------------------------------------------
-- Reading
------------------------------------------------------------

namespace Foundations

namespace Decimal

/- The value of an ASCII digit. -/
def digit? (c : Char) : Option Nat :=
  if 48 ≤ c.toNat ∧ c.toNat ≤ 57 then some (c.toNat - 48)
  else none

/- The value of a string of digits. -/
def number? (text : List Char) : Option Nat :=
  (text.mapM digit?).map
    (fun digits => Nat.ofDigits 10 digits.reverse)

------------------------------------------------------------
-- Writing
------------------------------------------------------------

/- The digits of a number, filled up with zeros. -/
def paddedDigits (width n : Nat) : List Nat :=
  (Nat.digits 10 n ++
    List.replicate (width - (Nat.digits 10 n).length)
      0).reverse

/- `%0wd` of a natural number. -/
def padded (width n : Nat) : List Char :=
  (paddedDigits width n).map Nat.digitChar

/- `%0wd`: the sign counts for the width. -/
def signedPadded (width : Nat) (n : Int) : List Char :=
  if n < 0 then '-' :: padded (width - 1) n.natAbs
  else padded width n.natAbs

variable {width n d : Nat}

theorem lt_ten_of_mem_paddedDigits
    (hMem : d ∈ paddedDigits width n) :
    d < 10 := by
  unfold paddedDigits at hMem
  rw [List.mem_reverse, List.mem_append] at hMem
  rcases hMem with hDigit | hZero
  · exact Nat.digits_lt_base (by decide) hDigit
  · rw [List.eq_of_mem_replicate hZero]
    decide

theorem ofDigits_paddedDigits (width n : Nat) :
    Nat.ofDigits 10 (paddedDigits width n).reverse = n := by
  unfold paddedDigits
  rw [List.reverse_reverse, Nat.ofDigits_append,
    Nat.ofDigits_digits, Nat.ofDigits_replicate_zero,
    Nat.mul_zero, Nat.add_zero]

theorem length_paddedDigits
    (hFits : n < 10 ^ width) :
    (paddedDigits width n).length = width := by
  have hLength : (Nat.digits 10 n).length ≤ width :=
    (Nat.digits_length_le_iff (by decide) n).mpr hFits
  unfold paddedDigits
  rw [List.length_reverse, List.length_append,
    List.length_replicate]
  omega

theorem length_padded
    (hFits : n < 10 ^ width) :
    (padded width n).length = width := by
  unfold padded
  rw [List.length_map]
  exact length_paddedDigits hFits

------------------------------------------------------------
-- Round Trips
------------------------------------------------------------

theorem digit?_digitChar
    (hDigit : d < 10) :
    digit? (Nat.digitChar d) = some d := by
  interval_cases d <;> decide

theorem digitChar_of_digit?
    {c : Char}
    (hDigit : digit? c = some d) :
    Nat.digitChar d = c ∧ d < 10 := by
  unfold digit? at hDigit
  split at hDigit
  · rename_i hRange
    cases hDigit
    have hBound : c.toNat - 48 < 10 := by omega
    refine ⟨?_, hBound⟩
    apply Char.toNat_inj.mp
    rw [Nat.toNat_digitChar_of_lt_ten hBound]
    omega
  · cases hDigit

theorem mapM_digit?_map
    {digits : List Nat}
    (hDigits : ∀ d ∈ digits, d < 10) :
    (digits.map Nat.digitChar).mapM digit? = some digits := by
  induction digits with
  | nil => rfl
  | cons d digits ih =>
      rw [List.forall_mem_cons] at hDigits
      simp [List.mapM_cons, digit?_digitChar hDigits.1,
        ih hDigits.2]

theorem map_of_mapM_digit?
    {text : List Char}
    {digits : List Nat}
    (hRead : text.mapM digit? = some digits) :
    digits.map Nat.digitChar = text ∧
      ∀ d ∈ digits, d < 10 := by
  induction text generalizing digits with
  | nil =>
      cases hRead
      simp
  | cons c text ih =>
      rw [List.mapM_cons] at hRead
      rcases Option.bind_eq_some_iff.mp hRead with
        ⟨d, hDigit, hRest⟩
      rcases Option.bind_eq_some_iff.mp hRest with
        ⟨rest, hTail, hAll⟩
      cases hAll
      rcases digitChar_of_digit? hDigit with ⟨hChar, hTen⟩
      rcases ih hTail with ⟨hText, hTens⟩
      constructor
      · rw [List.map_cons, hChar, hText]
      · exact List.forall_mem_cons.mpr ⟨hTen, hTens⟩

/- What is written is read back. -/
theorem number?_padded (width n : Nat) :
    number? (padded width n) = some n := by
  unfold number? padded
  rw [mapM_digit?_map
    (fun _ hMem => lt_ten_of_mem_paddedDigits hMem)]
  exact congrArg some (ofDigits_paddedDigits width n)

/- What is read was written with its own width. -/
theorem padded_of_number?
    {text : List Char}
    (hRead : number? text = some n) :
    padded text.length n = text ∧ n < 10 ^ text.length := by
  unfold number? at hRead
  rcases Option.map_eq_some_iff.mp hRead with
    ⟨digits, hDigits, hValue⟩
  rcases map_of_mapM_digit? hDigits with ⟨hText, hTens⟩
  have hLength : digits.length = text.length := by
    rw [← hText, List.length_map]
  have hRevTens : ∀ d ∈ digits.reverse, d < 10 :=
    fun d hd => hTens d (List.mem_reverse.mp hd)
  have hFits : n < 10 ^ text.length := by
    have hLt := Nat.ofDigits_lt_base_pow_length
      (b := 10) (by decide) hRevTens
    rw [hValue, List.length_reverse, hLength] at hLt
    exact hLt
  have hSame :
      (paddedDigits text.length n).reverse =
        digits.reverse := by
    refine Nat.ofDigits_inj_of_len_eq (b := 10) (by decide)
      ?_ ?_ hRevTens ?_
    · rw [List.length_reverse, List.length_reverse,
        length_paddedDigits hFits, hLength]
    · intro d hd
      exact lt_ten_of_mem_paddedDigits
        (List.mem_reverse.mp hd)
    · rw [ofDigits_paddedDigits]
      exact hValue.symm
  refine ⟨?_, hFits⟩
  unfold padded
  rw [List.reverse_injective hSame]
  exact hText

theorem padded_injective
    {width n n' : Nat}
    (hSame : padded width n = padded width n') :
    n = n' := by
  have hRead := congrArg number? hSame
  rw [number?_padded, number?_padded] at hRead
  exact Option.some.inj hRead

theorem digit?_of_mem_padded
    {c : Char}
    (hMem : c ∈ padded width n) :
    (digit? c).isSome = true := by
  unfold padded at hMem
  rcases List.mem_map.mp hMem with ⟨d, hd, rfl⟩
  rw [digit?_digitChar (lt_ten_of_mem_paddedDigits hd)]
  rfl

/- A property that the digits and the sign have. -/
theorem forall_mem_signedPadded
    (P : Char → Prop)
    (hSign : P '-')
    (hDigits : ∀ d < 10, P (Nat.digitChar d))
    (width : Nat)
    (n : Int) :
    ∀ c ∈ signedPadded width n, P c := by
  have hPadded :
      ∀ (w m : Nat), ∀ c ∈ padded w m, P c := by
    intro w m c hMem
    unfold padded at hMem
    rcases List.mem_map.mp hMem with ⟨d, hd, rfl⟩
    exact hDigits d (lt_ten_of_mem_paddedDigits hd)
  intro c hMem
  unfold signedPadded at hMem
  split at hMem
  · rcases List.mem_cons.mp hMem with rfl | hDigit
    · exact hSign
    · exact hPadded _ _ c hDigit
  · exact hPadded _ _ c hMem

theorem signedPadded_injective
    {n n' : Int}
    (hSame : signedPadded width n = signedPadded width n') :
    n = n' := by
  -- A sign is not a digit.
  have hSign :
      ∀ (w m : Nat) (rest : List Char),
        padded w m ≠ '-' :: rest := by
    intro w m rest hEq
    have hMem : '-' ∈ padded w m := by
      rw [hEq]
      exact List.mem_cons_self
    have hDigit := digit?_of_mem_padded hMem
    exact absurd hDigit (by decide)
  unfold signedPadded at hSame
  split at hSame <;> split at hSame
  · rw [List.cons.injEq] at hSame
    have hAbs := padded_injective hSame.2
    omega
  · exact absurd hSame.symm (hSign _ _ _)
  · exact absurd hSame (hSign _ _ _)
  · have hAbs := padded_injective hSame
    omega

end Decimal

end Foundations
