import Mathlib.Data.List.TakeWhile
import Spreadsheet.Json.Reader
import Spreadsheet.Json.Writer
import Spreadsheet.Proofs.ScientificDigits

/-
  Numerals in front of more text. A numeral that takes up
  all of a text is also taken off a longer one, as long as
  what follows cannot go on with a number. What is written
  for a natural number that fits is such a numeral, and it
  stands for that natural number.

  Main declarations:
    * `Json.Stops`
    * `Json.Numeral.take?_append`
    * `Json.Numeral.take?_toDigits`
    * `Json.Numeral.value_ofNat`
    * `Json.areNumberChars_writeNumber`
-/

namespace Spreadsheet

namespace Json

------------------------------------------------------------
-- What Follows A Number
------------------------------------------------------------

/- A character that may occur in a number. -/
def isNumberChar
    (c : Char) : Bool :=
  c.isDigit || c == '-' || c == '+' || c == '.'
    || c == 'e' || c == 'E'

/- A text that a number does not go on with. -/
def Stops
    (rest : List Char) : Prop :=
  ∀ c, rest.head? = some c → isNumberChar c = false

theorem stops_nil : Stops [] := by
  intro c h
  simp at h

theorem stops_cons
    {c : Char}
    (rest : List Char)
    (hc : isNumberChar c = false) : Stops (c :: rest) := by
  intro d hd
  rw [← Option.some.inj hd]
  exact hc

/- The head of such a text is no given number character. -/
theorem Stops.head_ne
    {c d : Char}
    {rest : List Char}
    (hStops : Stops (c :: rest))
    (hd : isNumberChar d = true) : c ≠ d := by
  rintro rfl
  have hc := hStops c rfl
  rw [hd] at hc
  exact Bool.noConfusion hc

theorem Stops.isDigit_head
    {c : Char}
    {rest : List Char}
    (hStops : Stops rest)
    (h : rest.head? = some c) : c.isDigit = false := by
  have hc := hStops c h
  simp only [isNumberChar, Bool.or_eq_false_iff] at hc
  exact hc.1.1.1.1.1

namespace Numeral

variable {cs rest : List Char}

------------------------------------------------------------
-- Numerals Before More Text
------------------------------------------------------------

theorem takeDigits?_append
    {digits after : List Char}
    (hStops : Stops rest)
    (h : takeDigits? cs = some (digits, after)) :
    takeDigits? (cs ++ rest)
      = some (digits, after ++ rest) := by
  simp only [takeDigits?] at h ⊢
  rw [takeWhile_append_stops cs fun _ => hStops.isDigit_head,
    dropWhile_append_stops cs fun _ => hStops.isDigit_head]
  split at h
  · simp at h
  · next hNe =>
      simp only [Option.some.injEq, Prod.mk.injEq] at h
      rw [if_neg hNe, h.1, h.2]

theorem takeWhole?_append
    {digits after : List Char}
    (hStops : Stops rest)
    (h : takeWhole? cs = some (digits, after)) :
    takeWhole? (cs ++ rest)
      = some (digits, after ++ rest) := by
  unfold takeWhole? at h ⊢
  split at h
  · simp at h
  · next hNot =>
      rw [takeDigits?_append hStops h]
      split
      · next c more _ heq =>
          simp only [Option.some.injEq, Prod.mk.injEq] at heq
          rw [h, heq.1] at hNot
          exact absurd rfl (hNot c more after)
      · rfl

theorem takeFraction?_append
    {digits after : List Char}
    (hStops : Stops rest)
    (h : takeFraction? cs = some (digits, after)) :
    takeFraction? (cs ++ rest)
      = some (digits, after ++ rest) := by
  unfold takeFraction? at h
  split at h
  · exact takeDigits?_append hStops h
  · next hNot =>
      simp only [Option.some.injEq, Prod.mk.injEq] at h
      rcases h with ⟨rfl, rfl⟩
      unfold takeFraction?
      split
      · next more heq =>
          cases cs with
          | nil =>
              rw [List.nil_append] at heq
              subst heq
              exact absurd rfl (hStops.head_ne (by decide))
          | cons c cs =>
              rw [List.cons_append, List.cons.injEq] at heq
              exact (hNot cs (heq.1 ▸ rfl)).elim
      · rfl

theorem takeSign_append
    (cs : List Char)
    (hStops : Stops rest) :
    takeSign (cs ++ rest)
      = ((takeSign cs).1, (takeSign cs).2 ++ rest) := by
  cases cs with
  | nil =>
      cases rest with
      | nil => rfl
      | cons c rest =>
          have hMinus : c ≠ '-' := hStops.head_ne (by decide)
          have hPlus : c ≠ '+' := hStops.head_ne (by decide)
          simp [takeSign, hMinus, hPlus]
  | cons c cs =>
      rw [List.cons_append]
      unfold takeSign
      split <;> simp_all

theorem takeMinus_append
    (cs : List Char)
    (hStops : Stops rest) :
    takeMinus (cs ++ rest)
      = ((takeMinus cs).1, (takeMinus cs).2 ++ rest) := by
  cases cs with
  | nil =>
      cases rest with
      | nil => rfl
      | cons c rest =>
          have hMinus : c ≠ '-' := hStops.head_ne (by decide)
          simp [takeMinus, hMinus]
  | cons c cs =>
      rw [List.cons_append]
      unfold takeMinus
      split <;> simp_all

theorem takeExponent?_append
    {exponent : Option Int}
    {after : List Char}
    (hStops : Stops rest)
    (h : takeExponent? cs = some (exponent, after)) :
    takeExponent? (cs ++ rest)
      = some (exponent, after ++ rest) := by
  cases cs with
  | nil =>
      simp only [takeExponent?, Option.some.injEq,
        Prod.mk.injEq] at h
      rcases h with ⟨rfl, rfl⟩
      cases rest with
      | nil => rfl
      | cons c rest =>
          have hLower : c ≠ 'e' := hStops.head_ne (by decide)
          have hUpper : c ≠ 'E' := hStops.head_ne (by decide)
          simp [takeExponent?, hLower, hUpper]
  | cons c cs =>
      rw [List.cons_append]
      simp only [takeExponent?] at h ⊢
      split at h
      · next hc =>
          rw [if_pos hc, takeSign_append cs hStops]
          simp only [Option.map_eq_some_iff,
            Prod.mk.injEq, Prod.exists] at h
          rcases h with ⟨digits, more, hTake, hExponent, rfl⟩
          rw [takeDigits?_append hStops hTake,
            Option.map_some, hExponent]
      · next hc =>
          simp only [Option.some.injEq, Prod.mk.injEq] at h
          rw [if_neg hc, ← h.1, ← h.2, List.cons_append]

/- A numeral is taken off a text that goes on otherwise. -/
theorem take?_append
    {d : Numeral}
    {after : List Char}
    (hStops : Stops rest)
    (h : take? cs = some (d, after)) :
    take? (cs ++ rest) = some (d, after ++ rest) := by
  simp only [take?, Option.bind_eq_bind,
    Option.bind_eq_some_iff, Prod.exists] at h
  rcases h with ⟨whole, r₁, h₁, fraction, r₂, h₂, exponent,
    r₃, h₃, h⟩
  simp only [Option.some.injEq, Prod.mk.injEq] at h
  simp only [take?, Option.bind_eq_bind,
    takeMinus_append cs hStops, takeWhole?_append hStops h₁,
    takeFraction?_append hStops h₂,
    takeExponent?_append hStops h₃, Option.bind_some]
  rw [h.1, h.2]

------------------------------------------------------------
-- Natural Numbers
------------------------------------------------------------

/- The numeral that is written for a natural number. -/
def ofNat
    (n : Nat) : Numeral :=
  ⟨false, Nat.toDigits 10 n, [], none⟩

theorem takeDigits?_toDigits
    (n : Nat) :
    takeDigits? (Nat.toDigits 10 n)
      = some (Nat.toDigits 10 n, []) := by
  have hDigits := Digit.areDigits_toDigits n
  have hTake :
      (Nat.toDigits 10 n).takeWhile Char.isDigit
        = Nat.toDigits 10 n :=
    List.takeWhile_eq_self_iff.mpr hDigits
  have hDrop :
      (Nat.toDigits 10 n).dropWhile Char.isDigit = [] :=
    List.dropWhile_eq_nil_iff.mpr hDigits
  simp only [takeDigits?, hTake, hDrop]
  rw [if_neg (by simp [Nat.toDigits_ne_nil])]

/- Digits for a number have no zero in front. -/
theorem toDigits_ne_zero_cons
    (n : Nat)
    (c : Char)
    (cs : List Char) :
    Nat.toDigits 10 n ≠ '0' :: c :: cs := by
  intro hDigits
  cases n with
  | zero => simp at hDigits
  | succ n =>
      have hSame :=
        Digit.toDigits_decimal
          (Digit.areDigits_toDigits (n + 1)) (by simp)
      rw [Digit.decimal_toDigits, hDigits] at hSame
      have hShort :=
        (List.dropWhile_suffix (l := c :: cs)
          (· == '0')).length_le
      have hLength := congrArg List.length hSame
      simp only [List.dropWhile_cons, BEq.rfl, if_true,
        List.length_cons] at hLength hShort
      omega

theorem takeWhole?_toDigits
    (n : Nat) :
    takeWhole? (Nat.toDigits 10 n)
      = some (Nat.toDigits 10 n, []) := by
  unfold takeWhole?
  rw [takeDigits?_toDigits]
  split
  · next c cs _ heq =>
      simp only [Option.some.injEq, Prod.mk.injEq] at heq
      exact absurd heq.1 (toDigits_ne_zero_cons n c cs)
  · rfl

/- Digits have no sign in front. -/
theorem takeMinus_toDigits
    (n : Nat) :
    takeMinus (Nat.toDigits 10 n)
      = (false, Nat.toDigits 10 n) := by
  unfold takeMinus
  split
  · next rest heq =>
      have hMinus :=
        Digit.areDigits_toDigits n '-' (by simp [heq])
      exact absurd hMinus (by decide)
  · rfl

/- What is written for a natural number is its numeral. -/
theorem take?_toDigits
    (n : Nat) :
    take? (Nat.toDigits 10 n) = some (ofNat n, []) := by
  simp [take?, takeMinus_toDigits, takeWhole?_toDigits,
    takeFraction?, takeExponent?, ofNat]

/- More digits never denote a smaller number. -/
theorem le_ofDigitChars
    (cs : List Char)
    (m : Nat) : m ≤ Nat.ofDigitChars 10 cs m := by
  induction cs generalizing m with
  | nil => exact Nat.le_refl m
  | cons c cs ih =>
      have hStep := ih (10 * m + (c.toNat - '0'.toNat))
      rw [Nat.ofDigitChars_cons]
      omega

/- Digits that denote a number below the bound all fit. -/
theorem appendDigits_of_lt
    (cs : List Char)
    (m : Nat)
    (hLt : Nat.ofDigitChars 10 cs m < bound) :
    appendDigits m cs = (Nat.ofDigitChars 10 cs m, []) := by
  induction cs generalizing m with
  | nil => rfl
  | cons c cs ih =>
      rw [Nat.ofDigitChars_cons] at hLt ⊢
      have hNext :
          m * 10 + Digit.decimal [c]
            = 10 * m + (c.toNat - '0'.toNat) := by
        rw [Digit.decimal_eq_ofDigitChars,
          Nat.ofDigitChars_cons, Nat.ofDigitChars_nil]
        omega
      have hGrow :=
        le_ofDigitChars cs (10 * m + (c.toNat - '0'.toNat))
      simp only [appendDigits, hNext]
      rw [if_pos (by omega), ih _ hLt]

/- The numeral of a natural number stands for it. -/
theorem value_ofNat
    {n : Nat}
    (hn : n < bound) : (ofNat n).value = natural n := by
  have hNumber :
      Nat.ofDigitChars 10 (Nat.toDigits 10 n) 0 = n :=
    Nat.ofDigitChars_toDigits (by decide) (by decide)
  have hAppend :=
    appendDigits_of_lt (Nat.toDigits 10 n) 0
      (by rwa [hNumber])
  simp [value, significand, ofNat, hAppend, hNumber,
    appendDigits]

end Numeral

------------------------------------------------------------
-- Doubles
------------------------------------------------------------

/- A run of characters that may occur in a number. -/
def AreNumberChars
    (cs : List Char) : Prop :=
  ∀ c ∈ cs, isNumberChar c = true

instance
    (cs : List Char) : Decidable (AreNumberChars cs) :=
  decidable_of_iff (cs.all isNumberChar = true)
    List.all_eq_true

theorem AreNumberChars.append
    {cs ds : List Char}
    (hcs : AreNumberChars cs)
    (hds : AreNumberChars ds) : AreNumberChars (cs ++ ds) :=
  fun c hc => (List.mem_append.mp hc).elim (hcs c) (hds c)

theorem AreNumberChars.cons
    {c : Char}
    {cs : List Char}
    (hc : isNumberChar c = true)
    (hcs : AreNumberChars cs) : AreNumberChars (c :: cs) :=
  List.forall_mem_cons.mpr ⟨hc, hcs⟩

theorem areNumberChars_nil : AreNumberChars [] :=
  fun _ h => absurd h List.not_mem_nil

theorem areNumberChars_of_areDigits
    {cs : List Char}
    (hcs : Digit.AreDigits cs) : AreNumberChars cs := by
  intro c hc
  simp [isNumberChar, hcs c hc]

theorem areNumberChars_zeros
    (n : Nat) : AreNumberChars (NumberStyle.zeros n) := by
  intro c hc
  rw [List.eq_of_mem_replicate hc]
  decide

/- Digits written in full. -/
theorem areNumberChars_plain
    {digits : List Char}
    (pointZero : Bool)
    (hDigits : Digit.AreDigits digits)
    (point : Int) :
    AreNumberChars
      (NumberStyle.plain pointZero digits point) := by
  have hAll := areNumberChars_of_areDigits hDigits
  unfold NumberStyle.plain
  split
  · exact .cons (by decide) <| .cons (by decide) <|
      (areNumberChars_zeros _).append hAll
  · split
    · refine (hAll.append (areNumberChars_zeros _)).append ?_
      cases pointZero <;> decide
    · refine AreNumberChars.append ?_ (.cons (by decide) ?_)
      · exact fun c hc => hAll c (List.mem_of_mem_take hc)
      · exact fun c hc => hAll c (List.mem_of_mem_drop hc)

/- Digits written with an exponent. -/
theorem areNumberChars_exponential
    {digits : List Char}
    (hDigits : Digit.AreDigits digits)
    (exponent : Int) :
    AreNumberChars
      (NumberStyle.exponential digits exponent) := by
  have hAll := areNumberChars_of_areDigits hDigits
  have hDrop : AreNumberChars (digits.drop 1) :=
    fun c hc => hAll c (List.mem_of_mem_drop hc)
  have hPoint :
      AreNumberChars
        (NumberStyle.afterPoint (digits.drop 1)) := by
    unfold NumberStyle.afterPoint
    split
    · exact areNumberChars_nil
    · exact .cons (by decide) hDrop
  have hExponent :=
    areNumberChars_of_areDigits
      (Digit.areDigits_toDigits exponent.natAbs)
  unfold NumberStyle.exponential
  refine AreNumberChars.append
    (AreNumberChars.append ?_ hPoint)
    (.cons (by decide) (.cons ?_ hExponent))
  · exact fun c hc => hAll c (List.mem_of_mem_take hc)
  · split <;> decide

/- What is written for a double. -/
theorem areNumberChars_writeNumber
    (x : Float) : AreNumberChars (writeNumber x) := by
  unfold writeNumber
  split
  · refine AreNumberChars.append ?_ (by decide)
    split <;> decide
  · have hDigits :=
      Scientific.areDigits_ofExact numberStyle.tie
        (Binary64.exact x)
    refine AreNumberChars.append ?_ ?_
    · unfold NumberStyle.sign
      split <;> decide
    · unfold NumberStyle.magnitude NumberStyle.layout
      split
      · exact areNumberChars_plain _ hDigits _
      · exact areNumberChars_exponential hDigits _

end Json

end Spreadsheet
