import Mathlib.Data.List.Forall2
import Mathlib.Tactic.IntervalCases
import Spreadsheet.Edit
import Spreadsheet.Proofs.DecimalDigits
import Spreadsheet.Proofs.Trimming

/-
  The texts that stand for numbers. A grammar says how each
  kind of numeral is written, and reading a text without its
  padding accepts what the grammar gives and nothing else.
  So do the readers that ask whether a text is a number.

  Key definitions include:
    * `Digit.IsDigitOf`
    * `PlainNumeral`
    * `Numeral.Written`

  The main result is `parseNumber_accepts`.
-/

namespace Spreadsheet

variable {c : Char}
variable {cs rest : List Char}

------------------------------------------------------------
-- Digits Of A Base
------------------------------------------------------------

namespace Digit

variable {base v : Nat}

/- The digits of base sixteen, with letters of either size. -/
def smallDigits : List Char :=
  "0123456789abcdef".toList

def capitalDigits : List Char :=
  "0123456789ABCDEF".toList

/- A character that is the digit of a value in a base. -/
def IsDigitOf
    (base : Nat)
    (c : Char)
    (v : Nat) : Prop :=
  v < base
    ∧ (smallDigits[v]? = some c ∨ capitalDigits[v]? = some c)

/- A smaller base has the first digits of base sixteen. -/
theorem value?_eq_some_iff_sixteen
    (hBase : base ≤ 16) :
    value? base c = some v ↔
      v < base ∧ value? 16 c = some v := by
  simp only [value?, Option.ite_none_right_eq_some,
    Option.some.injEq]
  split
  · omega
  · split
    · omega
    · split <;> omega

/- Each digit has its value, whatever size its letters are. -/
theorem value?_sixteen_of_mem
    (hc : smallDigits[v]? = some c ∨ capitalDigits[v]? = some c) :
    value? 16 c = some v := by
  have hAll :
      ∀ v : Fin 16,
        smallDigits[v.val]?.all (value? 16 · == some v.val)
          ∧ capitalDigits[v.val]?.all
            (value? 16 · == some v.val) := by
    decide
  have hv : v < 16 := by
    rcases hc with hc | hc
    · exact (List.getElem?_eq_some_iff.mp hc).1
    · exact (List.getElem?_eq_some_iff.mp hc).1
  rcases hAll ⟨v, hv⟩ with ⟨hSmall, hCapital⟩
  rcases hc with hc | hc
  · rw [hc] at hSmall
    exact eq_of_beq hSmall
  · rw [hc] at hCapital
    exact eq_of_beq hCapital

/- Nothing but a digit has a value. -/
theorem isDigitOf_of_value?
    (h : value? 16 c = some v) : IsDigitOf 16 c v := by
  have hChar : c = Char.ofNat c.toNat :=
    (Char.ofNat_toNat c).symm
  simp only [value?, Option.ite_none_right_eq_some,
    Option.some.injEq] at h
  rcases h with ⟨hLess, rfl⟩
  refine ⟨hLess, ?_⟩
  have hLetter {lo hi : Char} :
      lo ≤ c ∧ c ≤ hi ↔
        lo.toNat ≤ c.toNat ∧ c.toNat ≤ hi.toNat :=
    Iff.rfl
  simp only [hLetter, isDigit_iff] at hLess ⊢
  generalize c.toNat = n at *
  subst hChar
  split at hLess
  · next hDigit =>
      rw [if_pos hDigit]
      rcases hDigit with ⟨hFrom, hTo⟩
      interval_cases n <;> exact Or.inl rfl
  · next hDigit =>
      rw [if_neg hDigit]
      split at hLess
      · next hSmall =>
          rw [if_pos hSmall]
          rcases hSmall with ⟨hFrom, hTo⟩
          change 97 ≤ n at hFrom
          change n ≤ 102 at hTo
          interval_cases n <;> exact Or.inl rfl
      · next hSmall =>
          rw [if_neg hSmall]
          split at hLess
          · next hCapital =>
              rw [if_pos hCapital]
              rcases hCapital with ⟨hFrom, hTo⟩
              change 65 ≤ n at hFrom
              change n ≤ 70 at hTo
              interval_cases n <;> exact Or.inr rfl
          · exact absurd hLess (Nat.lt_irrefl 16)

theorem value?_eq_some_iff
    (hBase : base ≤ 16) :
    value? base c = some v ↔ IsDigitOf base c v := by
  rw [value?_eq_some_iff_sixteen hBase]
  constructor
  · rintro ⟨hLess, hValue⟩
    exact ⟨hLess, (isDigitOf_of_value? hValue).2⟩
  · rintro ⟨hLess, hDigit⟩
    exact ⟨hLess, value?_sixteen_of_mem hDigit⟩

end Digit

/- Results of a reader for every item of a list. -/
theorem mapM_eq_some_iff
    {A B : Type}
    {f : A → Option B}
    {xs : List A}
    {ys : List B} :
    xs.mapM f = some ys ↔
      List.Forall₂ (fun x y => f x = some y) xs ys := by
  induction xs generalizing ys with
  | nil =>
      rw [List.mapM_nil, List.forall₂_nil_left_iff]
      exact ⟨fun h => (Option.some.inj h).symm,
        fun h => h ▸ rfl⟩
  | cons x xs ih =>
      rw [List.mapM_cons, List.forall₂_cons_left_iff]
      simp only [Option.bind_eq_bind, Option.bind_eq_some_iff,
        Option.pure_def, Option.some.injEq, ih]
      constructor
      · rintro ⟨y, hy, zs, hzs, rfl⟩
        exact ⟨y, zs, hy, hzs, rfl⟩
      · rintro ⟨y, zs, hy, hzs, rfl⟩
        exact ⟨y, hy, zs, hzs, rfl⟩

------------------------------------------------------------
-- Signs
------------------------------------------------------------

/- An optional sign, and whether it is a minus sign. -/
inductive Signed : List Char → Bool → Prop
  | unsigned : Signed [] false
  | plus : Signed ['+'] false
  | minus : Signed ['-'] true

/- A text that does not start with a sign. -/
def Unsigned
    (rest : List Char) : Prop :=
  ∀ c, rest.head? = some c → c ≠ '-' ∧ c ≠ '+'

/- A sign that is there is taken. -/
theorem Signed.takeSign_append
    {sign : List Char}
    {negative : Bool}
    (h : Signed sign negative)
    (hRest : Unsigned rest) :
    DecimalLiteral.takeSign (sign ++ rest) =
      (negative, rest) := by
  cases h with
  | plus => rfl
  | minus => rfl
  | unsigned =>
      rw [List.nil_append]
      unfold DecimalLiteral.takeSign
      split
      · exact absurd rfl (hRest _ rfl).1
      · exact absurd rfl (hRest _ rfl).2
      · rfl

theorem exists_signed
    (cs : List Char) :
    ∃ sign,
      Signed sign (DecimalLiteral.takeSign cs).1
        ∧ cs = sign ++ (DecimalLiteral.takeSign cs).2 := by
  unfold DecimalLiteral.takeSign
  split
  · exact ⟨_, .minus, rfl⟩
  · exact ⟨_, .plus, rfl⟩
  · exact ⟨_, .unsigned, rfl⟩

/- Digits have no sign. -/
theorem unsigned_of_areDigits
    (h : Digit.AreDigits cs) : Unsigned cs := by
  intro c hc
  have hDigit := h c (List.mem_of_mem_head? hc)
  constructor
  · rintro rfl
    exact absurd hDigit (by decide)
  · rintro rfl
    exact absurd hDigit (by decide)

------------------------------------------------------------
-- Exponents
------------------------------------------------------------

/-
  An exponent with its mark and an optional sign, or none,
  which counts as zero.
-/
inductive ExponentPart : List Char → Int → Prop
  | absent : ExponentPart [] 0
  | present
      {mark : Char}
      {sign digits : List Char}
      {negative : Bool}
      (hMark : mark = 'e' ∨ mark = 'E')
      (hSign : Signed sign negative)
      (hNe : digits ≠ [])
      (hDigits : Digit.AreDigits digits) :
      ExponentPart (mark :: (sign ++ digits))
        (if negative then -(Digit.decimal digits : Int)
          else Digit.decimal digits)

theorem readExponent?_eq_some_iff
    {e : Int} :
    DecimalLiteral.readExponent? cs = some e ↔
      ExponentPart cs e := by
  constructor
  · intro h
    unfold DecimalLiteral.readExponent? at h
    split at h
    · cases h
      exact .absent
    · next mark rest =>
        split at h
        · next hMark =>
            rcases exists_signed rest with ⟨sign, hSign, hRest⟩
            generalize DecimalLiteral.takeSign rest = taken
              at *
            rcases taken with ⟨negative, digits⟩
            dsimp only at h hSign hRest
            split at h
            · cases h
            · next hDigits =>
                cases h
                rw [hRest]
                simp only [Bool.or_eq_true, beq_iff_eq]
                  at hMark
                simp only [Bool.or_eq_true,
                  List.isEmpty_iff, Bool.not_eq_true',
                  not_or, Bool.not_eq_false,
                  List.all_eq_true] at hDigits
                exact .present hMark hSign hDigits.1 hDigits.2
        · cases h
  · rintro (- | @⟨mark, sign, digits, negative, hMark, hSign,
      hNe, hDigits⟩)
    · rfl
    · have hIsMark : (mark == 'e' || mark == 'E') = true := by
        rcases hMark with rfl | rfl <;> rfl
      have hAll : digits.all Char.isDigit = true :=
        List.all_eq_true.mpr hDigits
      simp only [DecimalLiteral.readExponent?, hIsMark,
        hSign.takeSign_append (unsigned_of_areDigits hDigits),
        hAll]
      simp [hNe]

/- An exponent does not look like more of the digits. -/
theorem ExponentPart.head
    {e : Int}
    (h : ExponentPart cs e)
    (hc : cs.head? = some c) : c = 'e' ∨ c = 'E' := by
  cases h with
  | absent => cases hc
  | present hMark =>
      cases hc
      exact hMark

------------------------------------------------------------
-- Digits With A Point
------------------------------------------------------------

/-
  Digits with at most one point among them. A point in front
  has a digit after it.
-/
structure PlainNumeral where
  whole : List Char
  /- The digits after the point, if there is one. -/
  fraction? : Option (List Char)
  whole_digits : Digit.AreDigits whole
  fraction_digits :
    ∀ digits, fraction? = some digits → Digit.AreDigits digits
  point_in_front :
    whole = [] → ∃ d digits, fraction? = some (d :: digits)

/- A text that digits with a point do not go on with. -/
def EndsNumeral
    (rest : List Char) : Prop :=
  ∀ c, rest.head? = some c → c.isDigit = false ∧ c ≠ '.'

theorem ExponentPart.endsNumeral
    {e : Int}
    (h : ExponentPart cs e) : EndsNumeral cs := by
  intro c hc
  rcases h.head hc with rfl | rfl <;> decide

namespace PlainNumeral

def chars
    (n : PlainNumeral) : List Char :=
  match n.fraction? with
  | none => n.whole
  | some digits => n.whole ++ '.' :: digits

/- The decimal literal that a numeral is. -/
def literal
    (n : PlainNumeral) : DecimalLiteral :=
  ⟨n.whole, n.fraction?.getD [], 0⟩

/- The digits of a numeral are taken off a text. -/
theorem takeDigits_append
    (n : PlainNumeral)
    (hRest : EndsNumeral rest) :
    DecimalLiteral.takeDigits (n.chars ++ rest) =
      ((n.literal.whole, n.literal.fraction), rest) := by
  have hStops : ∀ c, rest.head? = some c → c.isDigit = false :=
    fun c hc => (hRest c hc).1
  unfold DecimalLiteral.takeDigits chars literal
  cases hFraction : n.fraction? with
  | none =>
      have ⟨hTake, hDrop⟩ := span_run n.whole_digits hStops
      dsimp only
      rw [hTake, hDrop]
      split
      · exact absurd rfl (hRest '.' rfl).2
      · rfl
  | some digits =>
      have ⟨hTake, hDrop⟩ :=
        span_run (n.fraction_digits digits hFraction) hStops
      have hWhole := n.whole_digits
      simp only [List.append_assoc, List.cons_append,
        List.takeWhile_append_of_pos hWhole,
        List.dropWhile_append_of_pos hWhole]
      simp [hTake, hDrop]

theorem mem_chars
    (n : PlainNumeral)
    (h : c ∈ n.chars) : c.isDigit = true ∨ c = '.' := by
  unfold chars at h
  split at h
  · exact Or.inl (n.whole_digits c h)
  · next digits hFraction =>
      rcases List.mem_append.mp h with h | h
      · exact Or.inl (n.whole_digits c h)
      · rcases List.mem_cons.mp h with h | h
        · exact Or.inr h
        · exact Or.inl
            (n.fraction_digits digits hFraction c h)

theorem chars_ne_nil
    (n : PlainNumeral) : n.chars ≠ [] := by
  intro hNil
  unfold chars at hNil
  split at hNil
  · next hNone =>
      rcases n.point_in_front hNil with ⟨d, digits, hSome⟩
      rw [hNone] at hSome
      cases hSome
  · exact absurd hNil (by simp)

/- A numeral has digits on one side of the point. -/
theorem literal_ne_nil
    (n : PlainNumeral) :
    (n.literal.whole.isEmpty && n.literal.fraction.isEmpty)
      = false := by
  rw [Bool.and_eq_false_iff]
  cases hWhole : n.whole with
  | nil =>
      rcases n.point_in_front hWhole with
        ⟨d, digits, hFraction⟩
      right
      rw [literal, hFraction]
      rfl
  | cons d digits =>
      left
      rw [literal, hWhole]
      rfl

end PlainNumeral

/- What is taken in front of a text is a numeral. -/
theorem exists_plainNumeral
    {whole fraction : List Char}
    (h : DecimalLiteral.takeDigits cs =
      ((whole, fraction), rest))
    (hNe : (whole.isEmpty && fraction.isEmpty) = false) :
    ∃ n : PlainNumeral, cs = n.chars ++ rest
      ∧ n.literal.whole = whole
      ∧ n.literal.fraction = fraction := by
  have hSplit :
      cs.takeWhile Char.isDigit ++ cs.dropWhile Char.isDigit
        = cs :=
    List.takeWhile_append_dropWhile
  have hDigits (cs : List Char) :
      Digit.AreDigits (cs.takeWhile Char.isDigit) :=
    fun c hc => List.mem_takeWhile_imp hc
  unfold DecimalLiteral.takeDigits at h
  split at h
  · next after hPoint =>
      cases h
      refine ⟨⟨cs.takeWhile Char.isDigit,
        some (after.takeWhile Char.isDigit), hDigits cs, ?_,
        ?_⟩, ?_, rfl, rfl⟩
      · rintro digits ⟨⟩
        exact hDigits after
      · intro hNil
        rw [hNil] at hNe
        cases hAfter : after.takeWhile Char.isDigit with
        | nil =>
            rw [hAfter] at hNe
            cases hNe
        | cons d digits => exact ⟨d, digits, rfl⟩
      · rw [PlainNumeral.chars, List.append_assoc,
          List.cons_append, List.takeWhile_append_dropWhile,
          ← hPoint, hSplit]
  · cases h
    refine ⟨⟨cs.takeWhile Char.isDigit, none, hDigits cs,
      nofun, fun hNil => ?_⟩, hSplit.symm, rfl, rfl⟩
    rw [hNil] at hNe
    cases hNe

/- Decimal literals are read from what they are written as. -/
theorem DecimalLiteral.read?_eq_some_iff
    {d : DecimalLiteral} :
    read? cs = some d ↔
      ∃ (n : PlainNumeral) (tail : List Char) (e : Int),
        cs = n.chars ++ tail ∧ ExponentPart tail e
          ∧ d = ⟨n.literal.whole, n.literal.fraction, e⟩ := by
  constructor
  · intro h
    unfold read? at h
    split at h
    next whole fraction tail hTake =>
      split at h
      · cases h
      · next hNe =>
          rcases exists_plainNumeral hTake
              (Bool.not_eq_true _ ▸ hNe) with
            ⟨n, hChars, rfl, rfl⟩
          rcases Option.map_eq_some_iff.mp h with
            ⟨e, hExponent, rfl⟩
          exact ⟨n, tail, e, hChars,
            readExponent?_eq_some_iff.mp hExponent, rfl⟩
  · rintro ⟨n, tail, e, rfl, hExponent, rfl⟩
    rw [read?, n.takeDigits_append hExponent.endsNumeral]
    dsimp only
    rw [n.literal_ne_nil,
      readExponent?_eq_some_iff.mpr hExponent]
    rfl

------------------------------------------------------------
-- Numerals
------------------------------------------------------------

/- The letter that announces a base, in either size. -/
inductive BaseMarker : Char → Nat → Prop
  | smallX : BaseMarker 'x' 16
  | capitalX : BaseMarker 'X' 16
  | smallO : BaseMarker 'o' 8
  | capitalO : BaseMarker 'O' 8
  | smallB : BaseMarker 'b' 2
  | capitalB : BaseMarker 'B' 2

variable {base : Nat}

theorem BaseMarker.le_sixteen
    (h : BaseMarker c base) : base ≤ 16 := by
  cases h <;> decide

namespace Numeral

/- Characters of ASCII that are printed are not padding. -/
theorem isPadding_of_visible
    (h : 33 ≤ c.toNat ∧ c.toNat ≤ 126) :
    isPadding c = false := by
  have hMark : c = '\ufeff' ↔ c.toNat = 0xfeff :=
    Char.toNat_inj.symm
  rw [isPadding, isBlank_of_visible h, Bool.false_or,
    beq_eq_false_iff_ne, ne_eq, hMark]
  omega

theorem baseOf?_eq_some_iff :
    baseOf? c = some base ↔ BaseMarker c base := by
  constructor
  · intro h
    unfold baseOf? at h
    simp only [Bool.or_eq_true, beq_iff_eq] at h
    split at h
    · next hc =>
        cases h
        rcases hc with rfl | rfl
        · exact .smallX
        · exact .capitalX
    · split at h
      · next hc =>
          cases h
          rcases hc with rfl | rfl
          · exact .smallO
          · exact .capitalO
      · split at h
        · next hc =>
            cases h
            rcases hc with rfl | rfl
            · exact .smallB
            · exact .capitalB
        · cases h
  · rintro ⟨⟩ <;> rfl

/-
  How numerals are written: not at all, with digits of a
  base after a zero and the letter of the base, as `Infinity`
  with an optional sign, or as a decimal literal with an
  optional sign and an optional exponent.
-/
inductive Written : Numeral → List Char → Prop
  | blank : Written .blank []
  | radix
      {marker : Char}
      {base : Nat}
      {digits : List Char}
      {values : List Nat}
      (hMarker : BaseMarker marker base)
      (hNe : digits ≠ [])
      (hDigits :
        List.Forall₂ (Digit.IsDigitOf base) digits values) :
      Written (.radix base values) ('0' :: marker :: digits)
  | infinity
      {sign : List Char}
      {negative : Bool}
      (hSign : Signed sign negative) :
      Written (.infinity negative)
        (sign ++ "Infinity".toList)
  | decimal
      {sign tail : List Char}
      {negative : Bool}
      {e : Int}
      (hSign : Signed sign negative)
      (n : PlainNumeral)
      (hExponent : ExponentPart tail e) :
      Written
        (.decimal negative
          ⟨n.literal.whole, n.literal.fraction, e⟩)
        (sign ++ (n.chars ++ tail))

variable {n : Numeral}

theorem mapM_value?_eq_some_iff
    {values : List Nat}
    (hMarker : BaseMarker c base) :
    cs.mapM (Digit.value? base) = some values ↔
      List.Forall₂ (Digit.IsDigitOf base) cs values := by
  simp only [mapM_eq_some_iff,
    Digit.value?_eq_some_iff hMarker.le_sixteen]

theorem readRadix?_eq_some_iff
    (hMarker : BaseMarker c base) :
    readRadix? base cs = some n ↔
      ∃ values, cs ≠ []
        ∧ List.Forall₂ (Digit.IsDigitOf base) cs values
        ∧ n = .radix base values := by
  unfold readRadix?
  split
  · next hEmpty =>
      rw [List.isEmpty_iff] at hEmpty
      exact iff_of_false nofun fun ⟨_, hNe, _⟩ => hNe hEmpty
  · next hNe =>
      rw [List.isEmpty_iff] at hNe
      simp only [Option.map_eq_some_iff,
        mapM_value?_eq_some_iff hMarker]
      constructor
      · rintro ⟨values, hValues, rfl⟩
        exact ⟨values, hNe, hValues, rfl⟩
      · rintro ⟨values, -, hValues, rfl⟩
        exact ⟨values, hValues, rfl⟩

/- What starts a numeral without a sign. -/
theorem unsigned_infinity : Unsigned "Infinity".toList := by
  rintro c ⟨⟩
  decide

/- A decimal literal starts with a digit or a point. -/
theorem head_literal
    (m : PlainNumeral)
    (hc : (m.chars ++ rest).head? = some c) :
    c.isDigit = true ∨ c = '.' := by
  rw [List.head?_append_of_ne_nil _ m.chars_ne_nil] at hc
  exact m.mem_chars (List.mem_of_mem_head? hc)

theorem unsigned_literal
    (m : PlainNumeral)
    (rest : List Char) : Unsigned (m.chars ++ rest) := by
  intro c hc
  have hHead := head_literal m hc
  constructor
  · rintro rfl
    exact absurd hHead (by decide)
  · rintro rfl
    exact absurd hHead (by decide)

/-
  With a sign, or without, there are two kinds of numerals.
-/
theorem readSigned?_eq_some_iff :
    readSigned? cs = some n ↔
      (∃ sign negative, Signed sign negative
        ∧ cs = sign ++ "Infinity".toList
        ∧ n = .infinity negative)
      ∨ ∃ sign negative tail e, ∃ m : PlainNumeral,
        Signed sign negative ∧ ExponentPart tail e
        ∧ cs = sign ++ (m.chars ++ tail)
        ∧ n = .decimal negative
          ⟨m.literal.whole, m.literal.fraction, e⟩ := by
  constructor
  · intro h
    rcases exists_signed cs with ⟨sign, hSign, hSplit⟩
    unfold readSigned? at h
    generalize DecimalLiteral.takeSign cs = taken at *
    rcases taken with ⟨negative, unsigned⟩
    dsimp only at h hSign hSplit
    split at h
    · next hInfinity =>
        cases h
        rw [hInfinity] at hSplit
        exact Or.inl ⟨sign, negative, hSign, hSplit, rfl⟩
    · rcases Option.map_eq_some_iff.mp h with ⟨d, hRead, rfl⟩
      rcases DecimalLiteral.read?_eq_some_iff.mp hRead with
        ⟨m, tail, e, rfl, hExponent, rfl⟩
      exact Or.inr ⟨sign, negative, tail, e, m, hSign,
        hExponent, hSplit, rfl⟩
  · rintro (⟨sign, negative, hSign, rfl, rfl⟩
      | ⟨sign, negative, tail, e, m, hSign, hExponent, rfl,
        rfl⟩)
    · rw [readSigned?, hSign.takeSign_append unsigned_infinity]
      rfl
    · have hRead :=
        DecimalLiteral.read?_eq_some_iff.mpr
          ⟨m, tail, e, rfl, hExponent, rfl⟩
      have hNot : m.chars ++ tail ≠ "Infinity".toList := by
        intro hEq
        have hHead : (m.chars ++ tail).head? = some 'I' :=
          congrArg List.head? hEq
        exact absurd (head_literal m hHead) (by decide)
      rw [readSigned?,
        hSign.takeSign_append (unsigned_literal m tail)]
      dsimp only
      rw [if_neg hNot, hRead]
      rfl

/- No letter of a base follows the first digit of them. -/
theorem baseOf?_second
    {tail : List Char}
    {e : Int}
    {d : Char}
    (m : PlainNumeral)
    (hExponent : ExponentPart tail e)
    (h : m.chars ++ tail = d :: c :: rest) :
    baseOf? c = none := by
  have hSecond :
      c.isDigit = true ∨ c = '.' ∨ c = 'e' ∨ c = 'E' := by
    cases hChars : m.chars with
    | nil => exact absurd hChars m.chars_ne_nil
    | cons first more =>
        rw [hChars] at h
        cases more with
        | nil =>
            cases h
            exact Or.inr (Or.inr (hExponent.head rfl))
        | cons second more =>
            cases h
            exact (m.mem_chars (by rw [hChars]; simp)).imp_right
              Or.inl
  cases hBase : baseOf? c with
  | none => rfl
  | some base =>
      cases baseOf?_eq_some_iff.mp hBase <;>
        exact absurd hSecond (by decide)

/- So nothing in front of it is taken for a base. -/
theorem readBare?_literal
    {sign tail : List Char}
    {negative : Bool}
    {e : Int}
    (hSign : Signed sign negative)
    (m : PlainNumeral)
    (hExponent : ExponentPart tail e) :
    readBare? (sign ++ (m.chars ++ tail)) =
      readSigned? (sign ++ (m.chars ++ tail)) := by
  cases hSign with
  | plus => rfl
  | minus => rfl
  | unsigned =>
      rw [List.nil_append]
      unfold readBare?
      split
      · next hNil =>
          exact absurd (List.append_eq_nil_iff.mp hNil).1
            m.chars_ne_nil
      · next c rest hCons =>
          rw [baseOf?_second m hExponent hCons, hCons]
      · rfl

/- A text without padding is read as the grammar says. -/
theorem readBare?_eq_some_iff :
    readBare? cs = some n ↔ n.Written cs := by
  constructor
  · intro h
    have hSigned {cs : List Char}
        (h : readSigned? cs = some n) : n.Written cs := by
      rcases readSigned?_eq_some_iff.mp h with
        ⟨sign, negative, hSign, rfl, rfl⟩
          | ⟨sign, negative, tail, e, m, hSign, hExponent, rfl,
            rfl⟩
      · exact .infinity hSign
      · exact .decimal hSign m hExponent
    unfold readBare? at h
    split at h
    · cases h
      exact .blank
    · split at h
      · next base hBase =>
          have hMarker := baseOf?_eq_some_iff.mp hBase
          rcases (readRadix?_eq_some_iff hMarker).mp h with
            ⟨values, hNe, hDigits, rfl⟩
          exact .radix hMarker hNe hDigits
      · exact hSigned h
    · exact hSigned h
  · intro h
    cases h with
    | blank => rfl
    | radix hMarker hNe hDigits =>
        simp only [readBare?, baseOf?_eq_some_iff.mpr hMarker]
        exact (readRadix?_eq_some_iff hMarker).mpr
          ⟨_, hNe, hDigits, rfl⟩
    | infinity hSign => cases hSign <;> rfl
    | decimal hSign m hExponent =>
        rw [readBare?_literal hSign m hExponent]
        exact readSigned?_eq_some_iff.mpr
          (Or.inr ⟨_, _, _, _, m, hSign, hExponent, rfl, rfl⟩)

end Numeral

------------------------------------------------------------
-- Printed Characters
------------------------------------------------------------

theorem Digit.visible_of_isDigit
    (h : c.isDigit = true) :
    33 ≤ c.toNat ∧ c.toNat ≤ 126 := by
  rw [isDigit_iff] at h
  omega

theorem Digit.IsDigitOf.visible
    {v : Nat}
    (h : IsDigitOf base c v) :
    33 ≤ c.toNat ∧ c.toNat ≤ 126 := by
  have hLetter {lo hi : Char} :
      lo ≤ c ∧ c ≤ hi ↔
        lo.toNat ≤ c.toNat ∧ c.toNat ≤ hi.toNat :=
    Iff.rfl
  have hValue := value?_sixteen_of_mem h.2
  simp only [value?, Option.ite_none_right_eq_some, hLetter,
    isDigit_iff] at hValue
  rcases hValue with ⟨hLess, -⟩
  split at hLess
  · omega
  · split at hLess
    · next hSmall =>
        change 97 ≤ c.toNat ∧ c.toNat ≤ 102 at hSmall
        omega
    · split at hLess
      · next hCapital =>
          change 65 ≤ c.toNat ∧ c.toNat ≤ 70 at hCapital
          omega
      · exact absurd hLess (Nat.lt_irrefl 16)

theorem Signed.visible
    {negative : Bool}
    (h : Signed cs negative)
    (hc : c ∈ cs) : 33 ≤ c.toNat ∧ c.toNat ≤ 126 := by
  cases h with
  | unsigned => cases hc
  | plus => cases List.mem_singleton.mp hc; decide
  | minus => cases List.mem_singleton.mp hc; decide

theorem ExponentPart.visible
    {e : Int}
    (h : ExponentPart cs e)
    (hc : c ∈ cs) : 33 ≤ c.toNat ∧ c.toNat ≤ 126 := by
  cases h with
  | absent => cases hc
  | present hMark hSign hNe hDigits =>
      rcases List.mem_cons.mp hc with rfl | hc
      · rcases hMark with rfl | rfl <;> decide
      · rcases List.mem_append.mp hc with hc | hc
        · exact hSign.visible hc
        · exact Digit.visible_of_isDigit (hDigits c hc)

/- All characters of a numeral are printed ones of ASCII. -/
theorem Numeral.Written.visible
    {n : Numeral}
    (h : n.Written cs)
    (hc : c ∈ cs) : 33 ≤ c.toNat ∧ c.toNat ≤ 126 := by
  cases h with
  | blank => cases hc
  | @radix marker base digits values hMarker hNe hDigits =>
      have hEach :
          List.Forall₂
            (fun d v =>
              (33 ≤ d.toNat ∧ d.toNat ≤ 126)
                ∧ Digit.IsDigitOf base d v)
            digits values :=
        hDigits.imp fun _ _ hDigit => ⟨hDigit.visible, hDigit⟩
      have hAll :=
        ((List.forall₂_and_left digits values).mp hEach).1
      rcases List.mem_cons.mp hc with rfl | hc
      · decide
      · rcases List.mem_cons.mp hc with rfl | hc
        · cases hMarker <;> decide
        · exact hAll c hc
  | infinity hSign =>
      have hWord :
          "Infinity".toList.all (fun d =>
            decide (33 ≤ d.toNat ∧ d.toNat ≤ 126)) = true := by
        rfl
      rcases List.mem_append.mp hc with hc | hc
      · exact hSign.visible hc
      · exact of_decide_eq_true
          (List.all_eq_true.mp hWord c hc)
  | decimal hSign m hExponent =>
      rcases List.mem_append.mp hc with hc | hc
      · exact hSign.visible hc
      · rcases List.mem_append.mp hc with hc | hc
        · rcases m.mem_chars hc with hDigit | rfl
          · exact Digit.visible_of_isDigit hDigit
          · decide
        · exact hExponent.visible hc

------------------------------------------------------------
-- Texts
------------------------------------------------------------

/- A text stands for the number that is written in it. -/
theorem parseNumber_eq_some_iff
    {text : String}
    {x : Float} :
    parseNumber text = some x ↔
      ∃ n : Numeral,
        n.Written (Blank.trimBy Numeral.isPadding text.toList)
          ∧ n.value = x := by
  simp only [parseNumber, Numeral.read?,
    Option.map_eq_some_iff, Numeral.readBare?_eq_some_iff]

/- A numeral without padding stands for its value. -/
theorem parseNumber_of_written
    {n : Numeral}
    (h : n.Written cs) :
    parseNumber (String.ofList cs) = some n.value := by
  have hKept : ∀ c ∈ cs, Numeral.isPadding c = false :=
    fun c hc => Numeral.isPadding_of_visible (h.visible hc)
  have hCore := (Blank.trimmed_self hKept).eq_trimBy
  rw [parseNumber_eq_some_iff, String.toList_ofList, ← hCore]
  exact ⟨n, h, rfl⟩

/- Whether it stands for one does not depend on which. -/
theorem isSome_parseNumber_iff
    {text : String} :
    (parseNumber text).isSome = true ↔
      ∃ n : Numeral,
        n.Written
          (Blank.trimBy Numeral.isPadding text.toList) := by
  simp only [Option.isSome_iff_exists,
    parseNumber_eq_some_iff]
  exact ⟨fun ⟨_, n, h, _⟩ => ⟨n, h⟩,
    fun ⟨n, h⟩ => ⟨_, n, h, rfl⟩⟩

/- Blanks in front or after do not matter to it. -/
theorem isSome_parseNumber_trim
    (text : String) :
    (parseNumber
        (String.ofList (Blank.trim text.toList))).isSome =
      (parseNumber text).isSome := by
  have hMore (c : Char) (hc : Blank.isBlank c = true) :
      Numeral.isPadding c = true := by
    rw [Numeral.isPadding, hc, Bool.true_or]
  rw [Bool.eq_iff_iff, isSome_parseNumber_iff,
    isSome_parseNumber_iff, String.toList_ofList, Blank.trim,
    Blank.trimBy_trimBy hMore]

/- A text that is not blank leaves something when trimmed. -/
theorem Blank.trim_eq_nil_iff :
    Blank.trim cs = [] ↔ ∀ c ∈ cs, Blank.isBlank c = true := by
  constructor
  · intro hNil c hc
    rcases (trimmed_trimBy isBlank cs).surrounded with
      ⟨before, after, hSplit, hBefore, hAfter⟩
    rw [trim] at hNil
    rw [hSplit, hNil] at hc
    exact (List.mem_append.mp hc).elim (hBefore c) (hAfter c)
  · intro hBlank
    rw [trim, trimBy, List.dropWhile_eq_nil_iff.mpr hBlank]
    rfl

/- No numeral starts with an equals sign. -/
theorem Numeral.Written.head_ne_equals
    {n : Numeral}
    (h : n.Written cs) : cs.head? ≠ some '=' := by
  have hSigned {sign rest : List Char} {negative : Bool}
      (hSign : Signed sign negative)
      (hHead : rest.head? ≠ some '=') :
      (sign ++ rest).head? ≠ some '=' := by
    cases hSign with
    | plus => exact (by decide : some '+' ≠ some '=')
    | minus => exact (by decide : some '-' ≠ some '=')
    | unsigned => exact hHead
  cases h with
  | blank => nofun
  | radix => exact (by decide : some '0' ≠ some '=')
  | infinity hSign =>
      exact hSigned hSign (by decide : some 'I' ≠ some '=')
  | decimal hSign m =>
      refine hSigned hSign fun hHead => ?_
      exact absurd (head_literal m hHead) (by decide)

/- So a formula is no number. -/
theorem isSome_parseNumber_equals
    (cs : List Char) :
    (parseNumber (String.ofList ('=' :: cs))).isSome
      = false := by
  have hTrimmed :=
    Blank.trimmed_trimBy Numeral.isPadding ('=' :: cs)
  rw [Bool.eq_false_iff, ne_eq, isSome_parseNumber_iff,
    String.toList_ofList]
  generalize Blank.trimBy Numeral.isPadding ('=' :: cs) = core
    at *
  rintro ⟨n, hWritten⟩
  rcases hTrimmed.surrounded with
    ⟨before, after, hSplit, hBefore, hAfter⟩
  have hKept : Numeral.isPadding '=' = false := by
    decide
  cases before with
  | cons b before =>
      cases hSplit
      exact absurd (hBefore '=' List.mem_cons_self)
        (Bool.eq_false_iff.mp hKept)
  | nil =>
      cases core with
      | cons c core =>
          cases hSplit
          exact hWritten.head_ne_equals rfl
      | nil =>
          rw [List.nil_append, List.nil_append] at hSplit
          subst hSplit
          exact absurd (hAfter '=' List.mem_cons_self)
            (Bool.eq_false_iff.mp hKept)

/- Typed input is a number if its text stands for one. -/
theorem Edit.exists_classify_eq_number_iff
    (text : String) :
    (∃ x, classify text = .literal (.number x)) ↔
      Blank.trim text.toList ≠ []
        ∧ (parseNumber
          (String.ofList (Blank.trim text.toList))).isSome =
            true := by
  unfold classify
  generalize Blank.trim text.toList = cs
  dsimp only
  split
  · exact iff_of_false nofun fun h => h.1 rfl
  · next cs =>
      refine iff_of_false nofun fun h => ?_
      rw [isSome_parseNumber_equals] at h
      exact Bool.false_ne_true h.2
  · next hNe hNotFormula =>
      split
      · next x hNumber =>
          rw [hNumber]
          exact iff_of_true ⟨x, rfl⟩ ⟨hNe, rfl⟩
      · next hNone =>
          rw [hNone]
          refine iff_of_false ?_ fun h => nomatch h.2
          split
          · nofun
          · split <;> nofun

/-
  The texts that are taken for numbers are those of the
  grammar. A text has one part between the padding at its
  ends, and the text stands for a number just in case that
  part is a numeral as it is written. Then a value with the
  text counts as a number, and so does typed input with the
  text once blanks are dropped from it, unless that leaves
  nothing.
-/
theorem parseNumber_accepts
    (text : String) :
    ∃ core,
      Blank.Trimmed Numeral.isPadding text.toList core
      ∧ (∀ other,
        Blank.Trimmed Numeral.isPadding text.toList other →
          other = core)
      ∧ ((parseNumber text).isSome = true ↔
        ∃ n : Numeral, n.Written core)
      ∧ ((Value.text text).isNumeric = true ↔
        ∃ n : Numeral, n.Written core)
      ∧ ((parseNumber
          (String.ofList (Blank.trim text.toList))).isSome =
            true ↔ ∃ n : Numeral, n.Written core)
      ∧ ((∃ x, Edit.classify text = .literal (.number x)) ↔
        (∃ c ∈ text.toList, Blank.isBlank c = false)
          ∧ ∃ n : Numeral, n.Written core) := by
  have hNotBlank :
      Blank.trim text.toList ≠ [] ↔
        ∃ c ∈ text.toList, Blank.isBlank c = false := by
    rw [ne_eq, Blank.trim_eq_nil_iff]
    simp only [not_forall, Bool.not_eq_true, exists_prop]
  refine ⟨_, Blank.trimmed_trimBy _ _,
    fun _ => Blank.Trimmed.eq_trimBy, isSome_parseNumber_iff,
    isSome_parseNumber_iff, ?_, ?_⟩
  · rw [isSome_parseNumber_trim]
    exact isSome_parseNumber_iff
  · rw [Edit.exists_classify_eq_number_iff,
      isSome_parseNumber_trim, isSome_parseNumber_iff,
      hNotBlank]

/- A byte order mark alone is an edit to zero, not a clear. -/
example : Edit.classify "\ufeff" = .literal (.number 0) := by
  decide

end Spreadsheet
