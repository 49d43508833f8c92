import Mathlib.Data.List.TakeWhile
import Spreadsheet.Text.Blank

/-
  Trimming. What is left of a text between the characters of
  a class at its ends is what trimming leaves, and there is
  just one such part of a text.

  Main declarations:
    * `Blank.Trimmed`
    * `Blank.trimmed_iff`
-/

namespace Spreadsheet

/- Characters of ASCII that are printed are not blank. -/
theorem isBlank_of_visible
    {c : Char}
    (h : 33 ≤ c.toNat ∧ c.toNat ≤ 126) :
    Blank.isBlank c = false := by
  simp only [Blank.isBlank, Bool.or_eq_false_iff,
    Bool.and_eq_false_iff, decide_eq_false_iff_not,
    beq_eq_false_iff_ne]
  omega

namespace Blank

variable {drops : Char → Bool}
variable {cs core : List Char}

/-
  What a text is without the characters of a class at either
  end.
-/
structure Trimmed
    (drops : Char → Bool)
    (cs core : List Char) : Prop where
  surrounded :
    ∃ before after, cs = before ++ (core ++ after)
      ∧ (∀ c ∈ before, drops c = true)
      ∧ ∀ c ∈ after, drops c = true
  head_kept : ∀ c, core.head? = some c → drops c = false
  last_kept : ∀ c, core.getLast? = some c → drops c = false

/- What is dropped off a front does not come back. -/
theorem head?_dropWhile
    (cs : List Char)
    {c : Char}
    (h : (cs.dropWhile drops).head? = some c) :
    drops c = false := by
  have hHead := List.head?_dropWhile_not drops cs
  rw [h] at hHead
  exact hHead

/- A text that is kept at its front is not shortened. -/
theorem dropWhile_of_head_kept
    (h : ∀ c, cs.head? = some c → drops c = false) :
    cs.dropWhile drops = cs := by
  cases cs with
  | nil => rfl
  | cons c cs => rw [List.dropWhile_cons, h c rfl]; rfl

theorem trimmed_trimBy
    (drops : Char → Bool)
    (cs : List Char) : Trimmed drops cs (trimBy drops cs) := by
  have hFront :
      cs.takeWhile drops ++ cs.dropWhile drops = cs :=
    List.takeWhile_append_dropWhile
  have hBack :
      trimBy drops cs
          ++ ((cs.dropWhile drops).reverse.takeWhile
            drops).reverse =
        cs.dropWhile drops := by
    rw [trimBy, ← List.reverse_append,
      List.takeWhile_append_dropWhile, List.reverse_reverse]
  refine ⟨⟨_, _, by rw [hBack, hFront], fun c hc => ?_,
    fun c hc => ?_⟩, fun c hHead => ?_, fun c hLast => ?_⟩
  · exact List.mem_takeWhile_imp hc
  · exact List.mem_takeWhile_imp (List.mem_reverse.mp hc)
  · apply head?_dropWhile cs
    rw [← hBack, List.head?_append, hHead]
    rfl
  · rw [trimBy, List.getLast?_reverse] at hLast
    exact head?_dropWhile _ hLast

/- There is one way to trim a text. -/
theorem Trimmed.eq_trimBy
    (h : Trimmed drops cs core) : core = trimBy drops cs := by
  rcases h with
    ⟨⟨before, after, rfl, hBefore, hAfter⟩, hHead, hLast⟩
  have hReversed :
      core.reverse.dropWhile drops = core.reverse := by
    apply dropWhile_of_head_kept
    intro c hc
    rw [List.head?_reverse] at hc
    exact hLast c hc
  unfold trimBy
  rw [List.dropWhile_append_of_pos hBefore]
  cases core with
  | nil =>
      rw [List.nil_append, List.dropWhile_eq_nil_iff.mpr hAfter]
      rfl
  | cons c core =>
      have hKept :
          (c :: core ++ after).dropWhile drops =
            c :: core ++ after :=
        dropWhile_of_head_kept hHead
      rw [hKept, List.reverse_append,
        List.dropWhile_append_of_pos fun d hd =>
          hAfter d (List.mem_reverse.mp hd),
        hReversed, List.reverse_reverse]

/- A text is kept if all of its characters are. -/
theorem trimmed_self
    (h : ∀ c ∈ cs, drops c = false) : Trimmed drops cs cs :=
  ⟨⟨[], [], (List.append_nil cs).symm, nofun, nofun⟩,
    fun c hc => h c (List.mem_of_mem_head? hc),
    fun c hc => h c (List.mem_of_mem_getLast? hc)⟩

/- So trimming is told from its result. -/
theorem trimmed_iff :
    Trimmed drops cs core ↔ core = trimBy drops cs :=
  ⟨Trimmed.eq_trimBy, fun h => h ▸ trimmed_trimBy drops cs⟩

/-
  A class with more characters may be dropped after one with
  fewer.
-/
theorem trimBy_trimBy
    {drops' : Char → Bool}
    (hMore : ∀ c, drops c = true → drops' c = true)
    (cs : List Char) :
    trimBy drops' (trimBy drops cs) = trimBy drops' cs := by
  rcases (trimmed_trimBy drops cs).surrounded with
    ⟨before, after, hOuter, hBefore, hAfter⟩
  rcases trimmed_trimBy drops' (trimBy drops cs) with
    ⟨⟨before', after', hInner, hBefore', hAfter'⟩, hHead,
      hLast⟩
  refine trimmed_iff.mp ⟨⟨before ++ before', after' ++ after,
    ?_, fun c hc => ?_, fun c hc => ?_⟩, hHead, hLast⟩
  · rw [hInner] at hOuter
    simpa only [List.append_assoc] using hOuter
  · exact (List.mem_append.mp hc).elim
      (fun h => hMore c (hBefore c h)) (hBefore' c)
  · exact (List.mem_append.mp hc).elim (hAfter' c)
      fun h => hMore c (hAfter c h)

end Blank

end Spreadsheet
