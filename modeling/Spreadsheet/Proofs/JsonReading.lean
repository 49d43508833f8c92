import Spreadsheet.Proofs.FileFormats
import Spreadsheet.Proofs.FiniteDoubles

/-
  Every number in a value that is read is finite. The value
  of a numeral is, and a step of the reader only moves
  values from tokens into the lists and objects that are
  open, so it is by induction on the tokens.

  Main declarations:
    * `Json.Reader.IsFinite`
    * `Json.Reader.IsFinite.step?`
    * `Json.isFinite_of_read?`
-/

namespace Spreadsheet

namespace Json

------------------------------------------------------------
-- Numerals
------------------------------------------------------------

theorem isFinite_value
    (d : Numeral) : d.value.IsFinite := by
  rcases Numeral.value_cases d with
    ⟨n, hn, hValue⟩ | ⟨x, hx, hValue⟩ | hValue
  · rw [hValue]
    exact hn
  · rw [hValue]
    exact hx
  · rw [hValue]
    trivial

------------------------------------------------------------
-- Tokens
------------------------------------------------------------

/- Whether the value of a token has finite numbers. -/
def Token.IsFinite : Token → Prop
  | .plain v => v.IsFinite
  | _ => True

theorem Token.isFinite_of_takeWord?
    {cs after : List Char}
    {token : Token}
    (h : Token.takeWord? cs = some (token, after)) :
    token.IsFinite := by
  unfold takeWord? at h
  repeat' split at h
  all_goals
    simp only [Option.some.injEq, Prod.mk.injEq,
      reduceCtorEq] at h
  all_goals
    rw [← h.1]
    trivial

theorem Token.isFinite_of_take?
    {cs after : List Char}
    {token : Token}
    (h : Token.take? cs = some (token, after)) :
    token.IsFinite := by
  unfold take? at h
  split at h
  · simp at h
  · next c rest =>
      split at h
      · next hPunctuation =>
          simp only [Option.some.injEq, Prod.mk.injEq] at h
          rw [← h.1]
          unfold punctuation? at hPunctuation
          split at hPunctuation
          all_goals
            simp only [Option.some.injEq, reduceCtorEq]
              at hPunctuation
          all_goals
            rw [← hPunctuation]
            trivial
      · split at h
        · simp only [Option.map_eq_some_iff,
            Prod.mk.injEq, Prod.exists] at h
          rcases h with ⟨codes, _, _, rfl, _⟩
          trivial
        · split at h
          · simp only [Option.map_eq_some_iff,
              Prod.mk.injEq, Prod.exists] at h
            rcases h with ⟨d, _, _, rfl, _⟩
            exact isFinite_value d
          · exact isFinite_of_takeWord? h

theorem isFinite_of_tokens?
    {cs : List Char}
    {tokens : List Token}
    (h : tokens? cs = some tokens) :
    ∀ token ∈ tokens, token.IsFinite := by
  fun_induction tokens? cs generalizing tokens with
  | case1 cs hNil =>
      rw [← Option.some.inj h]
      simp
  | case2 cs c rest hCons hNone => simp at h
  | case3 cs c rest hCons token after hTake ih =>
      rcases Option.map_eq_some_iff.mp h with
        ⟨others, hOthers, rfl⟩
      intro t ht
      rcases List.mem_cons.mp ht with rfl | ht
      · exact Token.isFinite_of_take? hTake
      · exact ih hOthers t ht

------------------------------------------------------------
-- Readers
------------------------------------------------------------

/- Whether the values held in a frame have finite numbers. -/
def Frame.IsFinite : Frame → Prop
  | .list before => ∀ v ∈ before, v.IsFinite
  | .object before _ => ∀ p ∈ before, p.2.IsFinite

/- Whether the values held by a reader have finite numbers. -/
def Reader.IsFinite : Reader → Prop
  | .value stack => ∀ f ∈ stack, f.IsFinite
  | .listStart stack => ∀ f ∈ stack, f.IsFinite
  | .objectStart stack => ∀ f ∈ stack, f.IsFinite
  | .name before stack =>
      (∀ p ∈ before, p.2.IsFinite)
        ∧ ∀ f ∈ stack, f.IsFinite
  | .colon before _ stack =>
      (∀ p ∈ before, p.2.IsFinite)
        ∧ ∀ f ∈ stack, f.IsFinite
  | .after v stack => v.IsFinite ∧ ∀ f ∈ stack, f.IsFinite

theorem isFinite_ofText
    (s : Option String) : (ofText s).IsFinite := by
  cases s <;> trivial

theorem isFinite_ofFields
    {fields : List Field}
    (h : ∀ p ∈ fields, p.2.IsFinite) :
    (ofFields fields).IsFinite := by
  cases hNamed :
      fields.mapM
        (fun p : Field => p.1.map fun name => (name, p.2))
    with
  | none =>
      simp only [ofFields, hNamed]
      trivial
  | some named =>
      simp only [ofFields, hNamed]
      apply (areFieldsFinite_iff named).mpr
      intro q hq
      rcases mem_of_mapM hNamed hq with ⟨p, hp, hPair⟩
      rcases Option.map_eq_some_iff.mp hPair with
        ⟨name, -, rfl⟩
      exact h p hp

theorem Reader.IsFinite.begin?
    {stack : List Frame}
    {token : Token}
    {next : Reader}
    (hStack : ∀ f ∈ stack, f.IsFinite)
    (hToken : token.IsFinite)
    (h : Reader.begin? stack token = some next) :
    next.IsFinite := by
  cases token <;>
    simp only [Reader.begin?, Option.some.injEq,
      reduceCtorEq] at h <;>
    subst h
  case beginList => exact hStack
  case beginObject => exact hStack
  case text s => exact ⟨isFinite_ofText s, hStack⟩
  case plain v => exact ⟨hToken, hStack⟩

theorem Reader.IsFinite.close?
    {v : Json}
    {frame : Frame}
    {stack : List Frame}
    {token : Token}
    {next : Reader}
    (hv : v.IsFinite)
    (hFrame : frame.IsFinite)
    (hStack : ∀ f ∈ stack, f.IsFinite)
    (h : Reader.close? v frame stack token = some next) :
    next.IsFinite := by
  unfold Reader.close? at h
  split at h <;>
    simp only [Option.some.injEq, reduceCtorEq] at h <;>
    subst h
  case h_1 before =>
      have hBefore := List.forall_mem_cons.mpr ⟨hv, hFrame⟩
      exact List.forall_mem_cons.mpr ⟨hBefore, hStack⟩
  case h_2 before =>
      have hBefore := List.forall_mem_cons.mpr ⟨hv, hFrame⟩
      refine ⟨(areItemsFinite_iff _).mpr ?_, hStack⟩
      exact fun w hw => hBefore w (List.mem_reverse.mp hw)
  case h_3 before key =>
      exact ⟨List.forall_mem_cons.mpr ⟨hv, hFrame⟩,
        hStack⟩
  case h_4 before key =>
      have hBefore : ∀ p ∈ (key, v) :: before, p.2.IsFinite :=
        List.forall_mem_cons.mpr ⟨hv, hFrame⟩
      refine ⟨isFinite_ofFields ?_, hStack⟩
      exact fun p hp => hBefore p (List.mem_reverse.mp hp)

/- A step keeps the numbers that are held finite. -/
theorem Reader.IsFinite.step?
    {reader next : Reader}
    {token : Token}
    (hReader : reader.IsFinite)
    (hToken : token.IsFinite)
    (h : reader.step? token = some next) :
    next.IsFinite := by
  unfold Reader.step? at h
  split at h
  case h_1 stack => exact begin? hReader hToken h
  case h_2 stack =>
      rw [← Option.some.inj h]
      exact ⟨trivial, hReader⟩
  case h_3 stack _ =>
      refine begin? (List.forall_mem_cons.mpr ⟨?_, hReader⟩)
        hToken h
      exact fun v hv => absurd hv List.not_mem_nil
  case h_4 stack =>
      rw [← Option.some.inj h]
      exact ⟨trivial, hReader⟩
  case h_5 stack key =>
      rw [← Option.some.inj h]
      exact ⟨fun p hp => absurd hp List.not_mem_nil, hReader⟩
  case h_6 before stack key =>
      rw [← Option.some.inj h]
      exact hReader
  case h_7 before key stack =>
      rw [← Option.some.inj h]
      exact List.forall_mem_cons.mpr hReader
  case h_8 v frame stack =>
      rcases hReader with ⟨hv, hStack⟩
      rcases List.forall_mem_cons.mp hStack with
        ⟨hFrame, hStack⟩
      exact close? hv hFrame hStack h
  case h_9 => simp at h

/- And so does a run over many tokens. -/
theorem Reader.IsFinite.foldlM
    {reader next : Reader}
    {tokens : List Token}
    (hReader : reader.IsFinite)
    (hTokens : ∀ token ∈ tokens, token.IsFinite)
    (h : tokens.foldlM Reader.step? reader = some next) :
    next.IsFinite := by
  induction tokens generalizing reader with
  | nil =>
      rw [← Option.some.inj h]
      exact hReader
  | cons token rest ih =>
      rw [List.foldlM_cons] at h
      rcases Option.bind_eq_some_iff.mp h with
        ⟨reader', hStep, hRest⟩
      exact ih
        (hReader.step? (hTokens token List.mem_cons_self)
          hStep)
        (fun t ht => hTokens t (List.mem_cons_of_mem _ ht))
        hRest

/- The numbers in a value that is read are finite. -/
theorem isFinite_of_read?
    {s : String}
    {v : Json}
    (h : read? s = some v) : v.IsFinite := by
  simp only [read?, Option.bind_eq_bind,
    Option.bind_eq_some_iff] at h
  rcases h with ⟨tokens, hTokens, reader, hFold, hValue⟩
  have hStart : (Reader.value []).IsFinite := by
    simp [Reader.IsFinite]
  have hReader :=
    hStart.foldlM (isFinite_of_tokens? hTokens) hFold
  split at hValue
  · rw [← Option.some.inj hValue]
    exact hReader.1
  · simp at hValue

end Json

end Spreadsheet
