import Spreadsheet.Proofs.CycleGuard
import Spreadsheet.Proofs.Reachability

/-
  The graph that an engine keeps of a sheet. Linking a
  formula only touches the edges of that formula, and all
  edges stand for cells that formulas name. On a sheet where
  these make no cycle no edge is left out. The graph stays
  so when a formula is edited.

  Main declarations:
    * `Sheet.Orderly`
    * `Engine.dependents_relink`
    * `Engine.readBy_foldl_linkTarget`
    * `Engine.EdgesRefer`
    * `Engine.readBy_linkFormula`
    * `Engine.Draws`
    * `Engine.draws_graphOf` and `Engine.draws_relink`
-/

namespace Spreadsheet

open Relation DependencyGraph

namespace Engine

variable {g : DependencyGraph}
variable {sheet : Sheet}
variable {a c x : Address}
variable {e : Expr}

------------------------------------------------------------
-- Linking A Formula
------------------------------------------------------------

/-
  Add an edge from a formula to one target, except where
  that would close a cycle.
-/
def linkTarget
    (a : Address)
    (g : DependencyGraph)
    (target : Address) : DependencyGraph :=
  if g.closesCycle a target then g else g.add a target

theorem linkFormula_eq
    (g : DependencyGraph)
    (a : Address)
    (e : Expr) :
    linkFormula g a e = e.precedents.foldl (linkTarget a) g :=
  rfl

/- What holds of a graph if linking a target keeps it. -/
theorem linkFormula_induction
    {motive : DependencyGraph → Prop}
    (hStart : motive g)
    (hTarget :
      ∀ g, motive g → ∀ target ∈ e.precedents,
        motive (linkTarget a g target)) :
    motive (linkFormula g a e) :=
  List.foldlRecOn e.precedents (linkTarget a) hStart hTarget

/- The same for linking all formulas of a sheet. -/
theorem graphOf_induction
    {motive : DependencyGraph → Prop}
    (hEmpty : motive DependencyGraph.empty)
    (hFormula :
      ∀ g, motive g → ∀ p ∈ parsedFormulas sheet,
        motive (linkFormula g p.1 p.2)) :
    motive (graphOf sheet) :=
  List.foldlRecOn (parsedFormulas sheet) _ hEmpty hFormula

/- Linking changes what the formula reads, and no more. -/
theorem readBy_linkTarget_of_ne
    {target : Address}
    (hne : x ≠ a.relative) :
    (linkTarget a g target).ReadBy c x ↔ g.ReadBy c x := by
  unfold linkTarget ReadBy
  split
  · exact Iff.rfl
  · rw [mem_readersOf_add]
    constructor
    · rintro (h | ⟨-, heq⟩)
      · exact h
      · exact absurd heq hne
    · exact Or.inl

theorem readBy_linkFormula_of_ne
    (hne : x ≠ a.relative) :
    (linkFormula g a e).ReadBy c x ↔ g.ReadBy c x := by
  apply linkFormula_induction
    (motive := fun g' => g'.ReadBy c x ↔ g.ReadBy c x)
  · exact Iff.rfl
  · intro g' hSame target _
    exact (readBy_linkTarget_of_ne hne).trans hSame

theorem mirrored_linkFormula
    (h : g.Mirrored)
    (a : Address)
    (e : Expr) : (linkFormula g a e).Mirrored := by
  apply linkFormula_induction h
  intro g hMirrored target _
  unfold linkTarget
  split
  · exact hMirrored
  · exact hMirrored.add a target

theorem mirrored_relink
    (h : g.Mirrored)
    (sheet : Sheet)
    (a : Address) : (relink g sheet a).Mirrored := by
  unfold relink
  dsimp only
  split
  · exact mirrored_linkFormula (h.removeReads a) _ _
  · exact h.removeReads a

/- An edit of a formula keeps what other formulas read. -/
theorem readBy_relink_of_ne
    (hne : x ≠ a.relative) :
    (relink g sheet a).ReadBy c x ↔ g.ReadBy c x := by
  have hRemove :
      (g.removeReads a).ReadBy c x ↔ g.ReadBy c x := by
    unfold ReadBy
    rw [mem_readersOf_removeReads]
    exact and_iff_left fun h => hne h.1
  unfold relink
  dsimp only
  split
  · rw [readBy_linkFormula_of_ne (a := a.relative) hne,
      hRemove]
  · exact hRemove

/-
  What depends on a cell does not depend on what the cell
  itself reads: a path of edges from it need not come back.
-/
theorem mem_dependents_of_readBy
    {g' : DependencyGraph}
    {b : Address}
    (h :
      ∀ c x, x ≠ a.relative → g'.ReadBy c x → g.ReadBy c x)
    (hb : b ∈ g'.dependents a) : b ∈ g.dependents a := by
  rw [mem_dependents_iff] at hb ⊢
  induction hb with
  | refl => exact .refl
  | tail hPath hEdge ih =>
      rename_i y z
      by_cases hz : z = a.relative
      · rw [hz]
      · exact ih.tail (h y z hz hEdge)

/- An edit of a cell does not change what depends on it. -/
theorem dependents_relink
    {b : Address} :
    b ∈ (relink g sheet a).dependents a ↔
      b ∈ g.dependents a :=
  ⟨mem_dependents_of_readBy fun _ _ hne =>
      (readBy_relink_of_ne hne).mp,
    mem_dependents_of_readBy fun _ _ hne =>
      (readBy_relink_of_ne hne).mpr⟩

------------------------------------------------------------
-- Linking In Any Order
------------------------------------------------------------

/-
  An edge of a formula does not change what depends on the
  formula, so the guard refuses the same edges afterwards.
-/
theorem closesCycle_linkTarget
    (target : Address) :
    (linkTarget a g target).closesCycle a c =
      g.closesCycle a c := by
  rw [Bool.eq_iff_iff, closesCycle_iff, closesCycle_iff,
    ← mem_dependents_iff, ← mem_dependents_iff]
  exact
    ⟨mem_dependents_of_readBy fun _ _ hne =>
        (readBy_linkTarget_of_ne hne).mp,
      mem_dependents_of_readBy fun _ _ hne =>
        (readBy_linkTarget_of_ne hne).mpr⟩

/- An edge is added if the guard lets it through. -/
theorem readBy_linkTarget
    (target : Address) :
    (linkTarget a g target).ReadBy c x ↔
      g.ReadBy c x
        ∨ (x = a.relative ∧ c.relative = target.relative
          ∧ g.closesCycle a c = false) := by
  have hGuard :
      c.relative = target.relative →
        g.closesCycle a c = g.closesCycle a target := by
    intro hSame
    rw [Bool.eq_iff_iff, closesCycle_iff, closesCycle_iff,
      hSame]
  unfold linkTarget
  split
  · next hCloses =>
      refine ⟨Or.inl, ?_⟩
      rintro (hOld | ⟨-, hSame, hOpen⟩)
      · exact hOld
      · rw [hGuard hSame, hCloses] at hOpen
        cases hOpen
  · next hOpen =>
      unfold ReadBy
      rw [mem_readersOf_add]
      constructor
      · rintro (hOld | ⟨hSame, hx⟩)
        · exact Or.inl hOld
        · refine Or.inr ⟨hx, hSame, ?_⟩
          rw [hGuard hSame]
          exact Bool.eq_false_iff.mpr hOpen
      · rintro (hOld | ⟨hx, hSame, -⟩)
        · exact Or.inl hOld
        · exact Or.inr ⟨hSame, hx⟩

/-
  The edges that a formula gets are those that the guard
  lets through at the start, in whatever order the targets
  stand.
-/
theorem readBy_foldl_linkTarget
    (targets : List Address) :
    (targets.foldl (linkTarget a) g).ReadBy c x ↔
      g.ReadBy c x
        ∨ (x = a.relative
          ∧ c.relative ∈ targets.map Address.relative
          ∧ g.closesCycle a c = false) := by
  induction targets generalizing g with
  | nil => simp
  | cons target rest ih =>
      rw [List.foldl_cons, ih, readBy_linkTarget,
        closesCycle_linkTarget, List.map_cons, List.mem_cons]
      tauto

------------------------------------------------------------
-- Edges And References
------------------------------------------------------------

variable {kind : Expr → List Address}

theorem precedents_subset_targets
    (e : Expr) : e.precedents ⊆ e.targets := by
  intro b hb
  exact e.endpoints_subset_targets
    (Expr.mem_precedents_iff.mp hb)

/- Precedents carry no markers. -/
theorem relative_of_mem_precedents
    {b : Address}
    (h : b ∈ e.precedents) : b.relative = b :=
  Expr.relative_of_mem_targets e
    (precedents_subset_targets e h)

/- Every edge stands for a reference of a sheet. -/
def EdgesRefer
    (kind : Expr → List Address)
    (sheet : Sheet)
    (g : DependencyGraph) : Prop :=
  ∀ c x, g.ReadBy c x → sheet.Refers kind x c.relative

theorem EdgesRefer.empty :
    EdgesRefer kind sheet DependencyGraph.empty :=
  fun _ _ h => absurd h List.not_mem_nil

/- Linking a target adds an edge for it at most. -/
theorem EdgesRefer.linkTarget
    (hEdges : EdgesRefer kind sheet g)
    (hExpr : sheet.expr? a = some e)
    {target : Address}
    (hTarget : target.relative ∈ kind e) :
    EdgesRefer kind sheet (linkTarget a g target) := by
  intro c x hEdge
  unfold Engine.linkTarget ReadBy at hEdge
  split at hEdge
  · exact hEdges c x hEdge
  · rcases (mem_readersOf_add g a target c x).mp hEdge with
      hOld | ⟨hc, hx⟩
    · exact hEdges c x hOld
    · rw [hc, hx]
      exact ⟨e, hExpr, hTarget⟩

theorem EdgesRefer.linkFormula
    (hEdges : EdgesRefer kind sheet g)
    (hExpr : sheet.expr? a = some e)
    (hKind : e.precedents ⊆ kind e) :
    EdgesRefer kind sheet (linkFormula g a e) := by
  apply linkFormula_induction hEdges
  intro g hBefore b hb
  apply hBefore.linkTarget hExpr
  rw [relative_of_mem_precedents hb]
  exact hKind hb

/- Edges are followed against the direction of reading. -/
theorem leads_of_readBy
    {b : Address}
    (hEdges : EdgesRefer kind sheet g)
    (h : ReflTransGen g.ReadBy a.relative b) :
    b.relative = b ∧ sheet.Leads kind b a.relative := by
  induction h with
  | refl => exact ⟨rfl, .refl⟩
  | tail hPath hEdge ih =>
      rename_i y z
      have hRefers := hEdges y z hEdge
      rw [ih.1] at hRefers
      exact ⟨relative_of_mem_readersOf hEdge,
        ih.2.head hRefers⟩

/-
  Where references make no cycle, an edge that stands for
  one is never left out.
-/
theorem closesCycle_of_acyclic
    {target : Address}
    (hAcyclic : ∀ b, ¬ sheet.OnCycle kind b)
    (hEdges : EdgesRefer kind sheet g)
    (hExpr : sheet.expr? a = some e)
    (hTarget : target.relative ∈ kind e) :
    g.closesCycle a target = false := by
  cases hCloses : g.closesCycle a target with
  | false => rfl
  | true =>
      have hPath := closesCycle_iff.mp hCloses
      have hLeads := (leads_of_readBy hEdges hPath).2
      have hRefers :
          sheet.Refers kind a.relative target.relative :=
        ⟨e, hExpr, hTarget⟩
      exact absurd
        (TransGen.head'_iff.mpr
          ⟨target.relative, hRefers, hLeads⟩)
        (hAcyclic a.relative)

/- All edges of a formula are added where there is no cycle. -/
theorem readBy_linkFormula
    (hAcyclic : ∀ b, ¬ sheet.OnCycle kind b)
    (hEdges : EdgesRefer kind sheet g)
    (hExpr : sheet.expr? a = some e)
    (hKind : e.precedents ⊆ kind e) :
    (linkFormula g a e).ReadBy c x ↔
      g.ReadBy c x
        ∨ (x = a.relative ∧ c.relative ∈ e.precedents) := by
  have hKeys :
      e.precedents.map Address.relative = e.precedents :=
    Address.map_relative fun _ => relative_of_mem_precedents
  have hOpen :
      c.relative ∈ e.precedents →
        g.closesCycle a c = false :=
    fun hc =>
      closesCycle_of_acyclic hAcyclic hEdges hExpr (hKind hc)
  rw [linkFormula_eq, readBy_foldl_linkTarget, hKeys]
  constructor
  · rintro (hOld | ⟨hx, hc, -⟩)
    · exact Or.inl hOld
    · exact Or.inr ⟨hx, hc⟩
  · rintro (hOld | ⟨hx, hc⟩)
    · exact Or.inl hOld
    · exact Or.inr ⟨hx, hc, hOpen hc⟩

/- The edges that are left when a formula is forgotten. -/
theorem EdgesRefer.removeReads
    {sheet' : Sheet}
    (hMirrored : g.Mirrored)
    (hEdges : EdgesRefer kind sheet g)
    (hOther :
      ∀ x : Address, x.relative ≠ a.relative →
        sheet.content? x = sheet'.content? x) :
    EdgesRefer kind sheet' (g.removeReads a) := by
  intro c x hEdge
  have ⟨hOld, hne⟩ :=
    (hMirrored.mem_readersOf_removeReads_iff a c x).mp hEdge
  have hKey := relative_of_mem_readersOf hOld
  exact (hEdges c x hOld).congr
    (hOther x (by rw [hKey]; exact hne))

/-
  After an edit all edges stand for precedents of the edited
  sheet, if they stood for those of the sheet before.
-/
theorem EdgesRefer.relink
    {sheet' : Sheet}
    (hMirrored : g.Mirrored)
    (hEdges : EdgesRefer Expr.precedents sheet g)
    (hOther :
      ∀ x : Address, x.relative ≠ a.relative →
        sheet.content? x = sheet'.content? x)
    (hRead : sheet'.AllRead) :
    EdgesRefer Expr.precedents sheet' (relink g sheet' a) := by
  have hKept := hEdges.removeReads hMirrored hOther
  unfold Engine.relink
  dsimp only
  rw [hRead a]
  cases hExpr : sheet'.expr? a with
  | none => exact hKept
  | some e =>
      exact hKept.linkFormula (a := a.relative) hExpr
        (List.Subset.refl _)

/- All edges of a new graph stand for precedents. -/
theorem EdgesRefer.graphOf
    (hRead : sheet.AllRead) :
    EdgesRefer Expr.precedents sheet (graphOf sheet) := by
  apply graphOf_induction EdgesRefer.empty
  intro g hBefore p hp
  have hExpr := ((Sheet.mem_parsedFormulas_iff hRead).mp hp).2
  exact hBefore.linkFormula hExpr (List.Subset.refl _)

end Engine

------------------------------------------------------------
-- Graphs Of Orderly Sheets
------------------------------------------------------------

/-
  References make no cycle, and each range consists of its
  two written corners alone.
-/
structure Sheet.Orderly
    (sheet : Sheet) : Prop where
  acyclic : ∀ a, ¬ sheet.OnCycle Expr.targets a
  corners :
    ∀ a e, sheet.expr? a = some e → e.SpansOnlyCorners

/-
  References of a kind make no cycle, and are what the
  formulas of a sheet name.
-/
structure Sheet.Linkable
    (sheet : Sheet)
    (kind : Expr → List Address) : Prop where
  acyclic : ∀ a, ¬ sheet.OnCycle kind a
  named :
    ∀ a e, sheet.expr? a = some e →
      ∀ b, b ∈ e.precedents ↔ b ∈ kind e

/- The references of an orderly sheet name their targets. -/
theorem Sheet.Orderly.linkable
    {sheet : Sheet}
    (h : sheet.Orderly) : sheet.Linkable Expr.targets where
  acyclic := h.acyclic
  named := by
    intro a e hExpr b
    constructor
    · intro hb
      exact Engine.precedents_subset_targets e hb
    · intro hb
      exact Expr.mem_precedents_iff.mpr
        (e.targets_subset_endpoints (h.corners a e hExpr) hb)

theorem Sheet.linkable_precedents
    {sheet : Sheet}
    (h : ∀ a, ¬ sheet.OnCycle Expr.precedents a) :
    sheet.Linkable Expr.precedents :=
  ⟨h, fun _ _ _ _ => Iff.rfl⟩

namespace Engine

variable {g : DependencyGraph}
variable {sheet : Sheet}
variable {kind : Expr → List Address}
variable {a : Address}

/- The edges of a graph are the references of a sheet. -/
def Draws
    (kind : Expr → List Address)
    (g : DependencyGraph)
    (sheet : Sheet) : Prop :=
  ∀ c x, g.ReadBy c x ↔
    x.relative = x ∧ sheet.Refers kind x c.relative

/-
  References that lead to a cell are a path of edges from
  it, if the graph draws them.
-/
theorem readBy_of_leads
    {b : Address}
    (hDraws : Draws Expr.targets g sheet)
    (hb : b.relative = b)
    (h : sheet.Leads Expr.targets b a.relative) :
    ReflTransGen g.ReadBy a.relative b := by
  induction h using ReflTransGen.head_induction_on with
  | refl => exact .refl
  | head hRefers hRest ih =>
      rename_i x y
      have hKey : y.relative = y := by
        rcases hRefers with ⟨e, -, hMem⟩
        exact Expr.relative_of_mem_targets e hMem
      refine (ih hKey).tail ((hDraws y x).mpr ⟨hb, ?_⟩)
      rw [hKey]
      exact hRefers

/- The edges after several formulas were linked. -/
theorem readBy_foldl_linkFormula
    (hLinkable : sheet.Linkable kind)
    (formulas : List (Address × Expr))
    (hFormulas :
      ∀ p ∈ formulas, sheet.expr? p.1 = some p.2)
    (hEdges : EdgesRefer kind sheet g) :
    ∀ c x, (formulas.foldl
        (fun g p => linkFormula g p.1 p.2) g).ReadBy c x ↔
      g.ReadBy c x
        ∨ ∃ p ∈ formulas, x = p.1.relative
          ∧ c.relative ∈ p.2.precedents := by
  induction formulas generalizing g with
  | nil => simp
  | cons p rest ih =>
      intro c x
      have hExpr := hFormulas p List.mem_cons_self
      have hKind : p.2.precedents ⊆ kind p.2 :=
        fun b => (hLinkable.named p.1 p.2 hExpr b).mp
      rw [List.foldl_cons,
        ih (fun q hq =>
          hFormulas q (List.mem_cons_of_mem _ hq))
          (hEdges.linkFormula hExpr hKind),
        readBy_linkFormula hLinkable.acyclic hEdges hExpr
          hKind,
        List.exists_mem_cons_iff, or_assoc]

/- The graph of a sheet without cycles draws its references. -/
theorem draws_graphOf
    (hRead : sheet.AllRead)
    (hLinkable : sheet.Linkable kind) :
    Draws kind (graphOf sheet) sheet := by
  have hFold := readBy_foldl_linkFormula hLinkable
    (parsedFormulas sheet)
    (fun p hp =>
      ((Sheet.mem_parsedFormulas_iff hRead).mp hp).2)
    EdgesRefer.empty
  intro c x
  unfold graphOf
  rw [hFold]
  constructor
  · rintro (h | ⟨p, hp, hx, hc⟩)
    · exact absurd h List.not_mem_nil
    · have ⟨hKey, hExpr⟩ :=
        (Sheet.mem_parsedFormulas_iff hRead).mp hp
      rw [hx]
      exact ⟨Address.relative_relative _, p.2, hExpr,
        (hLinkable.named p.1 p.2 hExpr _).mp hc⟩
  · rintro ⟨hKey, e, hExpr, hc⟩
    refine Or.inr ⟨(x, e), ?_, hKey.symm, ?_⟩
    · exact (Sheet.mem_parsedFormulas_iff hRead).mpr
        ⟨hKey, hExpr⟩
    · exact (hLinkable.named x e hExpr _).mpr hc

theorem mirrored_graphOf
    (sheet : Sheet) : (graphOf sheet).Mirrored :=
  graphOf_induction Mirrored.empty
    fun _ hBefore p _ => mirrored_linkFormula hBefore p.1 p.2

/-
  After an edit the graph draws the references of the edited
  sheet, if it drew those of the sheet before.
-/
theorem draws_relink
    {sheet' : Sheet}
    (hMirrored : g.Mirrored)
    (hDraws : Draws kind g sheet)
    (hOther :
      ∀ x : Address, x.relative ≠ a.relative →
        sheet.content? x = sheet'.content? x)
    (hRead : sheet'.AllRead)
    (hLinkable : sheet'.Linkable kind) :
    Draws kind (relink g sheet' a) sheet' := by
  have hKept :
      ∀ c x, (g.removeReads a).ReadBy c x ↔
        x ≠ a.relative ∧ x.relative = x
          ∧ sheet'.Refers kind x c.relative := by
    intro c x
    have hEdge := hMirrored.mem_readersOf_removeReads_iff a c x
    have hOld := hDraws c x
    unfold ReadBy at hOld ⊢
    rw [hEdge, hOld]
    constructor
    · rintro ⟨⟨hKey, hRefers⟩, hne⟩
      have hSame := hOther x (by rw [hKey]; exact hne)
      exact ⟨hne, hKey, hRefers.congr hSame⟩
    · rintro ⟨hne, hKey, hRefers⟩
      have hSame := hOther x (by rw [hKey]; exact hne)
      exact ⟨⟨hKey, hRefers.congr hSame.symm⟩, hne⟩
  have hEdges : EdgesRefer kind sheet' (g.removeReads a) := by
    intro c x hEdge
    exact ((hKept c x).mp hEdge).2.2
  intro c x
  unfold relink
  dsimp only
  rw [hRead a]
  cases hExpr : sheet'.expr? a with
  | none =>
      dsimp only
      rw [hKept]
      refine ⟨And.right, fun h => ⟨?_, h⟩⟩
      rintro rfl
      rcases h.2 with ⟨e, hSome, -⟩
      rw [Sheet.expr?_relative, hExpr] at hSome
      cases hSome
  | some e =>
      dsimp only
      have hNamed := hLinkable.named a e hExpr
      have hLink := readBy_linkFormula
        (a := a.relative) (c := c) (x := x) hLinkable.acyclic
        hEdges hExpr fun b => (hNamed b).mp
      rw [hLink, hKept, Address.relative_relative, hNamed]
      by_cases hx : x = a.relative
      · rw [hx]
        constructor
        · rintro (⟨hne, -⟩ | ⟨-, hc⟩)
          · exact absurd rfl hne
          · exact ⟨rfl, e, hExpr, hc⟩
        · rintro ⟨-, e', hExpr', hc⟩
          rw [Sheet.expr?_relative, hExpr] at hExpr'
          cases hExpr'
          exact Or.inr ⟨rfl, hc⟩
      · constructor
        · rintro (⟨-, h⟩ | ⟨heq, -⟩)
          · exact h
          · exact absurd heq hx
        · exact fun h => Or.inl ⟨hx, h⟩

end Engine

end Spreadsheet
