import CoolLang.Declaration.Basic
import CoolLang.Proofs.Source.Counters
import Mathlib.Order.Basic

/-!
# Spans inside spans

Positions are ordered by line and column. The extent of a syntax tree keeps nothing but the spans of
its nodes. It is nested if every node has a span that is not empty and holds the spans of its
children, which stand one behind the other.
-/

namespace CoolLang

/-! ## The order of positions -/

namespace Position

instance : LE Position :=
  ⟨fun p q => p.line < q.line ∨ p.line = q.line ∧ p.column ≤ q.column⟩

instance : LT Position :=
  ⟨fun p q => p.line < q.line ∨ p.line = q.line ∧ p.column < q.column⟩

theorem le_def {p q : Position} :
    p ≤ q ↔ p.line < q.line ∨ p.line = q.line ∧ p.column ≤ q.column := Iff.rfl

theorem lt_def {p q : Position} :
    p < q ↔ p.line < q.line ∨ p.line = q.line ∧ p.column < q.column := Iff.rfl

theorem le_iff_toNat {p q : Position} : p ≤ q ↔
    p.line.toNat < q.line.toNat ∨
      p.line.toNat = q.line.toNat ∧ p.column.toNat ≤ q.column.toNat := by
  rw [le_def, UInt32.lt_iff_toNat_lt, UInt32.le_iff_toNat_le, UInt32.toNat_inj]

theorem lt_iff_toNat {p q : Position} : p < q ↔
    p.line.toNat < q.line.toNat ∨
      p.line.toNat = q.line.toNat ∧ p.column.toNat < q.column.toNat := by
  rw [lt_def, UInt32.lt_iff_toNat_lt, UInt32.lt_iff_toNat_lt, UInt32.toNat_inj]

instance : Preorder Position where
  le_refl p := le_iff_toNat.mpr (.inr ⟨rfl, Nat.le_refl _⟩)
  le_trans p q r hpq hqr := by
    rw [le_iff_toNat] at hpq hqr ⊢
    omega
  lt_iff_le_not_ge p q := by
    rw [lt_iff_toNat, le_iff_toNat, le_iff_toNat]
    omega

variable {file : String} {before text : List Char}

/-- One more character leads to a later place, if both places have numbers. -/
theorem Countable.behind_lt_singleton {c : Char} (h : Countable (before ++ [c])) :
    behind file before < behind file (before ++ [c]) := by
  have htells : (behind file before).Tells before := h.tells (List.prefix_append before [c])
  have htells' : (behind file (before ++ [c])).Tells (before ++ [c]) := h.tells (List.prefix_refl _)
  rw [lt_iff_toNat, htells.line, htells.column, htells'.line, htells'.column,
    lineBehind_append_singleton, columnBehind_append_singleton]
  split
  · exact .inl (Nat.lt_succ_self _)
  · exact .inr ⟨rfl, Nat.lt_succ_self _⟩

theorem Countable.behind_le (h : Countable (before ++ text)) :
    behind file before ≤ behind file (before ++ text) := by
  induction text using List.reverseRecOn with
  | nil => rw [List.append_nil]
  | append_singleton text c ih =>
      rw [← List.append_assoc] at h ⊢
      exact (ih (h.of_initial (List.prefix_append _ [c]))).trans h.behind_lt_singleton.le

theorem Countable.behind_lt (h : Countable (before ++ text)) (htext : text ≠ []) :
    behind file before < behind file (before ++ text) := by
  cases text using List.reverseRecOn with
  | nil => exact absurd rfl htext
  | append_singleton text c =>
      rw [← List.append_assoc] at h ⊢
      exact (h.of_initial (List.prefix_append _ [c])).behind_le.trans_lt h.behind_lt_singleton

end Position

/-! ## Extents -/

/-- A tree of spans. The children of a node are in the order of the source. -/
inductive Extent where
  | node (span : Span) (inner : List Extent)

namespace Extent

def span : Extent → Span
  | node s _ => s

/-- Every span of the extent ends behind its start, holds the spans of its children, and these do
not overlap and stand in their order. -/
inductive Nested : Extent → Prop where
  | node {span : Span} {inner : List Extent} (hspan : span.start < span.stop)
      (hholds : ∀ x ∈ inner, span.start ≤ x.span.start ∧ x.span.stop ≤ span.stop)
      (hapart : inner.Pairwise fun x x' => x.span.stop ≤ x'.span.start)
      (hinner : ∀ x ∈ inner, x.Nested) : Nested (node span inner)

theorem Nested.start_lt_stop {x : Extent} (h : x.Nested) : x.span.start < x.span.stop := by
  cases h with
  | node hspan => exact hspan

/-- Nested extents that stand one behind the other between two positions. -/
def Fits (lo : Position) : List Extent → Position → Prop
  | [], hi => lo ≤ hi
  | x :: xs, hi => lo ≤ x.span.start ∧ x.Nested ∧ Fits x.span.stop xs hi

namespace Fits

variable {lo lo' mid hi hi' : Position} {x y : Extent} {xs xs' : List Extent}

theorem single (hx : x.Nested) (hlo : lo ≤ x.span.start) (hhi : x.span.stop ≤ hi) :
    Fits lo [x] hi :=
  ⟨hlo, hx, hhi⟩

theorem le (h : Fits lo xs hi) : lo ≤ hi := by
  induction xs generalizing lo with
  | nil => exact h
  | cons x xs ih =>
      obtain ⟨hlo, hx, hxs⟩ := h
      exact (hlo.trans_lt hx.start_lt_stop).le.trans (ih hxs)

theorem mono (h : Fits lo xs hi) (hlo : lo' ≤ lo) (hhi : hi ≤ hi') : Fits lo' xs hi' := by
  induction xs generalizing lo lo' with
  | nil => exact (hlo.trans h).trans hhi
  | cons x xs ih =>
      obtain ⟨hstart, hx, hxs⟩ := h
      exact ⟨hlo.trans hstart, hx, ih hxs (le_refl _)⟩

theorem append (h : Fits lo xs mid) (h' : Fits mid xs' hi) : Fits lo (xs ++ xs') hi := by
  induction xs generalizing lo with
  | nil => exact h'.mono h (le_refl hi)
  | cons x xs ih =>
      obtain ⟨hlo, hx, hxs⟩ := h
      exact ⟨hlo, hx, ih hxs⟩

theorem holds (h : Fits lo xs hi) : ∀ x ∈ xs, lo ≤ x.span.start ∧ x.span.stop ≤ hi := by
  induction xs generalizing lo with
  | nil => simp
  | cons x xs ih =>
      obtain ⟨hlo, hx, hxs⟩ := h
      refine List.forall_mem_cons.mpr ⟨⟨hlo, hxs.le⟩, fun x' hx' => ?_⟩
      obtain ⟨hstart, hstop⟩ := ih hxs x' hx'
      exact ⟨(hlo.trans hx.start_lt_stop.le).trans hstart, hstop⟩

theorem apart (h : Fits lo xs hi) : xs.Pairwise fun x x' => x.span.stop ≤ x'.span.start := by
  induction xs generalizing lo with
  | nil => exact .nil
  | cons x xs ih =>
      obtain ⟨-, -, hxs⟩ := h
      exact .cons (fun x' hx' => (hxs.holds x' hx').1) (ih hxs)

theorem nested (h : Fits lo xs hi) : ∀ x ∈ xs, x.Nested := by
  induction xs generalizing lo with
  | nil => simp
  | cons x xs ih =>
      obtain ⟨-, hx, hxs⟩ := h
      exact List.forall_mem_cons.mpr ⟨hx, ih hxs⟩

/-- A node whose span ends with its last child or behind it. -/
theorem enclose (h : Fits lo xs hi) {start : Position} (hstart : start ≤ lo) (hlt : start < hi) :
    (node ⟨start, hi⟩ xs).Nested :=
  .node hlt (h.mono hstart (le_refl hi)).holds h.apart h.nested

/-- The node begins with the token in front of its children. -/
theorem behind (h : Fits mid xs hi) {start : Position} (hstart : start < mid) (hlo : lo ≤ start) :
    Fits lo [node ⟨start, hi⟩ xs] hi :=
  single (h.enclose hstart.le (hstart.trans_le h.le)) hlo (le_refl hi)

/-- The node begins with its first child. -/
theorem around (h : Fits lo (x :: xs) hi) : Fits lo [node ⟨x.span.start, hi⟩ (x :: xs)] hi := by
  obtain ⟨hlo, hx, hxs⟩ := h
  have hfits : Fits x.span.start (x :: xs) hi := ⟨le_refl _, hx, hxs⟩
  exact single (hfits.enclose (le_refl _) (hx.start_lt_stop.trans_le hxs.le)) hlo (le_refl hi)

/-- The node begins with the first of two children and ends with the second. -/
theorem pair (h : Fits lo [x, y] hi) :
    Fits lo [node ⟨x.span.start, y.span.stop⟩ [x, y]] hi := by
  obtain ⟨hlo, hx, hbetween, hy, hhi⟩ := h
  have hfits : Fits lo [x, y] y.span.stop := ⟨hlo, hx, hbetween, hy, le_refl _⟩
  exact hfits.around.mono (le_refl lo) hhi

end Fits

end Extent

/-! ## Syntax trees -/

mutual

def Expr.extent : Expr → Extent
  | .int _ s | .str _ s | .bool _ s | .self s | .name _ s | .new _ s | .primitive _ s => .node s []
  | .assign _ value s => .node s [value.extent]
  | .dispatch receiver _ _ arguments s =>
      .node s (extentsOption receiver ++ extentsExprs arguments)
  | .cond condition thenBranch elseBranch s =>
      .node s [condition.extent, thenBranch.extent, elseBranch.extent]
  | .loop condition body s => .node s [condition.extent, body.extent]
  | .block body s => .node s (extentsExprs body)
  | .letIn bindings body s => .node s (extentsBindings bindings ++ [body.extent])
  | .caseOf scrutinee branches s => .node s (scrutinee.extent :: extentsBranches branches)
  | .isVoid operand s | .unary _ operand s => .node s [operand.extent]
  | .binary _ left right s => .node s [left.extent, right.extent]

def extentsOption : Option Expr → List Extent
  | none => []
  | some e => [e.extent]

def extentsExprs : List Expr → List Extent
  | [] => []
  | e :: es => e.extent :: extentsExprs es

def extentsBindings : List Binding → List Extent
  | [] => []
  | ⟨_, _, init, s⟩ :: bs => .node s (extentsOption init) :: extentsBindings bs

def extentsBranches : List Branch → List Extent
  | [] => []
  | ⟨_, _, body, s⟩ :: bs => .node s [body.extent] :: extentsBranches bs

end

def Binding.extent (b : Binding) : Extent :=
  .node b.span (extentsOption b.init)

def Branch.extent (b : Branch) : Extent :=
  .node b.span [b.body.extent]

theorem extentsExprs_eq_map (es : List Expr) : extentsExprs es = es.map Expr.extent := by
  induction es with
  | nil => rw [extentsExprs, List.map_nil]
  | cons e es ih => rw [extentsExprs, ih, List.map_cons]

theorem extentsBindings_eq_map (bs : List Binding) :
    extentsBindings bs = bs.map Binding.extent := by
  induction bs with
  | nil => rw [extentsBindings, List.map_nil]
  | cons b bs ih =>
      obtain ⟨_, _, init, s⟩ := b
      rw [extentsBindings, ih, List.map_cons, Binding.extent]

theorem extentsBranches_eq_map (bs : List Branch) :
    extentsBranches bs = bs.map Branch.extent := by
  induction bs with
  | nil => rw [extentsBranches, List.map_nil]
  | cons b bs ih =>
      obtain ⟨_, _, body, s⟩ := b
      rw [extentsBranches, ih, List.map_cons, Branch.extent]

@[simp] theorem Expr.span_extent (e : Expr) : e.extent.span = e.span := by
  cases e <;> simp [Expr.extent, Extent.span, Expr.span]

def Formal.extent (f : Formal) : Extent :=
  .node f.span []

def AttributeDecl.extent (a : AttributeDecl) : Extent :=
  .node a.span (extentsOption a.init)

def MethodDecl.extent (m : MethodDecl) : Extent :=
  .node m.span (m.formals.map Formal.extent ++ [m.body.extent])

def Feature.extent : Feature → Extent
  | .attr a => a.extent
  | .method m => m.extent

def ClassDecl.extent (c : ClassDecl) : Extent :=
  .node c.span (c.features.map Feature.extent)

end CoolLang
