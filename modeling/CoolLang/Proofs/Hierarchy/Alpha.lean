import CoolLang.Proofs.Expr.Alpha
import CoolLang.Proofs.Hierarchy.Outline
import Mathlib.Data.List.Forall2

/-!
# Alpha-equivalent programs

Declarations, classes and hierarchies that differ only in the names bound inside their expressions.
From outside they are the same, so the same is wrong with their class graphs; and what is looked up
in both is alpha-equivalent again.
-/

namespace CoolLang

open List (Forall₂)

/-! ## Declarations -/

structure AttributeDecl.Alpha (a a' : AttributeDecl) : Prop where
  name : a.name = a'.name
  typeName : a.typeName = a'.typeName
  init : OptionAlpha [] a.init a'.init
  span : a.span = a'.span

structure MethodDecl.Alpha (m m' : MethodDecl) : Prop where
  name : m.name = m'.name
  formals : m.formals = m'.formals
  returnType : m.returnType = m'.returnType
  body : m.body.Alpha [] m'.body
  span : m.span = m'.span

inductive Feature.Alpha : Feature → Feature → Prop where
  | attr {a a' : AttributeDecl} (h : a.Alpha a') : Feature.Alpha (.attr a) (.attr a')
  | method {m m' : MethodDecl} (h : m.Alpha m') : Feature.Alpha (.method m) (.method m')

structure ClassDecl.Alpha (d d' : ClassDecl) : Prop where
  name : d.name = d'.name
  parent : d.parent = d'.parent
  features : Forall₂ Feature.Alpha d.features d'.features
  span : d.span = d'.span

namespace ClassDecl.Alpha

variable {d d' : ClassDecl}

theorem attributes (h : d.Alpha d') : Forall₂ AttributeDecl.Alpha d.attributes d'.attributes := by
  refine List.rel_filterMap (fun f f' hf => ?_) h.features
  cases hf with
  | attr ha => exact .some ha
  | method hm => exact .none

theorem methods (h : d.Alpha d') : Forall₂ MethodDecl.Alpha d.methods d'.methods := by
  refine List.rel_filterMap (fun f f' hf => ?_) h.features
  cases hf with
  | attr ha => exact .none
  | method hm => exact .some hm

end ClassDecl.Alpha

/-! ## Classes -/

structure Method.Alpha (m m' : Method) : Prop where
  outline : m.outline = m'.outline
  body : m.body.Alpha [] m'.body

structure Attribute.Alpha (a a' : Attribute) : Prop where
  outline : a.outline = a'.outline
  init : OptionAlpha [] a.init a'.init

namespace Method.Alpha

variable {m m' : Method}

theorem name (h : m.Alpha m') : m.name = m'.name :=
  (Method.mk.inj h.outline).1

theorem returnType (h : m.Alpha m') : m.returnType = m'.returnType :=
  (Method.mk.inj h.outline).2.1

theorem formals (h : m.Alpha m') : m.formals = m'.formals :=
  (Method.mk.inj h.outline).2.2.1

theorem span (h : m.Alpha m') : m.span = m'.span :=
  (Method.mk.inj h.outline).2.2.2.2

theorem primitive? (h : m.Alpha m') : m.primitive? = m'.primitive? := by
  have hbody := h.body
  unfold Method.primitive?
  generalize m.body = e at hbody
  generalize m'.body = e' at hbody
  cases hbody <;> rfl

end Method.Alpha

namespace Attribute.Alpha

variable {a a' : Attribute}

theorem name (h : a.Alpha a') : a.name = a'.name :=
  (Attribute.mk.inj h.outline).1

theorem typeName (h : a.Alpha a') : a.typeName = a'.typeName :=
  (Attribute.mk.inj h.outline).2.1

theorem span (h : a.Alpha a') : a.span = a'.span :=
  (Attribute.mk.inj h.outline).2.2.2.2

end Attribute.Alpha

structure ClassInfo.Alpha (c c' : ClassInfo) : Prop where
  name : c.name = c'.name
  parent : c.parent = c'.parent
  attributes : Forall₂ Attribute.Alpha c.attributes c'.attributes
  methods : Forall₂ Method.Alpha c.methods c'.methods
  span : c.span = c'.span

theorem map_eq_of_forall₂ {α β : Type} {R : α → α → Prop} {view : α → β}
    (hview : ∀ a b, R a b → view a = view b) {as bs : List α} (h : Forall₂ R as bs) :
    as.map view = bs.map view := by
  induction h with
  | nil => rfl
  | cons hab _ ih => rw [List.map_cons, List.map_cons, hview _ _ hab, ih]

theorem ClassInfo.Alpha.outline {c c' : ClassInfo} (h : c.Alpha c') : c.outline = c'.outline := by
  obtain ⟨name, parent, attributes, methods, span⟩ := c
  obtain ⟨name', parent', attributes', methods', span'⟩ := c'
  obtain ⟨rfl, rfl, hattributes, hmethods, rfl⟩ := h
  have ha := map_eq_of_forall₂ (fun _ _ ha => Attribute.Alpha.outline ha) hattributes
  have hm := map_eq_of_forall₂ (fun _ _ hm => Method.Alpha.outline hm) hmethods
  simp only [ClassInfo.outline, ha, hm]

namespace ClassInfo

theorem alpha_attributesOf (owner : String) {as as' : List AttributeDecl}
    (h : Forall₂ AttributeDecl.Alpha as as') : ∀ seen index,
      Forall₂ Attribute.Alpha (attributesOf owner seen index as).1
        (attributesOf owner seen index as').1 ∧
      (attributesOf owner seen index as).2 = (attributesOf owner seen index as').2 := by
  induction h with
  | nil => intro seen index; exact ⟨.nil, rfl⟩
  | @cons a a' as as' ha _ ih =>
      intro seen index
      obtain ⟨name, typeName, init, span⟩ := a
      obtain ⟨name', typeName', init', span'⟩ := a'
      obtain ⟨rfl, rfl, hinit, rfl⟩ := ha
      by_cases hseen : seen.contains name = true
      · obtain ⟨hkept, hcomplaints⟩ := ih seen index
        simp only [attributesOf, if_pos hseen]
        exact ⟨hkept, by rw [hcomplaints]⟩
      · obtain ⟨hkept, hcomplaints⟩ := ih (name :: seen) (index + 1)
        simp only [attributesOf, if_neg hseen]
        exact ⟨.cons ⟨rfl, hinit⟩ hkept, hcomplaints⟩

theorem alpha_methodsOf (owner : String) {ms ms' : List MethodDecl}
    (h : Forall₂ MethodDecl.Alpha ms ms') : ∀ seen,
      Forall₂ Method.Alpha (methodsOf owner seen ms).1 (methodsOf owner seen ms').1 ∧
      (methodsOf owner seen ms).2 = (methodsOf owner seen ms').2 := by
  induction h with
  | nil => intro seen; exact ⟨.nil, rfl⟩
  | @cons m m' ms ms' hm _ ih =>
      intro seen
      obtain ⟨name, formals, returnType, body, span⟩ := m
      obtain ⟨name', formals', returnType', body', span'⟩ := m'
      obtain ⟨rfl, rfl, rfl, hbody, rfl⟩ := hm
      by_cases hseen : seen.contains name = true
      · obtain ⟨hkept, hcomplaints⟩ := ih seen
        simp only [methodsOf, if_pos hseen]
        exact ⟨hkept, by rw [hcomplaints]⟩
      · obtain ⟨hkept, hcomplaints⟩ := ih (name :: seen)
        simp only [methodsOf, if_neg hseen]
        exact ⟨.cons ⟨rfl, hbody⟩ hkept, by rw [hcomplaints]⟩

theorem alpha_ofDecl {d d' : ClassDecl} (h : d.Alpha d') :
    (ofDecl d).1.Alpha (ofDecl d').1 ∧ (ofDecl d).2 = (ofDecl d').2 := by
  have hattributes := alpha_attributesOf d'.name h.attributes [] 0
  have hmethods := alpha_methodsOf d'.name h.methods []
  simp only [ofDecl, h.name, h.parent, h.span]
  exact ⟨⟨rfl, rfl, hattributes.1, hmethods.1, rfl⟩, by rw [hattributes.2, hmethods.2]⟩

end ClassInfo

/-! ## Hierarchies -/

def Hierarchy.Alpha (h h' : Hierarchy) : Prop :=
  Forall₂ ClassInfo.Alpha h.classes h'.classes

/-- Two options hold nothing, or related members. -/
def Both {α : Type} (R : α → α → Prop) (a b : Option α) : Prop :=
  (a = none ∧ b = none) ∨ ∃ x y, a = some x ∧ b = some y ∧ R x y

theorem both_find? {α : Type} {R : α → α → Prop} {test : α → Bool}
    (htest : ∀ a b, R a b → test a = test b) {as bs : List α} (h : Forall₂ R as bs) :
    Both R (as.find? test) (bs.find? test) := by
  induction h with
  | nil => exact Or.inl ⟨rfl, rfl⟩
  | @cons a b as bs hab _ ih =>
      rw [List.find?_cons, List.find?_cons, htest a b hab]
      cases test b with
      | true => exact Or.inr ⟨a, b, rfl, rfl, hab⟩
      | false => exact ih

namespace Hierarchy.Alpha

variable {h h' : Hierarchy}

theorem map_outline (hh : h.Alpha h') :
    h.classes.map (·.outline) = h'.classes.map (·.outline) :=
  map_eq_of_forall₂ (fun _ _ hc => ClassInfo.Alpha.outline hc) hh

theorem sameOutline (hh : h.Alpha h') : h.SameOutline h' := by
  refine ⟨fun name => ?_, hh.length_eq⟩
  have hfind : ∀ k : Hierarchy, (k.find? name).map (·.outline) =
      (k.classes.map (·.outline)).find? (·.name == name) := by
    intro k
    rw [List.find?_map]
    rfl
  rw [hfind, hfind, hh.map_outline]

theorem find? (hh : h.Alpha h') (name : String) :
    Both ClassInfo.Alpha (h.find? name) (h'.find? name) :=
  both_find? (fun _ _ hc => by rw [hc.name]) hh

theorem lineage (hh : h.Alpha h') (n : Nat) : ∀ name,
    Forall₂ ClassInfo.Alpha (h.lineage n name) (h'.lineage n name) := by
  induction n with
  | zero => intro name; exact .nil
  | succ n ih =>
      intro name
      rw [Hierarchy.lineage, Hierarchy.lineage]
      rcases hh.find? name with ⟨hc, hc'⟩ | ⟨c, c', hc, hc', hcc⟩
      · rw [hc, hc']
        exact .nil
      · rw [hc, hc']
        dsimp only
        rw [hcc.parent]
        cases c'.parent with
        | none => exact .cons hcc .nil
        | some parent => exact .cons hcc (ih parent)

theorem untilRepeated {cs cs' : List ClassInfo} (hcs : Forall₂ ClassInfo.Alpha cs cs') :
    ∀ seen, Forall₂ ClassInfo.Alpha (Hierarchy.untilRepeated seen cs)
      (Hierarchy.untilRepeated seen cs') := by
  induction hcs with
  | nil => intro seen; exact .nil
  | cons hc _ ih =>
      intro seen
      rw [Hierarchy.untilRepeated, Hierarchy.untilRepeated, hc.name]
      split
      · exact .nil
      · exact .cons hc (ih _)

theorem ancestors (hh : h.Alpha h') (name : String) :
    Forall₂ ClassInfo.Alpha (h.ancestors name) (h'.ancestors name) := by
  rw [Hierarchy.ancestors, Hierarchy.ancestors, hh.length_eq]
  exact untilRepeated (hh.lineage _ name) []

/-! ## Violations -/

theorem walk (hh : h.Alpha h') (done : List String) (n : Nat) : ∀ path current,
    h.walk done n path current = h'.walk done n path current := by
  induction n with
  | zero => intro path current; cases current <;> rfl
  | succ n ih =>
      intro path current
      cases current with
      | none => rfl
      | some name =>
          rw [Hierarchy.walk, Hierarchy.walk, ih, hh.sameOutline.knownParent?]

theorem cyclesFrom (hh : h.Alpha h') {cs cs' : List ClassInfo}
    (hcs : Forall₂ ClassInfo.Alpha cs cs') : ∀ done,
      h.cyclesFrom done cs = h'.cyclesFrom done cs' := by
  induction hcs with
  | nil => intro done; rfl
  | cons hc _ ih =>
      intro done
      simp only [Hierarchy.cyclesFrom, hc.name, hh.length_eq, hh.walk, ih]

theorem violations (hh : h.Alpha h') : h.violations = h'.violations := by
  have houtline := hh.sameOutline
  -- what is wrong with a parent can be seen from outside
  have hview : ∀ cs : List ClassInfo,
      (cs.filter (!ClassName.isReserved ·.name)).filterMap h'.parentViolation? =
        ((cs.map (·.outline)).filter (!ClassName.isReserved ·.name)).filterMap
          h'.parentViolation? := by
    intro cs
    rw [List.filter_map, List.filterMap_map]
    rfl
  have hparents : h.userClasses.filterMap h'.parentViolation? =
      h'.userClasses.filterMap h'.parentViolation? := by
    refine (hview h.classes).trans ?_
    rw [hh.map_outline]
    exact (hview h'.classes).symm
  unfold Hierarchy.violations
  rw [houtline.parentViolation?, hparents, cyclic, cyclic, hh.cyclesFrom hh,
    houtline.cycleViolation, houtline.mainViolation?]

end Hierarchy.Alpha

/-! ## Registration -/

namespace Hierarchy

theorem alpha_registerAll {ds ds' : List ClassDecl} (hds : Forall₂ ClassDecl.Alpha ds ds') :
    ∀ {h h' : Hierarchy}, h.Alpha h' → (h.registerAll ds).1.Alpha (h'.registerAll ds').1 ∧
      (h.registerAll ds).2 = (h'.registerAll ds').2 := by
  induction hds with
  | nil => intro h h' hh; exact ⟨hh, rfl⟩
  | @cons d d' ds ds' hd _ ih =>
      intro h h' hh
      obtain ⟨hinfo, hcomplaints⟩ := ClassInfo.alpha_ofDecl hd
      simp only [registerAll, register, hinfo.name, hinfo.span, hcomplaints,
        hh.sameOutline.contains]
      by_cases hreserved : ClassName.isReserved (ClassInfo.ofDecl d').1.name = true
      · obtain ⟨hfinal, hregistrations⟩ := ih hh
        simpa only [if_pos hreserved, hregistrations, and_true] using hfinal
      · by_cases htaken : h'.contains (ClassInfo.ofDecl d').1.name = true
        · obtain ⟨hfinal, hregistrations⟩ := ih hh
          simpa only [if_neg hreserved, if_pos htaken, hregistrations, and_true] using hfinal
        · have hmore : Hierarchy.Alpha ⟨h.classes ++ [(ClassInfo.ofDecl d).1]⟩
              ⟨h'.classes ++ [(ClassInfo.ofDecl d').1]⟩ :=
            List.rel_append hh (.cons hinfo .nil)
          obtain ⟨hfinal, hregistrations⟩ := ih hmore
          simpa only [if_neg hreserved, if_neg htaken, hregistrations, and_true] using hfinal

theorem alpha_initial : initial.Alpha initial := by
  have hattributes : ∀ c ∈ Builtin.classes, ∀ a ∈ c.attributes, ∀ e ∈ a.init, e.Avoids "" := by
    decide
  have hmethods : ∀ c ∈ Builtin.classes, ∀ m ∈ c.methods, m.body.Avoids "" := by
    decide
  refine List.forall₂_same.mpr fun c hc => ⟨rfl, rfl, ?_, ?_, rfl⟩
  · refine List.forall₂_same.mpr fun a ha => ⟨rfl, ?_⟩
    exact optionAlpha_refl (Pairing.keeps_nil "") a.init (hattributes c hc a ha)
  · refine List.forall₂_same.mpr fun m hm => ⟨rfl, ?_⟩
    exact alpha_refl (Pairing.keeps_nil "") m.body (hmethods c hc m hm)

/-- **Bound names are no matter of the class graph.** -/
theorem alpha_ofProgram {program program' : List ClassDecl}
    (hp : Forall₂ ClassDecl.Alpha program program') :
    (ofProgram program).1.Alpha (ofProgram program').1 ∧
      (ofProgram program).2 = (ofProgram program').2 := by
  obtain ⟨hfinal, hregistrations⟩ := alpha_registerAll hp alpha_initial
  refine ⟨hfinal, ?_⟩
  simp only [ofProgram, hregistrations, hfinal.violations]

end Hierarchy

end CoolLang
