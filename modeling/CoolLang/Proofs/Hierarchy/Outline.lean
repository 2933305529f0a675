import CoolLang.Hierarchy.Conformance
import CoolLang.Hierarchy.Validation

/-!
# What other classes see of a class

Inheritance and the signatures of features can be seen from outside a class; the bodies of its
methods and the initial values of its attributes cannot. Two hierarchies in which every name stands
for the same class, as seen from outside, answer all questions about classes alike.
-/

namespace CoolLang

/-- The method without its body. -/
def Method.outline (m : Method) : Method :=
  { m with body := .self .nowhere }

/-- The attribute without its initial value. -/
def Attribute.outline (a : Attribute) : Attribute :=
  { a with init := none }

/-- The class without the expressions in it. -/
def ClassInfo.outline (c : ClassInfo) : ClassInfo :=
  { c with
    attributes := c.attributes.map (·.outline)
    methods := c.methods.map (·.outline) }

namespace ClassInfo

@[simp] theorem name_outline (c : ClassInfo) : c.outline.name = c.name := rfl

@[simp] theorem parent_outline (c : ClassInfo) : c.outline.parent = c.parent := rfl

@[simp] theorem span_outline (c : ClassInfo) : c.outline.span = c.span := rfl

theorem method?_outline (c : ClassInfo) (x : String) :
    c.outline.method? x = (c.method? x).map (·.outline) :=
  List.find?_map

theorem attribute?_outline (c : ClassInfo) (x : String) :
    c.outline.attribute? x = (c.attribute? x).map (·.outline) :=
  List.find?_map

end ClassInfo

/-- Two options with the same view hold nothing, or members with the same view. -/
theorem cases_of_map_eq {α β : Type} {view : α → β} {a b : Option α}
    (h : a.map view = b.map view) :
    (a = none ∧ b = none) ∨ ∃ x y, a = some x ∧ b = some y ∧ view x = view y := by
  cases a with
  | none =>
      rw [Option.map_none, eq_comm, Option.map_eq_none_iff] at h
      exact Or.inl ⟨rfl, h⟩
  | some x =>
      rw [Option.map_some, eq_comm, Option.map_eq_some_iff] at h
      obtain ⟨y, hy, hview⟩ := h
      exact Or.inr ⟨x, y, rfl, hy, hview.symm⟩

namespace Hierarchy

/-- Every name stands for the same class in both, as seen from outside. -/
structure SameOutline (h h' : Hierarchy) : Prop where
  find? : ∀ name, (h.find? name).map (·.outline) = (h'.find? name).map (·.outline)
  length : h.classes.length = h'.classes.length

variable {h h' : Hierarchy}

theorem map_untilRepeated (cs : List ClassInfo) : ∀ seen,
    (untilRepeated seen cs).map (·.outline) = untilRepeated seen (cs.map (·.outline)) := by
  induction cs with
  | nil => intro seen; rfl
  | cons c cs ih =>
      intro seen
      rw [untilRepeated, List.map_cons, untilRepeated, ClassInfo.name_outline, ← ih]
      split <;> rfl

/-- The first method on a chain of classes, seen from outside. -/
theorem findSome?_method? (cs : List ClassInfo) (x : String) :
    (cs.findSome? fun c => (c.method? x).map (c.name, ·)).map (Prod.map id (·.outline)) =
      (cs.map (·.outline)).findSome? fun c => (c.method? x).map (c.name, ·) := by
  rw [List.map_findSome?, List.findSome?_map]
  congr 1
  funext c
  simp only [Function.comp_apply, ClassInfo.method?_outline, Option.map_map]
  rfl

/-- The first attribute on a chain of classes, seen from outside. -/
theorem findSome?_attribute? (cs : List ClassInfo) (x : String) :
    (cs.findSome? fun c => (c.attribute? x).map (c.name, ·)).map (Prod.map id (·.outline)) =
      (cs.map (·.outline)).findSome? fun c => (c.attribute? x).map (c.name, ·) := by
  rw [List.map_findSome?, List.findSome?_map]
  congr 1
  funext c
  simp only [Function.comp_apply, ClassInfo.attribute?_outline, Option.map_map]
  rfl

/-- A join is found among the names of the ancestors. -/
theorem join_eq (h : Hierarchy) (a b : String) : h.join a b = if a = b then a else
    (((h.ancestors b).map (·.name)).find? ((h.ancestors a).map (·.name)).contains).getD
      ClassName.object := by
  unfold join
  rw [List.find?_map]
  simp only [Function.comp_def]
  cases (h.ancestors b).find? fun c => ((h.ancestors a).map (·.name)).contains c.name <;> rfl

namespace SameOutline

theorem map_find? {α : Type} (hh : h.SameOutline h') {view : ClassInfo → α}
    (hview : ∀ c, view c.outline = view c) (name : String) :
    (h.find? name).map view = (h'.find? name).map view := by
  have hfind := congrArg (Option.map view) (hh.find? name)
  simpa only [Option.map_map, Function.comp_def, hview] using hfind

theorem contains (hh : h.SameOutline h') (name : String) :
    h.contains name = h'.contains name := by
  have hfind := congrArg Option.isSome (hh.find? name)
  rwa [Option.isSome_map, Option.isSome_map] at hfind

theorem knownParent? (hh : h.SameOutline h') (name : String) :
    h.knownParent? name = h'.knownParent? name := by
  have hparent : h.parent? name = h'.parent? name := by
    have hfind := congrArg (Option.bind · ClassInfo.parent) (hh.find? name)
    simp only [Option.bind_map] at hfind
    exact hfind
  rw [Hierarchy.knownParent?, Hierarchy.knownParent?, hparent]
  congr 1
  funext parent
  exact hh.contains parent

theorem lineage (hh : h.SameOutline h') (n : Nat) : ∀ name,
    (h.lineage n name).map (·.outline) = (h'.lineage n name).map (·.outline) := by
  induction n with
  | zero => intro name; rfl
  | succ n ih =>
      intro name
      rw [Hierarchy.lineage, Hierarchy.lineage]
      rcases cases_of_map_eq (hh.find? name) with ⟨hc, hc'⟩ | ⟨c, c', hc, hc', heq⟩
      · rw [hc, hc']
      · have hparent : c.outline.parent = c'.outline.parent := by rw [heq]
        rw [c.parent_outline, c'.parent_outline] at hparent
        rw [hc, hc']
        dsimp only
        rw [hparent]
        cases c'.parent with
        | none => rw [List.map_singleton, List.map_singleton, heq]
        | some parent => rw [List.map_cons, List.map_cons, heq, ih parent]

theorem ancestors (hh : h.SameOutline h') (name : String) :
    (h.ancestors name).map (·.outline) = (h'.ancestors name).map (·.outline) := by
  rw [Hierarchy.ancestors, Hierarchy.ancestors, map_untilRepeated, map_untilRepeated, hh.length,
    hh.lineage]

theorem ancestorNames (hh : h.SameOutline h') (name : String) :
    (h.ancestors name).map (·.name) = (h'.ancestors name).map (·.name) := by
  have hnames := congrArg (List.map ClassInfo.name) (hh.ancestors name)
  simpa only [List.map_map, Function.comp_def, ClassInfo.name_outline] using hnames

theorem conforms (hh : h.SameOutline h') (sub super : String) :
    h.conforms sub super = h'.conforms sub super := by
  have hany : ∀ cs : List ClassInfo,
      cs.any (·.name == super) = (cs.map (·.name)).any (· == super) := by
    intro cs
    rw [List.any_map]
    rfl
  rw [Hierarchy.conforms, Hierarchy.conforms, hany, hany, hh.ancestorNames]

theorem join (hh : h.SameOutline h') (a b : String) : h.join a b = h'.join a b := by
  rw [join_eq, join_eq, hh.ancestorNames, hh.ancestorNames]

/-- The methods that are found are the same from outside. -/
theorem findMethod? (hh : h.SameOutline h') (className x : String) :
    (h.findMethod? className x = none ∧ h'.findMethod? className x = none) ∨
      ∃ owner m m', h.findMethod? className x = some (owner, m) ∧
        h'.findMethod? className x = some (owner, m') ∧ m.outline = m'.outline := by
  have hmap : (h.findMethod? className x).map (Prod.map id (·.outline)) =
      (h'.findMethod? className x).map (Prod.map id (·.outline)) := by
    rw [Hierarchy.findMethod?, Hierarchy.findMethod?, findSome?_method?, findSome?_method?,
      hh.ancestors]
  rcases cases_of_map_eq hmap with hnone | ⟨⟨owner, m⟩, ⟨owner', m'⟩, hm, hm', heq⟩
  · exact Or.inl hnone
  · obtain ⟨rfl, houtline⟩ := Prod.ext_iff.mp heq
    exact Or.inr ⟨owner, m, m', hm, hm', houtline⟩

/-- The attributes that are found are the same from outside. -/
theorem findAttribute? (hh : h.SameOutline h') (className x : String) :
    (h.findAttribute? className x = none ∧ h'.findAttribute? className x = none) ∨
      ∃ owner a a', h.findAttribute? className x = some (owner, a) ∧
        h'.findAttribute? className x = some (owner, a') ∧ a.outline = a'.outline := by
  have hmap : (h.findAttribute? className x).map (Prod.map id (·.outline)) =
      (h'.findAttribute? className x).map (Prod.map id (·.outline)) := by
    rw [Hierarchy.findAttribute?, Hierarchy.findAttribute?, findSome?_attribute?,
      findSome?_attribute?, hh.ancestors]
  rcases cases_of_map_eq hmap with hnone | ⟨⟨owner, a⟩, ⟨owner', a'⟩, ha, ha', heq⟩
  · exact Or.inl hnone
  · obtain ⟨rfl, houtline⟩ := Prod.ext_iff.mp heq
    exact Or.inr ⟨owner, a, a', ha, ha', houtline⟩

/-! ## Violations -/

theorem parentViolation? (hh : h.SameOutline h') : h.parentViolation? = h'.parentViolation? := by
  funext c
  unfold Hierarchy.parentViolation?
  simp only [hh.contains]

theorem cycleViolation (hh : h.SameOutline h') : h.cycleViolation = h'.cycleViolation := by
  funext name
  have hspan : (h.find? name).map (·.span.start) = (h'.find? name).map (·.span.start) :=
    hh.map_find? (fun _ => rfl) name
  rw [Hierarchy.cycleViolation, Hierarchy.cycleViolation, hspan]

theorem reachesRoot (hh : h.SameOutline h') (name : String) :
    h.reachesRoot name = h'.reachesRoot name := by
  have hany : ∀ cs : List ClassInfo, cs.getLast?.any (·.name == ClassName.object) =
      (cs.map (·.name)).getLast?.any (· == ClassName.object) := by
    intro cs
    rw [List.getLast?_map, Option.any_map]
  rw [Hierarchy.reachesRoot, Hierarchy.reachesRoot, hany, hany, hh.ancestorNames]

theorem mainViolation? (hh : h.SameOutline h') : h.mainViolation? = h'.mainViolation? := by
  unfold Hierarchy.mainViolation?
  rw [hh.reachesRoot]
  rcases cases_of_map_eq (hh.find? ClassName.mainClass) with ⟨hc, hc'⟩ | ⟨c, c', hc, hc', hcc⟩
  · rw [hc, hc']
  · have hspan : c.outline.span = c'.outline.span := by rw [hcc]
    rw [c.span_outline, c'.span_outline] at hspan
    rw [hc, hc']
    dsimp only
    rw [hspan]
    rcases hh.findMethod? ClassName.mainClass mainMethod with
      ⟨hm, hm'⟩ | ⟨owner, m, m', hm, hm', hmm⟩
    · rw [hm, hm']
    · obtain ⟨n, returns, formals, body, span⟩ := m
      obtain ⟨n', returns', formals', body', span'⟩ := m'
      obtain ⟨rfl, rfl, rfl, -, rfl⟩ := Method.mk.inj hmm
      rw [hm, hm']
      rfl

end SameOutline

end Hierarchy

end CoolLang
