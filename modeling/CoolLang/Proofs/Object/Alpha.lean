import CoolLang.Proofs.Hierarchy.Alpha
import CoolLang.Proofs.Object.Blueprint
import CoolLang.Proofs.Object.Store

/-!
# Blueprints and stores of alpha-equivalent programs

The blueprints of alpha-equivalent classes hold alpha-equivalent methods and slots. A store is only
ever asked for the outlines of the blueprints in it, so stores of two such programs are compared by
these: the same cells, and objects that look the same from outside.
-/

namespace CoolLang

open List (Forall₂)

theorem both_findSome? {α β : Type} {R : α → α → Prop} {S : β → β → Prop} {f : α → Option β}
    (hf : ∀ a b, R a b → Both S (f a) (f b)) {as bs : List α} (h : Forall₂ R as bs) :
    Both S (as.findSome? f) (bs.findSome? f) := by
  induction h with
  | nil => exact Or.inl ⟨rfl, rfl⟩
  | @cons a b as bs hab _ ih =>
      rw [List.findSome?_cons, List.findSome?_cons]
      rcases hf a b hab with ⟨ha, hb⟩ | ⟨x, y, ha, hb, hxy⟩
      · rw [ha, hb]
        exact ih
      · rw [ha, hb]
        exact Or.inr ⟨x, y, rfl, rfl, hxy⟩

theorem Both.filter {α : Type} {R : α → α → Prop} {test : α → Bool}
    (htest : ∀ a b, R a b → test a = test b) {a b : Option α} (h : Both R a b) :
    Both R (a.filter test) (b.filter test) := by
  rcases h with ⟨rfl, rfl⟩ | ⟨x, y, rfl, rfl, hxy⟩
  · exact Or.inl ⟨rfl, rfl⟩
  · rw [Option.filter_some, Option.filter_some, htest x y hxy]
    split
    · exact Or.inr ⟨x, y, rfl, rfl, hxy⟩
    · exact Or.inl ⟨rfl, rfl⟩

/-! ## Blueprints -/

structure Blueprint.Alpha (b b' : Blueprint) : Prop where
  name : b.name = b'.name
  ancestors : Forall₂ ClassInfo.Alpha b.ancestors b'.ancestors
  layout : Forall₂ Attribute.Alpha b.layout b'.layout

/-- The blueprint without the expressions in it. -/
def Blueprint.outline (b : Blueprint) : Blueprint :=
  ⟨b.name, b.ancestors.map (·.outline), b.layout.map (·.outline)⟩

namespace Blueprint

theorem alpha_extendLayout {attributes attributes' : List Attribute}
    (ha : Forall₂ Attribute.Alpha attributes attributes') : ∀ {layout layout' : List Attribute},
      Forall₂ Attribute.Alpha layout layout' →
      Forall₂ Attribute.Alpha (extendLayout layout attributes)
        (extendLayout layout' attributes') := by
  induction ha with
  | nil => intro layout layout' hl; exact hl
  | @cons a a' _ _ ha _ ih =>
      intro layout layout' hl
      rw [extendLayout, List.foldl_cons, extendLayout, List.foldl_cons]
      have hany : layout.any (·.name == a.name) = layout'.any (·.name == a'.name) := by
        have hnames := map_eq_of_forall₂ (fun _ _ h => Attribute.Alpha.name h) hl
        have hmap : ∀ as : List Attribute,
            as.any (·.name == a'.name) = (as.map (·.name)).any (· == a'.name) := by
          intro as
          rw [List.any_map]
          rfl
        rw [ha.name, hmap, hmap, hnames]
      rw [hany]
      split
      · exact ih hl
      · exact ih (List.rel_append hl (.cons ha .nil))

theorem alpha_layoutOf {cs cs' : List ClassInfo} (hcs : Forall₂ ClassInfo.Alpha cs cs') :
    Forall₂ Attribute.Alpha (layoutOf cs) (layoutOf cs') := by
  induction hcs with
  | nil => exact .nil
  | cons hc _ ih =>
      rw [layoutOf_cons, layoutOf_cons]
      exact alpha_extendLayout hc.attributes ih

theorem alpha_ofClass {h h' : Hierarchy} (hh : h.Alpha h') (name : String) :
    (ofClass h name).Alpha (ofClass h' name) :=
  ⟨rfl, hh.ancestors name, alpha_layoutOf (hh.ancestors name)⟩

namespace Alpha

variable {b b' : Blueprint}

theorem outline (hb : b.Alpha b') : b.outline = b'.outline := by
  rw [Blueprint.outline, Blueprint.outline, hb.name,
    map_eq_of_forall₂ (fun _ _ hc => ClassInfo.Alpha.outline hc) hb.ancestors,
    map_eq_of_forall₂ (fun _ _ ha => Attribute.Alpha.outline ha) hb.layout]

theorem distance? (hb : b.Alpha b') (ancestor : String) :
    b.distance? ancestor = b'.distance? ancestor := by
  have hnames := map_eq_of_forall₂ (fun _ _ hc => ClassInfo.Alpha.name hc) hb.ancestors
  have hmap : ∀ cs : List ClassInfo, cs.findIdx? (·.name == ancestor) =
      (cs.map (·.name)).findIdx? (· == ancestor) := by
    intro cs
    rw [List.findIdx?_map]
    rfl
  rw [Blueprint.distance?, Blueprint.distance?, hmap, hmap, hnames]

/-- A call finds methods that go with each other. -/
theorem findMethod? (hb : b.Alpha b') (name : String) (arity : Nat) :
    Both Method.Alpha (b.findMethod? name arity) (b'.findMethod? name arity) := by
  refine both_findSome? (fun c c' hc => ?_) hb.ancestors
  have hmethod : Both Method.Alpha (c.method? name) (c'.method? name) :=
    both_find? (fun _ _ hm => by rw [hm.name]) hc.methods
  exact hmethod.filter fun _ _ hm => by rw [Method.arity, Method.arity, hm.formals]

end Alpha

end Blueprint

/-! ## Objects and stores -/

/-- The object without the expressions in its blueprint. -/
def Object.outline (o : Object) : Object :=
  { o with blueprint := o.blueprint.outline }

theorem Object.outline_set (o : Object) (name : String) (v : Value) :
    (o.set name v).outline = o.outline.set name v := rfl

theorem Blueprint.hasAttribute_outline (b : Blueprint) (name : String) :
    b.outline.hasAttribute name = b.hasAttribute name := by
  rw [hasAttribute, hasAttribute, outline, List.any_map]
  rfl

theorem Blueprint.Alpha.ofBlueprint {b b' : Blueprint} (hb : b.Alpha b') :
    (Object.ofBlueprint b).outline = (Object.ofBlueprint b').outline := by
  have hfields : b.layout.map (fun slot => (slot.name, Value.defaultFor slot.typeName)) =
      b'.layout.map fun slot => (slot.name, Value.defaultFor slot.typeName) :=
    map_eq_of_forall₂ (fun _ _ ha => by rw [ha.name, ha.typeName]) hb.layout
  simp only [Object.outline, Object.ofBlueprint, hb.outline, hfields]

/-- The same cells, and objects that look the same from outside. -/
structure Store.SameOutline (s s' : Store) : Prop where
  cells : s.cells = s'.cells
  size : s.objects.size = s'.objects.size
  object? : ∀ place, (s.object? place).map (·.outline) = (s'.object? place).map (·.outline)

namespace Store

theorem object?_addObject (s : Store) (o : Object) (place : Nat) :
    (s.addObject o).object? place =
      if place = s.objects.size then some o else s.object? place := by
  rw [object?, addObject, Array.getElem?_push]
  rfl

theorem object?_setField (s : Store) (place : Nat) (name : String) (v : Value) (other : Nat) :
    (s.setField place name v).object? other =
      if place = other then (s.object? other).map (·.set name v) else s.object? other := by
  rw [object?, setField, Array.getElem?_modify]
  rfl

namespace SameOutline

variable {s s' : Store}

theorem addCell (hs : s.SameOutline s') (v : Value) :
    (s.addCell v).SameOutline (s'.addCell v) := by
  refine ⟨?_, hs.size, hs.object?⟩
  rw [Store.addCell, Store.addCell, hs.cells]

theorem setCell (hs : s.SameOutline s') (place : Nat) (v : Value) :
    (s.setCell place v).SameOutline (s'.setCell place v) := by
  refine ⟨?_, hs.size, hs.object?⟩
  rw [Store.setCell, Store.setCell, hs.cells]

theorem addObject (hs : s.SameOutline s') {o o' : Object} (ho : o.outline = o'.outline) :
    (s.addObject o).SameOutline (s'.addObject o') := by
  refine ⟨hs.cells, ?_, fun place => ?_⟩
  · rw [Store.addObject, Store.addObject, Array.size_push, Array.size_push, hs.size]
  · rw [object?_addObject, object?_addObject, hs.size]
    split
    · rw [Option.map_some, Option.map_some, ho]
    · exact hs.object? place

theorem setField (hs : s.SameOutline s') (place : Nat) (name : String) (v : Value) :
    (s.setField place name v).SameOutline (s'.setField place name v) := by
  refine ⟨hs.cells, ?_, fun other => ?_⟩
  · rw [Store.setField, Store.setField, Array.size_modify, Array.size_modify, hs.size]
  · rw [object?_setField, object?_setField]
    split
    · have hset := congrArg (Option.map (·.set name v)) (hs.object? other)
      simpa only [Option.map_map, Function.comp_def, Object.outline_set] using hset
    · exact hs.object? other

/-! ## What is asked of a store -/

theorem className? (hs : s.SameOutline s') (v : Value) : v.className? s = v.className? s' := by
  cases v with
  | object place =>
      have hname := congrArg (Option.map fun o => o.blueprint.name) (hs.object? place)
      rwa [Option.map_map, Option.map_map] at hname
  | _ => rfl

theorem render (hs : s.SameOutline s') (v : Value) : v.render s = v.render s' := by
  cases v with
  | object place => rw [Value.render, Value.render, hs.className?]
  | _ => rfl

theorem attribute? (hs : s.SameOutline s') (v : Value) (name : String) :
    (v.object? s).bind (·.get? name) = (v.object? s').bind (·.get? name) := by
  cases v with
  | object place =>
      have hfield := congrArg (Option.bind · (·.get? name)) (hs.object? place)
      simp only [Option.bind_map] at hfield
      exact hfield
  | _ => rfl

theorem hasAttribute (hs : s.SameOutline s') (place : Nat) (name : String) :
    (s.object? place).any (·.blueprint.hasAttribute name) =
      (s'.object? place).any (·.blueprint.hasAttribute name) := by
  have hany := congrArg (Option.any (·.blueprint.hasAttribute name)) (hs.object? place)
  simpa only [Option.any_map, Function.comp_def, Object.outline,
    Blueprint.hasAttribute_outline] using hany

theorem copy (hs : s.SameOutline s') (v : Value) :
    (v.copy s).1 = (v.copy s').1 ∧ (v.copy s).2.SameOutline (v.copy s').2 := by
  cases v with
  | object place =>
      simp only [Value.copy]
      rcases cases_of_map_eq (hs.object? place) with ⟨ho, ho'⟩ | ⟨o, o', ho, ho', heq⟩
      · rw [ho, ho']
        exact ⟨rfl, hs⟩
      · rw [ho, ho']
        exact ⟨congrArg Value.object hs.size, hs.addObject heq⟩
  | _ => exact ⟨rfl, hs⟩

end SameOutline

end Store

end CoolLang
