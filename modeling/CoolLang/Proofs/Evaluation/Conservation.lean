import CoolLang.Proofs.Evaluation.Regime

/-!
# What evaluation conserves

A relation between the machines before and after, which every operation respects and which nested
calls and constructions restore, holds between the machine that evaluation starts from and the one
it leaves, on every exit, and across each part of a rule. The output grows and the guards are
restored in this sense.
-/

namespace CoolLang

/-- Text was only added to the output. -/
def Machine.WritesOn (m m' : Machine) : Prop :=
  ∃ text, m'.output = m.output ++ text

/-- No call and no construction that was begun is still under way. -/
structure Machine.Balanced (m m' : Machine) : Prop where
  callDepth : m'.callDepth = m.callDepth
  constructing : m'.constructing = m.constructing

variable {p : Program} {R : Machine → Machine → Prop}

theorem Evaluator.Keeps.obeys {ev : Evaluator} (hev : ev.Keeps R) :
    ev.Obeys (.ofRelation R) :=
  fun _ _ => ⟨hev _ _ _, fun _ => trivial⟩

namespace Conserved

variable {ev : Evaluator}

/-! ## Parts of the rules

`hev` speaks of the evaluator of the expressions inside the one at hand. -/

theorem define (hR : Conserved p R) (env : Environment) (name : String) (v : Value)
    (m : Machine) : R m ((Eval.define env name v).final m) := hR.addCell m v

theorem assign (hR : Conserved p R) (env : Environment) (name : String) (v : Value)
    (position : Position) (m : Machine) : R m ((Eval.assign env name v position).final m) :=
  (hR.lawful.assign name v position).change

theorem bindFormals (hR : Conserved p R) (formals : List Parameter) (env : Environment)
    (values : List Value) (m : Machine) :
    R m ((Eval.bindFormals env formals values).final m) := by
  have hbound : (Eval.bindFormals env formals values >>= pure).Obeys (.ofRelation R) env m :=
    hR.lawful.bindFormals formals (fun _ => hR.lawful.ret _) values trivial
  rw [bind_pure] at hbound
  exact hbound.change

theorem perform (hR : Conserved p R) (operation : Primitive) (receiver : Value)
    (arguments : List Value) (position : Position) (m : Machine) :
    R m ((operation.perform receiver arguments position).final m) := by
  have hdone : (operation.perform receiver arguments position).Obeys (.ofRelation R)
      (.ofSelf receiver) m := hR.lawful.perform trivial operation receiver arguments position
  exact hdone.change

theorem bool (hR : Conserved p R) (hev : ev.Keeps R) (e : Expr) (env : Environment)
    (m : Machine) : R m ((Eval.bool ev e env).final m) :=
  (hR.lawful.bool hev.obeys trivial trivial).change

theorem int (hR : Conserved p R) (hev : ev.Keeps R) (e : Expr) (env : Environment)
    (m : Machine) : R m ((Eval.int ev e env).final m) :=
  (hR.lawful.int hev.obeys trivial trivial).change

theorem receiver (hR : Conserved p R) (hev : ev.Keeps R) (r : Option Expr)
    (env : Environment) (m : Machine) : R m ((Eval.receiver ev env r).final m) :=
  (hR.lawful.receiver hev.obeys (fun _ _ => trivial) trivial).change

theorem arguments (hR : Conserved p R) (hev : ev.Keeps R) (env : Environment)
    (args : List Expr) (m : Machine) : R m ((Eval.arguments ev env args).final m) :=
  (hR.lawful.arguments hev.obeys args (fun _ _ => trivial) trivial).change

theorem initialValue (hR : Conserved p R) (hev : ev.Keeps R) (env : Environment)
    (b : Binding) (m : Machine) : R m ((Eval.initialValue ev env b).final m) :=
  (hR.lawful.initialValue hev.obeys (fun _ _ => trivial) trivial).change

theorem bindings (hR : Conserved p R) (hev : ev.Keeps R) (bs : List Binding)
    (env : Environment) (m : Machine) : R m ((Eval.bindings ev env bs).final m) := by
  have hbound : (Eval.bindings ev env bs >>= pure).Obeys (.ofRelation R) env m :=
    hR.lawful.bindings hev.obeys bs (fun _ _ => trivial) (fun _ => hR.lawful.ret _) trivial
  rw [bind_pure] at hbound
  exact hbound.change

theorem repeatWhile (hR : Conserved p R) {condition : Eval Bool} {body : Eval Value}
    (hc : ∀ m, R m (condition.final m)) (hb : ∀ m, R m (body.final m)) (rounds : Nat)
    (m : Machine) : R m ((Eval.repeatWhile condition body rounds).final m) := by
  have hloop : (Eval.repeatWhile condition body rounds).Obeys (.ofRelation R)
      (.ofSelf .void) m :=
    hR.lawful.repeatWhile (fun {m} _ => ⟨hc m, fun _ => trivial⟩)
      (fun {m} _ => ⟨hb m, fun _ => trivial⟩) rounds trivial
  exact hloop.change

theorem fillSlot (hR : Conserved p R) (hev : ev.Keeps R)
    (hobj : ev.Keeps Machine.KeepsObjects) {b : Blueprint} {slot : Attribute}
    (hslot : b.hasAttribute slot.name = true) {place : Nat} {m : Machine}
    (hplace : ∃ o, m.store.object? place = some o ∧ o.blueprint = b) :
    R m ((Eval.fillSlot ev place slot).final m) :=
  (hR.lawful.fillSlot hev.obeys hobj hslot (fun _ _ => trivial) hplace trivial).change

theorem instantiate (hR : Conserved p R) (hev : ev.Keeps R)
    (hobj : ev.Keeps Machine.KeepsObjects) (className : String) (position : Position)
    (m : Machine) : R m ((Eval.instantiate p ev className position).final m) := by
  have hmade : (Eval.instantiate p ev className position).Obeys (.ofRelation R)
      (.ofSelf .void) m := hR.lawful.instantiate hev.obeys hobj trivial position trivial
  exact hmade.change

theorem newClass (hR : Conserved p R) (typeName : String) (env : Environment)
    (position : Position) (m : Machine) :
    R m ((Eval.newClass typeName env position).final m) := by
  have hclass : (Eval.newClass typeName env position >>= pure).Obeys (.ofRelation R) env m :=
    hR.lawful.newClass (fun _ => trivial) position trivial fun _ => hR.lawful.ret _
  rw [bind_pure] at hclass
  exact hclass.change

/-- **Conservation.** What every operation respects, evaluation respects. -/
theorem eval (hR : Conserved p R) (fuel : Nat) : Evaluator.Keeps (CoolLang.eval p fuel) R :=
  fun _ _ _ => (hR.lawful.eval fuel trivial trivial).change

end Conserved

namespace Machine

/-! ## The output grows and the guards are restored -/

theorem writesOn_of_output_eq {m m' : Machine} (h : m'.output = m.output) : m.WritesOn m' :=
  ⟨"", by rw [h, String.append_empty]⟩

theorem WritesOn.trans {m₁ m₂ m₃ : Machine} (h₁ : m₁.WritesOn m₂) (h₂ : m₂.WritesOn m₃) :
    m₁.WritesOn m₃ := by
  obtain ⟨t₁, h₁⟩ := h₁
  obtain ⟨t₂, h₂⟩ := h₂
  exact ⟨t₁ ++ t₂, by rw [h₂, h₁, String.append_assoc]⟩

theorem conserved_writesOn (p : Program) : Conserved p WritesOn where
  refl _ := writesOn_of_output_eq rfl
  trans := WritesOn.trans
  write _ text := ⟨text, rfl⟩
  read _ := writesOn_of_output_eq rfl
  create _ _ _ _ := writesOn_of_output_eq rfl
  copy _ _ := writesOn_of_output_eq rfl
  addCell _ _ := writesOn_of_output_eq rfl
  setCell _ _ _ := writesOn_of_output_eq rfl
  setField _ _ _ _ _ _ _ := writesOn_of_output_eq rfl
  call h := h
  construction _ h := h

theorem Balanced.refl (m : Machine) : m.Balanced m := ⟨rfl, rfl⟩

theorem Balanced.trans {m₁ m₂ m₃ : Machine} (h₁ : m₁.Balanced m₂) (h₂ : m₂.Balanced m₃) :
    m₁.Balanced m₃ :=
  ⟨h₂.callDepth.trans h₁.callDepth, h₂.constructing.trans h₁.constructing⟩

theorem conserved_balanced (p : Program) : Conserved p Balanced where
  refl := Balanced.refl
  trans := Balanced.trans
  write _ _ := ⟨rfl, rfl⟩
  read _ := ⟨rfl, rfl⟩
  create _ _ _ _ := ⟨rfl, rfl⟩
  copy _ _ := ⟨rfl, rfl⟩
  addCell _ _ := ⟨rfl, rfl⟩
  setCell _ _ _ := ⟨rfl, rfl⟩
  setField _ _ _ _ _ _ _ := ⟨rfl, rfl⟩
  call h := ⟨by show _ - 1 = _; rw [h.callDepth]; rfl, h.constructing⟩
  construction _ h := ⟨h.callDepth, by show List.tail _ = _; rw [h.constructing]; rfl⟩

end Machine

end CoolLang
