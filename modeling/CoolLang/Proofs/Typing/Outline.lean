import CoolLang.Proofs.Hierarchy.Outline
import CoolLang.Typing.Class

/-!
# A check looks at other classes from outside

What a check does depends on the classes of the hierarchy only as far as they can be seen from
outside. So the expressions elsewhere in a program can be exchanged without any effect on the check
of this one.
-/

namespace CoolLang.Hierarchy.SameOutline

variable {h h' : Hierarchy}

/-! ## Requirements -/

theorem declaredType (hh : h.SameOutline h') : Check.declaredType h = Check.declaredType h' := by
  funext typeName position
  rw [Check.declaredType, Check.declaredType, hh.contains]

theorem declaredClass (hh : h.SameOutline h') :
    Check.declaredClass h = Check.declaredClass h' := by
  funext typeName context position
  rw [Check.declaredClass, Check.declaredClass, hh.declaredType]

theorem requireConforms (hh : h.SameOutline h') :
    Check.requireConforms h = Check.requireConforms h' := by
  funext received expected context position
  rw [Check.requireConforms, Check.requireConforms, hh.conforms]

/-! ## Names and calls -/

theorem variableType? (hh : h.SameOutline h') :
    Check.variableType? h = Check.variableType? h' := by
  funext x s
  unfold Check.variableType?
  rcases hh.findAttribute? s.currentClass x with ⟨ha, ha'⟩ | ⟨owner, a, a', ha, ha', heq⟩
  · rw [ha, ha']
  · have htype : a.outline.typeName = a'.outline.typeName := by rw [heq]
    rw [ha, ha']
    dsimp only
    rw [show a.typeName = a'.typeName from htype]

theorem name (hh : h.SameOutline h') : Check.name h = Check.name h' := by
  funext x position
  unfold Check.name
  rw [hh.variableType?]
  congr 1
  funext t
  cases t with
  | some T => rfl
  | none =>
      refine congrArg (Check.currentClass >>= ·) (funext fun C => ?_)
      rcases hh.findMethod? C x with ⟨hm, hm'⟩ | ⟨owner, m, m', hm, hm', heq⟩
      · rw [hm, hm']
      · obtain ⟨n, returns, formals, body, span⟩ := m
        obtain ⟨n', returns', formals', body', span'⟩ := m'
        obtain ⟨rfl, rfl, rfl, -, rfl⟩ := Method.mk.inj heq
        rw [hm, hm']
        cases formals <;> rfl

theorem assignment (hh : h.SameOutline h') : Check.assignment h = Check.assignment h' := by
  funext x received position valuePosition
  unfold Check.assignment
  rw [hh.variableType?, hh.requireConforms]

theorem lookupClass? (hh : h.SameOutline h') :
    Check.lookupClass? h = Check.lookupClass? h' := by
  funext receiver qualifier position
  unfold Check.lookupClass?
  simp only [hh.contains, hh.requireConforms]

theorem argumentsConform (hh : h.SameOutline h') (method : String) (formals : List Parameter) :
    ∀ index arguments, Check.argumentsConform h method index formals arguments =
      Check.argumentsConform h' method index formals arguments := by
  induction formals with
  | nil => intro index arguments; rfl
  | cons formal formals ih =>
      intro index arguments
      cases arguments with
      | nil => rfl
      | cons argument arguments =>
          obtain ⟨received, position⟩ := argument
          rw [Check.argumentsConform, Check.argumentsConform, hh.conforms, ih]

theorem call (hh : h.SameOutline h') : Check.call h = Check.call h' := by
  funext receiver lookupClass method arguments position
  unfold Check.call
  rcases hh.findMethod? lookupClass method with ⟨hm, hm'⟩ | ⟨owner, m, m', hm, hm', heq⟩
  · rw [hm, hm']
  · obtain ⟨n, returns, formals, body, span⟩ := m
    obtain ⟨n', returns', formals', body', span'⟩ := m'
    obtain ⟨rfl, rfl, rfl, -, rfl⟩ := Method.mk.inj heq
    rw [hm, hm']
    dsimp only
    rw [hh.argumentsConform]
    rfl

theorem branchHead (hh : h.SameOutline h') : Check.branchHead h = Check.branchHead h' := by
  funext b seen
  rw [Check.branchHead, Check.branchHead, hh.declaredClass]

/-! ## Expressions -/

mutual

theorem checkExpr (hh : h.SameOutline h') : (e : Expr) →
    CoolLang.checkExpr h e = CoolLang.checkExpr h' e
  | .int .. | .str .. | .bool .. | .self _ | .primitive .. => by
      rw [CoolLang.checkExpr, CoolLang.checkExpr]
  | .name x span => by rw [CoolLang.checkExpr, CoolLang.checkExpr, hh.name]
  | .assign x value span => by
      rw [CoolLang.checkExpr, CoolLang.checkExpr, checkExpr hh value, hh.assignment]
  | .dispatch r q method args span => by
      rw [CoolLang.checkExpr, CoolLang.checkExpr, checkReceiver hh r, hh.lookupClass?,
        checkArguments hh args, hh.call]
  | .new typeName span => by rw [CoolLang.checkExpr, CoolLang.checkExpr, hh.declaredType]
  | .cond c t f _ => by
      rw [CoolLang.checkExpr, CoolLang.checkExpr, checkExpr hh c, checkExpr hh t, checkExpr hh f]
      simp only [hh.join]
  | .loop c body _ => by
      rw [CoolLang.checkExpr, CoolLang.checkExpr, checkExpr hh c, checkExpr hh body]
  | .block body _ => by
      rw [CoolLang.checkExpr, CoolLang.checkExpr, checkSequence hh ClassName.object body]
  | .letIn bs body _ => by
      rw [CoolLang.checkExpr, CoolLang.checkExpr, checkBindings hh bs, checkExpr hh body]
  | .caseOf scrutinee branches _ => by
      have hjoin : h.join = h'.join := by
        funext a b
        exact hh.join a b
      rw [CoolLang.checkExpr, CoolLang.checkExpr, checkExpr hh scrutinee,
        checkBranches hh [] branches, hjoin]
  | .isVoid e _ => by rw [CoolLang.checkExpr, CoolLang.checkExpr, checkExpr hh e]
  | .unary op e _ => by rw [CoolLang.checkExpr, CoolLang.checkExpr, checkExpr hh e]
  | .binary op l r _ => by
      rw [CoolLang.checkExpr, CoolLang.checkExpr, checkExpr hh l, checkExpr hh r]

theorem checkReceiver (hh : h.SameOutline h') : (r : Option Expr) →
    CoolLang.checkReceiver h r = CoolLang.checkReceiver h' r
  | none => by rw [CoolLang.checkReceiver, CoolLang.checkReceiver]
  | some e => by rw [CoolLang.checkReceiver, CoolLang.checkReceiver, checkExpr hh e]

theorem checkArguments (hh : h.SameOutline h') : (es : List Expr) →
    CoolLang.checkArguments h es = CoolLang.checkArguments h' es
  | [] => by rw [CoolLang.checkArguments, CoolLang.checkArguments]
  | e :: es => by
      rw [CoolLang.checkArguments, CoolLang.checkArguments, checkExpr hh e, checkArguments hh es]

theorem checkSequence (hh : h.SameOutline h') : (last : String) → (es : List Expr) →
    CoolLang.checkSequence h last es = CoolLang.checkSequence h' last es
  | last, [] => by rw [CoolLang.checkSequence, CoolLang.checkSequence]
  | last, e :: es => by
      rw [CoolLang.checkSequence, CoolLang.checkSequence, checkExpr hh e]
      congr 1
      funext T
      exact checkSequence hh T es

theorem checkBindings (hh : h.SameOutline h') : (bs : List Binding) →
    CoolLang.checkBindings h bs = CoolLang.checkBindings h' bs
  | [] => by rw [CoolLang.checkBindings, CoolLang.checkBindings]
  | ⟨x, T, init, span⟩ :: bs => by
      rw [CoolLang.checkBindings, CoolLang.checkBindings, hh.declaredType, checkBindings hh bs]
      have hinit := fun D => checkInitializer hh s!"initializer of {x}" D init
      simp only [hinit]

theorem checkInitializer (hh : h.SameOutline h') : (context declared : String) →
    (init : Option Expr) →
    CoolLang.checkInitializer h context declared init =
      CoolLang.checkInitializer h' context declared init
  | _, _, none => by rw [CoolLang.checkInitializer, CoolLang.checkInitializer]
  | _, _, some e => by
      rw [CoolLang.checkInitializer, CoolLang.checkInitializer, checkExpr hh e,
        hh.requireConforms]

theorem checkBranches (hh : h.SameOutline h') : (seen : List String) → (bs : List Branch) →
    CoolLang.checkBranches h seen bs = CoolLang.checkBranches h' seen bs
  | _, [] => by rw [CoolLang.checkBranches, CoolLang.checkBranches]
  | seen, ⟨x, T, body, span⟩ :: bs => by
      rw [CoolLang.checkBranches, CoolLang.checkBranches, hh.branchHead, checkExpr hh body,
        checkBranches hh (T :: seen) bs]

end

/-! ## Classes -/

theorem checkAttribute (hh : h.SameOutline h') (c : ClassInfo) :
    CoolLang.checkAttribute h c = CoolLang.checkAttribute h' c := by
  funext a
  -- an ancestor that declares the attribute already is told by its outline
  have hfind :
      ((h.ancestors c.name).tail.find? fun d => (d.attribute? a.name).isSome).map (·.name) =
        ((h'.ancestors c.name).tail.find? fun d => (d.attribute? a.name).isSome).map
          (·.name) := by
    have hmap := congrArg (fun cs : List ClassInfo =>
      (cs.tail.find? fun d => (d.attribute? a.name).isSome).map (·.name)) (hh.ancestors c.name)
    simpa only [← List.map_tail, List.find?_map, Option.map_map, Function.comp_def,
      ClassInfo.attribute?_outline, Option.isSome_map, ClassInfo.name_outline] using hmap
  unfold CoolLang.checkAttribute
  rw [hh.declaredType]
  have hinit := fun D => hh.checkInitializer s!"initializer of attribute {a.name}" D a.init
  rcases cases_of_map_eq hfind with ⟨hd, hd'⟩ | ⟨d, d', hd, hd', hname⟩
  · simp only [hd, hd', hinit]
  · simp only [hd, hd', hinit, hname]

theorem checkFormal (hh : h.SameOutline h') : CoolLang.checkFormal h = CoolLang.checkFormal h' := by
  funext position formal
  rw [CoolLang.checkFormal, CoolLang.checkFormal, hh.declaredClass]

theorem checkOverride (hh : h.SameOutline h') (c : ClassInfo) :
    CoolLang.checkOverride h c = CoolLang.checkOverride h' c := by
  funext m
  unfold CoolLang.checkOverride
  cases c.parent with
  | none => rfl
  | some parent =>
      simp only [Option.bind_some]
      rcases hh.findMethod? parent m.name with ⟨ho, ho'⟩ | ⟨owner, o, o', ho, ho', heq⟩
      · rw [ho, ho']
      · obtain ⟨n, returns, formals, body, span⟩ := o
        obtain ⟨n', returns', formals', body', span'⟩ := o'
        obtain ⟨rfl, rfl, rfl, -, rfl⟩ := Method.mk.inj heq
        rw [ho, ho']
        rfl

theorem checkMethod (hh : h.SameOutline h') (c : ClassInfo) :
    CoolLang.checkMethod h c = CoolLang.checkMethod h' c := by
  funext m
  rw [CoolLang.checkMethod, CoolLang.checkMethod, hh.checkFormal, hh.declaredType,
    hh.checkOverride, hh.checkExpr, hh.requireConforms]

/-- **The check of a class looks at the others from outside.** -/
theorem checkClass (hh : h.SameOutline h') (c : ClassInfo) :
    CoolLang.checkClass h c = CoolLang.checkClass h' c := by
  rw [CoolLang.checkClass, CoolLang.checkClass, hh.checkAttribute, hh.checkMethod]

end CoolLang.Hierarchy.SameOutline
