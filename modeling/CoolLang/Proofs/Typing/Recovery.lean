import CoolLang.Proofs.Hierarchy.Join
import CoolLang.Proofs.Typing.Override

/-!
# Types after errors

A check goes on after an error, with the root class in place of a type that it does not know. What
an expression names itself is replaced in this way: the types of its bindings and branches and of
what it makes. What it takes from a declaration elsewhere is not, so the declared type of an
attribute or of the result of a method may come out of a check although there is no such class. No
other unknown type does, and these are reported where they are declared.
-/

namespace CoolLang

/-! ## Scopes -/

/-- Every type declared in the scope is as described. -/
def Scope.AllTypes (P : String → Prop) (Γ : Scope) : Prop :=
  ∀ frame ∈ Γ.frames, ∀ declaration ∈ frame, P declaration.2

namespace Scope.AllTypes

variable {P : String → Prop} {Γ : Scope}

theorem push (hΓ : Γ.AllTypes P) : Γ.push.AllTypes P :=
  List.forall_mem_cons.mpr ⟨by simp, hΓ⟩

theorem pop (hΓ : Γ.AllTypes P) : Γ.pop.AllTypes P :=
  fun frame hframe => hΓ frame (List.mem_of_mem_tail hframe)

theorem declare (hΓ : Γ.AllTypes P) (name : String) {typeName : String} (hT : P typeName) :
    (Γ.declare name typeName).AllTypes P := by
  obtain ⟨frames⟩ := Γ
  cases frames with
  | nil => simpa [AllTypes, Scope.declare] using hT
  | cons frame outer =>
      obtain ⟨hframe, houter⟩ := List.forall_mem_cons.mp hΓ
      exact List.forall_mem_cons.mpr ⟨List.forall_mem_cons.mpr ⟨hT, hframe⟩, houter⟩

theorem of_typeOf? (hΓ : Γ.AllTypes P) {x T : String} (hx : Γ.typeOf? x = some T) : P T := by
  obtain ⟨frame, hframe, hlookup⟩ := List.exists_of_findSome?_eq_some hx
  obtain ⟨before, after, rfl, -⟩ := List.lookup_eq_some_iff.mp hlookup
  exact hΓ _ hframe (x, T) (List.mem_append_right _ List.mem_cons_self)

end Scope.AllTypes

/-! ## Known types -/

/-- The check is made in a known class, and all names in scope have known types. -/
structure Checker.Settled (h : Hierarchy) (s : Checker) : Prop where
  currentClass : h.contains s.currentClass = true
  scope : s.scope.AllTypes (h.contains · = true)

theorem Checker.Logs.settled {h : Hierarchy} {s s' : Checker} (hlogs : s.Logs s')
    (hs : s.Settled h) : s'.Settled h :=
  ⟨hlogs.currentClass ▸ hs.currentClass, hlogs.scope ▸ hs.scope⟩

/-- The class declares the type for an attribute or for the result of a method. -/
def ClassInfo.DeclaresType (c : ClassInfo) (T : String) (span : Span) : Prop :=
  (∃ a ∈ c.attributes, a.typeName = T ∧ a.span = span) ∨
    ∃ m ∈ c.methods, m.returnType = T ∧ m.span = span

/-- A known class, or a type that a class of the program declares. -/
def Hierarchy.Mentions (h : Hierarchy) (T : String) : Prop :=
  h.contains T = true ∨
    T ≠ ClassName.selfType ∧ ∃ c ∈ h.userClasses, ∃ span, c.DeclaresType T span

namespace Hierarchy

variable {h : Hierarchy}

theorem WellNamed.contains_builtin (hh : h.WellNamed) {T : String} (hT : T ∈ ClassName.builtins) :
    h.contains T = true := by
  rw [← Builtin.map_name_classes] at hT
  obtain ⟨c, hc, rfl⟩ := List.mem_map.mp hT
  exact contains_of_mem (hh.builtin c hc)

theorem WellNamed.contains_object (hh : h.WellNamed) : h.contains ClassName.object = true :=
  hh.contains_builtin (by decide)

theorem Mentions.join (hh : h.WellNamed) {a b : String} (ha : h.Mentions a) :
    h.Mentions (h.join a b) := by
  unfold Hierarchy.join
  split
  · exact ha
  · dsimp only
    split
    · rename_i c hc
      have hmem := mem_classes_of_mem_ancestors (List.mem_of_find?_eq_some hc)
      exact .inl (contains_of_mem hmem)
    · exact .inl hh.contains_object

theorem Mentions.joinAll (hh : h.WellNamed) {types : List String}
    (htypes : ∀ T ∈ types, h.Mentions T) : h.Mentions (h.joinAll types) := by
  cases types with
  | nil => exact .inl hh.contains_object
  | cons first rest =>
      exact List.foldlRecOn rest h.join (htypes first List.mem_cons_self)
        fun _ hT _ _ => hT.join hh

theorem mentions_attribute (hh : h.WellNamed) {C x owner : String} {a : Attribute}
    (ha : h.findAttribute? C x = some (owner, a)) {R : String} (hR : h.Mentions R) :
    h.Mentions (if a.typeName = ClassName.selfType then R else a.typeName) := by
  split
  · exact hR
  · rename_i hself
    obtain ⟨c, hc, -, ha⟩ := findAttribute?_eq_some ha
    have hmem := List.mem_of_find?_eq_some ha
    rcases hh.builtin_or_user (mem_classes_of_mem_ancestors hc) with hbuilt | huser
    · rw [Builtin.attributes_eq_nil c hbuilt] at hmem
      cases hmem
    · exact .inr ⟨hself, c, huser, a.span, .inl ⟨a, hmem, rfl, rfl⟩⟩

theorem mentions_result (hh : h.WellNamed) {C x owner : String} {m : Method}
    (hm : h.findMethod? C x = some (owner, m)) {R : String} (hR : h.Mentions R) :
    h.Mentions (if m.returnType = ClassName.selfType then R else m.returnType) := by
  split
  · exact hR
  · rename_i hself
    obtain ⟨c, hc, -, hm⟩ := findMethod?_eq_some hm
    have hmem := List.mem_of_find?_eq_some hm
    rcases hh.builtin_or_user (mem_classes_of_mem_ancestors hc) with hbuilt | huser
    · have hresults : ∀ c ∈ Builtin.classes, ∀ m ∈ c.methods,
          m.returnType = ClassName.selfType ∨ m.returnType ∈ ClassName.builtins := by decide
      exact .inl (hh.contains_builtin ((hresults c hbuilt m hmem).resolve_left hself))
    · exact .inr ⟨hself, c, huser, m.span, .inr ⟨m, hmem, rfl, rfl⟩⟩

end Hierarchy

/-! ## What a check finds in spite of errors -/

namespace Check

variable {α β : Type} {h : Hierarchy}

/-- Among known types the check gives an answer as described, whatever it reports. -/
def Settles (h : Hierarchy) (x : Check α) (Q : α → Prop) : Prop :=
  ∀ s : Checker, s.Settled h → (x s).2.Settled h ∧ Q (x s).1

namespace Settles

variable {x : Check α} {f : α → Check β} {P Q : α → Prop} {R : β → Prop}

theorem ret {a : α} (ha : Q a) : Settles h (pure a) Q :=
  fun _ hs => ⟨hs, ha⟩

theorem bind (hx : Settles h x Q) (hf : ∀ a, Q a → Settles h (f a) R) :
    Settles h (x >>= f) R := by
  intro s hs
  obtain ⟨hs₁, ha⟩ := hx s hs
  exact hf (x s).1 ha (x s).2 hs₁

theorem mono (hx : Settles h x P) (hPQ : ∀ a, P a → Q a) : Settles h x Q :=
  fun s hs => ⟨(hx s hs).1, hPQ _ (hx s hs).2⟩

/-- A query leaves the names in scope as they are. -/
theorem of_finds {F : Checker → α → Prop} (hx : Finds x F) : Settles h x fun _ => True :=
  fun s hs => ⟨(hx s).1.settled hs, trivial⟩

theorem ite {c : Prop} [Decidable c] {x y : Check α} (hx : c → Settles h x Q)
    (hy : ¬c → Settles h y Q) : Settles h (if c then x else y) Q := by
  split
  · exact hx ‹c›
  · exact hy ‹¬c›

theorem reported {cause : Cause} {position : Position} (hx : Settles h x Q) :
    Settles h (report cause position >>= fun _ => x) Q :=
  fun _ hs => hx _ ⟨hs.currentClass, hs.scope⟩

theorem modifyScope {f : Scope → Scope}
    (hf : ∀ Γ, Γ.AllTypes (h.contains · = true) → (f Γ).AllTypes (h.contains · = true)) :
    Settles h (Check.modifyScope f) fun _ => True :=
  fun s hs => ⟨⟨hs.currentClass, hf s.scope hs.scope⟩, trivial⟩

theorem currentClass : Settles h Check.currentClass (h.contains · = true) :=
  fun _ hs => ⟨hs, hs.currentClass⟩

/-- An unknown type is replaced by the root class. -/
theorem declaredType (hh : h.WellNamed) (typeName : String) (position : Position) :
    Settles h (Check.declaredType h typeName position) (h.contains · = true) := by
  refine ite (fun hT s hs => ⟨hs, ?_⟩) fun _ => reported (ret hh.contains_object)
  simp only [resolve]
  split
  · exact hs.currentClass
  · rename_i hself
    simpa [hself] using hT

theorem declaredClass (hh : h.WellNamed) (typeName context : String) (position : Position) :
    Settles h (Check.declaredClass h typeName context position) (h.contains · = true) :=
  ite (fun _ => reported (ret hh.contains_object)) fun _ => declaredType hh typeName position

theorem variableType? (hh : h.WellNamed) (x : String) :
    Settles h (Check.variableType? h x) fun t => ∀ T ∈ t, h.Mentions T := by
  intro s hs
  unfold Check.variableType?
  cases hlocal : s.scope.typeOf? x with
  | some T => exact ⟨hs, by simpa using .inl (hs.scope.of_typeOf? hlocal)⟩
  | none =>
      cases hattr : h.findAttribute? s.currentClass x with
      | some found =>
          have hT := Hierarchy.mentions_attribute hh hattr (.inl hs.currentClass)
          exact ⟨hs, by simpa using hT⟩
      | none => exact ⟨hs, by simp⟩

theorem name (hh : h.WellNamed) (x : String) (position : Position) :
    Settles h (Check.name h x position) h.Mentions := by
  refine (variableType? hh x).bind fun t ht => ?_
  cases t with
  | some T => exact ret (ht T rfl)
  | none =>
      refine currentClass.bind fun C hC => ?_
      split
      · rename_i hm
        exact fun s hs => ⟨hs, Hierarchy.mentions_result hh hm (.inl hs.currentClass)⟩
      · exact reported (ret (.inl hh.contains_object))

theorem call (hh : h.WellNamed) {receiver : String} (hR : h.Mentions receiver)
    (lookupClass method : String) (arguments : List (String × Position)) (position : Position) :
    Settles h (Check.call h receiver lookupClass method arguments position) h.Mentions := by
  unfold Check.call
  split
  · exact reported (ret (.inl hh.contains_object))
  · rename_i owner m hm
    have hT := Hierarchy.mentions_result hh hm hR
    refine ite (fun _ => ?_) fun _ => reported (ret hT)
    exact (of_finds (Finds.argumentsConform h method m.formals 1 arguments)).bind fun _ _ => ret hT

theorem unary (hh : h.WellNamed) (op : UnaryOp) (received : String) (position : Position) :
    Settles h (Check.unary op received position) h.Mentions := by
  cases op with
  | negate =>
      exact (of_finds (Finds.requireExact _ _ _ _)).bind fun _ _ =>
        ret (.inl (hh.contains_builtin (by decide)))
  | not =>
      exact (of_finds (Finds.requireExact _ _ _ _)).bind fun _ _ =>
        ret (.inl (hh.contains_builtin (by decide)))

theorem binary (hh : h.WellNamed) (op : BinaryOp) (left right : String)
    (leftPosition rightPosition : Position) :
    Settles h (Check.binary op left right leftPosition rightPosition) h.Mentions := by
  refine ite (fun _ => ret (.inl (hh.contains_builtin (by decide)))) fun _ => ?_
  refine (of_finds (Finds.requireExact _ _ _ _)).bind fun _ _ =>
    (of_finds (Finds.requireExact _ _ _ _)).bind fun _ _ => ret (.inl (hh.contains_builtin ?_))
  split <;> decide

theorem branchHead (hh : h.WellNamed) (b : Branch) (seen : List String) :
    Settles h (Check.branchHead h b seen) (h.contains · = true) := by
  refine (of_finds (Finds.requireBindable _ _ _)).bind fun _ _ =>
    (declaredClass hh _ _ _).bind fun T hT => ?_
  exact ite (fun _ => reported (ret hT)) fun _ => ret hT

end Settles

end Check

open Check

/-- Each variable of a `let` gets a known type. -/
theorem settles_checkBindings {h : Hierarchy} (hh : h.WellNamed) (bs : List Binding) :
    Settles h (checkBindings h bs) fun _ => True := by
  induction bs with
  | nil =>
      rw [checkBindings]
      exact .ret trivial
  | cons b bs ih =>
      obtain ⟨x, T, init, span⟩ := b
      rw [checkBindings]
      refine (Settles.of_finds (Finds.requireBindable _ _ _)).bind fun _ _ =>
        (Settles.declaredType hh T _).bind fun D hD =>
          (Settles.of_finds (finds_checkInitializer h _ D init)).bind fun _ _ => ?_
      exact (Settles.modifyScope fun Γ hΓ => hΓ.declare x hD).bind fun _ _ => ih

mutual

/-- **What a check finds is mentioned in the program**, whatever it reports on the way. -/
theorem settles_checkExpr {h : Hierarchy} (hh : h.WellNamed) : (e : Expr) →
    Settles h (checkExpr h e) h.Mentions
  | .int .. | .str .. | .bool .. | .primitive .. => by
      rw [checkExpr]
      exact .ret (.inl (hh.contains_builtin (by decide)))
  | .self _ => by
      rw [checkExpr]
      exact Settles.currentClass.mono fun _ => .inl
  | .name x span => by
      rw [checkExpr]
      exact .name hh x span.start
  | .assign x value span => by
      rw [checkExpr]
      exact (Settles.of_finds (Finds.requireBindable _ _ _)).bind fun _ _ =>
        (settles_checkExpr hh value).bind fun S hS =>
          (Settles.of_finds (Finds.assignment h x S _ _)).bind fun _ _ => .ret hS
  | .dispatch r q method args span => by
      rw [checkExpr]
      refine (settles_checkReceiver hh r).bind fun R hR =>
        (Settles.of_finds (Finds.lookupClass? h R q _)).bind fun t _ =>
          (Settles.of_finds (finds_checkArguments h args)).bind fun types _ => ?_
      cases t with
      | none => exact .ret (.inl hh.contains_object)
      | some T => exact .call hh hR T method types span.start
  | .new typeName span => by
      rw [checkExpr]
      exact (Settles.declaredType hh typeName span.start).mono fun _ => .inl
  | .cond c t f _ => by
      rw [checkExpr]
      exact (Settles.of_finds (finds_checkExpr h c)).bind fun B _ =>
        (Settles.of_finds (Finds.requireExact B _ _ _)).bind fun _ _ =>
          (settles_checkExpr hh t).bind fun T hT =>
            (Settles.of_finds (finds_checkExpr h f)).bind fun F _ => .ret (hT.join hh)
  | .loop c body _ => by
      rw [checkExpr]
      exact (Settles.of_finds (finds_checkExpr h c)).bind fun B _ =>
        (Settles.of_finds (Finds.requireExact B _ _ _)).bind fun _ _ =>
          (Settles.of_finds (finds_checkExpr h body)).bind fun _ _ => .ret (.inl hh.contains_object)
  | .block body _ => by
      rw [checkExpr]
      exact settles_checkSequence hh (.inl hh.contains_object) body
  | .letIn bs body _ => by
      rw [checkExpr]
      exact (Settles.modifyScope fun Γ hΓ => hΓ.push).bind fun _ _ =>
        (settles_checkBindings hh bs).bind fun _ _ => (settles_checkExpr hh body).bind fun T hT =>
          (Settles.modifyScope fun Γ hΓ => hΓ.pop).bind fun _ _ => .ret hT
  | .caseOf scrutinee branches _ => by
      rw [checkExpr]
      refine (Settles.of_finds (finds_checkExpr h scrutinee)).bind fun _ _ =>
        (settles_checkBranches hh [] branches).bind fun types htypes => .ret ?_
      have hjoin := Hierarchy.Mentions.joinAll hh htypes
      cases types <;> exact hjoin
  | .isVoid e _ => by
      rw [checkExpr]
      exact (Settles.of_finds (finds_checkExpr h e)).bind fun _ _ =>
        .ret (.inl (hh.contains_builtin (by decide)))
  | .unary op e _ => by
      rw [checkExpr]
      exact (Settles.of_finds (finds_checkExpr h e)).bind fun T _ => .unary hh op T _
  | .binary op l r _ => by
      rw [checkExpr]
      exact (Settles.of_finds (finds_checkExpr h l)).bind fun L _ =>
        (Settles.of_finds (finds_checkExpr h r)).bind fun R _ => .binary hh op L R _ _

theorem settles_checkReceiver {h : Hierarchy} (hh : h.WellNamed) : (r : Option Expr) →
    Settles h (checkReceiver h r) h.Mentions
  | none => by
      rw [checkReceiver]
      exact Settles.currentClass.mono fun _ => .inl
  | some e => by
      rw [checkReceiver]
      exact settles_checkExpr hh e

theorem settles_checkSequence {h : Hierarchy} (hh : h.WellNamed) {last : String}
    (hlast : h.Mentions last) : (es : List Expr) → Settles h (checkSequence h last es) h.Mentions
  | [] => by
      rw [checkSequence]
      exact .ret hlast
  | e :: es => by
      rw [checkSequence]
      exact (settles_checkExpr hh e).bind fun T hT => settles_checkSequence hh hT es

theorem settles_checkBranches {h : Hierarchy} (hh : h.WellNamed) (seen : List String) :
    (bs : List Branch) → Settles h (checkBranches h seen bs) fun types => ∀ T ∈ types, h.Mentions T
  | [] => by
      rw [checkBranches]
      exact .ret (by simp)
  | ⟨x, T, body, span⟩ :: bs => by
      rw [checkBranches]
      exact (Settles.branchHead hh _ seen).bind fun D hD =>
        (Settles.modifyScope fun Γ hΓ => hΓ.push.declare x hD).bind fun _ _ =>
          (settles_checkExpr hh body).bind fun B hB =>
            (Settles.modifyScope fun Γ hΓ => hΓ.pop).bind fun _ _ =>
              (settles_checkBranches hh (T :: seen) bs).bind fun types htypes =>
                .ret (List.forall_mem_cons.mpr ⟨hB, htypes⟩)

end

/-! ## Where unknown types are reported -/

namespace Check

variable {α β : Type} {d : Diagnostic}

/-- The check makes the report, from whatever state. -/
def Reports (x : Check α) (d : Diagnostic) : Prop :=
  ∀ s : Checker, s.log <+: (x s).2.log ∧ d ∈ (x s).2.log

namespace Reports

theorem report (cause : Cause) (position : Position) :
    Reports (Check.report cause position) ⟨cause, position⟩ :=
  fun _ => ⟨List.prefix_append _ _, List.mem_append_right _ List.mem_cons_self⟩

/-- What has been reported stays in the log. -/
theorem andThen {x : Check α} {f : α → Check β} (hx : Reports x d)
    (hf : ∀ a, Clears (f a) True) : Reports (x >>= f) d := by
  intro s
  have hlater := (hf (x s).1 (x s).2).1
  exact ⟨(hx s).1.trans hlater, hlater.subset (hx s).2⟩

theorem after {x : Check α} {f : α → Check β} (hx : Clears x True)
    (hf : ∀ a, Reports (f a) d) : Reports (x >>= f) d := by
  intro s
  obtain ⟨hlog, hmem⟩ := hf (x s).1 (x s).2
  exact ⟨(hx s).1.trans hlog, hmem⟩

theorem forM {f : α → Check Unit} {as : List α} {a : α} (ha : a ∈ as) (hfa : Reports (f a) d)
    (hf : ∀ a, Clears (f a) True) : Reports (as.forM f) d := by
  have hall : ∀ as : List α, Clears (as.forM f) True :=
    fun as => (Clears.forM hf as).mono fun _ => trivial
  induction as with
  | nil => cases ha
  | cons b as ih =>
      rcases List.mem_cons.mp ha with rfl | ha
      · exact hfa.andThen fun _ => hall as
      · exact .after (hf b) fun _ => ih ha

theorem declaredType {h : Hierarchy} {typeName : String} (hself : typeName ≠ ClassName.selfType)
    (hT : h.contains typeName = false) (position : Position) :
    Reports (Check.declaredType h typeName position) ⟨.unknownType typeName, position⟩ := by
  rw [Check.declaredType, if_neg (by simp [hself, hT])]
  exact (report _ _).andThen fun _ => .ret _ trivial

end Reports

end Check

section Declarations

variable {h : Hierarchy} {T : String} (hself : T ≠ ClassName.selfType)
  (hT : h.contains T = false)
include hself hT

theorem reports_checkAttribute (c : ClassInfo) {a : Attribute} (ha : a.typeName = T) :
    Reports (checkAttribute h c a) ⟨.unknownType T, a.span.start⟩ := by
  subst ha
  refine .after (.of_finds (Finds.requireBindable _ _ _)) fun _ => ?_
  refine (Reports.declaredType hself hT _).andThen fun D => ?_
  have hinit := Clears.of_finds
    (finds_checkInitializer h s!"initializer of attribute {a.name}" D a.init)
  dsimp only
  split
  · exact .skip (.warn _ _) fun _ => hinit
  · exact hinit

theorem reports_checkMethod (c : ClassInfo) {m : Method} (hm : m.returnType = T) :
    Reports (checkMethod h c m) ⟨.unknownType T, m.span.start⟩ := by
  subst hm
  refine .after (.modifyScope _) fun _ => .after (.of_binds (binds_checkFormals h _ _)) fun _ => ?_
  refine (Reports.declaredType hself hT _).andThen fun _ => ?_
  refine .skip (.of_finds (finds_checkOverride h c m)) fun _ => ?_
  refine .skip (.of_finds (finds_checkExpr h m.body)) fun received => ?_
  exact .skip (.modifyScope _) fun _ => .of_finds (Finds.requireConforms h received _ _ _)

theorem reports_checkClass {c : ClassInfo} {span : Span} (hc : c.DeclaresType T span) :
    Reports (checkClass h c) ⟨.unknownType T, span.start⟩ := by
  have hattributes : ∀ a, Clears (checkAttribute h c a) True :=
    fun a => .of_finds (finds_checkAttribute h c a)
  have hmethods : ∀ m, Clears (checkMethod h c m) True :=
    fun m => .of_finds (finds_checkMethod h c m)
  have hfeatures : Reports (do
      c.attributes.forM (checkAttribute h c)
      c.methodsInOrder.forM (checkMethod h c)) ⟨.unknownType T, span.start⟩ := by
    rcases hc with ⟨a, ha, haT, rfl⟩ | ⟨m, hm, hmT, rfl⟩
    · have hreport := Reports.forM ha (reports_checkAttribute hself hT c haT) hattributes
      exact hreport.andThen fun _ => (Clears.forM hmethods _).mono fun _ => trivial
    · have hordered : m ∈ c.methodsInOrder := List.mem_mergeSort.mpr hm
      have hreport := Reports.forM hordered (reports_checkMethod hself hT c hmT) hmethods
      exact .after ((Clears.forM hattributes _).mono fun _ => trivial) fun _ => hreport
  intro s
  rw [checkClass_apply]
  exact hfeatures { s with currentClass := c.name }

theorem Hierarchy.mem_typeCheck_of_declaresType {c : ClassInfo} (hc : c ∈ h.userClasses)
    {span : Span} (hdeclares : c.DeclaresType T span) :
    ⟨.unknownType T, span.start⟩ ∈ h.typeCheck :=
  (Reports.forM hc (reports_checkClass hself hT hdeclares)
    (fun c => (clears_checkClass h c).mono fun _ => trivial) Checker.initial).2

end Declarations

namespace Hierarchy

/-- **What a check recovers from.** Let validation find nothing wrong. In a known class, with known
types for the names in scope, the type found for an expression is never `SELF_TYPE`. It is a known
class, unless it is the type that some class of the program declares for an attribute or for the
result of a method; then the type check of the program reports it there as unknown. -/
theorem type_known_or_reported {h : Hierarchy} {program : List ClassDecl}
    (hh : ofProgram program = (h, [])) {s : Checker}
    (hclass : h.contains s.currentClass = true)
    (hscope : s.scope.AllTypes (h.contains · = true)) (e : Expr) :
    (checkExpr h e s).1 ≠ ClassName.selfType ∧
      (h.contains (checkExpr h e s).1 = true ∨
        ∃ c ∈ h.userClasses, ∃ span, c.DeclaresType (checkExpr h e s).1 span ∧
          ⟨.unknownType (checkExpr h e s).1, span.start⟩ ∈ h.typeCheck) := by
  have hnamed := (isTree_of_ofProgram hh).wellNamed
  obtain ⟨-, hmentions⟩ := settles_checkExpr hnamed e s ⟨hclass, hscope⟩
  generalize (checkExpr h e s).1 = T at hmentions
  cases hT : h.contains T with
  | true => exact ⟨hnamed.ne_selfType hT, .inl rfl⟩
  | false =>
      obtain ⟨hself, c, hc, span, hdeclares⟩ := hmentions.resolve_left (by simp [hT])
      exact ⟨hself, .inr ⟨c, hc, span, hdeclares,
        mem_typeCheck_of_declaresType hself hT hc hdeclares⟩⟩

/-- A source of water that there is no word for. -/
def springs : List ClassDecl :=
  [⟨"Spring", none,
      [.method ⟨"draw", [], "Water", .int 1 .nowhere, ⟨.first "springs", .first "springs"⟩⟩],
      .nowhere⟩,
    ⟨ClassName.mainClass, none,
      [.method ⟨mainMethod, [], ClassName.int, .int 0 .nowhere, .nowhere⟩], .nowhere⟩]

/-- What is drawn from a new spring. -/
def drawn : Expr :=
  .dispatch (some (.new "Spring" .nowhere)) none "draw" [] .nowhere

/-- What is drawn from a spring has no known type, and the type check says so. -/
theorem type_known_or_reported_springs :
    ∃ h, ofProgram springs = (h, []) ∧ h.contains Checker.initial.currentClass = true ∧
      Checker.initial.scope.AllTypes (h.contains · = true) ∧
      (checkExpr h drawn .initial).1 = "Water" ∧
      ∃ c ∈ h.userClasses, ∃ span, c.DeclaresType "Water" span ∧
        ⟨.unknownType "Water", span.start⟩ ∈ h.typeCheck := by
  have hnil : (ofProgram springs).2 = [] := by decide +kernel
  have hh : ofProgram springs = ((ofProgram springs).1, []) := by rw [← hnil]
  have hclass : (ofProgram springs).1.contains Checker.initial.currentClass = true := by
    decide +kernel
  have hscope : Checker.initial.scope.AllTypes ((ofProgram springs).1.contains · = true) := by
    simp [Checker.initial, Scope.empty, Scope.AllTypes]
  have hdrawn : (checkExpr (ofProgram springs).1 drawn .initial).1 = "Water" := by decide +kernel
  have hwater : (ofProgram springs).1.contains "Water" = false := by decide +kernel
  have hmain := (type_known_or_reported hh hclass hscope drawn).2
  rw [hdrawn] at hmain
  exact ⟨_, hh, hclass, hscope, hdrawn, hmain.resolve_left (by simp [hwater])⟩

/-- **An unknown type comes out of a check.** There is nothing wrong with the inheritance of the
program, the check is made in the root class without names in scope, and the type found is no class.
That it is not replaced by the root class shows in the next complaint: every object can be asked for
its copy, but what was drawn is said to know no such method. -/
theorem water_is_unknown :
    ∃ h, ofProgram springs = (h, []) ∧ h.contains Checker.initial.currentClass = true ∧
      Checker.initial.scope.AllTypes (h.contains · = true) ∧
      ¬ h.contains (checkExpr h drawn .initial).1 = true ∧
      (checkExpr h (.dispatch (some drawn) none "copy" [] .nowhere) .initial).2.log =
        [⟨.undefinedMethod "Water" "copy", .nowhere⟩] := by
  have hnil : (ofProgram springs).2 = [] := by decide +kernel
  have hh : ofProgram springs = ((ofProgram springs).1, []) := by rw [← hnil]
  have hscope : Checker.initial.scope.AllTypes ((ofProgram springs).1.contains · = true) := by
    simp [Checker.initial, Scope.empty, Scope.AllTypes]
  exact ⟨_, hh, by decide +kernel, hscope, by decide +kernel, by decide +kernel⟩

end Hierarchy

end CoolLang
