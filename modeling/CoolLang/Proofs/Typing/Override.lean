import CoolLang.Proofs.Typing.Program

/-!
# Overriding and the two look-ups

The checker looks up a method by its name, a run by its name and the number of arguments, so that it
could pass over a method which the checker has found. It never does in a program that may be run:
each method is compared with the nearest one that it overrides, and what is the same from a class to
its parent is the same along every path to the root.

Programs that are only warned about may be run. So it is not the silence of the checker that counts
here, but that it has found nothing fatal.
-/

namespace CoolLang

namespace Check

variable {α β : Type} {P Q : Prop}

/-- The check only adds to the log, and if nothing fatal stands there afterwards then `P` holds. -/
def Clears (x : Check α) (P : Prop) : Prop :=
  ∀ s : Checker, s.log <+: (x s).2.log ∧ ((∀ d ∈ (x s).2.log, d.isFatal = false) → P)

namespace Clears

theorem ret (a : α) (hP : P) : Clears (pure a) P :=
  fun _ => ⟨List.prefix_refl _, fun _ => hP⟩

theorem of_finds {x : Check α} {R : Checker → α → Prop} (hx : Finds x R) : Clears x True :=
  fun s => ⟨(hx s).1.log, fun _ => trivial⟩

theorem of_binds {x : Check α} {R : Checker → α → Checker → Prop} (hx : Binds x R) :
    Clears x True :=
  fun s => ⟨(hx s).1.log, fun _ => trivial⟩

theorem modifyScope (f : Scope → Scope) : Clears (Check.modifyScope f) True :=
  fun _ => ⟨List.prefix_refl _, fun _ => trivial⟩

theorem report {cause : Cause} (position : Position) (hfatal : cause.isFatal = true) :
    Clears (Check.report cause position) P := by
  intro s
  refine ⟨List.prefix_append _ _, fun hclear => ?_⟩
  have hfalse := hclear ⟨cause, position⟩ (List.mem_append_right _ List.mem_cons_self)
  cases hfatal.symm.trans hfalse

/-- A report that is not fatal says nothing. -/
theorem warn (cause : Cause) (position : Position) : Clears (Check.report cause position) True :=
  fun _ => ⟨List.prefix_append _ _, fun _ => trivial⟩

theorem mono {x : Check α} (hx : Clears x P) (h : P → Q) : Clears x Q :=
  fun s => ⟨(hx s).1, fun hclear => h ((hx s).2 hclear)⟩

/-- What a later part leaves clear an earlier part has left clear. -/
theorem bind {x : Check α} {f : α → Check β} (hx : Clears x P) (hf : ∀ a, Clears (f a) Q) :
    Clears (x >>= f) (P ∧ Q) := by
  intro s
  obtain ⟨hlog, hP⟩ := hx s
  obtain ⟨hlog', hQ⟩ := hf (x s).1 (x s).2
  refine ⟨hlog.trans hlog', fun hclear => ⟨hP fun d hd => ?_, hQ hclear⟩⟩
  exact hclear d (hlog'.subset hd)

/-- Nothing is asked of the first part. -/
theorem skip {x : Check α} {f : α → Check β} (hx : Clears x True) (hf : ∀ a, Clears (f a) Q) :
    Clears (x >>= f) Q :=
  (hx.bind hf).mono And.right

/-- Nothing is asked of the second part. -/
theorem andThen {x : Check α} {f : α → Check β} (hx : Clears x P)
    (hf : ∀ a, Clears (f a) True) : Clears (x >>= f) P :=
  (hx.bind hf).mono And.left

theorem ite {c : Prop} [Decidable c] {x y : Check α} (hx : c → Clears x P)
    (hy : ¬c → Clears y P) : Clears (if c then x else y) P := by
  split
  · exact hx ‹c›
  · exact hy ‹¬c›

theorem forM {f : α → Check Unit} {R : α → Prop} (hf : ∀ a, Clears (f a) (R a)) (as : List α) :
    Clears (as.forM f) (∀ a ∈ as, R a) := by
  induction as with
  | nil => exact ret _ (by simp)
  | cons a as ih => exact ((hf a).bind fun _ => ih).mono List.forall_mem_cons.mpr

end Clears

end Check

/-! ## What a check without fatal complaints says -/

/-- The declared types of the formals, in order. -/
def Method.formalTypes (m : Method) : List String :=
  m.formals.map (·.typeName)

/-- The method has the formals of the nearest one that it overrides. -/
def Method.KeepsFormals (h : Hierarchy) (c : ClassInfo) (m : Method) : Prop :=
  ∀ {parent owner overridden}, c.parent = some parent →
    h.findMethod? parent m.name = some (owner, overridden) →
    overridden.formalTypes = m.formalTypes

open Check

theorem clears_checkFormalsMatch (method ancestor : String) (position : Position)
    (overridden : List Parameter) :
    ∀ index formals, Clears (checkFormalsMatch method ancestor position index overridden formals)
      (overridden.length = formals.length →
        overridden.map (·.typeName) = formals.map (·.typeName)) := by
  induction overridden with
  | nil =>
      intro index formals
      refine .ret _ fun hlength => ?_
      rw [List.length_nil, eq_comm, List.length_eq_zero_iff] at hlength
      rw [hlength]
  | cons expected overridden ih =>
      intro index formals
      cases formals with
      | nil => exact .ret _ fun hlength => absurd hlength (by simp)
      | cons received formals =>
          have hrest := ih (index + 1) formals
          refine .ite (fun _ => ?_) fun htype => hrest.mono fun htypes hlength => ?_
          · have hnever : Clears (report (.overrideParameterMismatch method ancestor index
                expected.typeName received.typeName) position) False := .report position rfl
            exact (hnever.andThen fun _ => hrest.mono fun _ => trivial).mono False.elim
          · rw [List.map_cons, List.map_cons, htypes (by simpa using hlength),
              not_ne_iff.mp htype]

theorem clears_checkOverride (h : Hierarchy) (c : ClassInfo) (m : Method) :
    Clears (checkOverride h c m) (m.KeepsFormals h c) := by
  unfold checkOverride
  split
  · rename_i hnone
    refine .ret _ fun hparent hfound => ?_
    rw [hparent] at hnone
    cases hnone.symm.trans hfound
  · rename_i owner overridden hsome
    refine .ite (fun _ => .report _ rfl) fun harity => ?_
    have hreturns : Clears (if overridden.returnType ≠ m.returnType then
        report (.overrideReturnTypeChanged m.name owner overridden.returnType m.returnType)
          m.span.start else pure PUnit.unit) True :=
      .ite (fun _ => .warn _ _) fun _ => .ret _ trivial
    have hformals := clears_checkFormalsMatch m.name owner m.span.start overridden.formals 1
      m.formals
    refine (hformals.andThen fun _ => hreturns).mono ?_
    intro hformals parent owner' overridden' hparent hfound
    rw [hparent] at hsome
    cases hsome.symm.trans hfound
    exact hformals (not_ne_iff.mp harity)

theorem clears_checkMethod (h : Hierarchy) (c : ClassInfo) (m : Method) :
    Clears (checkMethod h c m) (m.KeepsFormals h c) := by
  refine .skip (.modifyScope _) fun _ => .skip (.of_binds (binds_checkFormals h _ _)) fun _ => ?_
  refine .skip (.of_finds (Finds.declaredType h _ _)) fun _ => ?_
  refine (clears_checkOverride h c m).andThen fun _ => ?_
  refine .skip (.of_finds (finds_checkExpr h m.body)) fun received => ?_
  exact .skip (.modifyScope _) fun _ => .of_finds (Finds.requireConforms h received _ _ _)

theorem clears_checkClass (h : Hierarchy) (c : ClassInfo) :
    Clears (checkClass h c) (∀ m ∈ c.methods, m.KeepsFormals h c) := by
  have hattributes := Clears.of_finds (Finds.forM (finds_checkAttribute h c) c.attributes)
  have hmethods := Clears.forM (clears_checkMethod h c) c.methodsInOrder
  intro s
  obtain ⟨hlog, hkeeps⟩ := hattributes.skip (fun _ => hmethods) { s with currentClass := c.name }
  rw [← checkClass_apply] at hlog hkeeps
  exact ⟨hlog, fun hclear m hm => hkeeps hclear m (List.mem_mergeSort.mpr hm)⟩

namespace Hierarchy

variable {h : Hierarchy}

/-- **What the type check without fatal complaints says of overriding.** -/
theorem keepsFormals_of_typeCheck (hcheck : ∀ d ∈ h.typeCheck, d.isFatal = false) :
    ∀ c ∈ h.userClasses, ∀ m ∈ c.methods, m.KeepsFormals h c :=
  (Clears.forM (clears_checkClass h) h.userClasses Checker.initial).2 hcheck

/-! ## Look-ups -/

/-- A method that a class has, every class below it has with the same formals. -/
theorem IsTree.formalTypes_of_conforms (ht : h.IsTree)
    (hkeeps : ∀ c ∈ h.userClasses, ∀ m ∈ c.methods, m.KeepsFormals h c) {C D x owner : String}
    {m : Method} (hD : h.contains D = true) (hDC : h.conforms D C = true)
    (hm : h.findMethod? C x = some (owner, m)) :
    ∃ owner' m', h.findMethod? D x = some (owner', m') ∧ m'.formalTypes = m.formalTypes := by
  refine ht.findMethod?_below Method.formalTypes ?_ hD hDC hm
  intro name parent c m owner m' hc hp hm hm'
  have huser := ht.user_of_override hc hp hm hm'
  rw [← ClassInfo.name_of_method? hm] at hm'
  exact hkeeps c huser m (List.mem_of_find?_eq_some hm) hp hm'

/-- **The two look-ups agree.** Let validation find nothing wrong and the type check nothing fatal,
and let `D` be a class that conforms to `C`. Where the checker finds a method on `C`, a call with as
many arguments on an object of `D` finds the method that the checker finds on `D`, and that has
formals of the same number and types. Where the checker finds nothing on `D`, no call does. -/
theorem lookups_agree {program : List ClassDecl} (hh : ofProgram program = (h, []))
    (hcheck : ∀ d ∈ h.typeCheck, d.isFatal = false) {C D : String} (hD : h.contains D = true)
    (hDC : h.conforms D C = true) (x : String) :
    ∃ b, (ClassTable.ofHierarchy h).find? D = some b ∧
      (∀ owner m, h.findMethod? C x = some (owner, m) →
        ∃ owner' m', h.findMethod? D x = some (owner', m') ∧
          b.findMethod? x m.arity = some m' ∧
          m'.formals.map (·.typeName) = m.formals.map (·.typeName)) ∧
      (h.findMethod? D x = none → ∀ arity, b.findMethod? x arity = none) := by
  have ht := isTree_of_ofProgram hh
  refine ⟨_, ClassTable.find?_ofHierarchy_of_contains hD, ?_,
    Blueprint.findMethod?_eq_none_of_findMethod?⟩
  intro owner m hm
  obtain ⟨owner', m', hm', htypes⟩ :=
    ht.formalTypes_of_conforms (keepsFormals_of_typeCheck hcheck) hD hDC hm
  have harity : m.arity = m'.arity := by
    simpa [Method.formalTypes, Method.arity] using (congrArg List.length htypes).symm
  refine ⟨owner', m', hm', ?_, htypes⟩
  rw [harity]
  exact Blueprint.findMethod?_of_findMethod? hm'

/-- Ledgers below ledgers. The entries of the last one have another result, which is warned about,
and it copies itself in its own way. -/
def ledgers : List ClassDecl :=
  let entry (result : String) : Feature :=
    .method ⟨"enter", [⟨"item", "String", .nowhere⟩, ⟨"amount", "Int", .nowhere⟩], result,
      .name "amount" .nowhere, .nowhere⟩
  [⟨"Ledger", none, [entry "Int"], .nowhere⟩, ⟨"Journal", some "Ledger", [], .nowhere⟩,
    ⟨"Diary", some "Journal", [entry "Object"], .nowhere⟩,
    ⟨"Notebook", some "Diary",
      [.method ⟨"copy", [], ClassName.selfType, .self .nowhere, .nowhere⟩], .nowhere⟩,
    ⟨ClassName.mainClass, none,
      [.method ⟨mainMethod, [], ClassName.int, .int 0 .nowhere, .nowhere⟩], .nowhere⟩]

/-- An entry in a notebook is the entry of diaries, which takes what the entry of ledgers takes. A
notebook is copied by its own method, and nothing can be erased from it. -/
theorem lookups_agree_ledgers :
    ∃ h, ofProgram ledgers = (h, []) ∧ h.typeCheck ≠ [] ∧
      (∀ d ∈ h.typeCheck, d.isFatal = false) ∧ h.contains "Notebook" = true ∧
      h.conforms "Notebook" "Ledger" = true ∧
      (∃ b m, (ClassTable.ofHierarchy h).find? "Notebook" = some b ∧
        h.findMethod? "Notebook" "enter" = some ("Diary", m) ∧
        b.findMethod? "enter" 2 = some m ∧ m.formals.map (·.typeName) = ["String", "Int"]) ∧
      (∃ b m, (ClassTable.ofHierarchy h).find? "Notebook" = some b ∧
        h.findMethod? "Notebook" "copy" = some ("Notebook", m) ∧
        b.findMethod? "copy" 0 = some m) ∧
      ∃ b, (ClassTable.ofHierarchy h).find? "Notebook" = some b ∧
        ∀ arity, b.findMethod? "erase" arity = none := by
  have hnil : (ofProgram ledgers).2 = [] := by decide +kernel
  have hh : ofProgram ledgers = ((ofProgram ledgers).1, []) := by rw [← hnil]
  have hcheck : ∀ d ∈ (ofProgram ledgers).1.typeCheck, d.isFatal = false := by decide +kernel
  have hD : (ofProgram ledgers).1.contains "Notebook" = true := by decide +kernel
  have hDC : (ofProgram ledgers).1.conforms "Notebook" "Ledger" = true := by decide +kernel
  refine ⟨_, hh, by decide +kernel, hcheck, hD, hDC, ?_, ?_, ?_⟩
  · obtain ⟨b, hb, hfound, -⟩ := lookups_agree hh hcheck hD hDC "enter"
    have hview : ((ofProgram ledgers).1.findMethod? "Ledger" "enter").map
        (fun found => (found.2.arity, found.2.formals.map (·.typeName))) =
          some (2, ["String", "Int"]) := by decide +kernel
    obtain ⟨⟨owner, m⟩, hm, hmview⟩ := Option.map_eq_some_iff.mp hview
    rw [Prod.mk.injEq] at hmview
    obtain ⟨owner', m', hm', hcall, htypes⟩ := hfound owner m hm
    have howner : ((ofProgram ledgers).1.findMethod? "Notebook" "enter").map (·.1) =
        some "Diary" := by decide +kernel
    rw [hm'] at howner
    cases howner
    rw [hmview.1] at hcall
    exact ⟨b, m', hb, hm', hcall, htypes.trans hmview.2⟩
  · have hobject := (ofProgram ledgers).1.conforms_object "Notebook"
    obtain ⟨b, hb, hfound, -⟩ := lookups_agree hh hcheck hD hobject "copy"
    have hview : ((ofProgram ledgers).1.findMethod? ClassName.object "copy").map (·.2.arity) =
        some 0 := by decide +kernel
    obtain ⟨⟨owner, m⟩, hm, hmview⟩ := Option.map_eq_some_iff.mp hview
    obtain ⟨owner', m', hm', hcall, -⟩ := hfound owner m hm
    have howner : ((ofProgram ledgers).1.findMethod? "Notebook" "copy").map (·.1) =
        some "Notebook" := by decide +kernel
    rw [hm'] at howner
    cases howner
    rw [hmview] at hcall
    exact ⟨b, m', hb, hm', hcall⟩
  · obtain ⟨b, hb, -, hnone⟩ := lookups_agree hh hcheck hD hDC "erase"
    have herase : ((ofProgram ledgers).1.findMethod? "Notebook" "erase").isNone = true := by
      decide +kernel
    exact ⟨b, hb, hnone (Option.isNone_iff_eq_none.mp herase)⟩

end Hierarchy

end CoolLang
