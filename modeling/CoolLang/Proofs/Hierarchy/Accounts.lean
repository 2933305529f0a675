import CoolLang.Proofs.Hierarchy.Conformance
import CoolLang.Proofs.Hierarchy.Order
import Mathlib.Data.List.Infix

/-!
# What registration keeps

Names are given once: of the classes of a program, of the attributes and methods of a class and of
the formals of a method the first of each name is kept and every other is complained about. At all
these levels one loop goes through the declarations and remembers the names it has met. `firstWins`
says what comes of such a loop without the loop, by looking at what stands before each declaration.
-/

namespace CoolLang

/-! ## The first of each name -/

section FirstWins

variable {α β : Type}

/-- The items of a list in order, each with those before it. -/
def withEarlier (xs : List α) : List (α × List α) :=
  xs.zip xs.inits

/-- What comes of the items in order, if the first of each name wins and some names are taken: `keep`
of an item whose name is new and `drop` of every other. -/
def firstWinsAfter (taken : List String) (name : α → String) (keep drop : α → List β)
    (xs : List α) : List β :=
  (withEarlier xs).flatMap fun (x, earlier) =>
    if taken.contains (name x) || earlier.any (name · == name x) then drop x else keep x

/-- What comes of the items in order, if the first of each name wins: `keep` of an item whose name no
earlier one has, and `drop` of every other. -/
def firstWins (name : α → String) (keep drop : α → List β) (xs : List α) : List β :=
  (withEarlier xs).flatMap fun (x, earlier) =>
    if earlier.any (name · == name x) then drop x else keep x

/-- The items whose name no earlier one has. -/
def firsts (name : α → String) (xs : List α) : List α :=
  firstWins name (fun x => [x]) (fun _ => []) xs

variable {name : α → String} {keep drop : α → List β} {xs : List α}

theorem withEarlier_cons (x : α) (xs : List α) :
    withEarlier (x :: xs) = (x, []) :: (withEarlier xs).map fun p => (p.1, x :: p.2) := by
  rw [withEarlier, List.inits_cons, List.zip_cons_cons, List.zip_map_right]
  rfl

theorem firstWins_eq_after : firstWins name keep drop xs = firstWinsAfter [] name keep drop xs := by
  simp [firstWins, firstWinsAfter]

theorem exists_of_mem_firstWins {b : β} (hb : b ∈ firstWins name keep drop xs) :
    ∃ x ∈ xs, b ∈ keep x ∨ b ∈ drop x := by
  obtain ⟨⟨x, earlier⟩, hx, hb⟩ := List.mem_flatMap.mp hb
  refine ⟨x, (List.of_mem_zip hx).1, ?_⟩
  dsimp only at hb
  split at hb
  · exact .inr hb
  · exact .inl hb

theorem mem_of_mem_firsts {x : α} (hx : x ∈ firsts name xs) : x ∈ xs := by
  obtain ⟨y, hy, hx | hx⟩ := exists_of_mem_firstWins hx
  · rwa [List.mem_singleton.mp hx]
  · cases hx

/-- A loop that remembers the names it has met sees the same as a look at all that came before. -/
theorem firstWinsAfter_cons (taken : List String) (name : α → String) (keep drop : α → List β)
    (x : α) (xs : List α) :
    firstWinsAfter taken name keep drop (x :: xs) =
      if taken.contains (name x) then drop x ++ firstWinsAfter taken name keep drop xs
      else keep x ++ firstWinsAfter (name x :: taken) name keep drop xs := by
  simp only [firstWinsAfter, withEarlier_cons, List.flatMap_cons, List.flatMap_map, List.any_nil,
    Bool.or_false, List.any_cons]
  split
  · rename_i hx
    congr 2
    funext ⟨y, earlier⟩
    -- whoever shares the name of `x` has a name that was taken before
    by_cases hxy : name x = name y
    · simp only [← hxy, hx, Bool.true_or]
    · simp only [beq_false_of_ne hxy, Bool.false_or]
  · congr 2
    funext ⟨y, earlier⟩
    refine if_congr ?_ rfl rfl
    rw [List.contains_cons, Bool.or_left_comm, Bool.or_assoc, BEq.comm]

/-- If something comes of every item that is dropped, then where nothing comes of any item none is
dropped. -/
theorem firsts_eq_self (hdrop : ∀ x, drop x ≠ []) (hnil : firstWins name keep drop xs = []) :
    firsts name xs = xs ∧ ∀ x ∈ xs, keep x = [] := by
  have hkept : ∀ p ∈ withEarlier xs, p.2.any (name · == name p.1) = false ∧ keep p.1 = [] := by
    intro p hp
    have hout := List.flatMap_eq_nil_iff.mp hnil p hp
    dsimp only at hout
    split at hout
    · exact absurd hout (hdrop p.1)
    · rename_i hnew
      exact ⟨by simpa using hnew, hout⟩
  have hitems : (withEarlier xs).map (·.1) = xs :=
    List.map_fst_zip (by rw [List.length_inits]; exact Nat.le_succ _)
  constructor
  · calc firsts name xs = (withEarlier xs).flatMap fun p => [p.1] :=
          List.flatMap_congr fun p hp => by simp [(hkept p hp).1]
      _ = (withEarlier xs).map (·.1) := List.map_eq_flatMap.symm
      _ = xs := hitems
  · intro x hx
    rw [← hitems] at hx
    obtain ⟨p, hp, rfl⟩ := List.mem_map.mp hx
    exact (hkept p hp).2

/-- A look-up by name does not see what was dropped. -/
theorem find?_firsts (name : α → String) (key : String) (xs : List α) :
    (firsts name xs).find? (name · == key) = xs.find? (name · == key) := by
  have hafter : ∀ taken : List String, key ∉ taken →
      (firstWinsAfter taken name (fun x => [x]) (fun _ => []) xs).find? (name · == key) =
        xs.find? (name · == key) := by
    induction xs with
    | nil => intro taken _; rfl
    | cons x xs ih =>
        intro taken hkey
        rw [firstWinsAfter_cons]
        by_cases hx : name x = key
        · rw [if_neg (by simpa [hx] using hkey), List.singleton_append]
          simp [hx]
        · rw [List.find?_cons_of_neg (by simpa using hx)]
          split
          · exact ih taken hkey
          · rw [List.singleton_append, List.find?_cons_of_neg (by simpa using hx)]
            exact ih _ (List.not_mem_cons_of_ne_of_not_mem (Ne.symm hx) hkey)
  rw [firsts, firstWins_eq_after]
  exact hafter [] List.not_mem_nil

theorem nodup_firsts (name : α → String) (xs : List α) : ((firsts name xs).map name).Nodup := by
  have hafter : ∀ taken : List String,
      ((firstWinsAfter taken name (fun x => [x]) (fun _ => []) xs).map name).Nodup ∧
        ∀ y ∈ firstWinsAfter taken name (fun x => [x]) (fun _ => []) xs, name y ∉ taken := by
    induction xs with
    | nil => intro taken; exact ⟨List.nodup_nil, by simp [firstWinsAfter, withEarlier]⟩
    | cons x xs ih =>
        intro taken
        rw [firstWinsAfter_cons]
        split
        · exact ih taken
        · rename_i hx
          obtain ⟨hnodup, hnew⟩ := ih (name x :: taken)
          rw [List.singleton_append, List.map_cons, List.nodup_cons, List.forall_mem_cons]
          refine ⟨⟨fun hmem => ?_, hnodup⟩, by simpa using hx, fun y hy htaken => ?_⟩
          · obtain ⟨y, hy, heq⟩ := List.mem_map.mp hmem
            exact hnew y hy (heq ▸ List.mem_cons_self)
          · exact hnew y hy (List.mem_cons_of_mem _ htaken)
  rw [firsts, firstWins_eq_after]
  exact (hafter []).1

end FirstWins

/-! ## Features -/

/-- The attribute that a declaration introduces at the given place among those of its class. -/
def AttributeDecl.numbered (a : AttributeDecl) (index : Nat) : Attribute :=
  ⟨a.name, a.typeName, a.init, index, a.span⟩

/-- The method that a declaration describes, with some of its formals. -/
def MethodDecl.withFormals (m : MethodDecl) (formals : List Formal) : Method :=
  ⟨m.name, m.returnType, formals.map fun f => ⟨f.name, f.typeName⟩, m.body, m.span⟩

/-- The class that a declaration describes, with some of its features. -/
def ClassDecl.withFeatures (d : ClassDecl) (attributes : List AttributeDecl)
    (methods : List Method) : ClassInfo :=
  ⟨d.name, some (d.parent.getD ClassName.object), attributes.mapIdx fun i a => a.numbered i,
    methods, d.span⟩

/-- The method with the first formal of each name. -/
def MethodDecl.described (m : MethodDecl) : Method :=
  m.withFormals (firsts (·.name) m.formals)

/-- The class with the first attribute and the first method of each name. -/
def ClassDecl.described (d : ClassDecl) : ClassInfo :=
  d.withFeatures (firsts (·.name) d.attributes)
    ((firsts (·.name) d.methods).map MethodDecl.described)

@[simp] theorem ClassDecl.name_described (d : ClassDecl) : d.described.name = d.name := rfl

/-- One complaint for each formal that is dropped. -/
def MethodDecl.repetitions (m : MethodDecl) : List Diagnostic :=
  firstWins (·.name) (fun _ => [])
    (fun f => [⟨.duplicateFormal m.name f.name, f.span.start⟩]) m.formals

/-- One complaint for each attribute and each method that is dropped, and for each formal that is
dropped from a method that is kept. -/
def ClassDecl.repetitions (d : ClassDecl) : List Diagnostic :=
  firstWins (·.name) (fun _ => [])
      (fun a => [⟨.duplicateAttribute d.name a.name, a.span.start⟩]) d.attributes ++
    firstWins (·.name) MethodDecl.repetitions
      (fun m => [⟨.duplicateMethod d.name m.name, m.span.start⟩]) d.methods

namespace ClassInfo

theorem formalsOf_eq (method : String) (fs : List Formal) : ∀ seen,
    formalsOf method seen fs =
      ((firstWinsAfter seen (·.name) (fun f => [f]) (fun _ => []) fs).map
          fun f => ⟨f.name, f.typeName⟩,
        firstWinsAfter seen (·.name) (fun _ => [])
          (fun f => [⟨.duplicateFormal method f.name, f.span.start⟩]) fs) := by
  induction fs with
  | nil => intro seen; rfl
  | cons f fs ih =>
      intro seen
      simp only [formalsOf, firstWinsAfter_cons, ih]
      split <;> rfl

theorem methodsOf_eq (owner : String) (ms : List MethodDecl) : ∀ seen,
    methodsOf owner seen ms =
      ((firstWinsAfter seen (·.name) (fun m => [m]) (fun _ => []) ms).map MethodDecl.described,
        firstWinsAfter seen (·.name) MethodDecl.repetitions
          (fun m => [⟨.duplicateMethod owner m.name, m.span.start⟩]) ms) := by
  induction ms with
  | nil => intro seen; rfl
  | cons m ms ih =>
      intro seen
      simp only [methodsOf, firstWinsAfter_cons, ih, formalsOf_eq, ← firstWins_eq_after]
      split <;> rfl

theorem attributesOf_eq (owner : String) (as : List AttributeDecl) : ∀ seen index,
    attributesOf owner seen index as =
      ((firstWinsAfter seen (·.name) (fun a => [a]) (fun _ => []) as).mapIdx
          fun i a => a.numbered (index + i),
        firstWinsAfter seen (·.name) (fun _ => [])
          (fun a => [⟨.duplicateAttribute owner a.name, a.span.start⟩]) as) := by
  induction as with
  | nil => intro seen index; rfl
  | cons a as ih =>
      intro seen index
      simp only [attributesOf, firstWinsAfter_cons, ih]
      split
      · rfl
      · simp only [List.singleton_append, List.mapIdx_cons, List.nil_append, Nat.add_zero,
          AttributeDecl.numbered, Nat.add_assoc, Nat.add_comm 1]

/-- **What a class keeps of its declaration.** -/
theorem ofDecl_eq (d : ClassDecl) : ofDecl d = (d.described, d.repetitions) := by
  simp only [ofDecl, attributesOf_eq, methodsOf_eq, ← firstWins_eq_after, Nat.zero_add]
  rfl

end ClassInfo

/-- Where there is no complaint every feature is kept. -/
theorem ClassDecl.described_of_repetitions_eq_nil {d : ClassDecl} (hnil : d.repetitions = []) :
    d.described = d.withFeatures d.attributes (d.methods.map fun m => m.withFormals m.formals) := by
  obtain ⟨hattributes, hmethods⟩ := List.append_eq_nil_iff.mp hnil
  have hattributes := (firsts_eq_self (fun _ => List.cons_ne_nil _ _) hattributes).1
  obtain ⟨hmethods, hformals⟩ := firsts_eq_self (fun _ => List.cons_ne_nil _ _) hmethods
  rw [described, hattributes, hmethods]
  congr 1
  refine List.map_congr_left fun m hm => ?_
  rw [MethodDecl.described, (firsts_eq_self (fun _ => List.cons_ne_nil _ _) (hformals m hm)).1]

theorem ClassInfo.method?_ofDecl (d : ClassDecl) (x : String) :
    (ofDecl d).1.method? x = (d.methods.find? (·.name == x)).map MethodDecl.described := by
  rw [ofDecl_eq, ← find?_firsts]
  exact List.find?_map

/-! ## Classes -/

namespace Hierarchy

/-- Why a declaration whose name is taken is refused. -/
def refusalOf (d : ClassDecl) : Diagnostic :=
  if registrable d then ⟨.duplicateClass d.name, d.span.start⟩
  else ⟨.builtinRedefinition d.name, d.span.start⟩

/-- The declarations that are kept: the first of each name that a program may give to a class. -/
def kept (program : List ClassDecl) : List ClassDecl :=
  (firsts (·.name) program).filter registrable

/-- The complaints about the declarations one by one: those about its features, and one if it is
refused. -/
def repetitions (program : List ClassDecl) : List Diagnostic :=
  firstWins (·.name)
    (fun d => d.repetitions ++ if registrable d then [] else [refusalOf d])
    (fun d => d.repetitions ++ [refusalOf d]) program

theorem register_of_taken {h : Hierarchy} {d : ClassDecl} (hd : registrable d = true)
    (htaken : h.contains d.name = true) :
    h.register (ClassInfo.ofDecl d).1 = .error (refusalOf d) := by
  have hreserved : ¬ ClassName.isReserved (ClassInfo.ofDecl d).1.name = true := by
    simpa [registrable] using hd
  have htaken' : h.contains (ClassInfo.ofDecl d).1.name = true := by simpa using htaken
  rw [register, if_neg hreserved, if_pos htaken', refusalOf, if_pos hd]
  rfl

theorem registerAll_cons_ok {h h' : Hierarchy} {d : ClassDecl}
    (hreg : h.register (ClassInfo.ofDecl d).1 = .ok h') (ds : List ClassDecl) :
    h.registerAll (d :: ds) =
      ((h'.registerAll ds).1, ⟨d.repetitions, none⟩ :: (h'.registerAll ds).2) := by
  simp only [registerAll, hreg]
  rw [ClassInfo.ofDecl_eq]

theorem registerAll_cons_error {h : Hierarchy} {d : ClassDecl} {refusal : Diagnostic}
    (hreg : h.register (ClassInfo.ofDecl d).1 = .error refusal) (ds : List ClassDecl) :
    h.registerAll (d :: ds) =
      ((h.registerAll ds).1, ⟨d.repetitions, some refusal⟩ :: (h.registerAll ds).2) := by
  simp only [registerAll, hreg]
  rw [ClassInfo.ofDecl_eq]

/-- The names that are taken are those of the classes, as far as a program may give them. -/
def Takes (h : Hierarchy) (taken : List String) : Prop :=
  ∀ d : ClassDecl, registrable d = true → h.contains d.name = taken.contains d.name

/-- A program gives no class a reserved name, so it does not matter whether such a name is taken. -/
theorem Takes.reserved {h : Hierarchy} {taken : List String} (htaken : h.Takes taken)
    {d : ClassDecl} (hd : registrable d = false) : h.Takes (d.name :: taken) := by
  intro d' hd'
  have hne : d'.name ≠ d.name := by
    intro heq
    rw [registrable, heq] at hd'
    cases hd.symm.trans hd'
  rw [List.contains_cons, beq_false_of_ne hne, Bool.false_or]
  exact htaken d' hd'

theorem Takes.register {h : Hierarchy} {taken : List String} (htaken : h.Takes taken)
    (d : ClassDecl) : Takes ⟨h.classes ++ [(ClassInfo.ofDecl d).1]⟩ (d.name :: taken) := by
  intro d' hd'
  rw [contains_append, contains_singleton, List.contains_cons, Bool.or_comm, BEq.comm]
  exact congrArg (_ || ·) (htaken d' hd')

/-- The loop over the declarations does what a look at the names before each of them says. -/
theorem registerAll_eq (ds : List ClassDecl) : ∀ {h : Hierarchy} {taken : List String},
    h.Takes taken →
    (h.registerAll ds).1.classes = h.classes ++
        ((firstWinsAfter taken (·.name) (fun d => [d]) (fun _ => []) ds).filter registrable).map
          ClassDecl.described ∧
      (h.registerAll ds).2.flatMap (·.diagnostics) = firstWinsAfter taken (·.name)
        (fun d => d.repetitions ++ if registrable d then [] else [refusalOf d])
        (fun d => d.repetitions ++ [refusalOf d]) ds := by
  induction ds with
  | nil =>
      intro h taken _
      exact ⟨(List.append_nil _).symm, rfl⟩
  | cons d ds ih =>
      intro h taken htaken
      rw [firstWinsAfter_cons, firstWinsAfter_cons]
      cases hd : registrable d with
      | false =>
          have hrefusal : refusalOf d = ⟨.builtinRedefinition d.name, d.span.start⟩ := by
            simp [refusalOf, hd]
          rw [registerAll_cons_error (register_of_reserved h hd), List.flatMap_cons, ← hrefusal]
          split
          · obtain ⟨hclasses, hdiagnostics⟩ := ih htaken
            rw [hclasses, hdiagnostics]
            exact ⟨rfl, rfl⟩
          · obtain ⟨hclasses, hdiagnostics⟩ := ih (htaken.reserved hd)
            rw [hclasses, hdiagnostics]
            simp [hd, Registration.diagnostics]
      | true =>
          split
          · rename_i hmet
            have hreg := register_of_taken hd ((htaken d hd).trans hmet)
            obtain ⟨hclasses, hdiagnostics⟩ := ih htaken
            rw [registerAll_cons_error hreg, List.flatMap_cons, hclasses, hdiagnostics]
            exact ⟨rfl, rfl⟩
          · rename_i hnew
            have hreg := register_of_new hd ((htaken d hd).trans (by simpa using hnew))
            obtain ⟨hclasses, hdiagnostics⟩ := ih (htaken.register d)
            rw [registerAll_cons_ok hreg, List.flatMap_cons, hclasses, hdiagnostics]
            simp [hd, Registration.diagnostics, ClassInfo.ofDecl_eq]

theorem takes_initial : initial.Takes [] :=
  fun _ hd => contains_initial_of_registrable hd

/-- The classes of a program are the built-in ones and those that are kept. -/
theorem classes_ofProgram (program : List ClassDecl) :
    (ofProgram program).1.classes =
      Builtin.classes ++ (kept program).map ClassDecl.described := by
  have hall := (registerAll_eq program takes_initial).1
  rwa [← firstWins_eq_after] at hall

theorem diagnostics_ofProgram (program : List ClassDecl) :
    (ofProgram program).2 = repetitions program ++ (ofProgram program).1.violations := by
  have hall := (registerAll_eq program takes_initial).2
  rw [← firstWins_eq_after] at hall
  exact congrArg (· ++ (ofProgram program).1.violations) hall

theorem userClasses_ofProgram (program : List ClassDecl) :
    (ofProgram program).1.userClasses = (kept program).map ClassDecl.described := by
  have hbuiltin : Builtin.classes.filter (!ClassName.isReserved ·.name) = [] := by decide
  rw [userClasses, classes_ofProgram, List.filter_append, hbuiltin, List.nil_append,
    List.filter_eq_self]
  intro c hc
  obtain ⟨d, hd, rfl⟩ := List.mem_map.mp hc
  exact (List.mem_filter.mp hd).2

/-- A name that a program may give to a class is looked up in its first declaration. -/
theorem find?_ofProgram (program : List ClassDecl) {name : String}
    (hname : ClassName.isReserved name = false) :
    (ofProgram program).1.find? name =
      (program.find? (·.name == name)).map ClassDecl.described := by
  have hbuiltin : Builtin.classes.find? (·.name == name) = none := by
    rw [List.find?_eq_none]
    intro c hc hcname
    have hreserved := isReserved_of_mem_builtin c hc
    rw [beq_iff_eq.mp hcname, hname] at hreserved
    cases hreserved
  rw [find?, classes_ofProgram, List.find?_append, hbuiltin, Option.none_or, List.find?_map, kept,
    List.find?_filter, ← find?_firsts]
  congr 2
  funext d
  -- the filter asks no more than the name does
  by_cases hd : d.name = name
  · simp [registrable, hd, hname]
  · simp [hd]

/-! ## The account of a program -/

end Hierarchy

/-- The complaint is that something is declared again. -/
def Cause.isRepetition : Cause → Bool
  | duplicateClass .. | builtinRedefinition .. | duplicateAttribute .. | duplicateMethod ..
  | duplicateFormal .. => true
  | _ => false

theorem MethodDecl.isRepetition_of_mem {m : MethodDecl} {d : Diagnostic}
    (hd : d ∈ m.repetitions) : d.cause.isRepetition = true := by
  obtain ⟨f, -, hd | hd⟩ := exists_of_mem_firstWins hd
  · cases hd
  · rw [List.mem_singleton.mp hd]
    rfl

theorem ClassDecl.isRepetition_of_mem {c : ClassDecl} {d : Diagnostic}
    (hd : d ∈ c.repetitions) : d.cause.isRepetition = true := by
  rcases List.mem_append.mp hd with hd | hd
  · obtain ⟨a, -, hd | hd⟩ := exists_of_mem_firstWins hd
    · cases hd
    · rw [List.mem_singleton.mp hd]
      rfl
  · obtain ⟨m, -, hd | hd⟩ := exists_of_mem_firstWins hd
    · exact MethodDecl.isRepetition_of_mem hd
    · rw [List.mem_singleton.mp hd]
      rfl

namespace Hierarchy

theorem isRepetition_refusalOf (d : ClassDecl) : (refusalOf d).cause.isRepetition = true := by
  unfold refusalOf
  split <;> rfl

theorem isRepetition_of_mem_repetitions {program : List ClassDecl} {d : Diagnostic}
    (hd : d ∈ repetitions program) : d.cause.isRepetition = true := by
  obtain ⟨c, -, hd⟩ := exists_of_mem_firstWins hd
  have hcases : d ∈ c.repetitions ∨ d = refusalOf c := by
    rcases hd with hd | hd <;> rcases List.mem_append.mp hd with hd | hd
    · exact .inl hd
    · split at hd
      · cases hd
      · exact .inr (List.mem_singleton.mp hd)
    · exact .inl hd
    · exact .inr (List.mem_singleton.mp hd)
  rcases hcases with hd | rfl
  · exact ClassDecl.isRepetition_of_mem hd
  · exact isRepetition_refusalOf c

/-- The rules on inheritance and on the class to start from are about other things. -/
theorem isRepetition_of_mem_violations {h : Hierarchy} {d : Diagnostic} (hd : d ∈ h.violations) :
    d.cause.isRepetition = false := by
  rcases List.mem_append.mp hd with hd | hd
  · rcases List.mem_append.mp hd with hd | hd
    · obtain ⟨c, -, hc⟩ := List.mem_filterMap.mp hd
      unfold parentViolation? at hc
      split at hc
      · cases hc
      · split at hc
        · cases hc; rfl
        · split at hc <;> cases hc
          rfl
    · obtain ⟨name, -, rfl⟩ := List.mem_map.mp hd
      rfl
  · have hd := Option.mem_toList.mp hd
    unfold mainViolation? at hd
    split at hd
    · cases hd; rfl
    · split at hd
      · split at hd
        · cases hd; rfl
        · split at hd <;> cases hd
          rfl
      · cases hd

theorem filter_isRepetition_ofProgram (program : List ClassDecl) :
    (ofProgram program).2.filter (·.cause.isRepetition) = repetitions program := by
  rw [diagnostics_ofProgram, List.filter_append,
    List.filter_eq_self.mpr fun d hd => isRepetition_of_mem_repetitions hd,
    List.filter_eq_nil_iff.mpr fun d hd => by simp [isRepetition_of_mem_violations hd],
    List.append_nil]

/-- Where no declaration is refused all are kept. -/
theorem kept_of_repetitions_eq_nil {program : List ClassDecl} (hnil : repetitions program = []) :
    kept program = program ∧ ∀ d ∈ program, d.repetitions = [] := by
  obtain ⟨hfirsts, hkeep⟩ := firsts_eq_self (fun d => by simp) hnil
  have hdeclared : ∀ d ∈ program, d.repetitions = [] ∧ registrable d = true := by
    intro d hd
    obtain ⟨hclean, hrefusal⟩ := List.append_eq_nil_iff.mp (hkeep d hd)
    split at hrefusal
    · exact ⟨hclean, ‹_›⟩
    · cases hrefusal
  refine ⟨?_, fun d hd => (hdeclared d hd).1⟩
  rw [kept, hfirsts, List.filter_eq_self]
  exact fun d hd => (hdeclared d hd).2

theorem registered_of_ofProgram {h : Hierarchy} {program : List ClassDecl}
    (hh : ofProgram program = (h, [])) :
    h.classes = Builtin.classes ++ program.map ClassDecl.described ∧
      ∀ d ∈ program, d.repetitions = [] := by
  have hrepetitions := filter_isRepetition_ofProgram program
  rw [hh, List.filter_nil] at hrepetitions
  obtain ⟨hkept, hclean⟩ := kept_of_repetitions_eq_nil hrepetitions.symm
  have hclasses := classes_ofProgram program
  rw [hh, hkept] at hclasses
  exact ⟨hclasses, hclean⟩

/-- **Registration loses nothing silently.** A hierarchy holds the built-in classes and behind them,
in the order of the text, the first declaration of each name that is not reserved; it is found again
by that name. Every other declaration is complained about once. So it is inside each declaration,
refused or not: the first attribute of each name is kept, numbered from zero, the first method of each
name and of that the first formal of each name, and there is one complaint about each of the others.
These are all the complaints of these kinds. If there is none at all then the classes of the program,
their attributes, methods and formals are those that are declared, one for one. -/
theorem registration_accounts_for_all (program : List ClassDecl) :
    (ofProgram program).1.classes =
        Builtin.classes ++ (kept program).map ClassDecl.described ∧
      (∀ name, ClassName.isReserved name = false → (ofProgram program).1.find? name =
        (program.find? (·.name == name)).map ClassDecl.described) ∧
      (ofProgram program).2.filter (·.cause.isRepetition) = repetitions program ∧
      (∀ d, ClassInfo.ofDecl d = (d.described, d.repetitions) ∧
        ∀ x, (ClassInfo.ofDecl d).1.method? x =
          (d.methods.find? (·.name == x)).map MethodDecl.described) ∧
      ((ofProgram program).2 = [] → (ofProgram program).1.userClasses =
        program.map fun d => d.withFeatures d.attributes
          (d.methods.map fun m => m.withFormals m.formals)) := by
  refine ⟨classes_ofProgram program, fun name => find?_ofProgram program,
    filter_isRepetition_ofProgram program, fun d => ⟨ClassInfo.ofDecl_eq d,
      ClassInfo.method?_ofDecl d⟩, fun hnil => ?_⟩
  have hrepetitions := filter_isRepetition_ofProgram program
  rw [hnil, List.filter_nil] at hrepetitions
  obtain ⟨hkept, hclean⟩ := kept_of_repetitions_eq_nil hrepetitions.symm
  rw [userClasses_ofProgram, hkept]
  exact List.map_congr_left fun d hd => ClassDecl.described_of_repetitions_eq_nil (hclean d hd)

/-- A library in which everything is said twice: a shelf, its width, the method that places a book and
the book to be placed. Besides, a number is declared. -/
def muddle : List ClassDecl :=
  let width (type : String) : Feature := .attr ⟨"width", type, none, .nowhere⟩
  let height : Feature := .attr ⟨"height", ClassName.int, none, .nowhere⟩
  let place (result : String) : Feature :=
    .method ⟨"place", [⟨"book", "String", .nowhere⟩, ⟨"at", "Int", .nowhere⟩,
      ⟨"book", "Int", .nowhere⟩], result, .self .nowhere, .nowhere⟩
  [⟨"Shelf", none, [width "Int", place "Object", width "String", height, place "Int"], .nowhere⟩,
    ⟨"Int", none, [], .nowhere⟩,
    ⟨"Shelf", none, [height, height], .nowhere⟩,
    ⟨ClassName.mainClass, none,
      [.method ⟨mainMethod, [], ClassName.int, .int 0 .nowhere, .nowhere⟩], .nowhere⟩]

/-- The first shelf is kept, with a width and a height and one way to place a book. Six things are
said again, each of which is complained about. In a zoo without repetitions every class stays. -/
theorem registration_accounts_for_all_muddle :
    (ofProgram muddle).1.classes.map (·.name) = ClassName.builtins ++ ["Shelf", "Main"] ∧
      ((ofProgram muddle).1.find? "Shelf").map (fun c =>
        (c.attributes.map fun a => (a.name, a.typeName, a.index),
          c.methods.map fun m => (m.name, m.returnType, m.formals))) =
        some ([("width", "Int", 0), ("height", "Int", 1)],
          [("place", "Object", [⟨"book", "String"⟩, ⟨"at", "Int"⟩])]) ∧
      ((ofProgram muddle).2.filter (·.cause.isRepetition)).map (·.cause) =
        [.duplicateAttribute "Shelf" "width", .duplicateFormal "place" "book",
          .duplicateMethod "Shelf" "place", .builtinRedefinition "Int",
          .duplicateAttribute "Shelf" "height", .duplicateClass "Shelf"] ∧
      (ofProgram zoo).2 = [] ∧
      (ofProgram zoo).1.userClasses.map (·.name) = ["Animal", "Cat", "Dog", "Hound", "Main"] := by
  obtain ⟨hclasses, hfind, hrepetitions, -, -⟩ := registration_accounts_for_all muddle
  obtain ⟨-, -, -, -, hall⟩ := registration_accounts_for_all zoo
  have hzoo : (ofProgram zoo).2 = [] := congrArg Prod.snd ofProgram_zoo
  rw [hclasses, hfind "Shelf" (by decide), hrepetitions, hall hzoo]
  exact ⟨by decide, by decide, by decide, hzoo, by decide⟩

end Hierarchy

end CoolLang
