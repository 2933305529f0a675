import CoolLang.Proofs.Hierarchy.Inheritance

/-!
# Cycles of inheritance

A walk follows parents until it ends, meets a class of an earlier walk, or meets itself. The classes
of all walks so far have their parents among them, and so a cycle lies in one walk alone: it is what
that walk has passed since it was first at the class where it meets itself.
-/

namespace CoolLang.Hierarchy

open Relation

variable {h : Hierarchy} {done path path' cycle : List String} {current : Option String}
  {x name : String}

/-! ## The search without a bound -/

/-- One walk, which goes on for as long as it passes classes it has not seen: `Walks h done path
current path' cycle` if from `current`, with `path` passed, it ends with `path'` passed and yields
`cycle`. -/
inductive Walks (h : Hierarchy) (done : List String) :
    List String → Option String → List String → List String → Prop where
  | ends {path : List String} : Walks h done path none path []
  | meetsDone {path : List String} {name : String} (hdone : name ∈ done) :
      Walks h done path (some name) path []
  | meetsPath {path : List String} {name : String} (hdone : name ∉ done) (hpath : name ∈ path) :
      Walks h done path (some name) path (path.dropWhile (· != name))
  | passes {path path' cycle : List String} {name : String} (hdone : name ∉ done)
      (hpath : name ∉ path)
      (hrest : Walks h done (path ++ [name]) (h.knownParent? name) path' cycle) :
      Walks h done path (some name) path' cycle

/-- Walks from one class after another, each with the classes of the walks before it done. -/
inductive Detects (h : Hierarchy) : List String → List ClassInfo → List String → Prop where
  | nil {done : List String} : Detects h done [] []
  | cons {done path cycle cycles : List String} {c : ClassInfo} {cs : List ClassInfo}
      (hwalk : Walks h done [] (some c.name) path cycle)
      (hrest : Detects h (done ++ path) cs cycles) : Detects h done (c :: cs) (cycle ++ cycles)

theorem nodup_append_singleton (hpath : path.Nodup) (hname : name ∉ path) :
    (path ++ [name]).Nodup :=
  List.nodup_append_comm.mp (List.nodup_cons.mpr ⟨hname, hpath⟩)

theorem contains_of_knownParent? {parent : String} (hp : h.knownParent? name = some parent) :
    h.contains parent = true :=
  (inherits_iff.mpr hp).contains_right

/-- The bound on the length of a walk is never what ends it: there are no more classes to pass. -/
theorem walks_walk (fuel : Nat) :
    ∀ path current, path.Nodup → (∀ n ∈ path, h.contains n = true) →
      (∀ n ∈ current, h.contains n = true) → h.classes.length < fuel + path.length →
      Walks h done path current (h.walk done fuel path current).1
        (h.walk done fuel path current).2 := by
  induction fuel with
  | zero =>
      intro path current hnodup hknown _ hfuel
      have := length_le_of_nodup hnodup hknown
      omega
  | succ fuel ih =>
      intro path current hnodup hknown hcurrent hfuel
      cases current with
      | none => exact .ends
      | some name =>
          rw [walk]
          by_cases hdone : name ∈ done
          · rw [if_pos (by simpa using hdone)]
            exact .meetsDone hdone
          · rw [if_neg (by simpa using hdone)]
            by_cases hpath : name ∈ path
            · rw [if_pos (by simpa using hpath)]
              exact .meetsPath hdone hpath
            · rw [if_neg (by simpa using hpath)]
              refine .passes hdone hpath (ih _ _ ?_ ?_ ?_ ?_)
              · exact nodup_append_singleton hnodup hpath
              · intro n hn
                rcases List.mem_append.mp hn with hn | hn
                · exact hknown n hn
                · rw [List.mem_singleton] at hn
                  exact hn ▸ hcurrent name rfl
              · exact fun n hn => contains_of_knownParent? hn
              · rw [List.length_append, List.length_singleton]
                omega

theorem detects_cyclesFrom (cs : List ClassInfo) :
    ∀ done, (∀ c ∈ cs, c ∈ h.classes) → h.Detects done cs (h.cyclesFrom done cs) := by
  induction cs with
  | nil => intro done _; exact .nil
  | cons c cs ih =>
      intro done hcs
      rw [List.forall_mem_cons] at hcs
      have hstart : ∀ n ∈ some c.name, h.contains n = true := by
        rintro n ⟨⟩
        exact contains_of_mem hcs.1
      exact .cons (walks_walk (h.classes.length + 1) [] _ .nil nofun hstart (by simp)) (ih _ hcs.2)

/-! ## Paths -/

/-- Each class of the path is followed by its parent, the last one by `current`. -/
def Leads (h : Hierarchy) : List String → Option String → Prop
  | [], _ => True
  | x :: rest, current => h.knownParent? x = rest.head?.or current ∧ h.Leads rest current

theorem Leads.append (hpath : h.Leads path (some name)) :
    h.Leads (path ++ [name]) (h.knownParent? name) := by
  induction path with
  | nil => exact ⟨rfl, trivial⟩
  | cons x rest ih =>
      refine ⟨?_, ih hpath.2⟩
      rw [hpath.1]
      cases rest <;> rfl

theorem Leads.of_append {pre post : List String} (hpath : h.Leads (pre ++ post) current) :
    h.Leads post current := by
  induction pre with
  | nil => exact hpath
  | cons x pre ih => exact ih hpath.2

theorem Leads.next {rest : List String} {y : String} (hpath : h.Leads (x :: rest) current)
    (hxy : h.Inherits x y) : y ∈ rest ∨ y ∈ current := by
  have hnext := hpath.1
  rw [inherits_iff.mp hxy] at hnext
  cases rest with
  | nil => exact Or.inr hnext.symm
  | cons z rest =>
      cases hnext
      exact Or.inl List.mem_cons_self

theorem Leads.mem_of_inherits {y : String} (hpath : h.Leads path current) (hx : x ∈ path)
    (hxy : h.Inherits x y) : y ∈ path ∨ y ∈ current := by
  obtain ⟨pre, post, rfl⟩ := List.append_of_mem hx
  rcases hpath.of_append.next hxy with hy | hy
  · exact Or.inl (List.mem_append_right _ (List.mem_cons_of_mem x hy))
  · exact Or.inr hy

/-- The first class of a path leads to all that come after it. -/
theorem Leads.reaches {rest : List String} (hpath : h.Leads (x :: rest) (some name)) :
    ∀ y ∈ rest ++ [name], TransGen h.Inherits x y := by
  induction rest generalizing x with
  | nil =>
      intro y hy
      rw [List.nil_append, List.mem_singleton] at hy
      exact hy ▸ .single (inherits_iff.mpr hpath.1)
  | cons z rest ih =>
      intro y hy
      have hxz : h.Inherits x z := inherits_iff.mpr hpath.1
      rcases List.mem_cons.mp hy with rfl | hy
      · exact .single hxz
      · exact .head hxz (ih hpath.2 y hy)

/-- A class does not come up again where all that comes after it ends up without it. -/
theorem Leads.not_onCycle {rest names : List String} (hpath : h.Leads (x :: rest) current)
    (hnames : h.ClosedUp names) (hcurrent : ∀ n ∈ current, n ∈ rest ++ names)
    (hx : x ∉ rest ++ names) : ¬ TransGen h.Inherits x x := by
  intro hcycle
  have hclosed : h.ClosedUp (rest ++ names) := by
    intro y hy z hyz
    rcases List.mem_append.mp hy with hy | hy
    · rcases hpath.2.mem_of_inherits hy hyz with hz | hz
      · exact List.mem_append_left _ hz
      · exact hcurrent z hz
    · exact List.mem_append_right _ (hnames y hy z hyz)
  obtain ⟨y, hxy, hyx⟩ := TransGen.head'_iff.mp hcycle
  have hy : y ∈ rest ++ names := by
    rcases hpath.next hxy with hy | hy
    · exact List.mem_append_left _ hy
    · exact hcurrent y hy
  exact hx (hclosed.mem_of_reaches hy hyx)

/-! ## What a walk finds -/

/-- A walk under way. -/
structure Trail (h : Hierarchy) (done path : List String) (current : Option String) : Prop where
  leads : h.Leads path current
  nodup : path.Nodup
  fresh : ∀ x ∈ path, x ∉ done

/-- What a finished walk leaves behind. -/
structure Surveyed (h : Hierarchy) (done path cycle : List String) : Prop where
  fresh : ∀ x ∈ path, x ∉ done
  closed : h.ClosedUp (done ++ path)
  nodup : cycle.Nodup
  mem_cycle : ∀ x, x ∈ cycle ↔ x ∈ path ∧ TransGen h.Inherits x x

theorem closedUp_nil (h : Hierarchy) : h.ClosedUp [] := nofun

namespace Trail

theorem start (h : Hierarchy) (done : List String) (name : String) :
    h.Trail done [] (some name) :=
  ⟨trivial, .nil, nofun⟩

theorem pass (ht : h.Trail done path (some name)) (hdone : name ∉ done) (hpath : name ∉ path) :
    h.Trail done (path ++ [name]) (h.knownParent? name) := by
  refine ⟨ht.leads.append, nodup_append_singleton ht.nodup hpath, ?_⟩
  intro x hx
  rcases List.mem_append.mp hx with hx | hx
  · exact ht.fresh x hx
  · rw [List.mem_singleton] at hx
    exact hx ▸ hdone

theorem closedUp (ht : h.Trail done path current) (hdone : h.ClosedUp done)
    (hcurrent : ∀ n ∈ current, n ∈ done ++ path) : h.ClosedUp (done ++ path) := by
  intro x hx y hxy
  rcases List.mem_append.mp hx with hx | hx
  · exact List.mem_append_left _ (hdone x hx y hxy)
  · rcases ht.leads.mem_of_inherits hx hxy with hy | hy
    · exact List.mem_append_right _ hy
    · exact hcurrent y hy

/-- A walk that ends, or meets a class of an earlier walk, has passed no cycle. -/
theorem surveyed_nil (ht : h.Trail done path current) (hdone : h.ClosedUp done)
    (hcurrent : ∀ n ∈ current, n ∈ done) : h.Surveyed done path [] := by
  refine ⟨ht.fresh, ht.closedUp hdone fun n hn => List.mem_append_left _ (hcurrent n hn), .nil, ?_⟩
  intro x
  refine ⟨nofun, fun ⟨hx, hcycle⟩ => absurd hcycle ?_⟩
  obtain ⟨pre, post, rfl⟩ := List.append_of_mem hx
  refine ht.leads.of_append.not_onCycle hdone
    (fun n hn => List.mem_append_right _ (hcurrent n hn)) fun hmem => ?_
  rcases List.mem_append.mp hmem with hmem | hmem
  · exact (List.nodup_cons.mp (List.nodup_append.mp ht.nodup).2.1).1 hmem
  · exact ht.fresh x hx hmem

/-- Where a walk meets itself it closes a cycle. What it passed before that cycle is on none. -/
theorem surveyed_dropWhile (ht : h.Trail done path (some name)) (hdone : h.ClosedUp done)
    (hname : name ∈ path) : h.Surveyed done path (path.dropWhile (· != name)) := by
  have hclosed : h.ClosedUp (done ++ path) := by
    refine ht.closedUp hdone ?_
    rintro n ⟨⟩
    exact List.mem_append_right _ hname
  refine ⟨ht.fresh, hclosed, ht.nodup.sublist (List.dropWhile_sublist _), ?_⟩
  obtain ⟨pre, post, rfl⟩ := List.append_of_mem hname
  have hsplit := List.nodup_append.mp ht.nodup
  have hpre : ∀ y ∈ pre, (y != name) = true := by
    intro y hy
    simpa using hsplit.2.2 y hy name List.mem_cons_self
  rw [List.dropWhile_append_of_pos hpre, List.dropWhile_cons_of_neg (by simp)]
  have hloop := ht.leads.of_append
  intro x
  constructor
  · intro hx
    refine ⟨List.mem_append_right _ hx, ?_⟩
    rcases List.mem_cons.mp hx with rfl | hpost
    · exact hloop.reaches x (List.mem_append_right _ List.mem_cons_self)
    · -- round the cycle from `x` to `name` and on to `x`
      have hto : TransGen h.Inherits x name := by
        obtain ⟨mid, rest, rfl⟩ := List.append_of_mem hpost
        exact hloop.2.of_append.reaches name (List.mem_append_right _ List.mem_cons_self)
      exact hto.trans (hloop.reaches x (List.mem_append_left _ hpost))
  · rintro ⟨hx, hcycle⟩
    rcases List.mem_append.mp hx with hx | hx
    · obtain ⟨front, back, rfl⟩ := List.append_of_mem hx
      rw [List.append_assoc, List.cons_append] at ht
      refine absurd hcycle (ht.leads.of_append.not_onCycle (closedUp_nil h) ?_ ?_)
      · rintro n ⟨⟩
        simp
      · rw [List.append_nil]
        exact (List.nodup_cons.mp (List.nodup_append.mp ht.nodup).2.1).1
    · exact hx

end Trail

theorem Walks.subset_path (hwalk : h.Walks done path current path' cycle) : path ⊆ path' := by
  induction hwalk with
  | ends | meetsDone | meetsPath => exact List.Subset.refl _
  | passes _ _ _ ih => exact List.Subset.trans (List.subset_append_left _ _) ih

theorem Walks.mem_of_current (hwalk : h.Walks done path current path' cycle) :
    ∀ n ∈ current, n ∈ done ++ path' := by
  cases hwalk with
  | ends => exact nofun
  | meetsDone hdone =>
      rintro n ⟨⟩
      exact List.mem_append_left _ hdone
  | meetsPath _ hpath =>
      rintro n ⟨⟩
      exact List.mem_append_right _ hpath
  | passes _ _ hrest =>
      rintro n ⟨⟩
      exact List.mem_append_right _ (hrest.subset_path (by simp))

theorem Walks.surveyed (hwalk : h.Walks done path current path' cycle) (hdone : h.ClosedUp done)
    (ht : h.Trail done path current) : h.Surveyed done path' cycle := by
  induction hwalk with
  | ends => exact ht.surveyed_nil hdone nofun
  | meetsDone hname =>
      refine ht.surveyed_nil hdone ?_
      rintro n ⟨⟩
      exact hname
  | meetsPath _ hname => exact ht.surveyed_dropWhile hdone hname
  | passes hnew hpath _ ih => exact ih (ht.pass hnew hpath)

/-! ## What all walks find -/

/-- The cycles that the walks find lie outside what was done before, and they are all those that
the classes at the start of the walks are on. -/
theorem Detects.spec {cs : List ClassInfo} {cycles : List String}
    (hdetects : h.Detects done cs cycles) (hdone : h.ClosedUp done) :
    cycles.Nodup ∧ (∀ x ∈ cycles, x ∉ done ∧ TransGen h.Inherits x x) ∧
      ∀ c ∈ cs, TransGen h.Inherits c.name c.name → c.name ∈ done ++ cycles := by
  induction hdetects with
  | nil => exact ⟨.nil, nofun, nofun⟩
  | @cons done path cycle cycles c cs hwalk _ ih =>
      have hsurvey := hwalk.surveyed hdone (.start h done c.name)
      obtain ⟨hnodup, hsound, hcomplete⟩ := ih hsurvey.closed
      -- a class on a cycle that the first walk has passed is reported by it
      have hpassed : ∀ x ∈ done ++ path, TransGen h.Inherits x x →
          x ∈ done ++ (cycle ++ cycles) := by
        intro x hx hcycle
        rcases List.mem_append.mp hx with hx | hx
        · exact List.mem_append_left _ hx
        · have hmem := (hsurvey.mem_cycle x).mpr ⟨hx, hcycle⟩
          exact List.mem_append_right _ (List.mem_append_left _ hmem)
      refine ⟨?_, ?_, ?_⟩
      · rw [List.nodup_append]
        refine ⟨hsurvey.nodup, hnodup, ?_⟩
        rintro x hx y hy rfl
        exact (hsound x hy).1 (List.mem_append_right _ ((hsurvey.mem_cycle x).mp hx).1)
      · intro x hx
        rcases List.mem_append.mp hx with hx | hx
        · obtain ⟨hpath, hcycle⟩ := (hsurvey.mem_cycle x).mp hx
          exact ⟨hsurvey.fresh x hpath, hcycle⟩
        · obtain ⟨hnew, hcycle⟩ := hsound x hx
          exact ⟨fun hmem => hnew (List.mem_append_left _ hmem), hcycle⟩
      · intro d hd hcycle
        rcases List.mem_cons.mp hd with rfl | hd
        · exact hpassed _ (hwalk.mem_of_current _ rfl) hcycle
        · rcases List.mem_append.mp (hcomplete d hd hcycle) with hmem | hmem
          · exact hpassed _ hmem hcycle
          · exact List.mem_append_right _ (List.mem_append_right _ hmem)

theorem detects_cyclic (h : Hierarchy) : h.Detects [] h.classes h.cyclic :=
  detects_cyclesFrom h.classes [] fun _ hc => hc

theorem nodup_cyclic (h : Hierarchy) : h.cyclic.Nodup :=
  (h.detects_cyclic.spec (closedUp_nil h)).1

theorem mem_cyclic_iff : name ∈ h.cyclic ↔ TransGen h.Inherits name name := by
  obtain ⟨-, hsound, hcomplete⟩ := h.detects_cyclic.spec (closedUp_nil h)
  constructor
  · intro hname
    exact (hsound name hname).2
  · intro hcycle
    obtain ⟨parent, hparent, -⟩ := TransGen.head'_iff.mp hcycle
    obtain ⟨c, hc⟩ := exists_find?_of_contains hparent.contains_left
    rw [← name_of_find? hc] at hcycle ⊢
    simpa using hcomplete c (mem_classes_of_find? hc) hcycle

/-- **The search for cycles is exact.** In every hierarchy, whatever its classes, the search comes
to an end with no bound on its walks. It yields each class once that leads to itself over one or
more parents, and no other: none that leads to a cycle and is not on it. -/
theorem cyclic_exact (h : Hierarchy) :
    h.Detects [] h.classes h.cyclic ∧ h.cyclic.Nodup ∧
    (∀ name, name ∈ h.cyclic ↔ TransGen h.Inherits name name) ∧
    ∀ a b, b ∈ h.cyclic → TransGen h.Inherits a b → ¬ TransGen h.Inherits b a → a ∉ h.cyclic := by
  refine ⟨h.detects_cyclic, h.nodup_cyclic, fun name => mem_cyclic_iff, ?_⟩
  intro a b hb hab hba ha
  have hback := leads_back (mem_cyclic_iff.mp ha) hab.to_reflTransGen
  exact hba (TransGen.trans_left (mem_cyclic_iff.mp hb) hback)

/-- Two classes that are each other's parent, one below them, one that is its own parent and one
whose parent is not known. -/
def entwined : List ClassInfo :=
  [⟨"Chick", some "Hen", [], [], .nowhere⟩, ⟨"Hen", some "Egg", [], [], .nowhere⟩,
    ⟨"Egg", some "Hen", [], [], .nowhere⟩, ⟨"Ouroboros", some "Ouroboros", [], [], .nowhere⟩,
    ⟨"Orphan", some "Nobody", [], [], .nowhere⟩]

theorem cyclic_exact_entwined :
    (initial.offerAll entwined).cyclic = ["Hen", "Egg", "Ouroboros"] ∧
    TransGen (initial.offerAll entwined).Inherits "Egg" "Egg" ∧
    ¬ TransGen (initial.offerAll entwined).Inherits "Chick" "Chick" := by
  have hcyclic : (initial.offerAll entwined).cyclic = ["Hen", "Egg", "Ouroboros"] := by
    decide +kernel
  obtain ⟨-, -, hexact, -⟩ := cyclic_exact (initial.offerAll entwined)
  rw [hcyclic] at hexact
  refine ⟨hcyclic, (hexact "Egg").mp (by decide), fun hchick => ?_⟩
  exact absurd ((hexact "Chick").mpr hchick) (by decide)

end CoolLang.Hierarchy
