import CoolLang.Hierarchy.Cycle
import CoolLang.Proofs.Hierarchy.Registration
import Mathlib.Data.List.Chain
import Mathlib.Logic.Relation

/-!
# The graph of inheritance

An edge leads from a class to its parent. There may be cycles, and parents that are not known. The
ancestors of a class are still all that can be reached from it, each once and in order: where the
walk is cut short there is nothing new to come.
-/

namespace CoolLang.Hierarchy

open Relation

variable {h : Hierarchy} {a b c : String}

/-- The class `a` has the parent `b`, and both are known. -/
def Inherits (h : Hierarchy) (a b : String) : Prop :=
  ∃ c, h.find? a = some c ∧ c.parent = some b ∧ h.contains b = true

theorem inherits_iff : h.Inherits a b ↔ h.knownParent? a = some b := by
  rw [knownParent?, Option.filter_eq_some_iff, parent?, Option.bind_eq_some_iff]
  constructor
  · rintro ⟨c, hc, hp, hb⟩
    exact ⟨⟨c, hc, hp⟩, hb⟩
  · rintro ⟨⟨c, hc, hp⟩, hb⟩
    exact ⟨c, hc, hp, hb⟩

theorem Inherits.contains_left (hab : h.Inherits a b) : h.contains a = true := by
  obtain ⟨c, hc, -⟩ := hab
  exact contains_of_find? hc

theorem Inherits.contains_right (hab : h.Inherits a b) : h.contains b = true := by
  obtain ⟨c, -, -, hb⟩ := hab
  exact hb

theorem Inherits.parent_eq (hab : h.Inherits a b) {c : ClassInfo} (hc : h.find? a = some c) :
    c.parent = some b := by
  obtain ⟨d, hd, hp, -⟩ := hab
  rw [hc] at hd
  cases hd
  exact hp

theorem rightUnique_inherits (h : Hierarchy) : Relator.RightUnique h.Inherits := by
  intro a b c hab hac
  rw [inherits_iff] at hab hac
  rw [hab] at hac
  exact Option.some.inj hac

/-- Whatever a class on a cycle leads to leads back to it. -/
theorem leads_back (hcycle : TransGen h.Inherits a a) (hab : ReflTransGen h.Inherits a b) :
    ReflTransGen h.Inherits b a := by
  induction hab with
  | refl => exact .refl
  | tail _ hbc ih =>
      rcases ReflTransGen.cases_head ih with rfl | ⟨d, hbd, hda⟩
      · obtain ⟨d, had, hda⟩ := TransGen.head'_iff.mp hcycle
        rwa [rightUnique_inherits h hbc had]
      · rwa [rightUnique_inherits h hbc hbd]

/-- What begins at a class that is not known goes nowhere. -/
theorem eq_of_not_contains (ha : h.contains a = false) (hab : ReflTransGen h.Inherits a b) :
    a = b := by
  rcases ReflTransGen.cases_head hab with rfl | ⟨c, hac, -⟩
  · rfl
  · rw [hac.contains_left] at ha
    cases ha

theorem WellNamed.not_inherits_object (hh : h.WellNamed) (a : String) :
    ¬ h.Inherits ClassName.object a := by
  intro ha
  have hparent := ha.parent_eq hh.find?_object
  cases hparent

theorem WellNamed.eq_object (hh : h.WellNamed)
    (ha : ReflTransGen h.Inherits ClassName.object a) : a = ClassName.object := by
  rcases ReflTransGen.cases_head ha with rfl | ⟨b, hb, -⟩
  · rfl
  · exact absurd hb (hh.not_inherits_object b)

/-- The names have all their known parents among them. -/
def ClosedUp (h : Hierarchy) (names : List String) : Prop :=
  ∀ x ∈ names, ∀ y, h.Inherits x y → y ∈ names

theorem ClosedUp.mem_of_reaches {names : List String} (hnames : h.ClosedUp names)
    (ha : a ∈ names) (hab : ReflTransGen h.Inherits a b) : b ∈ names := by
  induction hab with
  | refl => exact ha
  | tail _ hbc ih => exact hnames _ ih _ hbc

/-! ## Ancestors -/

theorem lineage_succ {c : ClassInfo} (hc : h.find? a = some c) (n : Nat) :
    h.lineage (n + 1) a = c :: c.parent.elim [] (h.lineage n) := by
  cases hp : c.parent <;> simp [lineage, hc, hp]

theorem lineage_of_find?_eq_none (ha : h.find? a = none) (n : Nat) : h.lineage n a = [] := by
  cases n <;> simp [lineage, ha]

theorem head?_lineage {n : Nat} {d : ClassInfo} (hd : d ∈ (h.lineage n a).head?) :
    h.find? a = some d := by
  cases n with
  | zero => cases hd
  | succ n =>
      cases hfind : h.find? a with
      | none => simp [lineage_of_find?_eq_none hfind] at hd
      | some c => simpa [lineage_succ hfind] using hd

theorem isChain_lineage (h : Hierarchy) (n : Nat) :
    ∀ a, ((h.lineage n a).map (·.name)).IsChain h.Inherits := by
  induction n with
  | zero => intro a; exact .nil
  | succ n ih =>
      intro a
      cases hfind : h.find? a with
      | none =>
          rw [lineage_of_find?_eq_none hfind]
          exact .nil
      | some c =>
          rw [lineage_succ hfind]
          cases hp : c.parent with
          | none => exact .singleton _
          | some parent =>
              refine List.IsChain.cons (ih parent) ?_
              intro y hy
              rw [List.head?_map, Option.mem_def, Option.map_eq_some_iff] at hy
              obtain ⟨d, hd, rfl⟩ := hy
              have hparent := head?_lineage hd
              show h.Inherits c.name d.name
              rw [name_of_find? hfind, name_of_find? hparent]
              exact ⟨c, hfind, hp, contains_of_find? hparent⟩

/-- Each of the ancestors but the last is followed by its parent. -/
theorem isChain_ancestors (h : Hierarchy) (a : String) :
    ((h.ancestors a).map (·.name)).IsChain h.Inherits := by
  obtain ⟨rest, hrest⟩ := untilRepeated_isPrefix [] (h.lineage h.classes.length a)
  have hchain := isChain_lineage h h.classes.length a
  rw [← hrest, List.map_append] at hchain
  exact hchain.left_of_append

theorem nodup_untilRepeated (cs : List ClassInfo) :
    ∀ seen, ((untilRepeated seen cs).map (·.name)).Nodup ∧
      ∀ d ∈ untilRepeated seen cs, d.name ∉ seen := by
  induction cs with
  | nil => intro seen; simp [untilRepeated]
  | cons c cs ih =>
      intro seen
      rw [untilRepeated]
      split
      · simp
      · rename_i hc
        obtain ⟨hnodup, hseen⟩ := ih (c.name :: seen)
        rw [List.map_cons, List.nodup_cons]
        refine ⟨⟨?_, hnodup⟩, ?_⟩
        · intro hmem
          obtain ⟨d, hd, hname⟩ := List.mem_map.mp hmem
          exact hseen d hd (hname ▸ List.mem_cons_self)
        · intro d hd
          rcases List.mem_cons.mp hd with rfl | hd
          · simpa using hc
          · exact fun hmem => hseen d hd (List.mem_cons_of_mem _ hmem)

theorem nodup_ancestors (h : Hierarchy) (a : String) :
    ((h.ancestors a).map (·.name)).Nodup :=
  (nodup_untilRepeated _ []).1

/-- A walk that has room for all classes leaves none out: where it starts, and what the classes
that it passes inherit from, is passed as well or was seen before. -/
theorem mem_untilRepeated (n : Nat) :
    ∀ seen a, seen.Nodup → (∀ x ∈ seen, h.contains x = true) →
      h.classes.length ≤ n + seen.length →
      ∀ y, h.contains y = true →
        (y = a ∨ ∃ d ∈ untilRepeated seen (h.lineage n a), h.Inherits d.name y) →
        y ∈ seen ∨ y ∈ (untilRepeated seen (h.lineage n a)).map (·.name) := by
  induction n with
  | zero =>
      -- all classes have been seen
      intro seen a hnodup hknown hlength y hy _
      by_contra hnew
      have hseen : y ∉ seen := fun hmem => hnew (Or.inl hmem)
      have hmore := length_le_of_nodup (h := h) (List.nodup_cons.mpr ⟨hseen, hnodup⟩)
        (List.forall_mem_cons.mpr ⟨hy, hknown⟩)
      rw [List.length_cons] at hmore
      omega
  | succ n ih =>
      intro seen a hnodup hknown hlength y hy hpassed
      cases hfind : h.find? a with
      | none =>
          rw [lineage_of_find?_eq_none hfind] at hpassed
          rcases hpassed with rfl | ⟨d, hd, -⟩
          · rw [contains, hfind] at hy
            cases hy
          · cases hd
      | some c =>
          have hname := name_of_find? hfind
          rw [lineage_succ hfind, untilRepeated, hname] at hpassed ⊢
          by_cases hseen : a ∈ seen
          · rw [if_pos (by simpa using hseen)] at hpassed
            rcases hpassed with rfl | ⟨d, hd, -⟩
            · exact Or.inl hseen
            · cases hd
          · rw [if_neg (by simpa using hseen)] at hpassed ⊢
            rw [List.map_cons, List.mem_cons, hname]
            have hrest := fun parent => ih (a :: seen) parent
              (List.nodup_cons.mpr ⟨hseen, hnodup⟩)
              (List.forall_mem_cons.mpr ⟨contains_of_find? hfind, hknown⟩)
              (by rw [List.length_cons]; omega) y hy
            simp only [List.mem_cons] at hrest
            rcases hpassed with rfl | ⟨d, hd, hdy⟩
            · exact Or.inr (Or.inl rfl)
            rcases List.mem_cons.mp hd with rfl | hd
            · rw [hname] at hdy
              rw [hdy.parent_eq hfind]
              have := hrest y (Or.inl rfl)
              tauto
            · cases hp : c.parent with
              | none => simp [hp, untilRepeated] at hd
              | some parent =>
                  rw [hp] at hd
                  have := hrest parent (Or.inr ⟨d, hd, hdy⟩)
                  tauto

theorem head?_ancestors (ha : h.contains a = true) :
    ((h.ancestors a).map (·.name)).head? = some a := by
  obtain ⟨c, hc⟩ := exists_find?_of_contains ha
  obtain ⟨n, hn⟩ : ∃ n, h.classes.length = n + 1 :=
    Nat.exists_eq_succ_of_ne_zero (List.length_pos_of_mem (mem_classes_of_find? hc)).ne'
  simp [ancestors, hn, lineage_succ hc, untilRepeated, name_of_find? hc]

/-- **The ancestors of a class are all that it leads to.** -/
theorem mem_ancestors_iff :
    b ∈ (h.ancestors a).map (·.name) ↔ h.contains a = true ∧ ReflTransGen h.Inherits a b := by
  constructor
  · intro hb
    have hchain := (isChain_ancestors h a).imp fun _ _ hstep => TransGen.single hstep
    cases ha : h.find? a with
    | none => simp [ancestors, lineage_of_find?_eq_none ha, untilRepeated] at hb
    | some c =>
        have hknown := contains_of_find? ha
        refine ⟨hknown, ?_⟩
        obtain ⟨rest, hrest⟩ := List.head?_eq_some_iff.mp (head?_ancestors hknown)
        rw [hrest] at hb hchain
        rcases List.mem_cons.mp hb with rfl | hb
        · exact .refl
        · exact (hchain.rel_cons hb).to_reflTransGen
  · rintro ⟨ha, hab⟩
    have hall := mem_untilRepeated (h := h) h.classes.length [] a .nil (by simp) (by simp)
    have hclosed : h.ClosedUp ((h.ancestors a).map (·.name)) := by
      intro x hx y hxy
      obtain ⟨d, hd, rfl⟩ := List.mem_map.mp hx
      exact (hall y hxy.contains_right (Or.inr ⟨d, hd, hxy⟩)).resolve_left List.not_mem_nil
    exact hclosed.mem_of_reaches ((hall a ha (Or.inl rfl)).resolve_left List.not_mem_nil) hab

end CoolLang.Hierarchy
