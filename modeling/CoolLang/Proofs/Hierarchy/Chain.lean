import CoolLang.Hierarchy.Basic
import Mathlib.Data.List.Nodup
import Mathlib.Data.List.Perm.Subperm

/-!
# Chains of ancestors

The walk over parents is cut short where a class comes up again. Where no class does, the ancestors
of a class are the class and then the ancestors of its parent.
-/

namespace CoolLang

/-- Where no two members share a key, each is found by its own. -/
theorem find?_key_eq_some {α : Type} {key : α → String} {as : List α} {a : α}
    (hnodup : (as.map key).Nodup) (ha : a ∈ as) : as.find? (key · == key a) = some a := by
  have hsome : (as.find? (key · == key a)).isSome = true :=
    List.find?_isSome.mpr ⟨a, ha, beq_self_eq_true _⟩
  obtain ⟨b, hb⟩ := Option.isSome_iff_exists.mp hsome
  have hkey : key b = key a := by simpa using List.find?_some hb
  rw [hb, List.inj_on_of_nodup_map hnodup (List.mem_of_find?_eq_some hb) ha hkey]

namespace Hierarchy

variable {h : Hierarchy} {name : String} {c : ClassInfo} {cs : List ClassInfo}

theorem mem_classes_of_find? (hc : h.find? name = some c) : c ∈ h.classes :=
  List.mem_of_find?_eq_some hc

theorem name_of_find? (hc : h.find? name = some c) : c.name = name := by
  simpa using List.find?_some hc

theorem contains_of_find? (hc : h.find? name = some c) : h.contains name = true := by
  rw [contains, hc]
  rfl

theorem exists_find?_of_contains (hname : h.contains name = true) :
    ∃ c, h.find? name = some c :=
  Option.isSome_iff_exists.mp hname

/-- Different names of known classes are no more than there are classes. -/
theorem length_le_of_nodup {names : List String} (hnames : names.Nodup)
    (hknown : ∀ n ∈ names, h.contains n = true) : names.length ≤ h.classes.length := by
  have hsub : names ⊆ h.classes.map (·.name) := by
    intro n hn
    obtain ⟨c, hc⟩ := exists_find?_of_contains (hknown n hn)
    exact List.mem_map.mpr ⟨c, mem_classes_of_find? hc, name_of_find? hc⟩
  simpa using (List.subperm_of_subset hnames hsub).length_le

theorem untilRepeated_isPrefix (seen : List String) (cs : List ClassInfo) :
    untilRepeated seen cs <+: cs := by
  induction cs generalizing seen with
  | nil => exact List.prefix_refl _
  | cons d cs ih =>
      rw [untilRepeated]
      split
      · exact List.nil_prefix
      · exact List.cons_prefix_cons.mpr ⟨rfl, ih _⟩

/-- Whatever a walk passes is found under its own name. -/
theorem find?_of_mem_lineage {n : Nat} (hc : c ∈ h.lineage n name) :
    h.find? c.name = some c := by
  induction n generalizing name with
  | zero => simp [lineage] at hc
  | succ n ih =>
      rw [lineage] at hc
      cases hfind : h.find? name with
      | none => simp [hfind] at hc
      | some d =>
          have hd : h.find? d.name = some d := by rw [name_of_find? hfind]; exact hfind
          cases hparent : d.parent with
          | none =>
              simp only [hfind, hparent, List.mem_singleton] at hc
              rw [hc]
              exact hd
          | some parent =>
              simp only [hfind, hparent, List.mem_cons] at hc
              rcases hc with rfl | hc
              · exact hd
              · exact ih hc

theorem find?_of_mem_ancestors (hc : c ∈ h.ancestors name) : h.find? c.name = some c :=
  find?_of_mem_lineage ((untilRepeated_isPrefix _ _).subset hc)

theorem mem_classes_of_mem_ancestors (hc : c ∈ h.ancestors name) : c ∈ h.classes :=
  mem_classes_of_find? (find?_of_mem_ancestors hc)

/-! ## Complete walks -/

/-- The classes from a name over all parents, where that comes to an end. -/
inductive Chain (h : Hierarchy) : String → List ClassInfo → Prop where
  | unknown {name : String} (hc : h.find? name = none) : Chain h name []
  | root {name : String} {c : ClassInfo} (hc : h.find? name = some c) (hp : c.parent = none) :
      Chain h name [c]
  | step {name parent : String} {c : ClassInfo} {cs : List ClassInfo}
      (hc : h.find? name = some c) (hp : c.parent = some parent) (hcs : Chain h parent cs) :
      Chain h name (c :: cs)

namespace Chain

theorem unique {ds : List ClassInfo} (hcs : Chain h name cs) (hds : Chain h name ds) :
    cs = ds := by
  induction hcs generalizing ds with
  | unknown hc =>
      cases hds with
      | unknown => rfl
      | root hd | step hd => rw [hc] at hd; cases hd
  | root hc hp =>
      cases hds with
      | unknown hd => rw [hc] at hd; cases hd
      | root hd => rw [hc] at hd; cases hd; rfl
      | step hd hq => rw [hc] at hd; cases hd; rw [hp] at hq; cases hq
  | step hc hp _ ih =>
      cases hds with
      | unknown hd => rw [hc] at hd; cases hd
      | root hd hq => rw [hc] at hd; cases hd; rw [hp] at hq; cases hq
      | step hd hq hds =>
          rw [hc] at hd
          cases hd
          rw [hp] at hq
          cases hq
          rw [ih hds]

/-- Each class of a chain begins a chain of its own, which ends the first one. -/
theorem suffix_of_mem (hcs : Chain h name cs) (hc : c ∈ cs) :
    ∃ ds, Chain h c.name (c :: ds) ∧ (c :: ds) <:+ cs := by
  induction hcs with
  | unknown => cases hc
  | root hd hp =>
      rw [List.mem_singleton] at hc
      subst hc
      rw [← name_of_find? hd] at hd
      exact ⟨[], root hd hp, List.suffix_refl _⟩
  | @step _ _ d ds hd hp hds ih =>
      rcases List.mem_cons.mp hc with rfl | hc
      · rw [← name_of_find? hd] at hd
        exact ⟨ds, step hd hp hds, List.suffix_refl _⟩
      · obtain ⟨es, hes, hsuffix⟩ := ih hc
        exact ⟨es, hes, hsuffix.trans (List.suffix_cons d ds)⟩

/-- A chain that came back to its start would end in itself. -/
theorem nodup_names (hcs : Chain h name cs) : (cs.map (·.name)).Nodup := by
  induction hcs with
  | unknown => exact List.nodup_nil
  | root => simp
  | @step name _ c cs hc hp hcs ih =>
      rw [List.map_cons, List.nodup_cons]
      refine ⟨?_, ih⟩
      intro hmem
      obtain ⟨d, hd, hname⟩ := List.mem_map.mp hmem
      obtain ⟨ds, hds, hsuffix⟩ := hcs.suffix_of_mem hd
      rw [hname, name_of_find? hc] at hds
      have heq := unique (step hc hp hcs) hds
      rw [← heq] at hsuffix
      exact absurd hsuffix.length_le (by simp)

theorem find?_of_mem (hcs : Chain h name cs) (hc : c ∈ cs) : h.find? c.name = some c := by
  obtain ⟨ds, hds, -⟩ := hcs.suffix_of_mem hc
  cases hds with
  | root hc => exact hc
  | step hc => exact hc

theorem length_le (hcs : Chain h name cs) : cs.length ≤ h.classes.length := by
  have hknown : ∀ n ∈ cs.map (·.name), h.contains n = true := by
    intro n hn
    obtain ⟨c, hc, rfl⟩ := List.mem_map.mp hn
    exact contains_of_find? (hcs.find?_of_mem hc)
  simpa using length_le_of_nodup hcs.nodup_names hknown

theorem lineage_eq (hcs : Chain h name cs) {n : Nat} (hn : cs.length ≤ n) :
    h.lineage n name = cs := by
  induction hcs generalizing n with
  | unknown hc =>
      cases n with
      | zero => rfl
      | succ n => simp only [lineage, hc]
  | root hc hp =>
      obtain ⟨n, rfl⟩ := Nat.exists_eq_add_of_le' hn
      simp only [List.length_singleton, lineage, hc, hp]
  | step hc hp _ ih =>
      obtain ⟨n, rfl⟩ := Nat.exists_eq_add_of_le' (Nat.lt_of_lt_of_le (Nat.succ_pos _) hn)
      simp only [lineage, hc, hp, ih (Nat.le_of_succ_le_succ hn)]

end Chain

theorem untilRepeated_eq_self {seen : List String} (hcs : (cs.map (·.name)).Nodup)
    (hseen : ∀ c ∈ cs, c.name ∉ seen) : untilRepeated seen cs = cs := by
  induction cs generalizing seen with
  | nil => rfl
  | cons c cs ih =>
      rw [List.map_cons, List.nodup_cons] at hcs
      have hc : ¬ seen.contains c.name = true := by
        simpa using hseen c List.mem_cons_self
      rw [untilRepeated, if_neg hc, ih hcs.2]
      intro d hd hmem
      rcases List.mem_cons.mp hmem with hname | hmem
      · exact hcs.1 (List.mem_map.mpr ⟨d, hd, hname⟩)
      · exact hseen d (List.mem_cons_of_mem c hd) hmem

/-- Where the walk over parents comes to an end it is not cut short. -/
theorem Chain.ancestors_eq (hcs : Chain h name cs) : h.ancestors name = cs := by
  rw [ancestors, hcs.lineage_eq hcs.length_le]
  exact untilRepeated_eq_self hcs.nodup_names (by simp)

end Hierarchy

end CoolLang
