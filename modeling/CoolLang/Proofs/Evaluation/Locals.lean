import CoolLang.Proofs.Evaluation.Regime

/-!
# Local variables

A local variable lives in a cell, and the cells are shared by all calls that are under way. An
evaluation writes only to the cells that its environment shows and to those that it adds itself. So
a call leaves all cells alone that exist when it begins, and a variable that is hidden by another of
its name keeps its value until it shows again.
-/

namespace CoolLang

namespace Environment

/-- Environments that start without local variables and get each of them in a cell of its own. More
cells may be in use than the environment has got. -/
inductive Built : Environment → Store → Prop where
  | new (self : Value) (s : Store) : Built (.ofSelf self) s
  | define {env : Environment} {s : Store} (henv : Built env s) (name : String) (v : Value) :
      Built (env.define s name v).1 (env.define s name v).2
  | later {env : Environment} {s s' : Store} (henv : Built env s)
      (hcells : s.cells.size ≤ s'.cells.size) : Built env s'

/-- No name stands for the cell. -/
def Hides (env : Environment) (place : Nat) : Prop :=
  ∀ x, env.place? x ≠ some place

variable {env : Environment} {s : Store} {x y : String} {place : Nat}

theorem place?_bind_eq_some {new : Nat} (h : (env.bind y new).place? x = some place) :
    (x = y ∧ place = new) ∨ (x ≠ y ∧ env.place? x = some place) := by
  by_cases hxy : x = y
  · subst hxy
    rw [place?_bind_self, Option.some.injEq] at h
    exact Or.inl ⟨rfl, h.symm⟩
  · rw [place?_bind_of_ne _ _ hxy] at h
    exact Or.inr ⟨hxy, h⟩

theorem hides_ofSelf (self : Value) (place : Nat) : (ofSelf self).Hides place := by
  intro x hx
  cases hx

theorem Built.lt (henv : env.Built s) (hx : env.place? x = some place) : place < s.cells.size := by
  induction henv with
  | new self s => cases hx
  | @define env s _ name v ih =>
      have hsize : (s.addCell v).cells.size = s.cells.size + 1 := by simp [Store.addCell]
      show place < (s.addCell v).cells.size
      rcases place?_bind_eq_some hx with ⟨-, rfl⟩ | ⟨-, hx⟩
      · omega
      · have := ih hx
        omega
  | later _ hcells ih => exact Nat.lt_of_lt_of_le (ih hx) hcells

/-- Different names have different cells. -/
theorem Built.injective (henv : env.Built s) (hx : env.place? x = some place)
    (hy : env.place? y = some place) : x = y := by
  induction henv with
  | new self s => cases hx
  | @define env s henv name v ih =>
      rcases place?_bind_eq_some hx with ⟨rfl, rfl⟩ | ⟨-, hx'⟩
      · rcases place?_bind_eq_some hy with ⟨rfl, -⟩ | ⟨-, hy'⟩
        · rfl
        · exact absurd (henv.lt hy') (Nat.lt_irrefl _)
      · rcases place?_bind_eq_some hy with ⟨rfl, rfl⟩ | ⟨-, hy'⟩
        · exact absurd (henv.lt hx') (Nat.lt_irrefl _)
        · exact ih hx' hy'
  | later _ _ ih => exact ih hx hy

/-- The cell of a variable is hidden by a new variable of its name. -/
theorem Built.hides_bind (henv : env.Built s) (hx : env.place? x = some place) :
    (env.bind x s.cells.size).Hides place := by
  intro y hy
  rcases place?_bind_eq_some hy with ⟨-, rfl⟩ | ⟨hne, hy⟩
  · exact absurd (henv.lt hx) (Nat.lt_irrefl _)
  · exact hne (henv.injective hy hx)

theorem Built.isSome_get? (henv : env.Built s) (x : String) :
    (env.get? s x).isSome = (env.place? x).isSome := by
  cases hx : env.place? x with
  | none => rw [get?_of_place?_eq_none s hx, Option.isSome_none, Option.isSome_none]
  | some place =>
      rw [get?, hx, Option.bind_some, Store.cell?, Array.getElem?_eq_getElem (henv.lt hx),
        Option.isSome_some, Option.isSome_some]

end Environment

/-! ## What is written -/

/-- Of the cells that there were, only those that the environment shows may have changed. -/
structure Machine.WritesWithin (env : Environment) (m m' : Machine) : Prop where
  cells : m.store.cells.size ≤ m'.store.cells.size
  hidden : ∀ {place}, place < m.store.cells.size → env.Hides place →
    m'.store.cell? place = m.store.cell? place

/-- The regime in which an evaluation writes within its environment. -/
def Regime.lexical : Regime where
  machine _ := True
  change := Machine.WritesWithin
  expr _ := True
  makes _ := True
  halt _ := True

namespace Machine.WritesWithin

variable {env : Environment} {m m' m₁ m₂ m₃ : Machine}

theorem of_cells_eq (h : m'.store.cells = m.store.cells) : m.WritesWithin env m' := by
  refine ⟨Nat.le_of_eq (by rw [h]), fun _ _ => ?_⟩
  rw [Store.cell?, Store.cell?, h]

theorem trans (h₁ : m₁.WritesWithin env m₂) (h₂ : m₂.WritesWithin env m₃) :
    m₁.WritesWithin env m₃ := by
  refine ⟨Nat.le_trans h₁.cells h₂.cells, fun hlt hhidden => ?_⟩
  rw [h₂.hidden (Nat.lt_of_lt_of_le hlt h₁.cells) hhidden, h₁.hidden hlt hhidden]

theorem addCell (env : Environment) (m : Machine) (v : Value) :
    m.WritesWithin env { m with store := m.store.addCell v } := by
  refine ⟨by simp [Store.addCell], fun hlt _ => ?_⟩
  exact m.store.cell?_addCell_of_lt v hlt

theorem setCell {name : String} {place : Nat} (hplace : env.place? name = some place)
    (m : Machine) (v : Value) : m.WritesWithin env { m with store := m.store.setCell place v } := by
  refine ⟨by simp [Store.setCell], fun {other} _ hhidden => ?_⟩
  apply m.store.cell?_setCell_of_ne
  rintro rfl
  exact hhidden name hplace

/-- A variable in a new cell shows none of the cells that there were. -/
theorem scope (name : String) (v : Value)
    (h : Machine.WritesWithin (env.bind name m.store.cells.size)
      { m with store := m.store.addCell v } m') : m.WritesWithin env m' := by
  have hnew := addCell env m v
  refine ⟨Nat.le_trans hnew.cells h.cells, fun {place} hlt hhidden => ?_⟩
  have hstill : (env.bind name m.store.cells.size).Hides place := by
    intro x hx
    rcases Environment.place?_bind_eq_some hx with ⟨-, rfl⟩ | ⟨-, hx⟩
    · exact Nat.lt_irrefl _ hlt
    · exact hhidden x hx
  rw [h.hidden (Nat.lt_of_lt_of_le hlt hnew.cells) hstill]
  exact m.store.cell?_addCell_of_lt v hlt

/-- Without local variables no cell that there was is written to. -/
theorem of_ofSelf {self : Value} (h : m.WritesWithin (.ofSelf self) m') (env : Environment) :
    m.WritesWithin env m' :=
  ⟨h.cells, fun hlt _ => h.hidden hlt (Environment.hides_ofSelf self _)⟩

end Machine.WritesWithin

theorem Regime.lawful_lexical (p : Program) : Regime.lexical.Lawful p where
  refl _ _ := .of_cells_eq rfl
  trans := Machine.WritesWithin.trans
  machine _ _ := trivial
  write _ _ _ := .of_cells_eq rfl
  read _ _ := .of_cells_eq rfl
  create _ _ _ _ _ := .of_cells_eq rfl
  copy _ m v := .of_cells_eq (m.store.cells_copy v)
  addCell := .addCell
  setCell _ m _ _ v hplace := .setCell hplace m v
  setField _ _ _ _ _ _ _ _ := .of_cells_eq rfl
  scope := .scope
  call _ _ := by
    refine ⟨trivial, fun {env self m'} h => ?_⟩
    have hall := Machine.WritesWithin.of_ofSelf h env
    exact ⟨hall.cells, hall.hidden⟩
  construction _ _ _ _ _ := by
    refine ⟨trivial, fun {env self m'} h => ?_⟩
    have hall := Machine.WritesWithin.of_ofSelf h env
    exact ⟨hall.cells, hall.hidden⟩
  children _ _ := trivial
  holds _ := trivial
  new _ _ := trivial
  self _ _ := trivial
  outOfFuel := trivial
  fault _ _ := trivial
  exceeded _ _ _ _ _ := trivial

variable {p : Program} {fuel : Nat} {env : Environment} {m m₁ m₂ : Machine}

theorem eval_writesWithin (p : Program) (fuel : Nat) (e : Expr) (env : Environment)
    (m : Machine) : m.WritesWithin env ((eval p fuel e env).final m) :=
  ((Regime.lawful_lexical p).eval fuel trivial trivial).change

/-- A call shows none of the cells that there are when it begins. -/
theorem dispatch_writesWithin (p : Program) (fuel : Nat) (receiver : Value)
    (qualifier : Option String) (method : String) (values : List Value) (position : Position)
    (m : Machine) : m.WritesWithin (.ofSelf receiver)
      ((Eval.dispatch p (eval p fuel) receiver qualifier method values position).final m) :=
  ((Regime.lawful_lexical p).dispatch ((Regime.lawful_lexical p).eval fuel) receiver qualifier
    method values position trivial).change

theorem Machine.WritesWithin.cell?_eq_some {m' : Machine} (h : m.WritesWithin env m')
    {place : Nat} {v : Value} (hv : m.store.cell? place = some v) (hhidden : env.Hides place) :
    m'.store.cell? place = some v := by
  have hlt : place < m.store.cells.size := (Array.getElem?_eq_some_iff.mp hv).1
  rw [h.hidden hlt hhidden, hv]

/-! ## Scopes -/

namespace Eval

theorem final_define_bind {α : Type} (env : Environment) (name : String) (v : Value)
    (f : Environment → Eval α) (m : Machine) :
    (define env name v >>= f).final m =
      (f (env.bind name m.store.cells.size)).final { m with store := m.store.addCell v } :=
  rfl

theorem initialValue_cells (p : Program) (fuel : Nat) (env : Environment) (b : Binding)
    {v : Value} (hrun : initialValue (eval p fuel) env b m = .ok v m₁) :
    m.store.cells.size ≤ m₁.store.cells.size := by
  have hlexical := Regime.lawful_lexical p
  have hchange : m.WritesWithin env ((initialValue (eval p fuel) env b).final m) :=
    (hlexical.initialValue (hlexical.eval fuel) (fun _ _ => trivial) trivial).change
  rw [final_ok hrun] at hchange
  exact hchange.cells

/-- The variables of a `let` have cells of their own. -/
theorem built_bindings (p : Program) (fuel : Nat) (bs : List Binding) {env' : Environment} :
    ∀ {env m}, env.Built m.store → bindings (eval p fuel) env bs m = .ok env' m₁ →
      env'.Built m₁.store := by
  induction bs with
  | nil =>
      intro env m henv hrun
      cases hrun
      exact henv
  | cons b bs ih =>
      intro env m henv hrun
      rw [bindings_cons] at hrun
      obtain ⟨v, m₂, hv, hrun⟩ := bind_eq_ok hrun
      obtain ⟨env₂, m₃, hdefine, hrun⟩ := bind_eq_ok hrun
      cases hdefine
      exact ih ((henv.later (initialValue_cells p fuel env b hv)).define b.name v) hrun

end Eval

/-- A variable keeps its value while a new one of its name is in scope. -/
theorem Environment.Built.get?_of_shadowed (henv : env.Built m.store) {x : String} {v w : Value}
    (hw : env.get? m.store x = some w) {m' : Machine}
    (hinside : Machine.WritesWithin (env.bind x m.store.cells.size)
      { m with store := m.store.addCell v } m') : env.get? m'.store x = some w := by
  obtain ⟨place, hplace, hcell⟩ := Option.bind_eq_some_iff.mp hw
  have hstart : (m.store.addCell v).cell? place = some w := by
    rw [m.store.cell?_addCell_of_lt v (henv.lt hplace), hcell]
  rw [get?, hplace, Option.bind_some]
  exact hinside.cell?_eq_some hstart (henv.hides_bind hplace)

theorem letIn_get?_of_shadowed (henv : env.Built m.store) {pre post : List Binding} {b : Binding}
    {env₁ : Environment} {v w : Value} (body : Expr) (span : Span)
    (hpre : Eval.bindings (eval p fuel) env pre m = .ok env₁ m₁)
    (hinit : Eval.initialValue (eval p fuel) env₁ b m₁ = .ok v m₂)
    (hw : env₁.get? m₂.store b.name = some w) :
    env₁.get? ((eval p (fuel + 1) (.letIn (pre ++ b :: post) body span) env).final m).store
      b.name = some w := by
  have hlexical := Regime.lawful_lexical p
  have henv₁ : env₁.Built m₂.store :=
    (Eval.built_bindings p fuel pre henv hpre).later (Eval.initialValue_cells p fuel env₁ b hinit)
  have hrest : (Eval.bindings (eval p fuel) (env₁.bind b.name m₂.store.cells.size) post >>=
      fun env => eval p fuel body env).Obeys .lexical (env₁.bind b.name m₂.store.cells.size)
      { m₂ with store := m₂.store.addCell v } :=
    hlexical.bindings (hlexical.eval fuel) post (fun _ _ => trivial)
      (fun _ => hlexical.eval fuel trivial trivial) trivial
  have hrun : eval p (fuel + 1) (.letIn (pre ++ b :: post) body span) env =
      (Eval.bindings (eval p fuel) env pre >>= fun env =>
        Eval.initialValue (eval p fuel) env b >>= fun v =>
          Eval.define env b.name v >>= fun env =>
            Eval.bindings (eval p fuel) env post >>= fun env => eval p fuel body env) := by
    show (Eval.bindings (eval p fuel) env (pre ++ b :: post) >>= fun env => eval p fuel body env) = _
    rw [Eval.bindings_append, bind_assoc]
    simp only [Eval.bindings_cons, bind_assoc]
  rw [hrun, Eval.final_bind_ok hpre, Eval.final_bind_ok hinit,
    Eval.final_define_bind]
  exact henv₁.get?_of_shadowed hw hrest.change

theorem caseOf_get?_of_shadowed (henv : env.Built m.store) {scrutinee : Expr}
    {branches : List Branch} {v w : Value} {className : String} {b : Blueprint} {distance : Nat}
    {chosen : Branch} (span : Span) (hv : eval p fuel scrutinee env m = .ok v m₁)
    (hc : v.className? m₁.store = some className) (hb : p.classes.find? className = some b)
    (hbranch : Eval.closestBranch? b branches = some (distance, chosen))
    (hw : env.get? m₁.store chosen.name = some w) :
    env.get? ((eval p (fuel + 1) (.caseOf scrutinee branches span) env).final m).store
      chosen.name = some w := by
  have henv₁ : env.Built m₁.store := by
    have hcells := (eval_writesWithin p fuel scrutinee env m).cells
    rw [Eval.final_ok hv] at hcells
    exact henv.later hcells
  have hrun : (eval p (fuel + 1) (.caseOf scrutinee branches span) env).final m =
      (eval p fuel chosen.body (env.bind chosen.name m₁.store.cells.size)).final
        { m₁ with store := m₁.store.addCell v } := by
    show (eval p fuel scrutinee env >>= fun v =>
      Eval.branch p (eval p fuel) v branches env span.start).final m = _
    rw [Eval.final_bind_ok hv, Eval.final, Eval.branch_matched hc hb hbranch env, ← Eval.final,
      Eval.final_define_bind]
  rw [hrun]
  exact henv₁.get?_of_shadowed hw (eval_writesWithin p fuel chosen.body _ _)

/-- **Local variables are lexical.** Let an environment have been built up one variable after the
other.
- An evaluation writes only to cells that the environment shows and to new ones, and the names that
  are bound stay bound.
- A call leaves every cell as it is when its receiver and its arguments have been evaluated.
- After a `let`, an outer variable that one of its variables hides has the value that it had when it
  was hidden.
- After a `case`, so has one that is hidden by the variable of the branch. -/
theorem locals_are_lexical (p : Program) (fuel : Nat) {env : Environment} {m : Machine}
    (henv : env.Built m.store) :
    (∀ e : Expr,
      (∀ place v, m.store.cell? place = some v → env.Hides place →
        ((eval p fuel e env).final m).store.cell? place = some v) ∧
      ∀ x, (env.get? ((eval p fuel e env).final m).store x).isSome =
        (env.get? m.store x).isSome) ∧
    (∀ receiver qualifier method values position place v, m.store.cell? place = some v →
      ((Eval.dispatch p (eval p fuel) receiver qualifier method values position).final
        m).store.cell? place = some v) ∧
    (∀ pre b post body span env₁ m₁ v m₂ w,
      Eval.bindings (eval p fuel) env pre m = .ok env₁ m₁ →
      Eval.initialValue (eval p fuel) env₁ b m₁ = .ok v m₂ →
      env₁.get? m₂.store b.name = some w →
      env₁.get? ((eval p (fuel + 1) (.letIn (pre ++ b :: post) body span) env).final m).store
        b.name = some w) ∧
    ∀ scrutinee branches span v m₁ className b distance chosen w,
      eval p fuel scrutinee env m = .ok v m₁ →
      v.className? m₁.store = some className → p.classes.find? className = some b →
      Eval.closestBranch? b branches = some (distance, chosen) →
      env.get? m₁.store chosen.name = some w →
      env.get? ((eval p (fuel + 1) (.caseOf scrutinee branches span) env).final m).store
        chosen.name = some w := by
  refine ⟨fun e => ⟨?_, fun x => ?_⟩, ?_, ?_, ?_⟩
  · intro place v hv hhidden
    exact (eval_writesWithin p fuel e env m).cell?_eq_some hv hhidden
  · have hlater := henv.later (eval_writesWithin p fuel e env m).cells
    rw [hlater.isSome_get?, henv.isSome_get?]
  · intro receiver qualifier method values position place v hv
    exact (dispatch_writesWithin p fuel receiver qualifier method values position m).cell?_eq_some
      hv (Environment.hides_ofSelf receiver place)
  · intro pre b post body span env₁ m₁ v m₂ w hpre hinit hw
    exact letIn_get?_of_shadowed henv body span hpre hinit hw
  · intro scrutinee branches span v m₁ className b distance chosen w hv hc hb hbranch hw
    exact caseOf_get?_of_shadowed henv span hv hc hb hbranch hw

/-- An environment with one variable. -/
def Environment.single : Environment := (ofSelf .void).bind "x" 0

/-- A machine at rest, with a cell for the variable. -/
def Machine.single : Machine :=
  let start := initial .initial []
  { start with store := start.store.addCell (.int 1) }

/-- The variable is hidden by another of its name, which is assigned to. -/
def Expr.hiding : Expr :=
  .letIn [⟨"x", ClassName.int, some (.int 5 .nowhere), .nowhere⟩]
    (.assign "x" (.int 7 .nowhere) .nowhere) .nowhere

theorem locals_are_lexical_hiding :
    Environment.single.Built Machine.single.store ∧
    ((eval ⟨.ofHierarchy .initial, 0, 0⟩ 3 .hiding .single).final .single).store.cell? 1 =
      some (.int 7) ∧
    Environment.single.get?
      ((eval ⟨.ofHierarchy .initial, 0, 0⟩ 3 .hiding .single).final .single).store "x" =
      some (.int 1) := by
  have henv : Environment.single.Built Machine.single.store :=
    (Environment.Built.new .void (Machine.initial .initial []).store).define "x" (.int 1)
  obtain ⟨-, -, hlet, -⟩ := locals_are_lexical ⟨.ofHierarchy .initial, 0, 0⟩ 2 henv
  exact ⟨henv, rfl, hlet [] _ [] _ _ .single .single (.int 5) .single (.int 1) rfl rfl rfl⟩

end CoolLang
