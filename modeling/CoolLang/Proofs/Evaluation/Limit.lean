import CoolLang.Program.Run
import CoolLang.Proofs.Evaluation.Refinement

/-!
# Limits on recursion

Two runs of one program that differ only in the limits on recursion have the same outcome, unless
the one with the narrower limits was stopped by them, and then what it had written is the beginning
of what the other one writes.
-/

namespace CoolLang

/-! ## Runs that come to an end -/

/-- Evaluation was stopped because calls or constructions were nested too deep. -/
def Halt.isLimit : Halt → Bool
  | .fault ⟨.callDepthExceeded _, _⟩ => true
  | .fault ⟨.constructionDepthExceeded _, _⟩ => true
  | _ => false

/-- How a run ended: with a value or halted, and with which machine. -/
abbrev Ending := EStateM.Result Halt Machine Value

namespace Ending

def machine : Ending → Machine
  | .ok _ m => m
  | .error _ m => m

/-- The run was stopped by a limit. -/
def hitLimit : Ending → Bool
  | .ok _ _ => false
  | .error halt _ => halt.isLimit

/-- The fuel was not enough to tell how the run ends. -/
def isUnfinished : Ending → Bool
  | .error .outOfFuel _ => true
  | _ => false

theorem machine_eq_final (x : Eval Value) (m : Machine) : machine (x m) = x.final m := by
  unfold machine Eval.final
  cases x m <;> rfl

end Ending

/-- A run that comes to an end is not changed by more fuel. -/
theorem Eval.Refines.eq_of_finished {x y : Eval Value} {m : Machine}
    (h : Refines (· = .outOfFuel) x y m) (hx : Ending.isUnfinished (x m) = false) :
    y m = x m := by
  rcases h.agrees with heq | ⟨halt, m', hstop, rfl, _⟩
  · exact heq.symm
  · rw [hstop] at hx
    cases hx

/-- The run of a program from a machine comes to an end, and this is its ending: some amount of fuel
is enough for it. -/
def Program.Ends (p : Program) (m : Machine) (r : Ending) : Prop :=
  ∃ fuel, Eval.program p fuel m = r ∧ r.isUnfinished = false

namespace Program

/-- Fuel beyond what a run needs does not change its ending. -/
theorem program_of_le {p : Program} {m : Machine} {fuel more : Nat} (hle : fuel ≤ more)
    (h : Ending.isUnfinished (Eval.program p fuel m) = false) :
    Eval.program p more m = Eval.program p fuel m :=
  (Eval.Refines.program p.loosens_self hle m).eq_of_finished h

/-- The two programs differ in nothing but wider limits. -/
theorem loosens_of_le (h : Hierarchy) {s s' : Settings}
    (hcalls : s.maxCallDepth ≤ s'.maxCallDepth)
    (hconstructions : s.maxConstructionDepth ≤ s'.maxConstructionDepth) :
    (ofHierarchy h s).Loosens (fun halt => halt = .outOfFuel ∨ halt.isLimit = true)
      (ofHierarchy h s') where
  classes := rfl
  fuel := Or.inl rfl
  calls := Or.inr ⟨hcalls, fun _ => Or.inr rfl⟩
  constructions := Or.inr ⟨hconstructions, fun _ => Or.inr rfl⟩

/-- **Limits only cut runs short.** With wider limits a run that hit no limit ends in the very same
way: same value or fault, same output, same rest of the input, same store. A run that did hit one
had written the beginning of what the run with wider limits writes. -/
theorem ends_of_wider_limits (h : Hierarchy) (input : Input) (s s' : Settings)
    (hcalls : s.maxCallDepth ≤ s'.maxCallDepth)
    (hconstructions : s.maxConstructionDepth ≤ s'.maxConstructionDepth) (r : Ending)
    (hr : (ofHierarchy h s).Ends (.initial h input) r) :
    (r.hitLimit = false → (ofHierarchy h s').Ends (.initial h input) r) ∧
    (r.hitLimit = true → ∀ r', (ofHierarchy h s').Ends (.initial h input) r' →
      ∃ text, r'.machine.output = r.machine.output ++ text) := by
  have hloose := loosens_of_le h hcalls hconstructions
  obtain ⟨fuel, rfl, hfuel⟩ := hr
  constructor
  · intro hlimit
    have href := (Eval.Refines.program hloose (Nat.le_refl fuel) (.initial h input)).agrees
    rcases href with heq | ⟨halt, m', hp, hstop, _⟩
    · exact ⟨fuel, heq.symm, hfuel⟩
    · rw [hp] at hfuel hlimit
      rcases hstop with rfl | hstop
      · cases hfuel
      · exact absurd (hstop.symm.trans hlimit) (by decide)
  · rintro - r' ⟨fuel', rfl, hfuel'⟩
    -- both runs are looked at with fuel that is enough for either
    rw [← program_of_le (Nat.le_max_right fuel fuel') hfuel']
    have href := (Eval.Refines.program hloose (Nat.le_max_left fuel fuel')
      (.initial h input)).agrees
    rcases href with heq | ⟨halt, m', hp, _, text, htext⟩
    · exact ⟨"", by rw [heq, String.append_empty]⟩
    · exact ⟨text, by rw [hp, Ending.machine_eq_final]; exact htext⟩

/-- A program that writes the numbers from two down to one, each in a call of its own. -/
def countdown : Hierarchy :=
  let call (name : String) (args : List Expr) : Expr :=
    .dispatch none none name args .nowhere
  let n : Expr := .name "n" .nowhere
  let down : MethodDecl :=
    ⟨"down", [⟨"n", ClassName.int, .nowhere⟩], ClassName.object,
      .cond (.binary .equals n (.int 0 .nowhere) .nowhere) (.self .nowhere)
        (.block [call "out_int" [n], call "down" [.binary .minus n (.int 1 .nowhere) .nowhere]]
          .nowhere) .nowhere, .nowhere⟩
  let main : MethodDecl :=
    ⟨mainMethod, [], ClassName.object, call "down" [.int 2 .nowhere], .nowhere⟩
  (Hierarchy.ofProgram
    [⟨ClassName.mainClass, some ClassName.io, [.method down, .method main], .nowhere⟩]).1

/-- With two nested calls allowed the countdown is stopped after its first number; four are enough
for it, and so is any larger number. -/
theorem ends_of_wider_limits_countdown :
    (∃ r, (ofHierarchy countdown { maxCallDepth := 2 }).Ends (.initial countdown []) r ∧
      r.hitLimit = true ∧ r.machine.output = "2" ∧
      ∀ r', (ofHierarchy countdown { maxCallDepth := 9 }).Ends (.initial countdown []) r' →
        ∃ text, r'.machine.output = r.machine.output ++ text) ∧
    (∃ r, (ofHierarchy countdown { maxCallDepth := 4 }).Ends (.initial countdown []) r ∧
      r.hitLimit = false ∧ r.machine.output = "21" ∧
      (ofHierarchy countdown { maxCallDepth := 9 }).Ends (.initial countdown []) r) := by
  constructor
  · have hr : (ofHierarchy countdown { maxCallDepth := 2 }).Ends (.initial countdown [])
        (Eval.program (ofHierarchy countdown { maxCallDepth := 2 }) 20 (.initial countdown [])) :=
      ⟨20, rfl, by decide +kernel⟩
    refine ⟨_, hr, by decide +kernel, by decide +kernel, ?_⟩
    exact (ends_of_wider_limits countdown [] { maxCallDepth := 2 } { maxCallDepth := 9 }
      (by decide) (by decide) _ hr).2 (by decide +kernel)
  · have hr : (ofHierarchy countdown { maxCallDepth := 4 }).Ends (.initial countdown [])
        (Eval.program (ofHierarchy countdown { maxCallDepth := 4 }) 20 (.initial countdown [])) :=
      ⟨20, rfl, by decide +kernel⟩
    refine ⟨_, hr, by decide +kernel, by decide +kernel, ?_⟩
    exact (ends_of_wider_limits countdown [] { maxCallDepth := 4 } { maxCallDepth := 9 }
      (by decide) (by decide) _ hr).1 (by decide +kernel)

end Program

end CoolLang
