import CoolLang.Program.Run
import CoolLang.Proofs.Declaration.Complaints
import CoolLang.Proofs.Evaluation.Faults

/-!
# What the result of a run says

A run goes through stages, and a fatal diagnostic of one stage keeps it from the next. Its result
tells from the diagnostics whether it came to an end: a value is there if and only if none of them
is fatal.
-/

namespace CoolLang

/-- A warning is about the type that an overriding method returns. -/
theorem Cause.eq_of_isFatal_eq_false {c : Cause} (hc : c.isFatal = false) :
    ∃ method ancestor expected received,
      c = .overrideReturnTypeChanged method ancestor expected received := by
  cases c with
  | overrideReturnTypeChanged method ancestor expected received => exact ⟨_, _, _, _, rfl⟩
  | _ => cases hc

/-- The stages of a run. -/
inductive Stage where
  | lexing
  | parsing
  | validation
  | typing
  | evaluation
deriving DecidableEq

/-- The stage that a run of the source comes to: it does not get past the first one with a fatal
diagnostic. -/
def Stage.reached (source file : String) : Stage :=
  match tokenize source file with
  | .error _ => .lexing
  | .ok tokens =>
    match parseProgram tokens file with
    | .error _ => .parsing
    | .ok classes =>
      let (h, violations) := Hierarchy.ofProgram classes
      if violations.any (·.isFatal) then .validation
      else if h.typeCheck.any (·.isFatal) then .typing
      else .evaluation

namespace RunResult

/-- The value and the diagnostics both tell whether the run succeeded. -/
structure Consistent (r : RunResult) : Prop where
  value? : r.succeeded = true ↔ r.value?.isSome = true
  diagnostics : r.succeeded = true ↔ ∀ d ∈ r.diagnostics, d.isFatal = false

/-- The result of a run that was refused before its evaluation. -/
structure Refused (input : Input) (r : RunResult) : Prop where
  output : r.output = ""
  unread : r.unread = input
  fatal : ∃ d ∈ r.diagnostics, d.isFatal = true

/-- The result of a run that was stopped in its evaluation. -/
def Stopped (r : RunResult) : Prop :=
  ∃ warnings fault, r.diagnostics = warnings ++ [fault] ∧ fault.isFatal = true ∧
    ∀ w ∈ warnings, w.isFatal = false ∧ ∃ method ancestor expected received,
      w.cause = .overrideReturnTypeChanged method ancestor expected received

variable {input : Input} {diagnostics : List Diagnostic}

theorem Refused.of_any (hfatal : diagnostics.any (·.isFatal) = true) :
    (RunResult.refused diagnostics input).Refused input := by
  obtain ⟨d, hd, hd'⟩ := List.any_eq_true.mp hfatal
  exact ⟨rfl, rfl, d, hd, hd'⟩

/-- A failure with a fatal diagnostic has no value. -/
theorem Consistent.failed (hfatal : diagnostics.any (·.isFatal) = true) (output : String)
    (unread : Input) : (RunResult.failed diagnostics output unread).Consistent := by
  obtain ⟨d, hd, hd'⟩ := List.any_eq_true.mp hfatal
  refine ⟨Iff.rfl, fun hsucceeded => ?_, fun hall => ?_⟩
  · cases hsucceeded
  · rw [hall d hd] at hd'
    cases hd'

end RunResult

/-- An evaluation that comes to an end or is stopped after warnings only. -/
theorem evaluate_spec {fuel : Nat} {h : Hierarchy} {warnings : List Diagnostic}
    {settings : Settings} {input : Input} {r : RunResult}
    (hwarnings : ∀ w ∈ warnings, w.isFatal = false)
    (hr : evaluate fuel h warnings settings input = some r) :
    r.Consistent ∧ (r.succeeded = false → r.Stopped) := by
  unfold evaluate at hr
  split at hr
  · cases hr
    refine ⟨⟨⟨fun _ => rfl, fun _ => rfl⟩, fun _ => hwarnings, fun _ => rfl⟩, fun hfailed => ?_⟩
    cases hfailed
  · rename_i d m hfault
    cases hr
    have hd : d.isFatal = true :=
      Cause.isFatal_of_isRuntime (Eval.stopsAtRuntime_program _ _ _ d m hfault)
    have hfatal : (warnings ++ [d]).any (·.isFatal) = true := by simp [hd]
    refine ⟨.failed hfatal m.output m.input, fun _ => ?_⟩
    refine ⟨warnings, d, rfl, hd, fun w hw => ⟨hwarnings w hw, ?_⟩⟩
    exact Cause.eq_of_isFatal_eq_false (hwarnings w hw)
  · cases hr

/-- A source that cannot be read is refused for one reason. -/
theorem refused_of_unread {fuel : Nat} {source : String} {settings : Settings} {input : Input}
    {r : RunResult} {d : Diagnostic} (hread : readProgram source settings.sourceName = .error d)
    (hr : runWith fuel source settings input = some r) :
    ∃ d, d.isFatal = true ∧ r = .refused [d] input := by
  rw [runWith, hread] at hr
  cases hr
  exact ⟨d, Cause.isFatal_of_isReading (isReading_of_readProgram hread), rfl⟩

/-- What a run comes to at each of the stages. -/
theorem runWith_cases {fuel : Nat} {source : String} {settings : Settings} {input : Input}
    {r : RunResult} (hr : runWith fuel source settings input = some r) :
    (Stage.reached source settings.sourceName ∈ [.lexing, .parsing] ∧
      ∃ d, d.isFatal = true ∧ r = .refused [d] input) ∨
    (Stage.reached source settings.sourceName ∈ [.validation, .typing] ∧
      ∃ ds, ds.any (·.isFatal) = true ∧ r = .refused ds input) ∨
    (Stage.reached source settings.sourceName = .evaluation ∧
      ∃ h warnings, (∀ w ∈ warnings, w.isFatal = false) ∧
        evaluate fuel h warnings settings input = some r) := by
  unfold Stage.reached
  cases htokens : tokenize source settings.sourceName with
  | error d =>
      have hread : readProgram source settings.sourceName = .error d := by
        rw [readProgram, htokens]
        rfl
      exact Or.inl ⟨by simp, refused_of_unread hread hr⟩
  | ok tokens =>
      have hread : readProgram source settings.sourceName =
          parseProgram tokens settings.sourceName := by
        rw [readProgram, htokens]
        rfl
      dsimp only
      cases hclasses : parseProgram tokens settings.sourceName with
      | error d =>
          exact Or.inl ⟨by simp, refused_of_unread (hread.trans hclasses) hr⟩
      | ok classes =>
          rw [runWith, hread, hclasses] at hr
          dsimp only at hr ⊢
          by_cases hviolations : (Hierarchy.ofProgram classes).2.any (·.isFatal) = true
          · rw [if_pos hviolations] at hr ⊢
            cases hr
            exact Or.inr (Or.inl ⟨by simp, _, hviolations, rfl⟩)
          · rw [if_neg hviolations] at hr ⊢
            rw [Bool.not_eq_true] at hviolations
            -- what is left of the violations are warnings: the types decide
            rw [List.any_append, hviolations, Bool.false_or] at hr
            by_cases htypes : (Hierarchy.ofProgram classes).1.typeCheck.any (·.isFatal) = true
            · rw [if_pos htypes] at hr ⊢
              cases hr
              refine Or.inr (Or.inl ⟨by simp, _, ?_, rfl⟩)
              rw [List.any_append, htypes, Bool.or_true]
            · rw [if_neg htypes] at hr ⊢
              rw [Bool.not_eq_true] at htypes
              have hwarnings : ((Hierarchy.ofProgram classes).2 ++
                  (Hierarchy.ofProgram classes).1.typeCheck).any (·.isFatal) = false := by
                rw [List.any_append, hviolations, htypes, Bool.or_false]
              refine Or.inr (Or.inr ⟨rfl, _, _, fun w hw => ?_, hr⟩)
              simpa using List.any_eq_false.mp hwarnings w hw

/-- **The result of a run is what it says.** Of any run that comes to an end, with whatever settings
and input: it succeeded if and only if it has a value, and if and only if none of its diagnostics is
fatal. A run that gets no further than the type check has written nothing, has read none of its
input and has a fatal diagnostic; it is the only one if the source could not be read. A run that is
stopped in its evaluation has one fatal diagnostic, the last, behind warnings about return types. -/
theorem runWith_contract (fuel : Nat) (source : String) (settings : Settings) (input : Input)
    (r : RunResult) (hr : runWith fuel source settings input = some r) :
    (r.succeeded = true ↔ r.value?.isSome = true) ∧
    (r.succeeded = true ↔ ∀ d ∈ r.diagnostics, d.isFatal = false) ∧
    (Stage.reached source settings.sourceName ≠ .evaluation → r.Refused input) ∧
    (Stage.reached source settings.sourceName ∈ [.lexing, .parsing] →
      r.diagnostics.length = 1) ∧
    (Stage.reached source settings.sourceName = .evaluation → r.succeeded = false →
      r.Stopped) := by
  rcases runWith_cases hr with ⟨hstage, d, hd, rfl⟩ | ⟨hstage, ds, hds, rfl⟩ |
    ⟨hstage, h, warnings, hwarnings, heval⟩
  · have hany : [d].any (·.isFatal) = true := by simp [hd]
    have hconsistent := RunResult.Consistent.failed hany "" input
    refine ⟨hconsistent.value?, hconsistent.diagnostics, fun _ => .of_any hany, fun _ => rfl,
      fun heq => ?_⟩
    rw [heq] at hstage
    simp at hstage
  · have hconsistent := RunResult.Consistent.failed hds "" input
    refine ⟨hconsistent.value?, hconsistent.diagnostics, fun _ => .of_any hds, fun hread => ?_,
      fun heq => ?_⟩
    · generalize Stage.reached source settings.sourceName = stage at hstage hread
      cases stage <;> simp at hstage hread
    · rw [heq] at hstage
      simp at hstage
  · obtain ⟨hconsistent, hstopped⟩ := evaluate_spec hwarnings heval
    refine ⟨hconsistent.value?, hconsistent.diagnostics, fun hne => absurd hstage hne,
      fun hread => ?_, fun _ => hstopped⟩
    rw [hstage] at hread
    simp at hread

/-- A method that overrides `copy` with another return type, and a division by zero. -/
def warned : String :=
  "class A\x7bmain():Int\x7b1/0\x7d;\x7d;class Main inherits A\x7bcopy():Int\x7b1\x7d;\x7d;"

/-- A run that is warned about, then stopped; and one that is refused for its first character. -/
theorem runWith_contract_warned :
    (∃ r, runWith 30 warned {} [65] = some r ∧ Stage.reached warned unnamedSource = .evaluation ∧
      r.diagnostics.length = 2 ∧ r.Stopped) ∧
    ∃ r, runWith 30 "\"" {} [65] = some r ∧ Stage.reached "\"" unnamedSource = .lexing ∧
      r.succeeded = false ∧ r.diagnostics.length = 1 ∧ r.Refused [65] := by
  constructor
  · have hview : (runWith 30 warned {} [65]).map (fun r => (r.succeeded, r.diagnostics.length)) =
        some (false, 2) := by
      decide +kernel
    have hstage : Stage.reached warned unnamedSource = .evaluation := by decide +kernel
    obtain ⟨r, hr, hview⟩ := Option.map_eq_some_iff.mp hview
    obtain ⟨hfailed, hlength⟩ := Prod.mk.inj hview
    obtain ⟨-, -, -, -, hstopped⟩ := runWith_contract 30 warned {} [65] r hr
    exact ⟨r, hr, hstage, hlength, hstopped hstage hfailed⟩
  · have hview : (runWith 30 "\"" {} [65]).map (·.succeeded) = some false := by decide +kernel
    have hstage : Stage.reached "\"" unnamedSource = .lexing := by decide +kernel
    obtain ⟨r, hr, hfailed⟩ := Option.map_eq_some_iff.mp hview
    obtain ⟨-, -, hrefused, hone, -⟩ := runWith_contract 30 "\"" {} [65] r hr
    refine ⟨r, hr, hstage, hfailed, hone ?_, hrefused ?_⟩
    · show Stage.reached "\"" unnamedSource ∈ _
      rw [hstage]
      simp
    · show Stage.reached "\"" unnamedSource ≠ _
      rw [hstage]
      simp

end CoolLang
