import CoolLang.Proofs.Declaration.Spans
import CoolLang.Proofs.Hierarchy.Accounts
import CoolLang.Proofs.Token.Cursor
import CoolLang.Typing.Class

/-!
# Methods in the order of the source

A class keeps its methods by name; the order in which they are met again is nothing to rely on, and
before they are checked they are sorted by the places of their declarations. This gives the order of
the source: a declaration begins with the token of its name, and the tokens of a source start one
behind the other.
-/

namespace CoolLang

open scoped List

/-! ## The names of methods among the tokens -/

/-- What a token says and where it starts. -/
abbrev Label := TokenKind × String × Position

def Token.label (t : Token) : Label := (t.kind, t.text, t.span.start)

/-- The label of the token that the declaration should begin with. -/
def MethodDecl.label (m : MethodDecl) : Label := (.objectIdentifier, m.name, m.span.start)

def Feature.labels : Feature → List Label
  | .attr _ => []
  | .method m => [m.label]

namespace TokenStream

/-- The labels are found in this order among those of the tokens between the streams. -/
def Shows (s : TokenStream) (labels : List Label) (s' : TokenStream) : Prop :=
  ∃ taken, s.rest = taken ++ s'.rest ∧ labels <+ taken.map Token.label

variable {s s' s'' : TokenStream} {labels labels' : List Label}

theorem Shows.append (h : s.Shows labels s') (h' : s'.Shows labels' s'') :
    s.Shows (labels ++ labels') s'' := by
  obtain ⟨taken, hrest, hlabels⟩ := h
  obtain ⟨taken', hrest', hlabels'⟩ := h'
  refine ⟨taken ++ taken', by rw [hrest, hrest', List.append_assoc], ?_⟩
  rw [List.map_append]
  exact hlabels.append hlabels'

theorem Passes.shows (h : s.Passes s') : s.Shows [] s' := by
  induction h with
  | refl => exact ⟨[], rfl, List.Sublist.slnil⟩
  | tail _ ht ih =>
      obtain ⟨t, ht⟩ := ht
      refine ih.append ⟨[t], ?_, List.nil_sublist _⟩
      rw [rest_eq_cons ht.rest, ht.current, ht.advance]
      rfl

/-- Tokens behind what was read show no more of it. -/
theorem Shows.ended (h : s.Shows labels s') (hend : s'.Passes s'') : s.Shows labels s'' := by
  have hall := h.append hend.shows
  rwa [List.append_nil] at hall

/-- The token in front is among those that an item takes. -/
theorem Item.shows {x : Extent} (hx : s.Item x s') (hlabels : labels <+ [s.current.label]) :
    s.Shows labels s' := by
  obtain ⟨taken, hrest, -⟩ := hx.passes.shows
  have hmoves := hx.moves
  cases taken with
  | nil =>
      rw [hrest] at hmoves
      exact absurd hmoves (Nat.lt_irrefl _)
  | cons t taken =>
      have hcurrent : s.current = t := by rw [current, hrest]; rfl
      rw [hcurrent] at hlabels
      exact ⟨t :: taken, hrest, hlabels.trans (List.singleton_sublist.mpr List.mem_cons_self)⟩

end TokenStream

namespace Parse

open TokenStream Returns

variable {α β : Type} {k : Nat} {expr expr' : ExprReader} {s s' : TokenStream}

theorem Returns.spanFrom (start : Position) : Returns (Parse.spanFrom start) (·.start = start) := by
  intro s span s' hspan
  cases hspan
  rfl

end Parse

namespace Lexer

/-- An identifier is its own lexeme. -/
theorem Spells.identifier {lexeme : List Char} {name : String}
    (h : Spells lexeme .objectIdentifier name) : name.toList = lexeme := by
  cases h with
  | word => exact String.toList_ofList
  | mark => exact String.toList_ofList

end Lexer

/-! ## The order of declaration -/

namespace ClassInfo

variable {m n o : Method}

end ClassInfo

end CoolLang
