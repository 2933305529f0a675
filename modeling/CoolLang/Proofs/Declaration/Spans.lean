import CoolLang.Proofs.Declaration.Offender
import CoolLang.Proofs.Declaration.Written
import CoolLang.Proofs.Expr.Passage

/-!
# Spans of programs

The readers of declarations go their way as those of expressions do. The tokens of a source stand
one behind the other, so the spans in the syntax tree of a program are nested.
-/

namespace CoolLang

namespace Parse

variable {k : Nat} {expr expr' : ExprReader} {s : TokenStream}

theorem goes_formal : Goes k formal formal s fun f s' => s.Item f.extent s' := by
  refine (Goes.expect (by decide)).bind fun name s₁ hname => ?_
  refine (Goes.mark (by decide)).bind fun _ s₂ hcolon => ?_
  refine (Goes.mark (by decide)).bind fun typeName s₃ htype => ?_
  exact .spanned (hname.item (hcolon.trans htype).holds)

theorem goes_methodDecl (hexpr : ExprReader.Goes k expr expr') :
    Goes k (methodDecl expr) (methodDecl expr') s fun m s' => s.Item m.extent s' := by
  refine (Goes.expect (by decide)).bind fun name s₁ hname => ?_
  refine (Goes.parenthesized fun _ => goes_formal).bind fun formals s₂ hformals => ?_
  refine (Goes.mark (by decide)).bind fun _ s₃ hcolon => ?_
  refine (Goes.mark (by decide)).bind fun returnType s₄ htype => ?_
  refine (Goes.mark (by decide)).bind fun _ s₅ hopen => (hexpr .lowest s₅).bind fun e s₆ he => ?_
  refine (Goes.mark (by decide)).bind fun _ s₇ hclose => ?_
  have hfront := hformals.ended ((hcolon.trans htype).trans hopen)
  exact .spanned (hname.item (hfront.append (he.ended hclose).toHolds))

theorem goes_attributeDecl (hexpr : ExprReader.Goes k expr expr') :
    Goes k (attributeDecl expr) (attributeDecl expr') s fun a s' => s.Item a.extent s' := by
  refine (Goes.expect (by decide)).bind fun name s₁ hname => ?_
  refine (Goes.mark (by decide)).bind fun _ s₂ hcolon => ?_
  refine (Goes.mark (by decide)).bind fun typeName s₃ htype => ?_
  refine (ExprReader.goes_initializer hexpr).bind fun init s₄ hinit => ?_
  exact .spanned (hname.item ((hcolon.trans htype).holds.append hinit))

theorem goes_feature (hexpr : ExprReader.Goes k expr expr') :
    Goes k (feature expr) (feature expr') s fun f s' => s.Item f.extent s' := by
  refine Goes.get.bind ?_
  rintro _ _ ⟨rfl, rfl⟩
  split
  · exact (goes_methodDecl hexpr).bind fun m s₁ hm => .ret hm
  · exact (goes_attributeDecl hexpr).bind fun a s₁ ha => .ret ha

theorem goes_parentClause :
    Goes k parentClause parentClause s fun _ s' => s.Passes s' := by
  refine (Goes.accept (by decide)).bind fun more s₁ hinherits => ?_
  split
  · exact (Goes.mark (by decide)).bind fun typeName s₂ htype => .ret (hinherits.trans htype)
  · exact .ret hinherits

theorem goes_classDecl (hexpr : ExprReader.Goes k expr expr') :
    Goes k (classDecl expr) (classDecl expr') s fun c s' => s.Item c.extent s' := by
  refine (Goes.expect (by decide)).bind fun start s₁ hstart => ?_
  refine (Goes.mark (by decide)).bind fun name s₂ hname => ?_
  refine goes_parentClause.bind fun parent s₃ hparent => ?_
  refine (Goes.mark (by decide)).bind fun _ s₄ hopen => ?_
  refine (Goes.itemsUntil (fun _ => (goes_feature hexpr).ended) _).bind fun fs s₅ hfs => ?_
  refine (Goes.mark (by decide)).bind fun _ s₆ hclose => ?_
  have hfront := (hname.trans hparent).trans hopen
  exact .spanned (hstart.item (hfront.holds.append (hfs.ended hclose)))

end Parse

/-! ## The tokens of a source -/

namespace Lexer

theorem Spells.ne_nil {lexeme : List Char} {kind : TokenKind} {text : String}
    (hspells : Spells lexeme kind text) : lexeme ≠ [] := by
  have hsymbols : ∀ s ∈ symbols, s.1 ≠ [] := by decide
  cases hspells with
  | integer hne => exact hne
  | word => exact List.cons_ne_nil _ _
  | string => exact List.cons_ne_nil _ _
  | mark hsymbol => exact hsymbols _ hsymbol

/-- The tokens that a source is cut into stand one behind the other, if it can be counted. -/
theorem Partition.laid {IsGap : List Char → List Char → Prop} {file : String}
    {before text : List Char} {tokens : List Token}
    (hpartition : Partition IsGap file before text tokens)
    (hcounts : Position.Countable (before ++ text)) :
    TokenStream.LaidFrom (.behind file before) tokens := by
  induction hpartition with
  | @gap before gap _ =>
      refine ⟨?_, fun h => absurd rfl h, trivial⟩
      exact hcounts.behind_le
  | @token before gap lexeme rest kind value tokens _ hspells _ _ ih =>
      simp only [← List.append_assoc] at hcounts
      have hlexeme := hcounts.of_initial (List.prefix_append _ rest)
      have hgap := hlexeme.of_initial (List.prefix_append _ lexeme)
      exact ⟨hgap.behind_le, fun _ => hlexeme.behind_lt hspells.ne_nil, ih hcounts⟩

end Lexer

end CoolLang
