import LatexTabular.Proofs.Body.Lookahead
import LatexTabular.Proofs.Body.Reading

/-!
# Cutting the front of a text

A text is cut into lexemes from its front on, in the presence of what stands behind them
(`Cuts`).
-/

namespace LatexTabular.Body

open Markup

/-- Lexemes at the front of a text that starts at an offset, with the context behind them and the
rest of the text. -/
inductive Cuts (nested : List Span) :
    (offset : Nat) → Context → Text → List Lexeme → Context → Text → Prop where
  | nil {offset : Nat} {context : Context} {text : Text} :
      Cuts nested offset context text [] context text
  | cons {offset : Nat} {context context' : Context} {head : Char} {tail behind rest : Text}
      {kind : Kind} {lexemes : List Lexeme}
      (read : readPart nested offset context head (tail ++ behind) = (kind, tail))
      (others : Cuts nested (offset + Text.size (head :: tail)) (context.after head kind) behind
        lexemes context' rest) :
      Cuts nested offset context (head :: (tail ++ behind))
        (⟨offset, kind, head :: tail⟩ :: lexemes) context' rest

/-- The text of lexemes. -/
def textOf (lexemes : List Lexeme) : Text := lexemes.flatMap Lexeme.text

@[simp] theorem textOf_nil : textOf [] = [] := rfl

@[simp] theorem textOf_cons (lexeme : Lexeme) (rest : List Lexeme) :
    textOf (lexeme :: rest) = lexeme.text ++ textOf rest := rfl

@[simp] theorem textOf_append (left right : List Lexeme) :
    textOf (left ++ right) = textOf left ++ textOf right := List.flatMap_append ..

namespace Cuts

variable {nested : List Span} {offset : Nat} {context context' context'' : Context}
  {text rest rest' : Text} {lexemes lexemes' : List Lexeme}

theorem text_eq (cuts : Cuts nested offset context text lexemes context' rest) :
    text = textOf lexemes ++ rest := by
  induction cuts with
  | nil => rfl
  | cons read others ih => rw [ih]; simp

theorem lex_eq (cuts : Cuts nested offset context text lexemes context' rest) :
    lex nested offset context text
      = lexemes ++ lex nested (offset + (textOf lexemes).size) context' rest := by
  induction cuts with
  | nil => rfl
  | cons read others ih =>
      rw [lex_cons]
      simp only [read, List.drop_left]
      rw [textOf_cons, Text.size_append, ← Nat.add_assoc]
      exact congrArg _ ih

theorem append (first : Cuts nested offset context text lexemes context' rest)
    (second : Cuts nested (offset + (textOf lexemes).size) context' rest lexemes' context'' rest') :
    Cuts nested offset context text (lexemes ++ lexemes') context'' rest' := by
  induction first with
  | nil => exact second
  | cons read others ih =>
      refine .cons read (ih ?_)
      rwa [textOf_cons, Text.size_append, ← Nat.add_assoc] at second

end Cuts

/-- The lexemes at the front of a text are cut from it. -/
theorem exists_cuts {nested : List Span} {offset : Nat} {context : Context} {text : Text}
    {front back : List Lexeme} (lexed : lex nested offset context text = front ++ back) :
    ∃ context' rest, Cuts nested offset context text front context' rest ∧
      lex nested (offset + (textOf front).size) context' rest = back := by
  induction front generalizing offset context text with
  | nil => exact ⟨context, text, .nil, lexed⟩
  | cons lexeme front ih =>
      cases text with
      | nil => simp at lexed
      | cons head others =>
          rw [lex_cons] at lexed
          obtain ⟨behind, othersEq⟩ := readPart_isPrefix nested offset context head others
          generalize partEq : readPart nested offset context head others = part at lexed othersEq
          obtain ⟨kind, tail⟩ := part
          dsimp only at lexed othersEq
          subst othersEq
          rw [List.drop_left, List.cons_append] at lexed
          obtain ⟨rfl, lexedOthers⟩ := List.cons.inj lexed
          obtain ⟨context', rest, cuts, lexedBack⟩ := ih lexedOthers
          refine ⟨context', rest, .cons partEq cuts, ?_⟩
          rwa [textOf_cons, Text.size_append, ← Nat.add_assoc]

end LatexTabular.Body
