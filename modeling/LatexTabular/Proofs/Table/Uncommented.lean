import LatexTabular.Proofs.Body.Shape
import LatexTabular.Proofs.Body.Uncommented
import LatexTabular.Proofs.Table.Substitution

/-!
# Tables without comments

Where the text of the comments in the body of a table is cut, the table is still read, and its rows
keep their shape if no comment in the arguments of a command opens or closes a group
(`Table.exists_read_uncommented`).
-/

namespace LatexTabular

open Markup Body

/-- A document without the text of the comments in a part of it. -/
def Text.uncommented (document : Text) (span : Span) : Text :=
  document.takeBytes span.start
    ++ (withoutComments .nothing (document.slice span) ++ document.dropBytes span.stop)

theorem Text.uncommented_eq {front body back : Text} :
    Text.uncommented (front ++ (body ++ back)) ⟨front.size, front.size + body.size⟩
      = front ++ (withoutComments .nothing body ++ back) := by
  have spells := Text.Spells.of_append front body back
  rw [List.append_assoc] at spells
  have behind : (front ++ (body ++ back)).dropBytes (front.size + body.size) = back := by
    rw [← List.append_assoc, ← Text.size_append, Text.dropBytes_size_append]
  rw [Text.uncommented, Text.takeBytes_size_append, behind, spells.slice_eq]

/-- Without comments a lexeme means the same to its row. -/
theorem Body.Lexeme.outline_uncommented (move : Nat → Nat) (lexeme : Lexeme) :
    (lexeme.uncommented move).kind.outline = lexeme.kind.outline := by
  obtain ⟨start, kind, text⟩ := lexeme
  cases kind <;> rfl

namespace Table

variable {document : Text} {tabular : Environment} {table : Table} {lexemes : List Lexeme}

/-- The environments within a body move where its comments are cut. -/
theorem filter_map_uncommented (all : List Environment) (start : Nat) (body : Text) :
    ((all.map (Environment.moved (cutOffset start body))).map Environment.span).filter
        (fun span => start ≤ span.start &&
          span.stop ≤ start + (withoutComments .nothing body).size)
      = ((all.map Environment.span).filter
        fun span => start ≤ span.start && span.stop ≤ start + body.size).map
          (Span.moved (cutOffset start body)) := by
  have spans : (all.map (Environment.moved (cutOffset start body))).map Environment.span
      = (all.map Environment.span).map (Span.moved (cutOffset start body)) := by
    simp only [List.map_map]
    rfl
  rw [spans, List.filter_map]
  congr 1
  refine List.filter_congr fun span _ => ?_
  exact congrArg₂ (· && ·) (decide_eq_decide.mpr start_le_cutOffset_iff)
    (decide_eq_decide.mpr cutOffset_le_iff)

/-- Cutting the text of the comments in the body of a table leaves the numbers of its rows, cells,
separators and rules and the columns of its merges, if no comment in the arguments of a command
opens or closes a group. -/
theorem exists_read_uncommented (isTabular : tabular ∈ tabulars (environments document))
    (found : ofTabular document (environments document) tabular = .ok table)
    (lexed : Table.lexemes document (environments document) tabular = .ok lexemes) :
    ∃ changed, readAt (document.uncommented ⟨table.specifierSpan.stop + 1, tabular.closing.start⟩)
        table.span.start = .ok changed ∧
      (CommentsUnmarked .start lexemes →
        changed.rows.map Row.shape = table.rows.map Row.shape) := by
  have isEnvironment := (sublist_tabulars document).subset isTabular
  obtain ⟨sameDocument, -, lexemes', lexed', hasBody⟩ :=
    exists_body_of_ofTabular isEnvironment found
  obtain rfl : lexemes' = lexemes := Except.ok.inj (lexed'.symm.trans lexed)
  obtain ⟨front, body, back, documentEq, frontSize, closingEq, closes, opens, rowsEq, changes⟩ :=
    exists_read_moved isTabular found
  obtain rfl := hasBody.eq_lex (sameDocument.trans documentEq) frontSize closingEq
  have uncommentedEq : document.uncommented ⟨table.specifierSpan.stop + 1, tabular.closing.start⟩
      = front ++ (withoutComments .nothing body ++ back) := by
    rw [← frontSize, ← closingEq, documentEq, Text.uncommented_eq]
  have moved := @environments_withoutComments _ body _ closes opens
  rw [← documentEq] at moved
  have closingMoved : cutOffset front.size body tabular.closing.start
      = front.size + (withoutComments .nothing body).size := by
    rw [← closingEq]
    exact cutOffset_behind front.size body 0
  obtain ⟨changed, read, changedRows⟩ := changes _ (withoutComments .nothing body)
    (fun _ inFront => cutOffset_of_le inFront) closingMoved moved
  rw [uncommentedEq]
  refine ⟨changed, read, fun unmarked => ?_⟩
  have nestedEq : table.nested tabular.closing.start
      = ((environments document).map Environment.span).filter
        fun span => front.size ≤ span.start && span.stop ≤ front.size + body.size := by
    rw [nested, sameDocument, closingEq, frontSize]
  have outside : ∀ span ∈ table.nested tabular.closing.start, span.Uncommented front.size body := by
    intro span member
    rw [nestedEq] at member
    obtain ⟨isSpan, within⟩ := List.mem_filter.mp member
    obtain ⟨environment, isEnvironment, rfl⟩ := List.mem_map.mp isSpan
    simp only [Bool.and_eq_true, decide_eq_true_eq] at within
    rw [documentEq] at isEnvironment
    exact uncommented_of_mem_environments closes isEnvironment within.1 within.2
  have lexedAgain := lex_withoutComments (fun _ _ => cutOffset_within) outside
    (List.nil_append body).symm (Nat.add_zero front.size).symm (.inl rfl) unmarked
  rw [cutOffset_of_le le_rfl] at lexedAgain
  rw [changedRows, closingMoved, filter_map_uncommented, ← nestedEq, lexedAgain, rowsEq]
  exact Row.map_shape_padded
    (map_shape_rowsOf (Lexeme.outline_uncommented (cutOffset front.size body)) _ _ _) _

/-- A row that is commented out and a comment in a merged cell. -/
def annotated : Text :=
  "\\begin\x7btabular\x7d\x7bll\x7d\n% x & y \\\\\n".toList
    ++ "\\multicolumn\x7b2\x7d\x7bc\x7d\x7ba % (b)\n\x7d \\\\\n\\end\x7btabular\x7d".toList

def annotatedTabular : Environment where
  name := "tabular".toList
  opening := ⟨0, 15⟩
  closing := ⟨63, 76⟩

theorem exists_read_uncommented_annotated :
    ∃ table lexemes,
      ofTabular annotated (environments annotated) annotatedTabular = .ok table ∧
      Table.lexemes annotated (environments annotated) annotatedTabular = .ok lexemes ∧
      CommentsUnmarked .start lexemes ∧
      ∃ changed, readAt ("\\begin\x7btabular\x7d\x7bll\x7d\n%\n".toList
          ++ "\\multicolumn\x7b2\x7d\x7bc\x7d\x7ba %\n\x7d \\\\\n\\end\x7btabular\x7d".toList) 0
            = .ok changed ∧
        changed.rows.map Row.shape = [⟨[some 2], 0, true, 0⟩] := by
  have isTabular : annotatedTabular ∈ tabulars (environments annotated) := by decide +kernel
  have facts : (ofTabular annotated (environments annotated) annotatedTabular).map
      (fun table => (table.specifierSpan, table.span.start, table.rows.map Row.shape))
        = .ok (⟨16, 18⟩, 0, [⟨[some 2], 0, true, 0⟩]) := by decide +kernel
  have facts' : (Table.lexemes annotated (environments annotated) annotatedTabular).map
      (fun lexemes => decide (CommentsUnmarked .start lexemes)) = .ok true := by decide +kernel
  have cut : annotated.uncommented ⟨19, 63⟩
      = "\\begin\x7btabular\x7d\x7bll\x7d\n%\n".toList
        ++ "\\multicolumn\x7b2\x7d\x7bc\x7d\x7ba %\n\x7d \\\\\n\\end\x7btabular\x7d".toList := by
    decide +kernel
  obtain ⟨table, found, evaluated⟩ := exists_eq_ok_of_map facts
  obtain ⟨specifier, others⟩ := Prod.mk.inj evaluated
  obtain ⟨start, shapes⟩ := Prod.mk.inj others
  obtain ⟨lexemes, lexed, decided⟩ := exists_eq_ok_of_map facts'
  have unmarked : CommentsUnmarked .start lexemes := of_decide_eq_true decided
  obtain ⟨changed, read, kept⟩ := exists_read_uncommented isTabular found lexed
  rw [specifier, start] at read
  exact ⟨table, lexemes, found, lexed, unmarked, changed, cut ▸ read, (kept unmarked).trans shapes⟩

/-- A brace in a comment of a merged cell keeps its group open, so that the cell is not merged. -/
example :
    (readAt ("\\begin\x7btabular\x7d\x7blll\x7d\n".toList
        ++ "\\multicolumn\x7b2\x7d\x7bc\x7d\x7ba % \x7b\n\x7d & c \\\\\n".toList
        ++ "\\end\x7btabular\x7d".toList) 0).toOption.map (·.rows.map Row.shape)
      = some [⟨[none, none, none], 1, true, 0⟩] := by
  decide +kernel

end Table

end LatexTabular
