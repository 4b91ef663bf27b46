import LatexTabular.Proofs.Body.Faces

/-!
# The shape of a table

How many cells the rows of a body have, which of them are merged over how many columns, and how
many separators and rules stand between them depends on the kinds of its lexemes alone
(`map_shape_rowsOf`).
-/

namespace LatexTabular

namespace Row

/-- What a row consists of. -/
structure Shape where
  /-- For each cell the number of columns that it is merged over, if it is. -/
  merges : List (Option Nat)
  separators : Nat
  terminated : Bool
  rules : Nat
  deriving DecidableEq, Repr

def shape (row : Row) : Shape where
  merges := row.cells.map (·.merge.map (·.columns))
  separators := row.separators.length
  terminated := row.terminator.isSome
  rules := row.rules.length

/-- Cells with the same merges are equally wide. -/
theorem totalWidth_congr {cells cells' : List Cell}
    (same : cells.map (·.merge.map (·.columns)) = cells'.map (·.merge.map (·.columns))) :
    totalWidth cells = totalWidth cells' := by
  have width (cell : Cell) :
      cell.width = ((cell.merge.map (·.columns)).map (max · 1)).getD 1 := by
    unfold Cell.width
    cases cell.merge <;> rfl
  induction cells generalizing cells' with
  | nil =>
      obtain rfl := List.map_eq_nil_iff.mp same.symm
      rfl
  | cons cell rest ih =>
      cases cells' with
      | nil => simp at same
      | cons cell' rest' =>
          obtain ⟨first, others⟩ := List.cons.inj same
          dsimp only at first
          rw [totalWidth, totalWidth, ih others, width cell, width cell', first]

/-- Rows of one shape are filled alike. -/
theorem shape_padded {row row' : Row} (same : row.shape = row'.shape) (columnCount : Nat) :
    (row.padded columnCount).shape = (row'.padded columnCount).shape := by
  have merges := congrArg Shape.merges same
  have separators := congrArg Shape.separators same
  have terminated := congrArg Shape.terminated same
  have rules := congrArg Shape.rules same
  dsimp only [shape] at merges separators terminated rules
  simp only [shape, padded, List.map_append, List.map_replicate, merges, separators, terminated,
    rules, totalWidth_congr merges, Cell.blank]

/-- Rows of the same shapes are filled alike. -/
theorem map_shape_padded {rows rows' : List Row}
    (same : rows.map shape = rows'.map shape) (columnCount : Nat) :
    (rows.map (padded columnCount)).map shape = (rows'.map (padded columnCount)).map shape := by
  induction rows generalizing rows' with
  | nil =>
      obtain rfl := List.map_eq_nil_iff.mp same.symm
      rfl
  | cons row rest ih =>
      cases rows' with
      | nil => simp at same
      | cons row' rest' =>
          obtain ⟨first, others⟩ := List.cons.inj same
          rw [List.map_cons, List.map_cons, List.map_cons, List.map_cons,
            shape_padded first, ih others]

end Row

namespace Body

/-- The number of columns that a merge takes. -/
def Kind.columns? : Kind → Option Nat
  | .merge parts => some parts.columns
  | _ => none

theorem Kind.columns?_eq {kind kind' : Kind} (same : kind.outline = kind'.outline) :
    kind.columns? = kind'.columns? := by
  cases kind <;> cases kind' <;> simp_all [outline, columns?]

/-- Parts of a list that is relabelled. -/
theorem segments_map {α β : Type} (relabel : α → β) (ends : β → Bool) (list : List α) :
    segments ends (list.map relabel)
      = ((segments (ends ∘ relabel) list).1.map fun part =>
          (part.1.map relabel, relabel part.2),
        (segments (ends ∘ relabel) list).2.map relabel) := by
  induction list with
  | nil => rfl
  | cons head rest ih =>
      rw [List.map_cons, segments, segments, ih]
      generalize segments (ends ∘ relabel) rest = parts
      obtain ⟨closed, last⟩ := parts
      dsimp only [Function.comp]
      split
      · rfl
      · cases closed <;> rfl

section Rows

variable {relabel : Lexeme → Lexeme}
  (keeps : ∀ lexeme, (relabel lexeme).kind.outline = lexeme.kind.outline)

include keeps

theorem columns_cellOf (start start' : Nat) (lexemes : List Lexeme) :
    (cellOf start' (lexemes.map relabel)).merge.map (·.columns)
      = (cellOf start lexemes).merge.map (·.columns) := by
  have face (start : Nat) (lexemes : List Lexeme) :
      (cellOf start lexemes).merge.map (·.columns)
        = (filledPart lexemes).head?.bind (·.kind.columns?) := by
    change (cellOf start lexemes).face.2 = _
    rw [face_cellOf, cellFace_eq]
    cases filledPart lexemes with
    | nil => rfl
    | cons first rest =>
        dsimp only [List.head?_cons, Option.bind_some]
        cases first.kind <;> rfl
  rw [face, face, filledPart_map keeps]
  cases filledPart lexemes with
  | nil => rfl
  | cons first rest => exact Kind.columns?_eq (keeps first)

theorem columns_cellsOf (start start' : Nat) (closed : List (List Lexeme × Lexeme))
    (last : List Lexeme) :
    (cellsOf start' (closed.map fun part => (part.1.map relabel, relabel part.2))
        (last.map relabel)).map (·.merge.map (·.columns))
      = (cellsOf start closed last).map (·.merge.map (·.columns)) := by
  induction closed generalizing start start' with
  | nil => simp [cellsOf, columns_cellOf keeps start start']
  | cons part rest ih =>
      rw [List.map_cons, cellsOf, cellsOf, List.map_cons, List.map_cons,
        columns_cellOf keeps start start', ih]

theorem length_rulesOf (lexemes : List Lexeme) :
    (rulesOf (lexemes.map relabel)).length = (rulesOf lexemes).length := by
  rw [rulesOf, rulesOf, List.filter_map, List.length_map]
  congr 1
  exact List.filter_congr fun lexeme _ => Kind.beq_eq (keeps lexeme) (by simp)

theorem shape_rowOf (start start' : Nat) (lexemes : List Lexeme) (terminator : Option Lexeme) :
    (rowOf start' (lexemes.map relabel) (terminator.map relabel)).shape
      = (rowOf start lexemes terminator).shape := by
  have ends : (fun lexeme : Lexeme => lexeme.kind == .separator) ∘ relabel
      = fun lexeme => lexeme.kind == .separator :=
    funext fun lexeme => Kind.beq_eq (keeps lexeme) (by simp)
  simp only [Row.shape, rowOf, segments_map, ends, columns_cellsOf keeps start start',
    List.length_map, length_rulesOf keeps, Option.isSome_map]

theorem map_shape_rowsFrom (start start' : Nat) (closed : List (List Lexeme × Lexeme))
    (last : List Lexeme) :
    (rowsFrom start' (closed.map fun part => (part.1.map relabel, relabel part.2))
        (last.map relabel)).map Row.shape
      = (rowsFrom start closed last).map Row.shape := by
  have ended (start start' : Nat) (lexemes : List Lexeme) (terminator : Lexeme) :
      (rowOf start' (lexemes.map relabel) (some (relabel terminator))).shape
        = (rowOf start lexemes (some terminator)).shape :=
    shape_rowOf keeps start start' lexemes (some terminator)
  induction start, closed using rowsFrom_induction last generalizing start' with
  | row start isRow _ =>
      have unended := shape_rowOf keeps start start' last none
      rw [Option.map_none] at unended
      simp [rowsFrom, makesRow_map keeps, isRow, unended]
  | nothing start noRow _ => simp [rowsFrom, makesRow_map keeps, noRow]
  | rules start lexemes terminator noRow _ =>
      have same := ended start start' lexemes terminator
      simp only [Row.shape, Row.Shape.mk.injEq] at same
      simp [rowsFrom, makesRow_map keeps, noRow, Row.shape, same, length_rulesOf keeps]
  | cons start lexemes terminator rest some rowsEq ih =>
      have restEq := ih (relabel terminator).stop
      have others : rowsFrom (relabel terminator).stop
          (rest.map fun part => (part.1.map relabel, relabel part.2)) (last.map relabel) ≠ [] := by
        intro none
        rw [none, List.map_nil, eq_comm, List.map_eq_nil_iff] at restEq
        exact some restEq
      rw [rowsEq, List.map_cons, rowsFrom_cons others, List.map_cons, List.map_cons,
        ended start start', restEq]

/-- Rows keep their shape where lexemes keep their kinds. -/
theorem map_shape_rowsOf (start start' : Nat) (lexemes : List Lexeme) :
    (rowsOf start' (lexemes.map relabel)).map Row.shape
      = (rowsOf start lexemes).map Row.shape := by
  have ends : (fun lexeme : Lexeme => lexeme.kind == .terminator) ∘ relabel
      = fun lexeme => lexeme.kind == .terminator :=
    funext fun lexeme => Kind.beq_eq (keeps lexeme) (by simp)
  simp only [rowsOf, segments_map, ends]
  exact map_shape_rowsFrom keeps start start' _ _

end Rows

end Body

end LatexTabular
