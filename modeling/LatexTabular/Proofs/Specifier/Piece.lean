import LatexTabular.Column
import Mathlib.Data.List.TakeWhile

/-!
# Pieces of specifiers

A specifier consists of characters outside braces and of brace groups.  `Specifier.pieces` cuts
it into these, and `Specifier.columns` reads it piece by piece
(`Specifier.columns_eq_foldl_takePiece`).  If every brace is closed, the pieces are whole: they
are found again wherever they are written (`Specifier.pieces_append`).
-/

namespace LatexTabular.Specifier

/-- A character outside braces, or a group with its braces. -/
inductive Piece where
  | symbol (character : Char)
  | group (text : Text)
  deriving DecidableEq, Repr

namespace Piece

def text : Piece → Text
  | symbol character => [character]
  | group text => text

@[simp] theorem text_symbol (character : Char) : (symbol character).text = [character] := rfl

@[simp] theorem text_group (text : Text) : (group text).text = text := rfl

def isGroup : Piece → Bool
  | symbol _ => false
  | group _ => true

/-- The column letter that a piece is. -/
def letter? : Piece → Option Char
  | symbol character => if Text.isLetter character then some character else none
  | group _ => none

/-- Whether a piece is a vertical rule. -/
def isRule : Piece → Bool
  | symbol character => character == '|'
  | group _ => false

/-- Whether a piece is blank and of no meaning. -/
def isSpace : Piece → Bool
  | symbol character => Text.isBlank character
  | group _ => false

/-- Whether a piece is markup of a column. -/
def isInk (piece : Piece) : Bool := !piece.isRule && !piece.isSpace

def marks : Piece → List Mark
  | symbol character => [⟨character, false⟩]
  | group text => text.map (⟨·, true⟩)

end Piece

/-- The pieces of a text behind `opened`, the front of a group of which `depth` braces are
open. -/
def piecesIn : (depth : Nat) → (opened : Text) → Text → List Piece
  | _, [], [] => []
  | _, opened, [] => [.group opened]
  | 0, _, character :: rest =>
      if character = '{' then piecesIn 1 ['{'] rest
      else .symbol character :: piecesIn 0 [] rest
  | depth + 1, opened, character :: rest =>
      if character = '{' then piecesIn (depth + 2) (opened ++ ['{']) rest
      else if character = '}' then
        if depth = 0 then .group (opened ++ ['}']) :: piecesIn 0 [] rest
        else piecesIn depth (opened ++ ['}']) rest
      else piecesIn (depth + 1) (opened ++ [character]) rest

/-- The pieces of a specifier.  A group that is never closed reaches to its end. -/
def pieces (text : Text) : List Piece := piecesIn 0 [] text

/-- The number of braces that are open behind a text, when `depth` are open in front of it. -/
def depthAfter : (depth : Nat) → Text → Nat
  | depth, [] => depth
  | depth, character :: rest =>
      depthAfter (if character = '{' then depth + 1
        else if character = '}' then depth - 1 else depth) rest

/-- Every opening brace of a specifier is closed. -/
def Closed (text : Text) : Prop := depthAfter 0 text = 0

instance (text : Text) : Decidable (Closed text) :=
  inferInstanceAs (Decidable (depthAfter 0 text = 0))

/-- The text of pieces. -/
def textOf (pieces : List Piece) : Text := pieces.flatMap Piece.text

@[simp] theorem textOf_nil : textOf [] = [] := rfl

@[simp] theorem textOf_cons (piece : Piece) (pieces : List Piece) :
    textOf (piece :: pieces) = piece.text ++ textOf pieces := rfl

@[simp] theorem textOf_append (left right : List Piece) :
    textOf (left ++ right) = textOf left ++ textOf right := List.flatMap_append

/-! ## Marks of pieces -/

theorem flatMap_marks_piecesIn (depth : Nat) (opened text : Text)
    (outside : depth = 0 → opened = []) :
    (piecesIn depth opened text).flatMap Piece.marks
      = opened.map (⟨·, true⟩) ++ marks depth text := by
  fun_induction piecesIn depth opened text with
  | case1 => rfl
  | case2 depth opened nonempty => simp [marks, Piece.marks]
  | case3 opened rest ih => simp [marks, ih, outside]
  | case4 opened character rest noBrace ih =>
      have marksEq : marks 0 (character :: rest) = ⟨character, false⟩ :: marks 0 rest := by
        simp [marks, noBrace]
      rw [List.flatMap_cons, ih fun _ => rfl, outside rfl, marksEq]
      rfl
  | case5 depth opened rest ih => simp [marks, ih]
  | case6 opened rest _ ih => simp [marks, ih, Piece.marks]
  | case7 depth opened rest inside _ ih => simp [marks, ih fun outside => absurd outside inside]
  | case8 depth opened character rest noOpening noClosing ih =>
      simp [marks, ih, noOpening, noClosing]

/-- The pieces of a text have its marks. -/
theorem flatMap_marks_pieces (text : Text) : (pieces text).flatMap Piece.marks = marks 0 text :=
  flatMap_marks_piecesIn 0 [] text fun _ => rfl

theorem map_character_marks (depth : Nat) (text : Text) :
    (marks depth text).map (·.character) = text := by
  induction text generalizing depth with
  | nil => rfl
  | cons head rest ih =>
      rw [marks]
      split_ifs <;> simp [ih]

theorem map_character_flatMap_marks (all : List Piece) :
    (all.flatMap Piece.marks).map (·.character) = textOf all := by
  have each (piece : Piece) : piece.marks.map (·.character) = piece.text := by
    cases piece <;> simp [Piece.marks, Piece.text, Function.comp_def]
  simp only [textOf, List.map_flatMap, each]

/-- The pieces of a text make it up. -/
theorem textOf_pieces (text : Text) : textOf (pieces text) = text := by
  rw [← map_character_flatMap_marks, flatMap_marks_pieces, map_character_marks]

/-! ## Whole pieces -/

/-- A piece that is found wherever it is written. -/
def Piece.IsWhole (piece : Piece) : Prop :=
  piece.text ≠ [] ∧ ∀ rest, pieces (piece.text ++ rest) = piece :: pieces rest

theorem Piece.isWhole_symbol {character : Char} (noBrace : character ≠ '{') :
    (Piece.symbol character).IsWhole :=
  ⟨List.cons_ne_nil _ _, fun rest => by simp [pieces, piecesIn, text, noBrace]⟩

/-- Whole pieces are found where they are written side by side. -/
theorem pieces_append {whole : List Piece} (areWhole : ∀ piece ∈ whole, piece.IsWhole)
    (rest : Text) : pieces (textOf whole ++ rest) = whole ++ pieces rest := by
  induction whole with
  | nil => rfl
  | cons piece others ih =>
      rw [textOf_cons, List.append_assoc, (areWhole piece List.mem_cons_self).2,
        ih fun other member => areWhole other (List.mem_cons_of_mem _ member), List.cons_append]

theorem pieces_textOf {whole : List Piece} (areWhole : ∀ piece ∈ whole, piece.IsWhole) :
    pieces (textOf whole) = whole := by
  have written := pieces_append areWhole []
  rwa [List.append_nil, show pieces [] = [] from rfl, List.append_nil] at written

/-- The front of a group is read up to where its text leads, whatever follows. -/
def LeadsTo (depth : Nat) (opened : Text) : Prop :=
  opened ≠ [] ∧ ∀ rest, pieces (opened ++ rest) = piecesIn depth opened rest

theorem leadsTo_brace : LeadsTo 1 ['{'] :=
  ⟨List.cons_ne_nil _ _, fun rest => by simp [pieces, piecesIn]⟩

theorem LeadsTo.append {depth next : Nat} {opened : Text} {character : Char}
    (leads : LeadsTo (depth + 1) opened)
    (step : ∀ rest, piecesIn (depth + 1) opened (character :: rest)
      = piecesIn next (opened ++ [character]) rest) :
    LeadsTo next (opened ++ [character]) := by
  refine ⟨by simp, fun rest => ?_⟩
  rw [List.append_assoc, leads.2]
  exact step rest

theorem LeadsTo.isWhole {opened : Text} (leads : LeadsTo 1 opened) :
    (Piece.group (opened ++ ['}'])).IsWhole := by
  refine ⟨by simp [Piece.text], fun rest => ?_⟩
  rw [Piece.text, List.append_assoc, leads.2]
  simp [piecesIn, pieces]

theorem isWhole_of_mem_piecesIn {depth : Nat} {opened text : Text}
    (closed : depthAfter depth text = 0) (outside : depth = 0 → opened = [])
    (leads : depth ≠ 0 → LeadsTo depth opened) :
    ∀ piece ∈ piecesIn depth opened text, piece.IsWhole := by
  fun_induction piecesIn depth opened text with
  | case1 => exact fun piece member => absurd member List.not_mem_nil
  | case2 depth opened nonempty => exact absurd (outside closed) nonempty
  | case3 opened rest ih => exact ih closed nofun fun _ => leadsTo_brace
  | case4 opened character rest noBrace ih =>
      intro piece member
      rcases List.mem_cons.mp member with rfl | inRest
      · exact Piece.isWhole_symbol noBrace
      · refine ih ?_ (fun _ => rfl) (fun inside => absurd rfl inside) piece inRest
        simpa [depthAfter, noBrace] using closed
  | case5 depth opened rest ih =>
      refine ih closed nofun fun _ => (leads nofun).append fun rest => ?_
      simp [piecesIn]
  | case6 opened rest _ ih =>
      intro piece member
      rcases List.mem_cons.mp member with rfl | inRest
      · exact (leads nofun).isWhole
      · exact ih closed (fun _ => rfl) (fun inside => absurd rfl inside) piece inRest
  | case7 depth opened rest inside _ ih =>
      refine ih (by simpa [depthAfter] using closed) (fun outside => absurd outside inside)
        fun _ => (leads nofun).append fun rest => ?_
      simp [piecesIn, inside]
  | case8 depth opened character rest noOpening noClosing ih =>
      refine ih (by simpa [depthAfter, noOpening, noClosing] using closed) nofun
        fun _ => (leads nofun).append fun rest => ?_
      simp [piecesIn, noOpening, noClosing]

/-- If every brace is closed, all pieces are whole. -/
theorem Closed.isWhole {text : Text} (closed : Closed text) :
    ∀ piece ∈ pieces text, piece.IsWhole :=
  isWhole_of_mem_piecesIn closed (fun _ => rfl) fun inside => absurd rfl inside

/-! ## Reading piece by piece -/

namespace Reading

/-- Take one more piece. -/
def takePiece (reading : Reading) : Piece → Reading
  | .symbol character => reading.take ⟨character, false⟩
  | .group text =>
      match reading with
      | ⟨last :: earlier, 0, []⟩ =>
          { reading with columns := { last with markup := last.markup ++ text } :: earlier }
      | _ => { reading with markup := reading.markup ++ text }

/-- Whether something waits for the next column, or there is none before it. -/
def IsWaiting (reading : Reading) : Prop :=
  reading.columns = [] ∨ reading.rules ≠ 0 ∨ reading.markup ≠ []

theorem isWaiting_or_eq (reading : Reading) :
    reading.IsWaiting ∨ ∃ last earlier, reading = ⟨last :: earlier, 0, []⟩ := by
  obtain ⟨columns, rules, markup⟩ := reading
  cases columns with
  | nil => exact Or.inl (Or.inl rfl)
  | cons last earlier =>
      by_cases quiet : rules = 0 ∧ markup = []
      · obtain ⟨rfl, rfl⟩ := quiet
        exact Or.inr ⟨last, earlier, rfl⟩
      · exact Or.inl (Or.inr (not_and_or.mp quiet))

theorem take_of_isWaiting {reading : Reading} (isWaiting : reading.IsWaiting) {mark : Mark}
    (noColumn : mark.makesColumn = false) (notSpace : mark.isSpace = false) :
    reading.take mark
      = if mark.isRule then { reading with rules := reading.rules + 1 }
        else { reading with markup := reading.markup ++ [mark.character] } := by
  simp only [take, noColumn, notSpace, Bool.false_eq_true, if_false]
  split
  next => simp [IsWaiting] at isWaiting
  next => rfl

theorem foldl_take_group_of_isWaiting {reading : Reading} (isWaiting : reading.IsWaiting)
    (text : Text) :
    (text.map (⟨·, true⟩)).foldl take reading
      = { reading with markup := reading.markup ++ text } := by
  induction text generalizing reading with
  | nil => simp
  | cons head rest ih =>
      have first : reading.take ⟨head, true⟩
          = { reading with markup := reading.markup ++ [head] } :=
        take_of_isWaiting isWaiting rfl rfl
      rw [List.map_cons, List.foldl_cons, first, ih (Or.inr (Or.inr (by simp)))]
      simp

theorem foldl_take_group (last : Column) (earlier : List Column) (text : Text) :
    (text.map (⟨·, true⟩)).foldl take ⟨last :: earlier, 0, []⟩
      = ⟨{ last with markup := last.markup ++ text } :: earlier, 0, []⟩ := by
  induction text generalizing last with
  | nil => simp
  | cons head rest ih =>
      have first : take ⟨last :: earlier, 0, []⟩ ⟨head, true⟩
          = ⟨{ last with markup := last.markup ++ [head] } :: earlier, 0, []⟩ := rfl
      rw [List.map_cons, List.foldl_cons, first, ih]
      simp

/-- A piece is taken like its marks. -/
theorem foldl_take_marks (reading : Reading) (piece : Piece) :
    piece.marks.foldl take reading = reading.takePiece piece := by
  cases piece with
  | symbol character => rfl
  | group text =>
      rcases reading.isWaiting_or_eq with isWaiting | ⟨last, earlier, rfl⟩
      · rw [takePiece]
        · exact foldl_take_group_of_isWaiting isWaiting text
        · rintro last earlier rfl
          simp [IsWaiting] at isWaiting
      · exact foldl_take_group last earlier text

end Reading

/-- A specifier is read piece by piece. -/
theorem columns_eq_foldl_takePiece (text : Text) :
    columns text = ((pieces text).foldl Reading.takePiece .start).finish := by
  have each : (fun reading (piece : Piece) => piece.marks.foldl Reading.take reading)
      = Reading.takePiece := by
    funext reading piece
    exact reading.foldl_take_marks piece
  rw [columns, ← flatMap_marks_pieces, List.foldl_flatMap, each]

end LatexTabular.Specifier
