import LatexTabular.Proofs.Body.Rows
import LatexTabular.Proofs.Sheet.Cells

/-!
# Contents of a body

What the cells of a body contain is gathered from its lexemes cell by cell and row by
row (`contentsOf_rowsOf`).  Characters of the body that stand in no content are lost
(`countP_bodyContents_le`), and what stands in front of the first cell is no content
(`bodyContents_append`).
-/

namespace LatexTabular.Body

/-- The contents of rows, one after the other. -/
def contentsOf (rows : List Row) : Text :=
  rows.flatMap fun row => row.cells.flatMap Cell.content

/-- Read each part of lexemes that an element closes, and the part behind them. -/
def gather (ends : Lexeme → Bool) (read : List Lexeme → Text) (lexemes : List Lexeme) : Text :=
  (segments ends lexemes).1.flatMap (fun part => read part.1) ++ read (segments ends lexemes).2

/-- The content of the cell that lexemes make up. -/
def cellContent (lexemes : List Lexeme) : Text := (cellOf 0 lexemes).content

/-- The contents of the cells of a row. -/
def rowContents : List Lexeme → Text := gather (·.kind == .separator) cellContent

/-- The contents of the rows of a body. -/
def bodyContents : List Lexeme → Text := gather (·.kind == .terminator) rowContents

section Gather

variable {ends : Lexeme → Bool} {read : List Lexeme → Text}

theorem gather_of_forall_not {part : List Lexeme} (inside : ∀ lexeme ∈ part, ends lexeme = false) :
    gather ends read part = read part := by
  rw [gather, segments_of_forall_not inside]
  rfl

/-- The first closing element parts what is gathered. -/
theorem gather_append_cons {part : List Lexeme} {close : Lexeme}
    (inside : ∀ lexeme ∈ part, ends lexeme = false) (closes : ends close = true)
    (rest : List Lexeme) :
    gather ends read (part ++ close :: rest) = read part ++ gather ends read rest := by
  rw [gather, segments_append_cons inside closes, gather, List.flatMap_cons, List.append_assoc]

/-- Lexemes are a part without a closing element, or such a part with one behind it. -/
theorem exists_first_closing (ends : Lexeme → Bool) (lexemes : List Lexeme) :
    (∀ lexeme ∈ lexemes, ends lexeme = false) ∨
      ∃ part close rest, lexemes = part ++ close :: rest ∧
        (∀ lexeme ∈ part, ends lexeme = false) ∧ ends close = true := by
  cases found : lexemes.find? ends with
  | none => exact Or.inl fun lexeme member => by simpa using List.find?_eq_none.mp found lexeme member
  | some close =>
      obtain ⟨closes, part, rest, lexemesEq, inside⟩ := List.find?_eq_some_iff_append.mp found
      exact Or.inr ⟨part, close, rest, lexemesEq, fun lexeme member => by
        simpa using inside lexeme member, closes⟩

/-- What is nothing to any part is nothing to the whole. -/
theorem gather_append {front : List Lexeme} (inside : ∀ lexeme ∈ front, ends lexeme = false)
    (skips : ∀ part, read (front ++ part) = read part) (lexemes : List Lexeme) :
    gather ends read (front ++ lexemes) = gather ends read lexemes := by
  have longer {part : List Lexeme} (insidePart : ∀ lexeme ∈ part, ends lexeme = false) :
      ∀ lexeme ∈ front ++ part, ends lexeme = false := by
    intro lexeme member
    rcases List.mem_append.mp member with inFront | inPart
    · exact inside lexeme inFront
    · exact insidePart lexeme inPart
  rcases exists_first_closing ends lexemes with unclosed | ⟨part, close, rest, rfl, inPart, closes⟩
  · rw [gather_of_forall_not (longer unclosed), gather_of_forall_not unclosed, skips]
  · rw [← List.append_assoc, gather_append_cons (longer inPart) closes,
      gather_append_cons inPart closes, skips]

/-- What any part with a certain first lexeme reads is gathered. -/
theorem mem_gather_cons {character : Char} {first : Lexeme} (inside : ends first = false)
    (reads : ∀ part, character ∈ read (first :: part)) (rest : List Lexeme) :
    character ∈ gather ends read (first :: rest) := by
  have longer {part : List Lexeme} (inPart : ∀ lexeme ∈ part, ends lexeme = false) :
      ∀ lexeme ∈ first :: part, ends lexeme = false :=
    List.forall_mem_cons.mpr ⟨inside, inPart⟩
  rcases exists_first_closing ends rest with unclosed | ⟨part, close, others, rfl, inPart, closes⟩
  · rw [gather_of_forall_not (longer unclosed)]
    exact reads rest
  · rw [← List.cons_append, gather_append_cons (longer inPart) closes]
    exact List.mem_append_left _ (reads part)

/-- No more is gathered than what the lexemes hold, if that is so of each part. -/
theorem countP_gather_le {keeps : Lexeme → Prop} {test : Char → Bool}
    (bounded : ∀ part, (∀ lexeme ∈ part, keeps lexeme) →
      (read part).countP test ≤ (part.flatMap Lexeme.text).countP test)
    {lexemes : List Lexeme} (kept : ∀ lexeme ∈ lexemes, keeps lexeme) :
    (gather ends read lexemes).countP test ≤ (lexemes.flatMap Lexeme.text).countP test := by
  induction lengthEq : lexemes.length using Nat.strong_induction_on generalizing lexemes with
  | _ length ih =>
      rcases exists_first_closing ends lexemes with
        unclosed | ⟨part, close, rest, rfl, inPart, closes⟩
      · rw [gather_of_forall_not unclosed]
        exact bounded lexemes kept
      · have first := bounded part fun lexeme member => kept lexeme (List.mem_append_left _ member)
        have shorter : rest.length < length := by
          rw [← lengthEq, List.length_append, List.length_cons]
          omega
        have behind := @ih rest.length shorter rest
          (fun lexeme member =>
            kept lexeme (List.mem_append_right _ (List.mem_cons_of_mem _ member))) rfl
        rw [gather_append_cons inPart closes]
        simp only [List.flatMap_append, List.flatMap_cons, List.countP_append]
        omega

end Gather

section Cell

/-- What fills no cell in front of a cell is no part of its content. -/
theorem cellContent_append {front : List Lexeme}
    (empty : ∀ lexeme ∈ front, lexeme.kind.fillsCell = false) (lexemes : List Lexeme) :
    cellContent (front ++ lexemes) = cellContent lexemes := by
  have same : filledPart (front ++ lexemes) = filledPart lexemes := by
    rw [filledPart, filledPart, List.dropWhile_append_of_pos
      fun lexeme member => by simp [empty lexeme member]]
  simp only [cellContent, cellOf, same]
  split
  · split <;> rfl
  · rfl

theorem content_cellOf (start : Nat) (lexemes : List Lexeme) :
    (cellOf start lexemes).content = cellContent lexemes := by
  simp only [cellContent, cellOf]
  split
  · split <;> rfl
  · rfl

/-- The filled part of lexemes starts with the first one that fills the cell. -/
theorem exists_filledPart_cons {first : Lexeme} (fills : first.kind.fillsCell = true)
    (rest : List Lexeme) : ∃ others, filledPart (first :: rest) = first :: others := by
  have keepsFirst : (first :: rest).dropWhile (!·.kind.fillsCell) = first :: rest :=
    List.dropWhile_cons_of_neg (by simp [fills])
  rw [filledPart, keepsFirst, List.reverse_cons, List.dropWhile_append]
  split
  next => exact ⟨[], by simp [fills]⟩
  next => exact ⟨_, by rw [List.reverse_append]; rfl⟩

/-- A character at the front of a cell stands in its content. -/
theorem mem_cellContent_cons {character : Char} {first : Lexeme} (isContent : first.kind = .content)
    (member : character ∈ first.text) (rest : List Lexeme) :
    character ∈ cellContent (first :: rest) := by
  have fills : first.kind.fillsCell = true := by
    rw [isContent]
    rfl
  obtain ⟨others, filledEq⟩ := exists_filledPart_cons fills rest
  obtain ⟨last, isLast⟩ : ∃ last, (first :: others).getLast? = some last :=
    ⟨_, List.getLast?_eq_some_getLast (List.cons_ne_nil _ _)⟩
  simp only [cellContent, cellOf, filledEq, List.head?_cons, isLast, isContent]
  exact List.mem_append_left _ member

theorem countP_trim_le (test : Char → Bool) (text : Text) :
    (Text.trim text).countP test ≤ text.countP test := by
  have left : (Text.trimLeft text).Sublist text := List.dropWhile_sublist _
  have right : (Text.trim text).Sublist (Text.trimLeft text) := by
    have behind := (List.dropWhile_sublist (Text.isBlank ·) (l := (Text.trimLeft text).reverse)).reverse
    rwa [List.reverse_reverse] at behind
  exact (right.trans left).countP_le

/-- The content of a cell stands in its lexemes. -/
theorem countP_cellContent_le (test : Char → Bool) (lexemes : List Lexeme)
    (sound : ∀ lexeme ∈ lexemes, ∀ parts, lexeme.kind = .merge parts → lexeme.text = parts.text) :
    (cellContent lexemes).countP test ≤ (lexemes.flatMap Lexeme.text).countP test := by
  obtain ⟨front, back, parts⟩ := filledPart_isInfix lexemes
  have inside : ((filledPart lexemes).flatMap Lexeme.text).countP test
      ≤ (lexemes.flatMap Lexeme.text).countP test := by
    conv => rhs; rw [← parts]
    simp only [List.flatMap_append, List.countP_append]
    omega
  refine Nat.le_trans ?_ inside
  rcases cellOf_cases 0 lexemes with
    ⟨first, last, merge, isFirst, -, isMerge, cellEq⟩ | ⟨first, last, -, -, cellEq⟩ | ⟨-, cellEq⟩
  · -- A merge holds its content, and what else stands in its cell is no content.
    obtain ⟨others, filledEq⟩ := List.head?_eq_some_iff.mp isFirst
    have isText := sound first ((filledPart_isInfix lexemes).subset (List.mem_of_mem_head? isFirst))
      merge isMerge
    have trimmed := countP_trim_le test merge.content
    have inText : merge.content.countP test ≤ merge.text.countP test := by
      simp only [MergeText.text, List.countP_append]
      omega
    rw [cellContent, cellEq, filledEq, List.flatMap_cons, List.countP_append, isText]
    dsimp only
    omega
  · rw [cellContent, cellEq]
  · rw [cellContent, cellEq]
    exact Nat.zero_le _

end Cell

/-- What stands in front of the first cell of a body is no content. -/
theorem bodyContents_append {front : List Lexeme}
    (kinds : ∀ lexeme ∈ front, lexeme.kind = .space ∨ lexeme.kind = .rule)
    (lexemes : List Lexeme) : bodyContents (front ++ lexemes) = bodyContents lexemes := by
  refine gather_append ?_ (gather_append ?_ (cellContent_append ?_)) lexemes
  all_goals
    intro lexeme member
    rcases kinds lexeme member with kindEq | kindEq <;> rw [kindEq] <;> rfl

/-- The cells in front of a terminator hold what stands there, and the rows behind it hold
what stands behind it. -/
theorem bodyContents_append_cons {part : List Lexeme} {close : Lexeme}
    (inside : ∀ lexeme ∈ part, lexeme.kind ≠ .terminator) (closes : close.kind = .terminator)
    (rest : List Lexeme) :
    bodyContents (part ++ close :: rest) = rowContents part ++ bodyContents rest :=
  gather_append_cons (fun lexeme member => by simpa using inside lexeme member)
    (by simpa using closes) rest

theorem mem_bodyContents_cons {character : Char} {first : Lexeme} (isContent : first.kind = .content)
    (member : character ∈ first.text) (rest : List Lexeme) :
    character ∈ bodyContents (first :: rest) := by
  refine mem_gather_cons ?_ (mem_gather_cons ?_ (mem_cellContent_cons isContent member)) rest
  · rw [isContent]
    rfl
  · rw [isContent]
    rfl

/-- Whether a merge consists of its parts. -/
def KeepsMerge (lexeme : Lexeme) : Prop :=
  ∀ parts, lexeme.kind = .merge parts → lexeme.text = parts.text

theorem keepsMerge_of_mem_lex {offset : Nat} {context : Context} {body : Text} :
    ∀ lexeme ∈ lex [] offset context body, KeepsMerge lexeme := by
  fun_induction lex [] offset context body with
  | case1 => exact fun lexeme member => absurd member List.not_mem_nil
  | case2 offset context head rest part first ih =>
      intro lexeme member
      rcases List.mem_cons.mp member with rfl | member
      · exact fun parts isMerge => text_eq_of_readPart_merge isMerge
      · exact ih lexeme member

theorem countP_rowContents_le (test : Char → Bool) (lexemes : List Lexeme)
    (keeps : ∀ lexeme ∈ lexemes, KeepsMerge lexeme) :
    (rowContents lexemes).countP test ≤ (lexemes.flatMap Lexeme.text).countP test :=
  countP_gather_le (countP_cellContent_le test) keeps

theorem countP_bodyContents_le (test : Char → Bool) (lexemes : List Lexeme)
    (keeps : ∀ lexeme ∈ lexemes, KeepsMerge lexeme) :
    (bodyContents lexemes).countP test ≤ (lexemes.flatMap Lexeme.text).countP test :=
  countP_gather_le (countP_rowContents_le test) keeps

theorem flatMap_content_cellsOf (start : Nat) (closed : List (List Lexeme × Lexeme))
    (last : List Lexeme) :
    (cellsOf start closed last).flatMap Cell.content
      = closed.flatMap (fun part => cellContent part.1) ++ cellContent last := by
  induction closed generalizing start with
  | nil => simp [cellsOf, content_cellOf]
  | cons part rest ih => simp [cellsOf, content_cellOf, ih]

theorem flatMap_content_rowOf (start : Nat) (lexemes : List Lexeme) (terminator : Option Lexeme) :
    (rowOf start lexemes terminator).cells.flatMap Cell.content = rowContents lexemes :=
  flatMap_content_cellsOf start _ _

/-- Lexemes that make no row have no content. -/
theorem rowContents_of_makesRow_eq_false {lexemes : List Lexeme}
    (noRow : makesRow lexemes = false) : rowContents lexemes = [] := by
  have kinds : ∀ lexeme ∈ lexemes, (lexeme.kind == .separator) = false
      ∧ lexeme.kind.fillsCell = false := by
    intro lexeme member
    have neither := List.any_eq_false.mp noRow lexeme member
    simpa using neither
  have empty := @cellContent_append lexemes (fun lexeme member => (kinds lexeme member).2) []
  rw [List.append_nil] at empty
  rw [rowContents, gather_of_forall_not fun lexeme member => (kinds lexeme member).1, empty]
  rfl

theorem contentsOf_rowsFrom (start : Nat) (closed : List (List Lexeme × Lexeme))
    (last : List Lexeme) :
    contentsOf (rowsFrom start closed last)
      = closed.flatMap (fun part => rowContents part.1) ++ rowContents last := by
  induction start, closed using rowsFrom_induction last with
  | row start isRow rowsEq => simp [rowsEq, contentsOf, flatMap_content_rowOf]
  | nothing start noRow rowsEq =>
      simp [rowsEq, contentsOf, rowContents_of_makesRow_eq_false noRow]
  | rules start lexemes terminator noRow rowsEq =>
      simp [rowsEq, contentsOf, flatMap_content_rowOf, rowContents_of_makesRow_eq_false noRow]
  | cons start lexemes terminator rest _ rowsEq ih =>
      simp only [rowsEq, contentsOf, List.flatMap_cons] at ih ⊢
      rw [flatMap_content_rowOf, ih, List.append_assoc]

/-- The rows of a body hold the contents of its lexemes. -/
theorem contentsOf_rowsOf (start : Nat) (lexemes : List Lexeme) :
    contentsOf (rowsOf start lexemes) = bodyContents lexemes :=
  contentsOf_rowsFrom start _ _

theorem contentsOf_map_padded (columnCount : Nat) (rows : List Row) :
    contentsOf (rows.map (Row.padded columnCount)) = contentsOf rows := by
  simp only [contentsOf, List.flatMap_map]
  refine List.flatMap_congr fun row _ => ?_
  have none (count offset : Nat) :
      (List.replicate count (Cell.blank offset)).flatMap Cell.content = [] := by
    rw [List.flatMap_eq_nil_iff]
    intro cell member
    obtain rfl := List.eq_of_mem_replicate member
    rfl
  rw [Row.padded, List.flatMap_append, none, List.append_nil]

end LatexTabular.Body
