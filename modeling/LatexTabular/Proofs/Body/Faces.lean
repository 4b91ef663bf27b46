import LatexTabular.Proofs.Body.Contents
import LatexTabular.Proofs.Body.Origin
import LatexTabular.Proofs.Body.Relexing

/-!
# What the rows of a body show

The rows of a body show what stands between its terminators, and the cells of a row what stands
between its separators, wherever that is (`map_faces_rowsOf`).
-/

namespace LatexTabular

/-- What a cell shows: its content, and the number of columns if it is merged. -/
def Cell.face (cell : Cell) : Text × Option Nat := (cell.content, cell.merge.map (·.columns))

/-- What the cells of a row show. -/
def Row.faces (row : Row) : List (Text × Option Nat) := row.cells.map Cell.face

namespace Body

section Parts

variable {α β : Type} {ends : α → Bool}

/-- The parts of a list without the elements that close them. -/
theorem splitOnP_eq_segments (ends : α → Bool) (list : List α) :
    list.splitOnP ends = (segments ends list).1.map (·.1) ++ [(segments ends list).2] := by
  induction list with
  | nil => rfl
  | cons head rest ih =>
      rw [List.splitOnP_cons_eq_if_modifyHead, ih]
      by_cases closes : ends head = true
      · simp [segments, closes]
      · cases closedEq : (segments ends rest).1 with
        | nil => simp [segments, closes, closedEq]
        | cons first others => simp [segments, closes, closedEq]

theorem splitOnP_map (relabel : α → β) (ends : β → Bool) (list : List α) :
    (list.map relabel).splitOnP ends
      = (list.splitOnP (ends ∘ relabel)).map (List.map relabel) := by
  induction list with
  | nil => rfl
  | cons head rest ih =>
      obtain ⟨first, others, restEq⟩ :=
        List.exists_cons_of_ne_nil (List.splitOnP_ne_nil (ends ∘ relabel) rest)
      rw [List.map_cons, List.splitOnP_cons_eq_if_modifyHead, List.splitOnP_cons_eq_if_modifyHead,
        ih, restEq]
      simp only [Function.comp]
      split <;> simp

/-- What closes a part is not in it. -/
theorem of_mem_splitOnP {list part : List α} {item : α} (isPart : part ∈ list.splitOnP ends)
    (member : item ∈ part) : ends item = false := by
  obtain ⟨closedInside, lastInside⟩ := segments_inside ends list
  rw [splitOnP_eq_segments] at isPart
  rcases List.mem_append.mp isPart with inClosed | isLast
  · obtain ⟨closed, isClosed, rfl⟩ := List.mem_map.mp inClosed
    exact (closedInside closed isClosed).1 item member
  · rw [List.mem_singleton.mp isLast] at member
    exact lastInside item member

/-- A part of a list can be replaced without regard to the others. -/
theorem exists_around_part {ends : Lexeme → Bool} {list part : List Lexeme} {index : Nat}
    (isPart : (list.splitOnP ends)[index]? = some part) :
    ∃ front back, list = front ++ (part ++ back) ∧ (∀ close ∈ back.head?, ends close = true) ∧
      ∀ other, (front ++ (other ++ back)).splitOnP ends
        = (list.splitOnP ends).take index ++ (other.splitOnP ends
          ++ (list.splitOnP ends).drop (index + 1)) := by
  induction index generalizing list with
  | zero =>
      rcases exists_first_closing ends list with inside | ⟨first, close, rest, rfl, inside, closes⟩
      · rw [List.splitOnP_eq_singleton inside] at isPart ⊢
        obtain rfl := Option.some.inj isPart
        exact ⟨[], [], by simp, by simp, by simp⟩
      · rw [List.splitOnP_append_cons_of_forall_mem inside close closes] at isPart ⊢
        obtain rfl := Option.some.inj isPart
        refine ⟨[], close :: rest, rfl, by simpa using closes, fun other => ?_⟩
        rw [List.nil_append, List.splitOnP_append_cons _ _ closes]
        rfl
  | succ index ih =>
      rcases exists_first_closing ends list with inside | ⟨first, close, rest, rfl, inside, closes⟩
      · rw [List.splitOnP_eq_singleton inside] at isPart
        simp at isPart
      · rw [List.splitOnP_append_cons_of_forall_mem inside close closes] at isPart ⊢
        obtain ⟨front, back, rfl, closesBack, replaced⟩ := ih isPart
        refine ⟨first ++ close :: front, back, by simp, closesBack, fun other => ?_⟩
        rw [List.append_assoc, List.cons_append,
          List.splitOnP_append_cons_of_forall_mem inside close closes, replaced]
        rfl

end Parts

section Cells

variable {lexemes : List Lexeme}

/-- What a cell shows that lexemes make up. -/
def cellFace (lexemes : List Lexeme) : Text × Option Nat := (cellOf 0 lexemes).face

theorem face_cellOf (start : Nat) (lexemes : List Lexeme) :
    (cellOf start lexemes).face = cellFace lexemes := by
  simp only [cellFace, cellOf]
  split
  · split <;> rfl
  · rfl

/-- The text between the first and the last lexeme that fills a cell. -/
def filledText (lexemes : List Lexeme) : Text := (filledPart lexemes).flatMap Lexeme.text

/-- What fills no cell behind a cell is no part of it. -/
theorem filledPart_append_of_empty {back : List Lexeme}
    (empty : ∀ lexeme ∈ back, lexeme.kind.fillsCell = false) :
    filledPart (lexemes ++ back) = filledPart lexemes := by
  have skipped : (back.reverse).dropWhile (!·.kind.fillsCell) = [] := by
    simpa using empty
  rw [filledPart, List.dropWhile_append]
  split
  next noneFills =>
    have nothing : lexemes.dropWhile (!·.kind.fillsCell) = [] := by simpa using noneFills
    have nothing' : back.dropWhile (!·.kind.fillsCell) = [] := by simpa using empty
    rw [nothing', filledPart, nothing]
  next =>
    rw [List.reverse_append, List.dropWhile_append, skipped]
    rfl

/-- What fills no cell in front of a cell is no part of it. -/
theorem filledPart_append {front : List Lexeme}
    (empty : ∀ lexeme ∈ front, lexeme.kind.fillsCell = false) (lexemes : List Lexeme) :
    filledPart (front ++ lexemes) = filledPart lexemes := by
  rw [filledPart, filledPart, List.dropWhile_append_of_pos
    fun lexeme member => by simp [empty lexeme member]]

/-- What a cell shows is in its filled part. -/
theorem cellFace_eq (lexemes : List Lexeme) :
    cellFace lexemes = match filledPart lexemes with
      | [] => ([], none)
      | first :: rest =>
          match first.kind with
          | .merge parts => (Text.trim parts.content, some parts.columns)
          | _ => ((first :: rest).flatMap Lexeme.text, none) := by
  cases filledEq : filledPart lexemes with
  | nil => simp [cellFace, cellOf, filledEq, Cell.face, Cell.blank]
  | cons first rest =>
      obtain ⟨last, isLast⟩ : ∃ last, (first :: rest).getLast? = some last :=
        ⟨_, List.getLast?_eq_some_getLast (List.cons_ne_nil _ _)⟩
      simp only [cellFace, cellOf, filledEq, isLast, List.head?_cons]
      cases first.kind <;> rfl

/-- Cells with the same filled part show the same. -/
theorem cellFace_congr {others : List Lexeme} (same : filledPart lexemes = filledPart others) :
    cellFace lexemes = cellFace others := by
  rw [cellFace_eq, cellFace_eq, same]

/-- A cell without a merge shows its text. -/
theorem cellFace_of_unmerged
    (unmerged : ∀ lexeme ∈ lexemes, ∀ parts, lexeme.kind ≠ .merge parts) :
    cellFace lexemes = (filledText lexemes, none) := by
  rw [cellFace_eq, filledText]
  have within := (filledPart_isInfix lexemes).subset
  cases filled : filledPart lexemes with
  | nil => rfl
  | cons first rest =>
      have isFirst := unmerged first (within (by simp [filled]))
      dsimp only
      split
      next parts isMerge => exact absurd isMerge (isFirst parts)
      next => rfl

theorem exists_around_filledPart (lexemes : List Lexeme) :
    ∃ front back, lexemes = front ++ (filledPart lexemes ++ back) ∧
      ∀ lexeme ∈ front ++ back, lexeme.kind.fillsCell = false := by
  let skips (lexeme : Lexeme) : Bool := !lexeme.kind.fillsCell
  refine ⟨lexemes.takeWhile skips, (lexemes.dropWhile skips).rtakeWhile skips, ?_, ?_⟩
  · have whole : (lexemes.dropWhile skips).rdropWhile skips
        ++ (lexemes.dropWhile skips).rtakeWhile skips = lexemes.dropWhile skips := by
      simp [List.rdropWhile, List.rtakeWhile, ← List.reverse_append]
    change lexemes = _ ++ ((lexemes.dropWhile skips).rdropWhile skips ++ _)
    rw [whole, List.takeWhile_append_dropWhile]
  · intro lexeme member
    rcases List.mem_append.mp member with inFront | inBack
    · simpa [skips] using List.mem_takeWhile_imp inFront
    · simpa [skips] using List.mem_rtakeWhile_imp inBack

theorem MergeText.stop_place (start : Nat) (parts : MergeText) :
    start + parts.text.size = (parts.place start).span.stop := by
  have closed : Text.size ['}'] = 1 := by decide
  simp only [MergeText.text, MergeText.place, Text.size_append, closed]
  omega

/-- A cell that reaches no further than its merge consists of it, but for what fills no cell. -/
theorem exists_merge_of_cellOf {document : Text} {place : Nat} {merge : Merge}
    (ordered : lexemes.Pairwise fun first second => first.stop ≤ second.start)
    (sound : ∀ lexeme ∈ lexemes, lexeme.Sound document)
    (merged : (cellOf place lexemes).merge = some merge)
    (alone : (cellOf place lexemes).extent = merge.span) :
    ∃ front parts back, lexemes = front ++ ⟨merge.span.start, .merge parts, parts.text⟩ :: back ∧
      merge = parts.place merge.span.start ∧
      (cellOf place lexemes).content = Text.trim parts.content ∧
      ∀ lexeme ∈ front ++ back, lexeme.kind.fillsCell = false := by
  obtain ⟨front, back, whole, empty⟩ := exists_around_filledPart lexemes
  rcases cellOf_cases place lexemes with ⟨first, last, parts, isFirst, isLast, isMerge, cellEq⟩ |
    ⟨first, last, -, -, cellEq⟩ | ⟨nothing, cellEq⟩
  · rw [cellEq] at merged alone
    obtain rfl := Option.some.inj merged
    obtain ⟨rest, filledEq⟩ := List.head?_eq_some_iff.mp isFirst
    have firstIn : first ∈ lexemes := by
      rw [whole, filledEq]
      simp
    have textEq := (sound first firstIn).ofMerge parts isMerge
    have firstStop : first.stop = last.stop := by
      have ends : last.stop = (parts.place first.start).span.stop := (Span.mk.inj alone).2
      rw [ends, ← MergeText.stop_place, ← textEq]
      rfl
    -- Another lexeme would end behind the merge.
    have single : rest = [] := by
      by_contra notNil
      have lastIn : last ∈ rest := by
        rw [filledEq, List.getLast?_cons_of_ne_nil notNil] at isLast
        exact List.mem_of_mem_getLast? isLast
      have inOrder := ordered.sublist (filledPart_isInfix lexemes).sublist
      rw [filledEq] at inOrder
      have behind := (List.pairwise_cons.mp inOrder).1 last lastIn
      have nonempty := (sound last ((filledPart_isInfix lexemes).subset
        (List.mem_of_mem_getLast? isLast))).start_lt_stop
      omega
    subst single
    refine ⟨front, parts, back, ?_, rfl, by rw [cellEq], empty⟩
    rw [whole, filledEq, ← textEq, ← isMerge]
    rfl
  · rw [cellEq] at merged
    simp at merged
  · rw [cellEq] at merged
    simp [Cell.blank] at merged

end Cells

section Rows

variable {lexemes last : List Lexeme} {closed : List (List Lexeme × Lexeme)} {start : Nat}

/-- What a row shows that lexemes make up. -/
def rowFaces (lexemes : List Lexeme) : List (Text × Option Nat) :=
  (lexemes.splitOnP (·.kind == .separator)).map cellFace

/-- What the rows show that the parts of a body make up.  The last part may be no row. -/
def rowsFaces : List (List Lexeme) → List (List (Text × Option Nat))
  | [] => []
  | [last] => if makesRow last then [rowFaces last] else []
  | part :: rest => rowFaces part :: rowsFaces rest

theorem rowsFaces_cons {part : List Lexeme} {back : List (List Lexeme)}
    (counts : makesRow part = true ∨ back ≠ []) :
    rowsFaces (part :: back) = rowFaces part :: rowsFaces back := by
  cases back with
  | nil =>
      have isRow : makesRow part = true := by simpa using counts
      simp [rowsFaces, isRow]
  | cons next rest => rfl

theorem rowsFaces_append (front : List (List Lexeme)) (part : List Lexeme)
    (back : List (List Lexeme)) :
    rowsFaces (front ++ part :: back) = front.map rowFaces ++ rowsFaces (part :: back) := by
  induction front with
  | nil => rfl
  | cons first rest ih =>
      have behind : rest ++ part :: back ≠ [] := by simp
      rw [List.cons_append, rowsFaces_cons (Or.inr behind), ih]
      rfl

theorem rowsFaces_append_cons (front : List (List Lexeme)) {part : List Lexeme}
    {back : List (List Lexeme)} (counts : makesRow part = true ∨ back ≠ []) :
    rowsFaces (front ++ part :: back)
      = front.map rowFaces ++ rowFaces part :: rowsFaces back := by
  rw [rowsFaces_append, rowsFaces_cons counts]

theorem map_face_cellsOf (start : Nat) (closed : List (List Lexeme × Lexeme))
    (last : List Lexeme) :
    (cellsOf start closed last).map Cell.face = (closed.map (·.1) ++ [last]).map cellFace := by
  induction closed generalizing start with
  | nil => simp [cellsOf, face_cellOf]
  | cons part rest ih => simp [cellsOf, face_cellOf, ih]

theorem faces_rowOf (start : Nat) (lexemes : List Lexeme) (terminator : Option Lexeme) :
    (rowOf start lexemes terminator).faces = rowFaces lexemes := by
  rw [rowFaces, splitOnP_eq_segments]
  exact map_face_cellsOf _ _ _

theorem map_faces_rowsFrom (start : Nat) (closed : List (List Lexeme × Lexeme))
    (last : List Lexeme) :
    (rowsFrom start closed last).map Row.faces = rowsFaces (closed.map (·.1) ++ [last]) := by
  induction start, closed using rowsFrom_induction last with
  | row start isRow rowsEq => simp [rowsEq, rowsFaces, faces_rowOf, isRow]
  | nothing start noRow rowsEq => simp [rowsEq, rowsFaces, noRow]
  | rules start lexemes terminator noRow rowsEq =>
      simp [rowsEq, rowsFaces, noRow, ← faces_rowOf start lexemes (some terminator), Row.faces]
  | cons start lexemes terminator rest _ rowsEq ih =>
      have behind : rest.map (·.1) ++ [last] ≠ [] := by simp
      rw [rowsEq, List.map_cons, List.map_cons, List.cons_append, rowsFaces_cons (Or.inr behind),
        ih, faces_rowOf]

/-- What the rows of a body show is what stands between its terminators and separators. -/
theorem map_faces_rowsOf (start : Nat) (lexemes : List Lexeme) :
    (rowsOf start lexemes).map Row.faces
      = rowsFaces (lexemes.splitOnP (·.kind == .terminator)) := by
  rw [splitOnP_eq_segments]
  exact map_faces_rowsFrom _ _ _

/-- A row stems from a part of the body, and a terminated one not from the last one. -/
theorem exists_part_of_rowsFrom {index : Nat} {row : Row}
    (isRow : (rowsFrom start closed last)[index]? = some row) :
    ∃ place part, (closed.map (·.1) ++ [last])[index]? = some part ∧
      row.cells = (rowOf place part none).cells ∧
      row.separators = (rowOf place part none).separators ∧
      (row.terminator ≠ none → index < closed.length) := by
  induction start, closed using rowsFrom_induction last generalizing index with
  | row start _ rowsEq =>
      rw [rowsEq] at isRow
      obtain ⟨rfl, rfl⟩ : index = 0 ∧ rowOf start last none = row := by
        cases index <;> simp_all
      exact ⟨start, last, rfl, rfl, rfl, fun terminated => absurd rfl terminated⟩
  | nothing start noRow rowsEq => simp [rowsEq] at isRow
  | rules start lexemes terminator noRow rowsEq =>
      rw [rowsEq] at isRow
      cases index with
      | zero =>
          obtain rfl := Option.some.inj isRow
          exact ⟨start, lexemes, rfl, rfl, rfl, fun _ => by simp⟩
      | succ index => simp at isRow
  | cons start lexemes terminator rest _ rowsEq ih =>
      rw [rowsEq] at isRow
      cases index with
      | zero =>
          obtain rfl := Option.some.inj isRow
          exact ⟨start, lexemes, rfl, rfl, rfl, fun _ => by simp⟩
      | succ index =>
          obtain ⟨place, part, isPart, cellsEq, separatorsEq, terminated⟩ := ih isRow
          exact ⟨place, part, isPart, cellsEq, separatorsEq, fun isTerminated =>
            by simpa using terminated isTerminated⟩

end Rows

/-- What a part means to its row: its kind without the texts of a merge. -/
def Kind.outline : Kind → Kind
  | .merge parts => .merge ⟨[], [], [], [], [], [], parts.columns⟩
  | kind => kind

section Kinds

variable {kind kind' : Kind} (same : kind.outline = kind'.outline)

include same

theorem Kind.fillsCell_eq : kind.fillsCell = kind'.fillsCell := by
  cases kind <;> cases kind' <;> simp_all [outline, fillsCell]

theorem Kind.beq_eq {other : Kind} (unmerged : ∀ parts, other ≠ .merge parts) :
    (kind == other) = (kind' == other) := by
  rw [Bool.eq_iff_iff, beq_iff_eq, beq_iff_eq]
  cases kind <;> cases kind' <;> simp_all [outline]
  exact ⟨fun eq => absurd eq.symm (unmerged _), fun eq => absurd eq.symm (unmerged _)⟩

end Kinds

section Relabelled

variable {relabel : Lexeme → Lexeme}
  (keeps : ∀ lexeme, (relabel lexeme).kind.outline = lexeme.kind.outline)

include keeps

theorem filledPart_map (lexemes : List Lexeme) :
    filledPart (lexemes.map relabel) = (filledPart lexemes).map relabel := by
  have fills : (fun lexeme : Lexeme => !lexeme.kind.fillsCell) ∘ relabel
      = fun lexeme => !lexeme.kind.fillsCell :=
    funext fun lexeme => congrArg (! ·) (Kind.fillsCell_eq (keeps lexeme))
  simp only [filledPart, List.dropWhile_map, ← List.map_reverse, fills]

theorem makesRow_map (lexemes : List Lexeme) :
    makesRow (lexemes.map relabel) = makesRow lexemes := by
  rw [makesRow, List.any_map]
  refine congrArg lexemes.any (funext fun lexeme => ?_)
  rw [Function.comp_apply, Kind.beq_eq (keeps lexeme) (by simp), Kind.fillsCell_eq (keeps lexeme)]

end Relabelled

section Places

variable {lexemes others : List Lexeme}

/-- A lexeme moved to the start of the document. -/
def Lexeme.placeless (lexeme : Lexeme) : Lexeme := ⟨0, lexeme.token.1, lexeme.token.2⟩

theorem Lexeme.outline_placeless (lexeme : Lexeme) :
    lexeme.placeless.kind.outline = lexeme.kind.outline := rfl

theorem cellFace_map_placeless (lexemes : List Lexeme) :
    cellFace (lexemes.map Lexeme.placeless) = cellFace lexemes := by
  rw [cellFace_eq, cellFace_eq, filledPart_map Lexeme.outline_placeless]
  cases filledPart lexemes with
  | nil => rfl
  | cons first rest =>
      have texts : (first.placeless :: rest.map Lexeme.placeless).flatMap Lexeme.text
          = (first :: rest).flatMap Lexeme.text := by
        rw [← List.map_cons, List.flatMap_map]
        rfl
      have kindEq : first.placeless.kind = first.kind := rfl
      simp only [List.map_cons, kindEq, texts]

theorem rowFaces_map_placeless (lexemes : List Lexeme) :
    rowFaces (lexemes.map Lexeme.placeless) = rowFaces lexemes := by
  rw [rowFaces, splitOnP_map, List.map_map]
  exact List.map_congr_left fun part _ => cellFace_map_placeless part

theorem makesRow_map_placeless (lexemes : List Lexeme) :
    makesRow (lexemes.map Lexeme.placeless) = makesRow lexemes :=
  makesRow_map Lexeme.outline_placeless lexemes

theorem rowsFaces_map_placeless (parts : List (List Lexeme)) :
    rowsFaces (parts.map (List.map Lexeme.placeless)) = rowsFaces parts := by
  fun_induction rowsFaces parts with
  | case1 => rfl
  | case2 last isRow =>
      rw [← makesRow_map_placeless] at isRow
      simp [rowsFaces, isRow, rowFaces_map_placeless]
  | case3 last notRow =>
      rw [← makesRow_map_placeless] at notRow
      simp [rowsFaces, notRow]
  | case4 part rest notNil ih =>
      have behind : rest.map (List.map Lexeme.placeless) ≠ [] := by simpa using notNil
      rw [List.map_cons, rowsFaces_cons (Or.inr behind), ih, rowFaces_map_placeless]

/-- The rows of a body show the same wherever its lexemes stand. -/
theorem rowsFaces_splitOnP_congr (same : lexemes.map Lexeme.token = others.map Lexeme.token) :
    rowsFaces (lexemes.splitOnP (·.kind == .terminator))
      = rowsFaces (others.splitOnP (·.kind == .terminator)) := by
  have moved (items : List Lexeme) : items.map Lexeme.placeless
      = (items.map Lexeme.token).map fun token => ⟨0, token.1, token.2⟩ := by
    rw [List.map_map]
    rfl
  have sameMoved : lexemes.map Lexeme.placeless = others.map Lexeme.placeless := by
    rw [moved, moved, same]
  have split (items : List Lexeme) : rowsFaces (items.splitOnP (·.kind == .terminator))
      = rowsFaces ((items.map Lexeme.placeless).splitOnP (·.kind == .terminator)) := by
    rw [splitOnP_map, rowsFaces_map_placeless]
    rfl
  rw [split lexemes, split others, sameMoved]

end Places

end Body

end LatexTabular
