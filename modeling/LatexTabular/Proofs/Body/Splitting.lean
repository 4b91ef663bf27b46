import LatexTabular.Proofs.Body.Faces

/-!
# Splitting a merged cell

Where the lexeme of a merge is replaced by content and separators, its cell shows the content and
blank cells behind it, and all other cells show what they did (`exists_around_merge`).
-/

namespace LatexTabular.Body

/-- What a row shows whose cell at an index is replaced by a plain one and blank ones. -/
def splitFaces (index blanks : Nat) (content : Text) (cells : List (Text × Option Nat)) :
    List (Text × Option Nat) :=
  cells.take index ++ (content, none) :: List.replicate blanks ([], none)
    ++ cells.drop (index + 1)

section Cell

variable {front inner separators back : List Lexeme}

theorem rowFaces_of_inside (inside : ∀ lexeme ∈ front, lexeme.kind ≠ .separator) :
    rowFaces front = [cellFace front] := by
  rw [rowFaces, List.splitOnP_eq_singleton (by simpa using inside)]
  rfl

theorem rowFaces_append_cons {close : Lexeme}
    (inside : ∀ lexeme ∈ front, lexeme.kind ≠ .separator) (closes : close.kind = .separator)
    (rest : List Lexeme) :
    rowFaces (front ++ close :: rest) = cellFace front :: rowFaces rest := by
  rw [rowFaces, List.splitOnP_append_cons_of_forall_mem (by simpa using inside) close
    (by simp [closes])]
  rfl

theorem cellFace_of_empty (empty : ∀ lexeme ∈ front, lexeme.kind.fillsCell = false) :
    cellFace front = ([], none) := by
  have nothing : filledPart front = [] := by
    have same := filledPart_append empty []
    rwa [List.append_nil] at same
  rw [cellFace_eq, nothing]

/-- Separators part blank cells. -/
theorem rowFaces_separators (closes : ∀ lexeme ∈ separators, lexeme.kind = .separator)
    (inside : ∀ lexeme ∈ back, lexeme.kind ≠ .separator)
    (empty : ∀ lexeme ∈ back, lexeme.kind.fillsCell = false) :
    rowFaces (separators ++ back) = List.replicate (separators.length + 1) ([], none) := by
  induction separators with
  | nil => rw [List.nil_append, rowFaces_of_inside inside, cellFace_of_empty empty]; rfl
  | cons first rest ih =>
      have blank : cellFace [] = ([], none) := cellFace_of_empty (by simp)
      have shown := @rowFaces_append_cons [] first (by simp) (closes first List.mem_cons_self)
        (rest ++ back)
      rw [List.nil_append, blank, ih fun lexeme member =>
        closes lexeme (List.mem_cons_of_mem _ member)] at shown
      exact shown

/-- The cells that a split cell leaves. -/
theorem rowFaces_split (plain : ∀ lexeme ∈ inner, lexeme.IsPlain)
    (closes : ∀ lexeme ∈ separators, lexeme.kind = .separator)
    (inside : ∀ lexeme ∈ front ++ back, lexeme.kind ≠ .separator)
    (empty : ∀ lexeme ∈ front ++ back, lexeme.kind.fillsCell = false) :
    rowFaces (front ++ (inner ++ (separators ++ back)))
      = (filledText inner, none) :: List.replicate separators.length ([], none) := by
  obtain ⟨emptyFront, emptyBack⟩ := List.forall_mem_append.mp empty
  obtain ⟨insideFront, insideBack⟩ := List.forall_mem_append.mp inside
  have innerInside : ∀ lexeme ∈ inner, lexeme.kind ≠ .separator := by
    intro lexeme member
    rcases (plain lexeme member).kind with kindEq | kindEq <;> simp [kindEq]
  have shown : cellFace inner = (filledText inner, none) := by
    refine cellFace_of_unmerged fun lexeme member parts => ?_
    rcases (plain lexeme member).kind with kindEq | kindEq <;> simp [kindEq]
  have first : cellFace (front ++ inner) = (filledText inner, none) := by
    rw [← shown]
    exact cellFace_congr (filledPart_append emptyFront inner)
  cases separators with
  | nil =>
      have single : ∀ lexeme ∈ front ++ (inner ++ back), lexeme.kind ≠ .separator := by
        simp only [List.forall_mem_append]
        exact ⟨insideFront, innerInside, insideBack⟩
      rw [List.nil_append, rowFaces_of_inside single, ← List.append_assoc,
        cellFace_congr (filledPart_append_of_empty emptyBack), first]
      rfl
  | cons close rest =>
      have parted := rowFaces_append_cons (List.forall_mem_append.mpr ⟨insideFront, innerInside⟩)
        (closes close List.mem_cons_self) (rest ++ back)
      rw [List.append_assoc] at parted
      rw [List.cons_append, parted, first, rowFaces_separators
        (fun lexeme member => closes lexeme (List.mem_cons_of_mem _ member)) insideBack emptyBack]
      rfl

end Cell

section Row

variable {lexemes : List Lexeme} {document : Text} {start stop : Nat}

theorem staysBlank_of_empty {front : List Lexeme}
    (empty : ∀ lexeme ∈ front, lexeme.kind.fillsCell = false) : StaysBlank front := by
  induction front with
  | nil => trivial
  | cons first others ih =>
      exact ⟨empty first List.mem_cons_self, Or.inr (ih fun lexeme member =>
        empty lexeme (List.mem_cons_of_mem _ member))⟩

theorem StaysBlank.append {front rest : List Lexeme} (stays : StaysBlank front)
    (staysBehind : StaysBlank rest) : StaysBlank (front ++ rest) := by
  induction front with
  | nil => exact staysBehind
  | cons first others ih => exact ⟨stays.1, stays.2.imp_right ih⟩

theorem staysBlank_of_head? {rest : List Lexeme}
    (ends : ∀ close ∈ rest.head?, close.kind.endsCell = true) : StaysBlank rest := by
  cases rest with
  | nil => trivial
  | cons close rest =>
      have closes : close.kind.endsCell = true := ends close rfl
      refine ⟨?_, Or.inl closes⟩
      cases kindEq : close.kind <;> rw [kindEq] at closes <;>
        first | rfl | simp [Kind.endsCell] at closes

/-- A part of a row has the index of its cell. -/
theorem exists_part_of_cellsOf {closed : List (List Lexeme × Lexeme)} {last : List Lexeme}
    {index : Nat} {cell : Cell} (isCell : (cellsOf start closed last)[index]? = some cell) :
    ∃ place part, (closed.map (·.1) ++ [last])[index]? = some part ∧ cell = cellOf place part := by
  induction closed generalizing start index with
  | nil =>
      cases index with
      | zero => exact ⟨start, last, rfl, (Option.some.inj isCell).symm⟩
      | succ index => simp [cellsOf] at isCell
  | cons part rest ih =>
      cases index with
      | zero => exact ⟨start, part.1, rfl, (Option.some.inj isCell).symm⟩
      | succ index => exact ih isCell

/-- A row with a separator has one among its lexemes. -/
theorem exists_separator {terminator : Option Lexeme}
    (several : (rowOf start lexemes terminator).separators ≠ []) :
    ∃ lexeme ∈ lexemes, lexeme.kind = .separator := by
  obtain ⟨closedInside, -⟩ := segments_inside (·.kind == .separator) lexemes
  have whole := segments_flatten (·.kind == .separator) lexemes
  obtain ⟨span, member⟩ := List.exists_mem_of_ne_nil _ several
  obtain ⟨part, isPart, -⟩ := List.mem_map.mp member
  refine ⟨part.2, ?_, by simpa using (closedInside part isPart).2⟩
  rw [← whole]
  exact List.mem_append_left _ (List.mem_flatMap.mpr ⟨part, isPart, by simp⟩)

theorem makesRow_of_mem {lexeme : Lexeme} (member : lexeme ∈ lexemes)
    (counts : lexeme.kind = .separator ∨ lexeme.kind.fillsCell = true) :
    makesRow lexemes = true := by
  rw [makesRow, List.any_eq_true]
  exact ⟨lexeme, member, by simpa using counts⟩

theorem exists_fills_of_filledText (nonempty : filledText lexemes ≠ []) :
    ∃ lexeme ∈ lexemes, lexeme.kind.fillsCell = true := by
  obtain ⟨first, rest, filledEq⟩ : ∃ first rest, filledPart lexemes = first :: rest := by
    refine List.exists_cons_of_ne_nil fun nothing => nonempty ?_
    rw [filledText, nothing]
    rfl
  have isFirst : (filledPart lexemes).head? = some first := by rw [filledEq]; rfl
  exact ⟨first, (filledPart_isInfix lexemes).subset (List.mem_of_mem_head? isFirst),
    fillsCell_of_head? isFirst⟩

/-- A row shows the same but for a part of it that is replaced. -/
theorem rowsFaces_set {parts : List (List Lexeme)} {part part' : List Lexeme} {index : Nat}
    (whole : parts = parts.take index ++ part :: parts.drop (index + 1))
    (isRow : makesRow part = true)
    (isRow' : makesRow part' = true ∨ parts.drop (index + 1) ≠ []) :
    rowsFaces (parts.take index ++ part' :: parts.drop (index + 1))
      = (rowsFaces parts).set index (rowFaces part') := by
  have inside : index < parts.length := by
    have lengths := congrArg List.length whole
    simp only [List.length_append, List.length_cons, List.length_take, List.length_drop] at lengths
    omega
  have length : ((parts.take index).map rowFaces).length = index := by
    simp only [List.length_map, List.length_take]
    omega
  conv => rhs; rw [whole, rowsFaces_append_cons _ (Or.inl isRow)]
  rw [rowsFaces_append_cons _ isRow', List.set_append_right _ _ (Nat.le_of_eq length), length,
    Nat.sub_self, List.set_cons_zero]

/-- A merged cell can be split without regard to the other cells of its row. -/
theorem exists_around_merge_of_row
    (ordered : lexemes.Pairwise fun first second => first.stop ≤ second.start)
    (sound : ∀ lexeme ∈ lexemes, lexeme.Sound document) {index : Nat} {cell : Cell} {merge : Merge}
    (isCell : (rowOf start lexemes none).cells[index]? = some cell)
    (merged : cell.merge = some merge) (alone : cell.extent = merge.span) :
    ∃ lead parts behind,
      lexemes = lead ++ ⟨merge.span.start, .merge parts, parts.text⟩ :: behind ∧
      merge = parts.place merge.span.start ∧ cell.content = Text.trim parts.content ∧
      StaysBlank behind ∧
      ∀ inner separators, (∀ lexeme ∈ inner, lexeme.IsPlain) →
        (∀ lexeme ∈ separators, lexeme.kind = .separator) →
        rowFaces (lead ++ (inner ++ (separators ++ behind)))
          = splitFaces index separators.length (filledText inner) (rowFaces lexemes) := by
  obtain ⟨place, cellPart, isPart, rfl⟩ := exists_part_of_cellsOf isCell
  rw [← splitOnP_eq_segments] at isPart
  have inside : ∀ lexeme ∈ cellPart, lexeme.kind ≠ .separator := fun lexeme member => by
    simpa using of_mem_splitOnP (List.mem_of_getElem? isPart) member
  obtain ⟨cellFront, cellBack, lexemesEq, closesBack, replaced⟩ := exists_around_part isPart
  have within : cellPart.Sublist lexemes := by
    rw [lexemesEq]
    exact (List.sublist_append_left cellPart cellBack).trans
      (List.sublist_append_right cellFront _)
  obtain ⟨front, parts, back, rfl, mergeEq, contentEq, empty⟩ := exists_merge_of_cellOf
    (ordered.sublist within) (fun lexeme member => sound lexeme (within.subset member)) merged alone
  refine ⟨cellFront ++ front, parts, back ++ cellBack, by simp [lexemesEq], mergeEq, contentEq, ?_,
    fun inner separators plain closes => ?_⟩
  · refine (staysBlank_of_empty fun lexeme member => ?_).append
      (staysBlank_of_head? fun close isHead => ?_)
    · exact empty lexeme (List.mem_append_right _ member)
    · rw [show close.kind = .separator by simpa using closesBack close isHead]
      rfl
  · have insideParts : ∀ lexeme ∈ front ++ back, lexeme.kind ≠ .separator := by
      intro lexeme member
      refine inside lexeme ?_
      rcases List.mem_append.mp member with inFront | inBack
      · exact List.mem_append_left _ inFront
      · exact List.mem_append_right _ (List.mem_cons_of_mem _ inBack)
    have newCell := rowFaces_split plain closes insideParts empty
    have newRow := replaced (front ++ (inner ++ (separators ++ back)))
    simp only [List.append_assoc] at newRow ⊢
    rw [rowFaces, newRow, List.map_append, List.map_append, List.map_take, List.map_drop]
    rw [rowFaces] at newCell
    rw [newCell, splitFaces, rowFaces]
    simp

/-- A row can be replaced without regard to the other rows of the body, wherever that stands. -/
theorem exists_around_row {index : Nat} {row : Row}
    (isRow : (rowsOf start lexemes)[index]? = some row) :
    ∃ place front part back, lexemes = front ++ (part ++ back) ∧
      row.cells = (rowOf place part none).cells ∧
      row.separators = (rowOf place part none).separators ∧
      (∀ lexeme ∈ part, lexeme.kind ≠ .terminator) ∧
      (∀ close ∈ back.head?, close.kind = .terminator) ∧
      ∀ start' lexemes' part',
        lexemes'.map Lexeme.token = (front ++ (part' ++ back)).map Lexeme.token →
        (∀ lexeme ∈ part', lexeme.kind ≠ .terminator) → makesRow part = true →
        (makesRow part' = true ∨ row.terminator ≠ none) →
        (rowsOf start' lexemes').map Row.faces
          = ((rowsOf start lexemes).map Row.faces).set index (rowFaces part') := by
  obtain ⟨place, part, isPart, cellsEq, separatorsEq, terminated⟩ := exists_part_of_rowsFrom isRow
  rw [← splitOnP_eq_segments] at isPart
  have inside : ∀ lexeme ∈ part, lexeme.kind ≠ .terminator := fun lexeme member => by
    simpa using of_mem_splitOnP (List.mem_of_getElem? isPart) member
  obtain ⟨front, back, lexemesEq, closes, replaced⟩ := exists_around_part isPart
  refine ⟨place, front, part, back, lexemesEq, cellsEq, separatorsEq, inside,
    fun close isHead => by simpa using closes close isHead,
    fun start' lexemes' part' same inside' isRow isRow' => ?_⟩
  have parts := replaced part
  have parts' := replaced part'
  rw [@List.splitOnP_eq_singleton _ _ part (by simpa using inside), ← lexemesEq] at parts
  rw [@List.splitOnP_eq_singleton _ _ part' (by simpa using inside')] at parts'
  rw [map_faces_rowsOf, map_faces_rowsOf, rowsFaces_splitOnP_congr same, parts']
  refine rowsFaces_set parts isRow (isRow'.imp_right fun isTerminated => ?_)
  have inFront := terminated isTerminated
  rw [splitOnP_eq_segments, ← List.length_pos_iff]
  simp only [List.length_drop, List.length_append, List.length_map, List.length_singleton]
  omega

/-- What a merged cell is split into makes up a row if a separator or content is left. -/
theorem makesRow_split {lead inner separators behind : List Lexeme} {merge : Lexeme}
    (notSeparator : merge.kind ≠ .separator)
    (closes : ∀ lexeme ∈ separators, lexeme.kind = .separator)
    (counts : (rowOf start (lead ++ merge :: behind) none).separators ≠ [] ∨ separators ≠ [] ∨
      filledText inner ≠ []) :
    makesRow (lead ++ (inner ++ (separators ++ behind))) = true := by
  rcases counts with several | several | nonempty
  · obtain ⟨lexeme, member, kindEq⟩ := exists_separator several
    refine makesRow_of_mem ?_ (Or.inl kindEq)
    rcases List.mem_append.mp member with inLead | inBack
    · simp [inLead]
    rcases List.mem_cons.mp inBack with rfl | isBehind
    · exact absurd kindEq notSeparator
    · simp [isBehind]
  · obtain ⟨lexeme, member⟩ := List.exists_mem_of_ne_nil _ several
    exact makesRow_of_mem (by simp [member]) (Or.inl (closes lexeme member))
  · obtain ⟨lexeme, member, fills⟩ := exists_fills_of_filledText nonempty
    exact makesRow_of_mem (by simp [member]) (Or.inr fills)

/-- A merged cell can be split without regard to the other cells of the body. -/
theorem exists_around_merge
    (ordered : lexemes.Pairwise fun first second => first.stop ≤ second.start)
    (sound : ∀ lexeme ∈ lexemes, lexeme.Sound document) {index place : Nat} {row : Row}
    {cell : Cell} {merge : Merge} (isRow : (rowsOf start lexemes)[index]? = some row)
    (isCell : row.cells[place]? = some cell) (merged : cell.merge = some merge)
    (alone : cell.extent = merge.span) :
    ∃ lead parts behind,
      lexemes = lead ++ ⟨merge.span.start, .merge parts, parts.text⟩ :: behind ∧
      merge = parts.place merge.span.start ∧ cell.content = Text.trim parts.content ∧
      StaysBlank behind ∧
      ∀ start' inner separators behind', (∀ lexeme ∈ inner, lexeme.IsPlain) →
        (∀ lexeme ∈ separators, lexeme.kind = .separator) →
        behind'.map Lexeme.token = behind.map Lexeme.token →
        (row.terminator ≠ none ∨ row.separators ≠ [] ∨ separators ≠ [] ∨ filledText inner ≠ []) →
        (rowsOf start' (lead ++ (inner ++ (separators ++ behind')))).map Row.faces
          = ((rowsOf start lexemes).map Row.faces).set index
            (splitFaces place separators.length (filledText inner) row.faces) := by
  obtain ⟨rowStart, front, part, back, lexemesEq, cellsEq, separatorsEq, inside, closesBack,
    replaced⟩ := exists_around_row isRow
  have within : part.Sublist lexemes := by
    rw [lexemesEq]
    exact (List.sublist_append_left part back).trans (List.sublist_append_right front _)
  have facesEq : row.faces = rowFaces part := by
    rw [Row.faces, cellsEq]
    exact faces_rowOf rowStart part none
  rw [cellsEq] at isCell
  obtain ⟨lead, parts, behind, rfl, mergeEq, contentEq, stays, newRow⟩ :=
    exists_around_merge_of_row (ordered.sublist within)
      (fun lexeme member => sound lexeme (within.subset member)) isCell merged alone
  refine ⟨front ++ lead, parts, behind ++ back, by simp [lexemesEq], mergeEq, contentEq, ?_,
    fun start' inner separators behind' plain closes same counts => ?_⟩
  · refine stays.append (staysBlank_of_head? fun close isHead => ?_)
    rw [closesBack close isHead]
    rfl
  rw [facesEq, ← newRow inner separators plain closes]
  refine replaced start' _ _ (by simp [same]) (fun lexeme member => ?_)
    (makesRow_of_mem (List.mem_append_right _ List.mem_cons_self) (Or.inr rfl)) ?_
  · simp only [List.mem_append] at member
    rcases member with inLead | inInner | isSeparator | isBehind
    · exact inside lexeme (by simp [inLead])
    · rcases (plain lexeme inInner).kind with kindEq | kindEq <;> simp [kindEq]
    · simp [closes lexeme isSeparator]
    · exact inside lexeme (by simp [isBehind])
  · rcases counts with isTerminated | counts
    · exact Or.inr isTerminated
    · rw [separatorsEq] at counts
      exact Or.inl (makesRow_split (by simp) closes counts)

end Row

end LatexTabular.Body
