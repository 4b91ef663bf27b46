import LatexTabular.Proofs.Body.Unwrapping
import LatexTabular.Proofs.Edit.Rewrite
import LatexTabular.Proofs.Grid.Insertion
import LatexTabular.Proofs.Sheet.Merging
import LatexTabular.Proofs.Table.Lookup
import LatexTabular.Proofs.Table.Substitution

/-!
# Splitting a merged cell of any table

Splitting a merged cell takes the command away from its content and puts separators behind it.
Where neither the content nor what stands around it is read in another way then, the cell becomes a
plain one with its content and blank ones, and all other cells stay
(`Table.unmergeCells_splits`).
-/

namespace LatexTabular

open Markup Body

section Widths

/-- The number of columns that a shown cell takes. -/
def faceWidth (cell : Text × Option Nat) : Nat :=
  match cell.2 with
  | some columns => max columns 1
  | none => 1

theorem Cell.faceWidth_face (cell : Cell) : faceWidth cell.face = cell.width := by
  unfold faceWidth Cell.face Cell.width
  cases cell.merge <;> rfl

/-- Fill what a short row shows with blank cells. -/
def fillFaces (columnCount : Nat) (cells : List (Text × Option Nat)) : List (Text × Option Nat) :=
  cells ++ List.replicate (columnCount - (cells.map faceWidth).sum) ([], none)

theorem Row.faces_padded (columnCount : Nat) (row : Row) :
    (row.padded columnCount).faces = fillFaces columnCount row.faces := by
  have widths : (row.faces.map faceWidth).sum = Row.totalWidth row.cells := by
    rw [Row.faces, List.map_map, totalWidth_eq_sum]
    exact congrArg List.sum (List.map_congr_left fun cell _ => cell.faceWidth_face)
  rw [fillFaces, widths, Row.faces, Row.padded, List.map_append, List.map_replicate]
  rfl

/-- A split cell takes as many columns as before. -/
theorem fillFaces_splitFaces {cells : List (Text × Option Nat)} {index columns : Nat}
    {content : Text} (isCell : cells[index]? = some (content, some columns))
    (positive : 0 < columns) (columnCount : Nat) (shown : Text) :
    fillFaces columnCount (splitFaces index (columns - 1) shown cells)
      = splitFaces index (columns - 1) shown (fillFaces columnCount cells) := by
  have inside := (List.getElem?_eq_some_iff.mp isCell).1
  have whole : cells = cells.take index ++ (content, some columns) :: cells.drop (index + 1) := by
    have getEq := (List.getElem?_eq_some_iff.mp isCell).2
    rw [← getEq, List.cons_getElem_drop_succ, List.take_append_drop]
  have widths : ((splitFaces index (columns - 1) shown cells).map faceWidth).sum
      = (cells.map faceWidth).sum := by
    conv => rhs; rw [whole]
    simp only [splitFaces, List.map_append, List.map_cons, List.map_replicate, List.sum_append,
      List.sum_cons, List.sum_replicate, faceWidth, smul_eq_mul]
    omega
  have short : index + 1 ≤ cells.length := inside
  rw [fillFaces, widths, fillFaces, splitFaces, splitFaces, List.take_append_of_le_length inside.le,
    List.drop_append_of_le_length short]
  simp

end Widths

section Fence

/-- A fence follows what stays blank, but for white space. -/
theorem exists_fence {nested : List Span} {offset : Nat} {context : Context} {text : Text}
    (stays : StaysBlank (lex nested offset context text)) (uncommented : '%' ∉ text) {back : Text}
    (closes : back.head? = some '\\') :
    ∃ (gap : Text) (fence : Char) (rest : Text), text ++ back = gap ++ fence :: rest ∧ gap.IsSpace ∧
      isFence fence = true ∧ fence ≠ '}' := by
  induction text generalizing offset context with
  | nil =>
      obtain ⟨rest, rfl⟩ := List.head?_eq_some_iff.mp closes
      exact ⟨[], '\\', rest, rfl, by simp [Text.IsSpace], by decide, by decide⟩
  | cons head tail ih =>
      rw [lex_cons] at stays
      obtain ⟨empty, behind⟩ := stays
      generalize partEq : readPart nested offset context head tail = part at empty behind
      obtain ⟨kind, written⟩ := part
      have alone (isFenced : isFence head = true) (unclosed : head ≠ '}') :
          ∃ (gap : Text) (fence : Char) (rest : Text), head :: tail ++ back = gap ++ fence :: rest ∧
            gap.IsSpace ∧ isFence fence = true ∧ fence ≠ '}' :=
        ⟨[], head, tail ++ back, rfl, by simp [Text.IsSpace], isFenced, unclosed⟩
      cases readPart_eq_iff.mp partEq with
      | comment isPercent => exact absurd (by simp [isPercent]) uncommented
      | environment isBackslash => exact alone (by simp [isBackslash, isFence]) (by simp [isBackslash])
      | control isBackslash => exact alone (by simp [isBackslash, isFence]) (by simp [isBackslash])
      | separator isAmpersand => exact alone (by simp [isAmpersand, isFence]) (by simp [isAmpersand])
      | space isBlank =>
          obtain ⟨gap, fence, rest, restEq, spaces, isFenced, open'⟩ :=
            ih (behind.resolve_left (by simp [Kind.endsCell]))
              (fun member => uncommented (by simp [member]))
          exact ⟨head :: gap, fence, rest, by simp [restEq],
            List.forall_mem_cons.mpr ⟨isBlank, spaces⟩, isFenced, open'⟩
      | content => exact absurd empty (by simp [Kind.fillsCell])

end Fence

/-- What stands between the delimiters of the content of a merge. -/
def Merge.argument (document : Text) (merge : Merge) : Text :=
  document.slice ⟨merge.preamble.stop, merge.postamble.start⟩

/-- Whether the content of a merged cell is read in its row as it was in its command. -/
structure Merge.Splittable (document : Text) (table : Table) (tabular : Environment) (row : Row)
    (merge : Merge) : Prop where
  uncommented : '%' ∉ document
  positive : 0 < merge.columns
  /-- The content has no token of a table. -/
  free : IsFree (merge.argument document)
  /-- What a cell loses at the ends of its content is what TeX skips there. -/
  trimmed : ∃ left right, merge.argument document
      = left ++ (Text.trim (merge.argument document) ++ right) ∧ left.IsSpace ∧ right.IsSpace ∧
        '\\' ∉ (Text.trim (merge.argument document)).getLast?
  /-- The command has no delimiter of an environment. -/
  undelimited : delimitersFrom 0 (document.slice merge.span) = []
  /-- The content does not make one up with what stands in front of the command. -/
  unjoined : delimitersFrom 0 (document.takeBytes merge.span.start ++ merge.argument document)
    = delimitersFrom 0 (document.takeBytes merge.span.start)
  /-- What stands in front of the command is read alike in front of the content. -/
  undisturbed : Undisturbed (document.slice ⟨table.specifierSpan.stop + 1, merge.span.start⟩)
    (document.slice ⟨merge.span.start, tabular.closing.start⟩)
    (merge.argument document ++ (List.replicate (merge.columns - 1) '&'
      ++ document.slice ⟨merge.span.stop, tabular.closing.start⟩))
  /-- The row does not end up empty and without a terminator. -/
  kept : row.terminator ≠ none ∨ row.separators ≠ [] ∨ 1 < merge.columns ∨
    Text.trim (merge.argument document) ≠ []

section Environments

variable {document before remainder back : Text} {tabular : Environment} {table : Table}
  {row : Row} {merge : Merge} {parts : MergeText}

/-- The parts of a merge in its document. -/
theorem argument_eq (documentEq : document = before ++ (parts.text ++ (remainder ++ back)))
    (mergeEq : merge = parts.place before.size) :
    merge.span = ⟨before.size, before.size + parts.text.size⟩ ∧
      document.slice merge.span = parts.text ∧ merge.argument document = parts.content := by
  have spells : document.Spells ⟨before.size, before.size + parts.text.size⟩ parts.text :=
    ⟨before, remainder ++ back, by simp [documentEq], rfl⟩
  obtain ⟨-, content⟩ := MergeText.placed_place spells
  have spanEq : merge.span = ⟨before.size, before.size + parts.text.size⟩ := by
    rw [mergeEq, MergeText.stop_place]
    rfl
  refine ⟨spanEq, by rw [spanEq, spells.slice_eq], ?_⟩
  rw [mergeEq]
  exact content.slice_eq

/-- A command without delimiters adds none to what stands in front of it. -/
theorem delimitersFrom_append_command (undelimited : delimitersFrom 0 parts.text = []) :
    delimitersFrom 0 (before ++ parts.text) = delimitersFrom 0 before := by
  have apart := delimitersFrom_append_fence 0 before (show isFence '\\' = true by decide)
    parts.text.tail
  have moved := delimitersFrom_add 0 before.size parts.text
  rw [undelimited, List.map_nil] at moved
  have whole : '\\' :: parts.text.tail = parts.text := rfl
  have single := @delimitersFrom_append_of_noBrace 0 before ['\\'] (by decide)
  rw [whole, moved, List.append_nil, single] at apart
  exact apart

variable (splittable : merge.Splittable document table tabular row)
  (documentEq : document = before ++ (parts.text ++ (remainder ++ back)))
  (mergeEq : merge = parts.place before.size)

include splittable documentEq mergeEq

/-- Neither a merged cell nor what it is split into adds delimiters to what stands in front. -/
theorem delimitersFrom_split :
    delimitersFrom 0 (before ++ parts.text) = delimitersFrom 0 before ∧
      delimitersFrom 0 (before ++ (parts.content ++ List.replicate (merge.columns - 1) '&'))
        = delimitersFrom 0 before := by
  obtain ⟨spanEq, sliceEq, argumentEq⟩ := argument_eq documentEq mergeEq
  have undelimited := splittable.undelimited
  have unjoined := splittable.unjoined
  have frontEq : document.takeBytes merge.span.start = before := by
    rw [spanEq, documentEq, Text.takeBytes_size_append]
  rw [sliceEq] at undelimited
  rw [frontEq, argumentEq] at unjoined
  refine ⟨delimitersFrom_append_command undelimited, ?_⟩
  rw [← List.append_assoc, delimitersFrom_append_of_noBrace 0 _ (by simp), unjoined]

/-- Where a merged cell is split, the environments of the document stay. -/
theorem environments_split {nested : List Span} {offset : Nat} {context : Context}
    (stays : StaysBlank (lex nested offset context remainder)) (closes : back.head? = some '\\') :
    (∀ environment ∈ environments document, ∀ span ∈ environment.delimiterSpans,
        span.Outside before.size parts.text.size) ∧
      environments (before ++ (parts.content ++ List.replicate (merge.columns - 1) '&'
          ++ (remainder ++ back)))
        = (environments document).map (Environment.moved (movedBehind before.size parts.text.size
          (Text.size (parts.content ++ List.replicate (merge.columns - 1) '&')))) := by
  obtain ⟨-, -, argumentEq⟩ := argument_eq documentEq mergeEq
  obtain ⟨undelimited, undelimited'⟩ := delimitersFrom_split splittable documentEq mergeEq
  have uncommented := splittable.uncommented
  obtain ⟨gap, fence, rest, behindEq, spaces, isFenced, open'⟩ := exists_fence stays
    (fun member => uncommented (by simp [documentEq, member])) closes
  have noBrace : '}' ∉ gap := fun member => absurd (spaces _ member) (by decide)
  have plain : '%' ∉ parts.content ++ List.replicate (merge.columns - 1) '&' := by
    rw [List.mem_append, List.mem_replicate]
    rintro (inContent | ⟨-, isSeparator⟩)
    · exact splittable.free.comment (argumentEq ▸ inContent)
    · exact absurd isSeparator (by decide)
  rw [behindEq] at documentEq ⊢
  rw [documentEq] at uncommented ⊢
  exact ⟨fun _ member => outside_of_mem_environments isFenced open' noBrace uncommented
      undelimited member,
    environments_substituted isFenced open' noBrace uncommented undelimited
      (List.cons_ne_nil _ _) plain undelimited'⟩

end Environments

section Nested

variable {nested : List Span} {place old new : Nat}

/-- Behind a change environments stand as they did. -/
theorem nestedAlike_moved
    (outside : ∀ span ∈ nested, span.start < place ∨ place + old ≤ span.start)
    (ordered : ∀ span ∈ nested, span.start ≤ span.stop) (positive : 0 < old) :
    NestedAlike nested (nested.map (Span.moved (movedBehind place old new))) (place + old)
      (place + new) := by
  intro offset
  rw [find?_map_moved_add outside positive offset, Option.map_map]
  cases found : nested.find? (·.start == place + old + offset) with
  | none => rfl
  | some span =>
      have start : span.start = place + old + offset := by simpa using List.find?_some found
      have stop := ordered span (List.mem_of_find?_eq_some found)
      simp only [Option.map_some, Function.comp, Span.moved, movedBehind, Option.some.injEq]
      split <;> omega

/-- An environment that ends in front of a change is found as it was. -/
theorem find?_map_moved_eq_self
    (outside : ∀ span ∈ nested, span.start < place ∨ place + old ≤ span.start) {offset : Nat}
    (inFront : offset < place)
    (ends : ∀ span, nested.find? (·.start == offset) = some span → span.stop ≤ place) :
    (nested.map (Span.moved (movedBehind place old new))).find? (·.start == offset)
      = nested.find? (·.start == offset) := by
  rw [find?_map_moved_of_lt outside inFront]
  cases found : nested.find? (·.start == offset) with
  | none => rfl
  | some span =>
      have start : span.start = offset := by simpa using List.find?_some found
      rw [Option.map_some, Span.moved, movedBehind_of_le (by omega),
        movedBehind_of_le (ends span found)]

variable {table : Table} {stop : Nat} {span : Span}

/-- An environment in the body of a table begins outside a part that has none of its delimiters. -/
theorem Table.start_outside_of_mem_nested
    (outside : ∀ environment ∈ environments table.document, ∀ span ∈ environment.delimiterSpans,
      span.Outside place old) (isNested : span ∈ table.nested stop) :
    span.start < place ∨ place + old ≤ span.start := by
  obtain ⟨environment, isEnvironment, rfl⟩ := List.mem_map.mp (List.mem_filter.mp isNested).1
  have opening := outside environment isEnvironment environment.opening
    (by simp [Environment.delimiterSpans])
  unfold Span.Outside at opening
  exact opening.imp (fun inFront => inFront.1.trans_le inFront.2) (·.1)

theorem Table.ordered_of_mem_nested (isNested : span ∈ table.nested stop) :
    span.start ≤ span.stop := by
  obtain ⟨environment, isEnvironment, rfl⟩ := List.mem_map.mp (List.mem_filter.mp isNested).1
  exact (span_of_mem_environments isEnvironment).1.ordered

end Nested

namespace Table

variable {document : Text} {tabular : Environment} {table : Table} {offset : Nat}
  {selection : Selection} {row : Row} {index : Nat} {cell : Cell} {merge : Merge}

theorem eq_of_start_eq {first second : Environment} (isFirst : first ∈ environments document)
    (isSecond : second ∈ environments document) (same : first.span.start = second.span.start) :
    first = second := by
  by_contra different
  have symmetric : Std.Symm fun first second : Environment =>
      first.span.start ≠ second.span.start := ⟨fun _ _ => Ne.symm⟩
  have apart : (environments document).Pairwise fun first second =>
      first.span.start ≠ second.span.start :=
    (pairwise_start_environments document).imp Nat.ne_of_lt
  exact apart.forall isFirst isSecond different same

section Body

variable {lexemes : List Lexeme} (hasBody : table.HasBody tabular lexemes)

include hasBody

/-- An environment that starts where a lexeme does ends where it does. -/
theorem HasBody.stop_eq_of_find? {lexeme : Lexeme} (member : lexeme ∈ lexemes) {span : Span}
    (found : (table.nested tabular.closing.start).find? (·.start == lexeme.start) = some span) :
    span.stop = lexeme.stop := by
  have starts : span.start = lexeme.start := by simpa using List.find?_some found
  obtain ⟨isSpan, within⟩ := List.mem_filter.mp (List.mem_of_find?_eq_some found)
  obtain ⟨environment, isEnvironment, rfl⟩ := List.mem_map.mp isSpan
  simp only [Bool.and_eq_true, decide_eq_true_eq] at within
  obtain ⟨other, isOther, otherEq⟩ := hasBody.cutFrom.environment lexeme member
    ⟨environment, isEnvironment, starts, within.2⟩
  obtain rfl := eq_of_start_eq isEnvironment isOther (by rw [starts, otherEq]; rfl)
  rw [otherEq]
  rfl

/-- Lexemes in front of one are not empty and end in front of it. -/
theorem HasBody.bounds_of_eq_append {lead behind : List Lexeme} {next lexeme : Lexeme}
    (lexemesEq : lexemes = lead ++ next :: behind) (member : lexeme ∈ lead) :
    lexeme.start < next.start ∧ lexeme.stop ≤ next.start := by
  have inOrder := hasBody.chain.pairwise
  rw [lexemesEq] at inOrder
  have ends := (List.pairwise_append.mp inOrder).2.2 lexeme member _ List.mem_cons_self
  have nonempty := (hasBody.sound lexeme (by rw [lexemesEq]; simp [member])).start_lt_stop
  exact ⟨nonempty.trans_le ends, ends⟩

end Body

/-- A merged cell is none of those that fill a row. -/
theorem getElem?_of_padded {columnCount : Nat}
    (isCell : (row.padded columnCount).cells[index]? = some cell)
    (merged : cell.merge = some merge) : row.cells[index]? = some cell := by
  rw [Row.padded, List.getElem?_append] at isCell
  split at isCell
  · exact isCell
  · have member := List.mem_of_getElem? isCell
    rw [List.eq_of_mem_replicate member] at merged
    simp [Cell.blank] at merged

/-- Splitting a cell of rows before they are filled splits it behind. -/
theorem map_faces_padded_split {rows rows' : List Row} {place : Nat} {content : Text}
    (isCell : row.cells[index]? = some cell) (merged : cell.merge = some merge)
    (positive : 0 < merge.columns) (columnCount : Nat)
    (split : rows'.map Row.faces
      = (rows.map Row.faces).set place (splitFaces index (merge.columns - 1) content row.faces)) :
    (rows'.map (Row.padded columnCount)).map Row.faces
      = ((rows.map (Row.padded columnCount)).map Row.faces).set place
        (splitFaces index (merge.columns - 1) content (row.padded columnCount).faces) := by
  have isMerged : row.faces[index]? = some (cell.content, some merge.columns) := by
    rw [Row.faces, List.getElem?_map, isCell, Option.map_some, Cell.face, merged]
    rfl
  have padded (rows : List Row) : (rows.map (Row.padded columnCount)).map Row.faces
      = (rows.map Row.faces).map (fillFaces columnCount) := by
    rw [List.map_map, List.map_map]
    exact List.map_congr_left fun row _ => row.faces_padded columnCount
  rw [padded, padded, split, List.map_set, fillFaces_splitFaces isMerged positive,
    Row.faces_padded]

theorem repeated_bareSeparator (count : Nat) :
    Text.repeated count ({} : Options).bareSeparator = List.replicate count '&' := by
  have separator : ({} : Options).bareSeparator = ['&'] := by decide
  rw [separator, Text.repeated]
  induction count with
  | zero => rfl
  | succ count ih => rw [List.replicate_succ, List.flatten_cons, ih]; rfl

/-- Splitting a merged cell replaces its command by its content and separators. -/
theorem apply_unmergeCells {before after : Text} {parts : MergeText}
    (documentEq : document = before ++ (parts.text ++ after))
    (mergeEq : merge = parts.place before.size)
    (isCell : table.cellAt? selection.anchor.row selection.anchor.column = some cell)
    (merged : cell.merge = some merge) :
    Batch.apply document (Command.unmergeCells.plan table selection {}).batch
      = .ok (before ++ (parts.content ++ List.replicate (merge.columns - 1) '&' ++ after)) := by
  have planned : (Command.unmergeCells.plan table selection {}).batch
      = [.deletion merge.preamble, ⟨merge.postamble, List.replicate (merge.columns - 1) '&'⟩] := by
    simp only [Command.plan, Plan.unmergeCells, isCell, Option.bind_some, merged,
      repeated_bareSeparator]
    rfl
  have rewritten := (Rewrite.unwrapping 0 before parts.content after
    (List.replicate (merge.columns - 1) '&') (show parts.preamble ≠ [] by simp [MergeText.preamble])
    (List.cons_ne_nil '}' [])).rewrites.apply_eq
  have closed : Text.size ['}'] = 1 := by decide
  rw [List.append_assoc, planned, ← rewritten, documentEq, mergeEq]
  simp only [MergeText.text, MergeText.place, Nat.zero_add, closed, List.append_assoc]

/-- What fills a cell in the place of a merge is the content of the merged cell. -/
theorem filledText_of_splittable {inner : List Lexeme}
    (splittable : merge.Splittable document table tabular row)
    (plain : ∀ lexeme ∈ inner, lexeme.IsPlain) (textEq : textOf inner = merge.argument document) :
    filledText inner = Text.trim (merge.argument document) := by
  obtain ⟨left, right, argumentEq, spaceLeft, spaceRight, ends⟩ := splittable.trimmed
  refine filledText_of_isPlain plain (textEq.trans argumentEq) spaceLeft spaceRight
    (fun first isFirst => isSpace_eq_false_of_isBlank
      (Text.not_isBlank_of_head?_trim first isFirst))
    (fun last isLast => ⟨isSpace_eq_false_of_isBlank
      (Text.not_isBlank_of_getLast?_trim last isLast), ?_⟩)
  rintro rfl
  exact ends isLast

/-- What stands in front of a merged cell in its body is read alike in front of its content. -/
theorem undisturbed_of_splittable {front lead remainder back : Text} {parts : MergeText}
    (splittable : merge.Splittable document table tabular row)
    (documentEq : document = front ++ (lead ++ (parts.text ++ remainder) ++ back))
    (frontSize : front.size = table.specifierSpan.stop + 1)
    (bodySize : front.size + Text.size (lead ++ (parts.text ++ remainder)) = tabular.closing.start)
    (mergeEq : merge = parts.place (front ++ lead).size) :
    Undisturbed lead (parts.text ++ remainder)
      (parts.content ++ (List.replicate (merge.columns - 1) '&' ++ remainder)) := by
  obtain ⟨spanEq, -, argumentEq⟩ := @argument_eq document (front ++ lead) remainder back merge parts
    (by simp [documentEq]) mergeEq
  have leadSpells : document.Spells ⟨front.size, (front ++ lead).size⟩ lead :=
    ⟨front, parts.text ++ remainder ++ back, by simp [documentEq], by rw [Text.size_append]⟩
  have mergeSpells : document.Spells ⟨(front ++ lead).size, tabular.closing.start⟩
      (parts.text ++ remainder) :=
    ⟨front ++ lead, back, by simp [documentEq], by
      rw [← bodySize]
      simp only [Text.size_append, Nat.add_assoc]⟩
  have behindSpells : document.Spells
      ⟨(front ++ lead).size + parts.text.size, tabular.closing.start⟩ remainder :=
    ⟨front ++ lead ++ parts.text, back, by simp [documentEq], by
      rw [← bodySize]
      simp only [Text.size_append, Nat.add_assoc]⟩
  have given := splittable.undisturbed
  rwa [argumentEq, spanEq, ← frontSize, leadSpells.slice_eq, mergeSpells.slice_eq,
    behindSpells.slice_eq] at given

section Split

variable {front body back : Text} (sameDocument : table.document = document)
  (hasBody : table.HasBody tabular
    (lex (table.nested tabular.closing.start) front.size .start body))
  (documentEq : document = front ++ (body ++ back))
  (frontSize : front.size = table.specifierSpan.stop + 1)
  (bodySize : front.size + body.size = tabular.closing.start) (closes : back.head? = some '\\')
  (splittable : merge.Splittable document table tabular row)

include sameDocument hasBody documentEq frontSize bodySize closes splittable

/-- Where a merged cell is split the environments stay, and the lexemes of its content and of
separators take its place. -/
theorem exists_lex_split {lead behind : List Lexeme} {parts : MergeText}
    (lexed : lex (table.nested tabular.closing.start) front.size .start body
      = lead ++ ⟨merge.span.start, .merge parts, parts.text⟩ :: behind)
    (mergeEq : merge = parts.place merge.span.start) (stays : StaysBlank behind) :
    ∃ remainder new, body = textOf lead ++ (parts.text ++ remainder) ∧
      merge = parts.place (front ++ textOf lead).size ∧
      merge.argument document = parts.content ∧
      new = parts.content ++ List.replicate (merge.columns - 1) '&' ∧
      (∀ environment ∈ environments document, ∀ span ∈ environment.delimiterSpans,
        span.Outside (front ++ textOf lead).size parts.text.size) ∧
      environments (front ++ (textOf lead ++ (new ++ remainder) ++ back))
        = (environments document).map (Environment.moved
          (movedBehind (front ++ textOf lead).size parts.text.size (Text.size new))) ∧
      ∃ inner separators behind', lex ((table.nested tabular.closing.start).map (Span.moved
            (movedBehind (front ++ textOf lead).size parts.text.size (Text.size new)))) front.size
            .start (textOf lead ++ (new ++ remainder))
          = lead ++ (inner ++ (separators ++ behind')) ∧
        textOf inner = parts.content ∧ (∀ lexeme ∈ inner, lexeme.IsPlain) ∧
        separators.length = merge.columns - 1 ∧ (∀ lexeme ∈ separators, lexeme.kind = .separator) ∧
        behind'.map Lexeme.token = behind.map Lexeme.token := by
  have whole : ∀ lexeme ∈ lead, ∀ span,
      (table.nested tabular.closing.start).find? (·.start == lexeme.start) = some span →
        span.stop = lexeme.stop :=
    fun lexeme member span => hasBody.stop_eq_of_find? (by rw [lexed]; simp [member])
  generalize beforeEq : front ++ textOf lead = before
  generalize newEq : parts.content ++ List.replicate (merge.columns - 1) '&' = new
  have newSize : new.size = parts.content.size + (merge.columns - 1) := by
    rw [← newEq, Text.size_append, size_replicate_separator]
  obtain ⟨remainder, bodyEq, placeEq, lexedBehind, unwraps⟩ := @exists_lex_unwrapped _
    ((table.nested tabular.closing.start).map
      (Span.moved (movedBehind before.size parts.text.size new.size))) _ _ _ _ _ _
    lexed stays (fun member => splittable.uncommented (by simp [documentEq, member])) whole
  rw [← Text.size_append, beforeEq] at placeEq
  rw [placeEq] at mergeEq unwraps
  have partsEq : document = before ++ (parts.text ++ (remainder ++ back)) := by
    rw [documentEq, bodyEq, ← beforeEq]
    simp
  obtain ⟨-, -, argumentEq⟩ := argument_eq partsEq mergeEq
  obtain ⟨outside, moved⟩ := environments_split splittable partsEq mergeEq
    (by rw [lexedBehind]; exact stays) closes
  have edited : before ++ (new ++ (remainder ++ back))
      = front ++ (textOf lead ++ (new ++ remainder) ++ back) := by
    rw [← beforeEq]
    simp
  rw [newEq, edited] at moved
  have outsideNested : ∀ span ∈ table.nested tabular.closing.start,
      span.start < before.size ∨ before.size + parts.text.size ≤ span.start :=
    fun _ => start_outside_of_mem_nested (sameDocument ▸ outside)
  have positive : 0 < parts.text.size := Text.size_pos_of_ne_nil (List.cons_ne_nil _ _)
  have undisturbed := undisturbed_of_splittable splittable (bodyEq ▸ documentEq) frontSize
    (bodyEq ▸ bodySize) (by rw [beforeEq]; exact mergeEq)
  have lexedAgain := unwraps (merge.columns - 1) (argumentEq ▸ splittable.free) undisturbed
    (fun lexeme member => by
      have bounds := hasBody.bounds_of_eq_append lexed member
      rw [placeEq] at bounds
      exact find?_map_moved_eq_self outsideNested bounds.1 fun span isSpan =>
        (whole lexeme member span isSpan).trans_le bounds.2)
    (fun inside begins ends =>
      find?_map_moved_eq_none outsideNested positive begins (by omega))
    (by
      rw [Nat.add_assoc, ← newSize]
      exact nestedAlike_moved outsideNested (fun _ => ordered_of_mem_nested) positive)
  rw [← List.append_assoc parts.content, newEq] at lexedAgain
  exact ⟨remainder, new, bodyEq, mergeEq, argumentEq, rfl, outside, moved, lexedAgain⟩

end Split

/-- Splitting a merged cell puts its content in the first of as many plain cells as it had columns,
and leaves the others blank; nothing else changes. -/
theorem unmergeCells_splits (read : readAt document offset = .ok table)
    (isTabular : tabular ∈ environments document) (spanEq : table.span = tabular.span)
    (valid : selection.validate table = .ok ())
    (isRow : table.rows[selection.anchor.row]? = some row)
    (isIndex : row.cellIndex? selection.anchor.column = some index)
    (isCell : row.cells[index]? = some cell) (merged : cell.merge = some merge)
    (alone : cell.extent = merge.span)
    (splittable : merge.Splittable document table tabular row) :
    ∃ result split, Command.unmergeCells.apply document offset (some selection) {} = .ok result ∧
      readAt result.document table.span.start = .ok split ∧
      split.rows.map Row.faces = (table.rows.map Row.faces).set selection.anchor.row
        (splitFaces index (merge.columns - 1) cell.content row.faces) := by
  obtain ⟨tabular', isTabular', found⟩ := exists_tabular_of_readAt read
  have isEnvironment := (sublist_tabulars document).subset isTabular'
  obtain ⟨sameDocument, -, lexemes, -, hasBody⟩ := exists_body_of_ofTabular isEnvironment found
  obtain rfl := eq_of_start_eq isTabular isEnvironment (by rw [← spanEq, hasBody.span])
  obtain ⟨front, body, back, documentEq, frontSize, bodySize, closes, rowsEq, changes⟩ :=
    exists_read_substituted isTabular' found
  obtain rfl := hasBody.eq_lex (sameDocument.trans documentEq) frontSize bodySize
  have inTable : table.cellAt? selection.anchor.row selection.anchor.column = some cell := by
    simp [cellAt?, Row.cellAt?, isRow, isIndex, isCell]
  rw [rowsEq, List.getElem?_map] at isRow
  obtain ⟨written, isWritten, rfl⟩ := Option.map_eq_some_iff.mp isRow
  have isCell := getElem?_of_padded isCell merged
  obtain ⟨lead, parts, behind, lexed, mergeEq, contentEq, stays, splits⟩ := exists_around_merge
    hasBody.chain.pairwise hasBody.sound isWritten isCell merged alone
  obtain ⟨remainder, new, bodyEq, mergeEq, argumentEq, newEq, outside, moved, inner, separators,
      behind', lexedAgain, innerEq, plain, length, kinds, tokens⟩ :=
    exists_lex_split sameDocument hasBody documentEq frontSize bodySize closes splittable lexed
      mergeEq stays
  have filled : filledText inner = cell.content := by
    rw [filledText_of_splittable splittable plain (innerEq.trans argumentEq.symm), argumentEq,
      contentEq]
  have faces := splits front.size inner separators behind' plain kinds tokens (by
    refine splittable.kept.imp id (Or.imp id (Or.imp (fun several empty => ?_) fun inked => ?_))
    · rw [empty, List.length_nil] at length
      omega
    · rwa [filled, contentEq, ← argumentEq])
  rw [← lexedAgain, length, filled] at faces
  obtain ⟨changed, readChanged, changedRows⟩ :=
    changes (textOf lead) parts.text remainder new bodyEq (List.cons_ne_nil _ _) outside moved
  have partsEq : document = (front ++ textOf lead) ++ (parts.text ++ (remainder ++ back)) := by
    rw [documentEq, bodyEq]
    simp
  obtain ⟨result, applied, resultEq⟩ := @Command.apply_eq_ok .unmergeCells _ _ _ _ _ read valid
    (apply_unmergeCells partsEq mergeEq inTable merged)
  refine ⟨result, changed, applied, ?_, ?_⟩
  · have edited : front ++ textOf lead ++ (new ++ (remainder ++ back))
        = front ++ (textOf lead ++ (new ++ remainder) ++ back) := by simp
    rw [resultEq, ← newEq, edited]
    exact readChanged
  · rw [changedRows, rowsEq]
    exact map_faces_padded_split isCell merged splittable.positive _ faces

/-- A rule in front of a cell over two columns. -/
def spanned : Text :=
  "\\begin\x7btabular\x7d\x7blll\x7d\n".toList
    ++ "\\hline \\multicolumn\x7b2\x7d\x7bc\x7d\x7bab\x7d & c \\\\\n\\end\x7btabular\x7d".toList

def spannedMerge : Merge where
  span := ⟨28, 50⟩
  columns := 2
  number := ⟨41, 42⟩
  specifier := ⟨44, 45⟩
  preamble := ⟨28, 47⟩
  postamble := ⟨49, 50⟩

def spannedRow : Row where
  span := ⟨20, 57⟩
  rules := [⟨21, 27⟩]
  cells := [⟨['a', 'b'], ⟨47, 49⟩, ⟨28, 50⟩, some spannedMerge⟩, ⟨['c'], ⟨53, 54⟩, ⟨53, 54⟩, none⟩]
  separators := [⟨51, 52⟩]
  terminator := some ⟨55, 57⟩

def spannedTable : Table where
  document := spanned
  span := ⟨0, 71⟩
  specifierSpan := ⟨16, 19⟩
  rows := [spannedRow]
  float := none

def spannedTabular : Environment where
  name := "tabular".toList
  opening := ⟨0, 15⟩
  closing := ⟨58, 71⟩

/-- The blank behind the rule keeps it apart from the content. -/
theorem splittable_spanned :
    spannedMerge.Splittable spanned spannedTable spannedTabular spannedRow where
  uncommented := by decide
  positive := by decide
  free := {
    separator := by decide
    comment := by decide
    controls := fun front rest argumentEq =>
      absurd (argumentEq ▸ by simp : '\\' ∈ spannedMerge.argument spanned) (by decide) }
  trimmed := ⟨[], [], by decide, by simp [Text.IsSpace], by simp [Text.IsSpace], by decide⟩
  undelimited := by decide +kernel
  unjoined := by decide +kernel
  undisturbed := .of_forall_tails (by decide +kernel)
  kept := Or.inl (by decide)

theorem unmergeCells_splits_spanned :
    readAt spanned 0 = .ok spannedTable ∧
    ∃ result split, Command.unmergeCells.apply spanned 0 (some ⟨⟨0, 0⟩, ⟨0, 0⟩⟩) {} = .ok result ∧
      readAt result.document 0 = .ok split ∧
      split.rows.map Row.faces = [[(['a', 'b'], none), ([], none), (['c'], none)]] := by
  have read : readAt spanned 0 = .ok spannedTable := by decide +kernel
  obtain ⟨result, split, applied, readAgain, shown⟩ := @unmergeCells_splits spanned spannedTabular
    spannedTable 0 ⟨⟨0, 0⟩, ⟨0, 0⟩⟩ spannedRow 0 _ spannedMerge read (by decide +kernel) rfl
    (by decide +kernel) rfl (by decide) rfl rfl rfl splittable_spanned
  exact ⟨read, result, split, applied, readAgain, shown.trans (by decide)⟩

end Table

end LatexTabular
