import LatexTabular.Proofs.Sheet.Delimiters

/-!
# Reading a sheet

A sheet has one table, whether all tables are asked for or the one around an offset of
the tabular.  If its rules and terminators end where they are written, this is the
table of the sheet (`Sheet.readTable_eq`).
-/

namespace LatexTabular

open Markup Body

theorem Declaration.read_of_isBarred {offset : Nat} {specifier : Text} (body : Text)
    (barred : specifier.IsBarred) :
    read offset ('{' :: specifier ++ '}' :: body)
      = .ok ⟨specifier, offset + 1, body⟩ := by
  have noGap : spaces ('{' :: specifier ++ '}' :: body) = [] := by
    have opened : isSpace '{' = false := by decide
    simp [spaces, opened]
  have closed := untilClosed?_of_isOrdinary body (isOrdinary_of_isBarred barred)
  have behind : (specifier ++ '}' :: body).drop (specifier.length + 1) = body := by
    simp [List.drop_append]
  have fromBrace : readSpecifier offset ('{' :: specifier ++ '}' :: body)
      = .ok ⟨specifier, offset + 1, body⟩ := by
    simp only [readSpecifier, noGap]
    simp [closed]
  simp only [read, noGap]
  simpa using fromBrace

namespace Sheet

variable {sheet : Sheet}

theorem interior_tabular (sheet : Sheet) :
    sheet.text.slice sheet.tabular.interior = '{' :: sheet.specifier ++ '}' :: sheet.body := by
  have textEq : sheet.text = (sheet.lead ++ opening)
      ++ ('{' :: sheet.specifier ++ '}' :: sheet.body) ++ (closing ++ sheet.trail) := by
    simp [text, front]
  have spanEq : sheet.tabular.interior = ⟨(sheet.lead ++ opening).size,
      (sheet.lead ++ opening).size
        + Text.size ('{' :: sheet.specifier ++ '}' :: sheet.body)⟩ := by
    have opened : '{'.utf8Size = 1 := by decide
    have closed : '}'.utf8Size = 1 := by decide
    simp only [Environment.interior, tabular, bodyStart, specifierSpan, front, Text.size_append,
      Text.size_cons, Text.size_nil, opened, closed, Span.mk.injEq, true_and]
    omega
  rw [textEq, spanEq]
  exact Text.slice_append _ _ _

/-- The declaration of a sheet puts its specifier and its body where they stand. -/
theorem specifierStart_tabular (sheet : Sheet) :
    sheet.tabular.interior.start + 1 = sheet.specifierSpan.start := by
  have opened : Text.size ['{'] = 1 := by decide
  simp only [Environment.interior, tabular, specifierSpan, front, Text.size_append, opened]

/-- Nothing is nested in the body of a sheet. -/
theorem nested_tabular (sheet : Sheet) :
    ([sheet.tabular].map Environment.span).filter (fun span =>
      decide (sheet.bodyStart ≤ span.start)
        && decide (span.stop ≤ sheet.tabular.interior.stop)) = [] := by
  have before : ¬ sheet.bodyStart ≤ sheet.tabular.span.start := by
    simp only [bodyStart, specifierSpan, front, Environment.span, tabular, Text.size_append]
    omega
  simp [before]

/-- No float stands around the tabular of a sheet: the tabular is not around itself. -/
theorem float_tabular (sheet : Sheet) :
    Captioning.ofTabular? sheet.text [sheet.tabular] sheet.tabular.span = none := by
  simp [Captioning.ofTabular?]

/-- The rows that the body of a sheet is read as. -/
def readRows (sheet : Sheet) : List Row :=
  rowsOf sheet.bodyStart (lex [] sheet.bodyStart .start sheet.body)

/-- The table that a sheet is read as. -/
def readTable (sheet : Sheet) : Table :=
  { sheet.table with rows := sheet.readRows.map (Row.padded sheet.columnCount) }

/-- A guarded sheet is read as it is written. -/
theorem readTable_eq (wellFormed : sheet.WellFormed) (guarded : sheet.Guarded) :
    sheet.readTable = sheet.table := by
  have rows : sheet.readRows = sheet.laidRows :=
    rowsOf_lex_body wellFormed.nonempty wellFormed.rows wellFormed.closingGaps
      wellFormed.closingGap guarded
  rw [readTable, rows]
  rfl

/-- A tabular without environments in its body is read from its own text, and its float
from what stands around it. -/
theorem ofTabular_of_unnested (specifier : sheet.specifier.IsBarred)
    {environments : List Environment}
    (unnested : (environments.map Environment.span).filter (fun span =>
      decide (sheet.bodyStart ≤ span.start)
        && decide (span.stop ≤ sheet.tabular.interior.stop)) = []) :
    Table.ofTabular sheet.text environments sheet.tabular
      = .ok { sheet.readTable with
          float := Captioning.ofTabular? sheet.text environments sheet.tabular.span } := by
  have read := @Declaration.read_of_isBarred sheet.tabular.interior.start _ sheet.body specifier
  have spanEq : (⟨sheet.specifier, sheet.tabular.interior.start + 1, sheet.body⟩
      : Declaration).specifierSpan = sheet.specifierSpan := by
    simp only [Declaration.specifierSpan, specifierStart_tabular]
    rfl
  have startEq : (⟨sheet.specifier, sheet.tabular.interior.start + 1, sheet.body⟩
      : Declaration).bodyStart = sheet.bodyStart := by
    simp only [Declaration.bodyStart, spanEq]
    rfl
  simp only [Table.ofTabular, interior_tabular, read, bind, Except.bind, pure, Except.pure,
    startEq, spanEq, unnested]
  rfl

section Alone

variable (specifier : sheet.specifier.IsBarred)
  (alone : environments sheet.text = [sheet.tabular])

include specifier alone

theorem ofTabular_of_alone :
    Table.ofTabular sheet.text (environments sheet.text) sheet.tabular = .ok sheet.readTable := by
  rw [alone, ofTabular_of_unnested specifier (nested_tabular sheet), float_tabular]
  rfl

omit specifier in
theorem tabulars_of_alone : Table.tabulars (environments sheet.text) = [sheet.tabular] := by
  rw [alone]
  simp [Table.tabulars, tabular]

/-- The table of a sheet is the only one in it, if the tabular is the only environment. -/
theorem readAll_of_alone : Table.readAll sheet.text = .ok [sheet.readTable] := by
  simp only [Table.readAll, tabulars_of_alone alone, List.mapM_cons, List.mapM_nil,
    ofTabular_of_alone specifier alone]
  rfl

theorem readFirst_of_alone : Table.readFirst sheet.text = .ok sheet.readTable := by
  simp only [Table.readFirst, tabulars_of_alone alone, List.head?_cons]
  exact ofTabular_of_alone specifier alone

end Alone

/-- The table of a sheet is the only one in it. -/
theorem readAll_text (wellFormed : sheet.WellFormed) :
    Table.readAll sheet.text = .ok [sheet.readTable] :=
  readAll_of_alone wellFormed.specifier (environments_text wellFormed)

theorem readFirst_text (wellFormed : sheet.WellFormed) :
    Table.readFirst sheet.text = .ok sheet.readTable :=
  readFirst_of_alone wellFormed.specifier (environments_text wellFormed)

/-- A sheet ends with what stands behind its tabular. -/
theorem size_text (sheet : Sheet) :
    sheet.text.size = sheet.table.span.stop + sheet.trail.size := by
  have closed : '}'.utf8Size = 1 := by decide
  simp only [text, table, Environment.span, tabular, bodyStart, specifierSpan, Text.size_append,
    Text.size_cons, closed]
  omega

/-- Any offset of a tabular, its ends included, finds its table. -/
theorem readAt_of_alone (specifier : sheet.specifier.IsBarred)
    (alone : environments sheet.text = [sheet.tabular]) {offset : Nat}
    (begins : sheet.lead.size ≤ offset) (ends : offset + sheet.trail.size ≤ sheet.text.size) :
    Table.readAt sheet.text offset = .ok sheet.readTable := by
  have closes : offset ≤ sheet.tabular.span.stop := by
    have size : sheet.text.size = sheet.tabular.span.stop + sheet.trail.size := sheet.size_text
    omega
  have around : (sheet.tabular.span.start ≤ offset && offset ≤ sheet.tabular.span.stop) = true := by
    simpa using ⟨begins, closes⟩
  simp only [Table.readAt, tabulars_of_alone alone, List.filter_cons, around]
  exact ofTabular_of_alone specifier alone

theorem readAt_text (wellFormed : sheet.WellFormed) {offset : Nat}
    (begins : sheet.lead.size ≤ offset) (ends : offset + sheet.trail.size ≤ sheet.text.size) :
    Table.readAt sheet.text offset = .ok sheet.readTable :=
  readAt_of_alone wellFormed.specifier (environments_text wellFormed) begins ends

end Sheet

end LatexTabular
