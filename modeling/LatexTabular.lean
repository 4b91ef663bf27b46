import LatexTabular.Main
import LatexTabular.Text.CodeUnit
import LatexTabular.Proofs.Command.Confinement
import LatexTabular.Proofs.Grid.RoundTrip
import LatexTabular.Proofs.Grid.Reading
import LatexTabular.Proofs.Body.Coverage
import LatexTabular.Proofs.Table.Coverage
import LatexTabular.Proofs.Table.Float
import LatexTabular.Proofs.Body.Geometry
import LatexTabular.Proofs.Table.Consistency
import LatexTabular.Proofs.Outline.Bare
import LatexTabular.Proofs.Page.Basic
import LatexTabular.Proofs.Page.Chain
import LatexTabular.Proofs.Command.Captions
import LatexTabular.Proofs.Command.Relocation
import LatexTabular.Proofs.Border.Chain
import LatexTabular.Proofs.Grid.Borders
import LatexTabular.Proofs.Figure.Block
import LatexTabular.Proofs.Figure.Captions
import LatexTabular.Proofs.Figure.Settling
import LatexTabular.Proofs.Table.Agreement
import LatexTabular.Proofs.Edit.CodeUnit
import LatexTabular.Proofs.Edit.Rearrangement
import LatexTabular.Proofs.Table.Widening
import LatexTabular.Proofs.Table.Uncommented
import LatexTabular.Proofs.Grid.Merging
import LatexTabular.Proofs.Command.Joining
import LatexTabular.Proofs.Specifier.Piece
import LatexTabular.Proofs.Specifier.Field
import LatexTabular.Proofs.Specifier.Rewriting
import LatexTabular.Proofs.Specifier.Alignment
import LatexTabular.Proofs.Specifier.Markup
import LatexTabular.Proofs.Specifier.Normal
import LatexTabular.Proofs.Specifier.Rules
import LatexTabular.Proofs.Command.Alignment
import LatexTabular.Proofs.Grid.Splitting
import LatexTabular.Proofs.Command.Splitting
import LatexTabular.Proofs.Table.Marks
import LatexTabular.Proofs.Table.Specifiers
import LatexTabular.Proofs.Command.CaptionRemoval
import LatexTabular.Proofs.Command.Words
import LatexTabular.Proofs.Table.Tiling
import LatexTabular.Proofs.Edit.LineDeletion
import LatexTabular.Proofs.Edit.BlockPlacement
import LatexTabular.Proofs.Text.Descent
import LatexTabular.Proofs.Markup.Escape
