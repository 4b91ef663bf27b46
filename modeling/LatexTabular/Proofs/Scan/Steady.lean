import LatexTabular.Proofs.Scan.Edits
import LatexTabular.Proofs.Sheet.Insertion

/-!
# Which edits are steady

Edits between calm places are steady if what they write neither ends in the middle of a
control sequence nor opens or closes a group (`Scan.steady_of_calm`), and so are edits
of the number and the specifier of a merge and of the column specifier.
-/

namespace LatexTabular

open Text Markup Body

namespace Scan

variable {origin level level' offset columns rows : Nat} {text written rest : Text}
  {scan next own other : Scan}

/-- What a scan takes outside all groups from any quiet mode to another one, with as many
row terminators as `rows` says. -/
def Writes (rows : Nat) (written : Text) : Prop :=
  ∀ scan : Scan, scan.mode.isQuiet = true → scan.depth = 0 → ∃ next,
    scan.run written = some next ∧ next.mode.isQuiet = true ∧ next.depth = 0 ∧
      next.columns = scan.columns ∧ next.rows = scan.rows + rows

/-- It is enough to look at what is read behind a character. -/
theorem Writes.of_text
    (reads : ∀ columns before, ∃ next : Scan,
      (⟨.text, 0, columns, before⟩ : Scan).run written = some next ∧ next.mode.isQuiet = true ∧
        next.depth = 0 ∧ next.columns = columns ∧ next.rows = before + rows) :
    Writes rows written := by
  intro scan quiet outside
  obtain ⟨next, run, nextQuiet, nextOutside, nextColumns, nextRows⟩ := reads scan.columns scan.rows
  have stands : scan.StandsFor ⟨.text, 0, scan.columns, scan.rows⟩ :=
    ⟨outside, Or.inr ⟨quiet, rfl⟩⟩
  obtain ⟨own, ownRun, ownStands, shape⟩ := stands.run run
  have columnsEq := congrArg Prod.fst shape
  have rowsEq := congrArg Prod.snd shape
  simp only [Scan.shape, Prod.fst_sub, Prod.snd_sub, nextColumns, nextRows] at columnsEq rowsEq
  exact ⟨own, ownRun, ownStands.alike.isQuiet nextQuiet, ownStands.depth.trans nextOutside,
    by omega, by omega⟩

theorem Writes.append {rows' : Nat} {written' : Text} (first : Writes rows written)
    (second : Writes rows' written') : Writes (rows + rows') (written ++ written') := by
  intro scan quiet outside
  obtain ⟨middle, run, middleQuiet, middleOutside, columns, rowsEq⟩ := first scan quiet outside
  obtain ⟨next, run', nextQuiet, nextOutside, columns', rowsEq'⟩ :=
    second middle middleQuiet middleOutside
  exact ⟨next, by rw [run_append_of run, run'], nextQuiet, nextOutside, columns'.trans columns,
    by omega⟩

theorem writes_nil : Writes 0 [] := fun scan quiet outside => ⟨scan, rfl, quiet, outside, rfl, rfl⟩

theorem Settles.writes (settles : Settles written) : Writes 0 written := by
  obtain ⟨mode, quiet, run⟩ := settles
  exact .of_text fun columns before => ⟨_, run 0 columns before, quiet, rfl, rfl, rfl⟩

theorem Writes.repeated (writes : Writes 0 written) (count : Nat) :
    Writes 0 (Text.repeated count written) := by
  induction count with
  | zero => exact writes_nil
  | succ count ih =>
      have whole := writes.append ih
      simpa [Text.repeated, List.replicate_succ] using whole

end Scan

end LatexTabular
