import LatexTabular.Edit.CodeUnit
import LatexTabular.Proofs.Edit.Validity
import LatexTabular.Proofs.Text.CodeUnit

/-!
# Edits of a document and of its UTF-16 code units

An editor that holds a document as UTF-16 code units and splices the converted edits into them
ends up with the code units of the edited document (`Batch.apply_inUnits`), since the conversion
of positions is strictly monotone on the boundaries of characters.
-/

namespace LatexTabular

namespace Edit

/-- Edits that fit a document come in the same order when they are converted. -/
theorem precedes_inUnits {document : Text} {first second : Edit}
    (firstFits : first.span.Fits document) (secondFits : second.span.Fits document) :
    (first.inUnits document).precedes (second.inUnits document) = first.precedes second := by
  have starts := Text.unitsOfByte_lt_unitsOfByte_iff firstFits.startBoundary
    secondFits.startBoundary
  have sameStart := Text.unitsOfByte_eq_unitsOfByte_iff firstFits.startBoundary
    secondFits.startBoundary
  have stops := Text.unitsOfByte_le_unitsOfByte_iff firstFits.stopBoundary
    secondFits.stopBoundary
  simp only [precedes, inUnits, Span.inUnits, starts, stops, beq_eq_decide, sameStart]

end Edit

namespace Batch

/-- Copy the code units of a document from position `start` on, replacing what the edits, in
the order of the document, cover. -/
def spliceUnits : (start : Nat) → List UInt16 → List Edit → List UInt16
  | _, units, [] => units
  | start, units, edit :: rest =>
      units.take (edit.span.start - start) ++ edit.replacement.units
        ++ spliceUnits edit.span.stop (units.drop (edit.span.stop - start)) rest

variable {document : Text} {batch : Batch}

theorem sorted_inUnits (fits : ∀ edit ∈ batch, edit.span.Fits document) :
    (inUnits document batch).sorted = inUnits document batch.sorted :=
  (List.map_mergeSort fun first isFirst second isSecond =>
    (Edit.precedes_inUnits (fits first isFirst) (fits second isSecond)).symm).symm

section Step

variable {edit : Edit} {edits : List Edit}

/-- What a copy does with a first edit, in a document of which the front part is copied. -/
theorem splice_cons (front kept removed remaining : Text)
    (start : edit.span.start = (front ++ kept).size)
    (stop : edit.span.stop = (front ++ kept ++ removed).size) :
    splice front.size (kept ++ (removed ++ remaining)) (edit :: edits)
      = kept ++ edit.replacement ++ splice (front ++ kept ++ removed).size remaining edits := by
  have toStart : edit.span.start - front.size = kept.size := by simp [start]
  have toStop : edit.span.stop - front.size = (kept ++ removed).size := by
    simp [stop]
  rw [splice, toStart, Text.takeBytes_size_append, toStop, ← List.append_assoc kept,
    Text.dropBytes_size_append, stop]

theorem spliceUnits_cons (front kept removed remaining : List UInt16)
    (start : edit.span.start = (front ++ kept).length)
    (stop : edit.span.stop = (front ++ kept ++ removed).length) :
    spliceUnits front.length (kept ++ (removed ++ remaining)) (edit :: edits)
      = kept ++ edit.replacement.units
        ++ spliceUnits (front ++ kept ++ removed).length remaining edits := by
  have toStart : edit.span.start - front.length = kept.length := by simp [start]
  have toStop : edit.span.stop - front.length = (kept ++ removed).length := by
    simp [stop]
  rw [spliceUnits, toStart, List.take_left, toStop, ← List.append_assoc kept, List.drop_left,
    stop]

end Step

/-- Splicing the converted edits goes along with splicing the edits themselves.  What lies in
front has been copied, and the rest of the document follows it. -/
theorem spliceUnits_inUnits (front rest : Text) (whole : document = front ++ rest)
    {edits : List Edit}
    (fits : ∀ edit ∈ edits, edit.span.Fits document ∧ front.size ≤ edit.span.start)
    (following : edits.Pairwise fun first second => first.span.stop ≤ second.span.start) :
    spliceUnits front.unitSize rest.units (inUnits document edits)
      = (splice front.size rest edits).units := by
  induction edits generalizing front rest with
  | nil => rfl
  | cons edit others ih =>
      obtain ⟨fit, behind⟩ := fits edit List.mem_cons_self
      obtain ⟨next, following⟩ := List.pairwise_cons.mp following
      obtain ⟨kept, behindStart, rfl, startEq⟩ :=
        Text.exists_append_of_isBoundary (whole ▸ fit.startBoundary) behind
      rw [← List.append_assoc] at whole
      obtain ⟨removed, remaining, rfl, stopEq⟩ :=
        Text.exists_append_of_isBoundary (whole ▸ fit.stopBoundary) (startEq ▸ fit.ordered)
      have start : document.unitsOfByte edit.span.start = (front ++ kept).unitSize := by
        rw [whole, startEq, Text.unitsOfByte_size_append]
      rw [← List.append_assoc] at whole
      have stop : document.unitsOfByte edit.span.stop = (front ++ kept ++ removed).unitSize := by
        rw [whole, stopEq, Text.unitsOfByte_size_append]
      have spliced := ih (front ++ kept ++ removed) remaining whole (fun other member =>
        ⟨(fits other (List.mem_cons_of_mem _ member)).1, stopEq ▸ next other member⟩) following
      have step := @spliceUnits_cons (edit.inUnits document) (inUnits document others)
        front.units kept.units removed.units remaining.units
        (by simpa [Edit.inUnits, Span.inUnits] using start)
        (by simpa [Edit.inUnits, Span.inUnits] using stop)
      simp only [← Text.units_append, Text.length_units] at step
      rw [splice_cons front kept removed remaining startEq stopEq,
        Text.units_append (kept ++ edit.replacement), ← spliced]
      exact step

/-- Of a valid batch no two converted edits overlap, and each lies in the code units of the
document and splits no surrogate pair. -/
theorem bounds_inUnits (fits : ∀ edit ∈ batch, edit.span.Fits document) :
    ∀ edit ∈ inUnits document batch, edit.span.start ≤ edit.span.stop ∧
      edit.span.stop ≤ document.units.length ∧
      Text.splitsPair document.units edit.span.start = false ∧
      Text.splitsPair document.units edit.span.stop = false := by
  intro converted member
  obtain ⟨edit, isEdit, rfl⟩ := List.mem_map.mp member
  have fit := fits edit isEdit
  obtain ⟨before, after, rfl, stop⟩ := Text.isBoundary_iff.mp fit.stopBoundary
  refine ⟨(Text.unitsOfByte_le_unitsOfByte_iff fit.startBoundary fit.stopBoundary).mpr fit.ordered,
    ?_, Text.splitsPair_unitsOfByte fit.startBoundary, Text.splitsPair_unitsOfByte fit.stopBoundary⟩
  simp [Edit.inUnits, Span.inUnits, ← stop, Text.unitsOfByte_size_append]

/-- Splicing the edits of a valid batch, with their positions in code units, into the code units
of the document gives those of the edited document.  The converted edits keep their order, lie
in the document one behind the other, and split no surrogate pair. -/
theorem apply_inUnits (valid : validate document batch = .ok ()) :
    ∃ result, apply document batch = .ok result ∧
      spliceUnits 0 document.units (inUnits document batch).sorted = result.units ∧
      (inUnits document batch).sorted = inUnits document batch.sorted ∧
      ((inUnits document batch).sorted.Pairwise fun first second =>
        first.span.stop ≤ second.span.start) ∧
      ∀ edit ∈ inUnits document batch, edit.span.start ≤ edit.span.stop ∧
        edit.span.stop ≤ document.units.length ∧
        Text.splitsPair document.units edit.span.start = false ∧
        Text.splitsPair document.units edit.span.stop = false := by
  obtain ⟨fits, following⟩ := pairwise_of_validate valid
  have batchFits : ∀ edit ∈ batch, edit.span.Fits document := (validate_eq_ok_iff.mp valid).1
  have sortedEq := sorted_inUnits batchFits
  refine ⟨splice 0 document batch.sorted, by rw [apply_eq_of_validate valid]; rfl, ?_, sortedEq,
    ?_, bounds_inUnits batchFits⟩
  · rw [sortedEq]
    exact spliceUnits_inUnits [] document rfl
      (fun edit member => ⟨fits edit member, Nat.zero_le _⟩) following
  · rw [sortedEq, inUnits, List.pairwise_map]
    exact following.imp_of_mem fun isFirst isSecond apart =>
      (Text.unitsOfByte_le_unitsOfByte_iff (fits _ isFirst).stopBoundary
        (fits _ isSecond).startBoundary).mpr apart

/-- A replacement behind a character of two code units, planned in front of an insertion in
front of it. -/
theorem apply_inUnits_paired :
    inUnits "é𝄞b".toList [⟨⟨6, 7⟩, "cd".toList⟩, .insertion 2 "x𝄞".toList]
        = [⟨⟨3, 4⟩, "cd".toList⟩, .insertion 1 "x𝄞".toList] ∧
      ∃ result, apply "é𝄞b".toList [⟨⟨6, 7⟩, "cd".toList⟩, .insertion 2 "x𝄞".toList] = .ok result ∧
        result.units = [0xE9, 0x78, 0xD834, 0xDD1E, 0xD834, 0xDD1E, 0x63, 0x64] ∧
        spliceUnits 0 (Text.units "é𝄞b".toList)
          [.insertion 1 "x𝄞".toList, ⟨⟨3, 4⟩, "cd".toList⟩] = result.units := by
  have valid : validate "é𝄞b".toList [⟨⟨6, 7⟩, "cd".toList⟩, .insertion 2 "x𝄞".toList]
      = .ok () := by cbv
  have converted : inUnits "é𝄞b".toList [⟨⟨6, 7⟩, "cd".toList⟩, .insertion 2 "x𝄞".toList]
      = [⟨⟨3, 4⟩, "cd".toList⟩, .insertion 1 "x𝄞".toList] := by decide +kernel
  have sortedEq : Batch.sorted [⟨⟨3, 4⟩, "cd".toList⟩, .insertion 1 "x𝄞".toList]
      = [.insertion 1 "x𝄞".toList, ⟨⟨3, 4⟩, "cd".toList⟩] := by
    simp [Batch.sorted, List.mergeSort, List.MergeSort.Internal.splitInTwo, Edit.precedes,
      Edit.insertion, Span.point]
  obtain ⟨result, applied, spliced, -⟩ := apply_inUnits valid
  rw [converted, sortedEq] at spliced
  exact ⟨converted, result, applied, spliced ▸ by decide +kernel, spliced⟩

end Batch

end LatexTabular
