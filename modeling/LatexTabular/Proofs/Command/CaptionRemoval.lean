import LatexTabular.Proofs.Command.Relocation
import LatexTabular.Proofs.Table.CaptionLayout

/-!
# Captions found and removed whole

A caption that is the only one of its float is found at its place, whole exactly if no white space
separates an optional group from its name, and then it is removed whole
(`Command.caption_whole_iff`).
-/

namespace LatexTabular

open Markup

/-- A document without a text is what stands around it. -/
theorem Text.without_append (before text after : Text) :
    (Text.without [⟨before.size, before.size + text.size⟩] (before ++ text ++ after)).ink
      = (before ++ after).ink := by
  have covers (offset : Nat) : ([⟨before.size, before.size + text.size⟩] : List Span).any
      (·.covers offset) = (decide (before.size ≤ offset)
        && decide (offset < before.size + text.size)) := by
    simp [Span.covers]
  rw [Text.ink_without, Text.inkWhere_append, Text.inkWhere_append, Text.inkWhere_of_forall,
    Text.inkWhere_of_forall_not, Text.inkWhere_of_forall, Text.ink_append, List.append_nil]
  · intro other begins ends
    rw [covers]
    simp only [Text.size_append] at begins
    simp
    omega
  · intro other begins ends
    rw [covers]
    simp
    omega
  · intro other begins ends
    rw [covers]
    simp
    omega

/-- The more spans are cut out, the less is left. -/
theorem Text.without_sublist {document : Text} {spans others : List Span} (more : others ⊆ spans) :
    (Text.without spans document).Sublist (Text.without others document) := by
  refine (List.monotone_filter_right _ fun place kept => ?_).map _
  simp only [Bool.not_eq_true', List.any_eq_false] at kept ⊢
  exact fun span member => kept span (more member)

namespace Command

open Captioning

/-- The caption of a tabular whose float holds no other one is found at its place.  It is found
whole exactly if no white space separates an optional group from its name, and then removing it
leaves nothing of it behind, as long as the label lies apart from it or within it. -/
theorem caption_whole_iff {document : Text} {tabular : Environment} {table : Table}
    (member : tabular ∈ Table.tabulars (environments document))
    (found : Table.ofTabular document (environments document) tabular = .ok table)
    {float : Environment} (surrounds : Surrounds document tabular.span float)
    {layout : Layout} (isProper : layout.IsProper) {before after : Text}
    (documentEq : document = before ++ layout.text ++ after)
    (alone : StandsAlone document float tabular.span
      ⟨before.size, before.size + layout.text.size⟩) :
    ∃ caption, table.caption = some caption ∧ caption.start = before.size ∧
      (caption.stop = (before ++ layout.text).size ↔ layout.IsTight) ∧
      (layout.IsTight → ∀ selection options,
        (∃ edit ∈ (removeCaption.plan table selection options).batch, edit.replacement = [] ∧
          edit.span.contains ⟨before.size, before.size + layout.text.size⟩ = true) ∧
        (table.LabelApartOrWithin → ∃ result,
          Batch.apply document (removeCaption.plan table selection options).batch = .ok result ∧
          result.ink.Sublist (before ++ after).ink)) := by
  obtain ⟨rfl, floatEq, -⟩ := Table.exists_body_of_ofTabular (List.mem_filter.mp member).1 found
  have place := caption_ofFloat surrounds.member isProper documentEq alone
  have captionEq : table.caption = (ofFloat table.document float tabular.span).caption := by
    rw [Table.caption, floatEq, surrounds.ofTabular?_eq]
    rfl
  rw [place] at captionEq
  refine ⟨_, captionEq, rfl, ?_, fun tight selection options => ?_⟩
  · have shorter : Text.size ('\\' :: Command.caption.name) < layout.text.size := by
      have positive := Text.size_pos_of_ne_nil layout.groups_ne_nil
      rw [Layout.text, Text.size_append]
      omega
    by_cases tight : layout.IsTight
    · simp [Layout.readSpan, tight, Text.size_append]
    · simp only [Layout.readSpan, tight, if_false, iff_false, Text.size_append]
      omega
  · rw [Layout.readSpan, if_pos tight] at captionEq
    have spells : table.document.Spells ⟨before.size, before.size + layout.text.size⟩ layout.text :=
      ⟨before, after, documentEq, rfl⟩
    constructor
    · refine ⟨_, List.mem_map_of_mem (List.mem_append_left _ (Option.mem_toList.mpr captionEq)),
        rfl, ?_⟩
      dsimp only [Edit.deletion]
      exact (Text.fits_wholeLine spells.fits).2
    · intro nested
      obtain ⟨result, applied, inked⟩ :=
        Plan.exists_ink_removeCaption (Plan.linesApart_of_float floatEq nested)
      refine ⟨result, applied, ?_⟩
      have isCaption : [⟨before.size, before.size + layout.text.size⟩]
          ⊆ Plan.captionSpans table := by
        rintro span isSpan
        obtain rfl := List.mem_singleton.mp isSpan
        exact List.mem_append_left _ (Option.mem_toList.mpr captionEq)
      have left := @Text.without_sublist table.document _ _ isCaption
      rw [inked, ← Text.without_append before layout.text after, ← documentEq]
      exact left.filter _

/-- A float with a caption that nests and hides braces and holds the label. -/
def fullCaption : Text :=
  "\\begin{table}\n\\caption[A \\\x7b] \x7bB \x7bC\x7d \\\x7d\\label\x7bt\x7d\x7d\n".toList
    ++ "\\begin{tabular}{c}\nx\n\\end{tabular}\n\\end{table}".toList

/-- The caption of `fullCaption` as it is written. -/
def fullLayout : Layout :=
  ⟨[], some "A \\\x7b".toList, [' '], "B \x7bC\x7d \\\x7d\\label\x7bt\x7d".toList⟩

theorem caption_whole_iff_fullCaption :
    ∃ tabular ∈ Table.tabulars (environments fullCaption), ∃ table,
      Table.ofTabular fullCaption (environments fullCaption) tabular = .ok table ∧
      table.LabelApartOrWithin ∧ fullLayout.IsProper ∧ fullLayout.IsTight ∧
      ∃ caption, table.caption = some caption ∧ caption.start = 14 ∧ caption.stop = 48 ∧
        ∃ result,
          Batch.apply fullCaption (removeCaption.plan table (.single 0 0) {}).batch = .ok result ∧
          result.ink.Sublist
            "\\begin{table}\\begin{tabular}{c}x\\end{tabular}\\end{table}".toList := by
  have delimited : delimiters fullCaption
      = [⟨true, "table".toList, ⟨0, 13⟩⟩, ⟨true, "tabular".toList, ⟨49, 64⟩⟩,
        ⟨false, "tabular".toList, ⟨70, 83⟩⟩, ⟨false, "table".toList, ⟨84, 95⟩⟩] := by
    decide +kernel
  have matched : environments fullCaption = [⟨"table".toList, ⟨0, 13⟩, ⟨84, 95⟩⟩,
      ⟨"tabular".toList, ⟨49, 64⟩, ⟨70, 83⟩⟩] :=
    environments_of_enclosed delimited (by decide)
  have isTabular : ⟨"tabular".toList, ⟨49, 64⟩, ⟨70, 83⟩⟩
      ∈ Table.tabulars (environments fullCaption) := by
    rw [matched]
    decide +kernel
  have facts : (Table.ofTabular fullCaption (environments fullCaption)
      ⟨"tabular".toList, ⟨49, 64⟩, ⟨70, 83⟩⟩).map (fun table => (table.caption, table.label))
      = .ok (some ⟨14, 48⟩, some ⟨38, 47⟩) := by
    rw [matched]
    decide +kernel
  have surrounds : Surrounds fullCaption ⟨49, 83⟩ ⟨"table".toList, ⟨0, 13⟩, ⟨84, 95⟩⟩ :=
    ⟨by rw [matched]; decide +kernel, by decide +kernel, by decide +kernel, by decide +kernel,
      by rw [matched]; decide +kernel⟩
  have closed : untilClosed? 0 (fullLayout.content ++ ['}']) = some fullLayout.content := by
    decide +kernel
  have isProper : fullLayout.IsProper :=
    ⟨by simp [fullLayout], by decide +kernel, by simp [fullLayout, isSpace],
      balanced_of_untilClosed? closed⟩
  have documentEq : fullCaption = "\\begin{table}\n".toList ++ fullLayout.text
      ++ "\n\\begin{tabular}{c}\nx\n\\end{tabular}\n\\end{table}".toList := by
    decide +kernel
  have alone : StandsAlone fullCaption ⟨"table".toList, ⟨0, 13⟩, ⟨84, 95⟩⟩ ⟨49, 83⟩ ⟨14, 48⟩ :=
    .of_prefixes (by decide +kernel) (by decide +kernel) (by decide +kernel) (by decide +kernel)
  obtain ⟨table, found, evaluated⟩ := exists_eq_ok_of_map facts
  obtain ⟨captionEq, labelEq⟩ := Prod.mk.inj evaluated
  have nested := Table.labelApartOrWithin_of_eq captionEq labelEq (.inr (.inr (by decide)))
  obtain ⟨caption, isCaption, starts, stops, removes⟩ :=
    caption_whole_iff isTabular found surrounds isProper documentEq alone
  have tight : fullLayout.IsTight := Or.inr rfl
  obtain ⟨result, applied, left⟩ := (removes tight (.single 0 0) {}).2 nested
  exact ⟨_, isTabular, table, found, nested, isProper, tight, caption, isCaption,
    starts.trans (by decide +kernel), (stops.mpr tight).trans (by decide +kernel), result,
    applied, left⟩

/-- A float with white space in front of the optional group of its caption. -/
def spacedCaption : Text :=
  "\\begin{table}\n\\caption [A]{B}\n\\begin{tabular}{c}\nx\n\\end{tabular}\n\\end{table}".toList

/-- The caption of `spacedCaption` as it is written. -/
def spacedLayout : Layout := ⟨[' '], some ['A'], [], ['B']⟩

/-- White space in front of the optional group keeps a caption from being found whole, and both
groups are left when it is removed. -/
theorem caption_cut_short :
    ∃ tabular ∈ Table.tabulars (environments spacedCaption), ∃ table,
      Table.ofTabular spacedCaption (environments spacedCaption) tabular = .ok table ∧
      (∃ float, Surrounds spacedCaption tabular.span float ∧
        StandsAlone spacedCaption float tabular.span ⟨14, 29⟩) ∧
      spacedLayout.IsProper ∧ spacedCaption.Spells ⟨14, 29⟩ spacedLayout.text ∧
      table.caption = some ⟨14, 22⟩ ∧
      Batch.apply spacedCaption (removeCaption.plan table (.single 0 0) {}).batch = .ok
        ("\\begin{table}\n [A]{B}\n"
          ++ "\\begin{tabular}{c}\nx\n\\end{tabular}\n\\end{table}").toList := by
  have delimited : delimiters spacedCaption
      = [⟨true, "table".toList, ⟨0, 13⟩⟩, ⟨true, "tabular".toList, ⟨30, 45⟩⟩,
        ⟨false, "tabular".toList, ⟨51, 64⟩⟩, ⟨false, "table".toList, ⟨65, 76⟩⟩] := by
    decide +kernel
  have matched : environments spacedCaption = [⟨"table".toList, ⟨0, 13⟩, ⟨65, 76⟩⟩,
      ⟨"tabular".toList, ⟨30, 45⟩, ⟨51, 64⟩⟩] :=
    environments_of_enclosed delimited (by decide)
  have isTabular : ⟨"tabular".toList, ⟨30, 45⟩, ⟨51, 64⟩⟩
      ∈ Table.tabulars (environments spacedCaption) := by
    rw [matched]
    decide +kernel
  have surrounds : Surrounds spacedCaption ⟨30, 64⟩ ⟨"table".toList, ⟨0, 13⟩, ⟨65, 76⟩⟩ :=
    ⟨by rw [matched]; decide +kernel, by decide +kernel, by decide +kernel, by decide +kernel,
      by rw [matched]; decide +kernel⟩
  have closed : untilClosed? 0 (spacedLayout.content ++ ['}']) = some spacedLayout.content := by
    decide +kernel
  have isProper : spacedLayout.IsProper :=
    ⟨by simp [spacedLayout, isSpace], by decide +kernel, by simp [spacedLayout],
      balanced_of_untilClosed? closed⟩
  have alone : StandsAlone spacedCaption ⟨"table".toList, ⟨0, 13⟩, ⟨65, 76⟩⟩ ⟨30, 64⟩ ⟨14, 29⟩ :=
    .of_prefixes (by decide +kernel) (by decide +kernel) (by decide +kernel) (by decide +kernel)
  have spells : spacedCaption.Spells ⟨14, 29⟩ spacedLayout.text :=
    ⟨"\\begin{table}\n".toList, "\n\\begin{tabular}{c}\nx\n\\end{tabular}\n\\end{table}".toList,
      by decide +kernel, by decide +kernel⟩
  have facts : (Table.ofTabular spacedCaption (environments spacedCaption)
      ⟨"tabular".toList, ⟨30, 45⟩, ⟨51, 64⟩⟩).map (fun table => (table.caption,
        (removeCaption.plan table (.single 0 0) {}).batch))
      = .ok (some ⟨14, 22⟩, [.deletion ⟨14, 22⟩]) := by
    rw [matched]
    decide +kernel
  obtain ⟨table, found, evaluated⟩ := exists_eq_ok_of_map facts
  obtain ⟨captionEq, batchEq⟩ := Prod.mk.inj evaluated
  refine ⟨_, isTabular, table, found, ⟨_, surrounds, alone⟩, isProper, spells, captionEq, ?_⟩
  have sorted : Batch.sorted [.deletion ⟨14, 22⟩] = [.deletion ⟨14, 22⟩] :=
    List.mergeSort_singleton _
  have fits : Edit.fits spacedCaption (.deletion ⟨14, 22⟩) = true := by decide +kernel
  have spliced : Batch.splice 0 spacedCaption [.deletion ⟨14, 22⟩] = ("\\begin{table}\n [A]{B}\n"
      ++ "\\begin{tabular}{c}\nx\n\\end{tabular}\n\\end{table}").toList := by
    decide +kernel
  rw [batchEq, Batch.apply, Batch.validate, sorted, spliced]
  simp [fits, Batch.overlap?]

end Command

end LatexTabular
