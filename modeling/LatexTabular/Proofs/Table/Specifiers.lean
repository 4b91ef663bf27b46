import LatexTabular.Proofs.Body.Commands
import LatexTabular.Proofs.Specifier.Braces
import LatexTabular.Proofs.Table.Consistency

/-!
# The specifiers of a table

The column specifier of a table and those of its merges are cut out of the document as balanced
texts (`Table.balanced_of_isSpecifier`), so that their groups end alike for both readers of braces
unless hidden braces come in between (`Table.specifier_groups_iff`).
-/

namespace LatexTabular

open Markup Body

theorem Declaration.balanced_of_read {offset : Nat} {text : Text} {declaration : Declaration}
    (found : read offset text = .ok declaration) : Balanced 0 declaration.specifier := by
  have ofSpecifier {offset : Nat} {text : Text}
      (found : readSpecifier offset text = .ok declaration) :
      Balanced 0 declaration.specifier := by
    simp only [readSpecifier] at found
    split at found
    · split at found
      next specifier closed =>
        obtain rfl := Except.ok.inj found
        exact balanced_of_untilClosed? closed
      next => simp at found
    · simp at found
  simp only [read] at found
  split at found
  · split at found
    · exact ofSpecifier found
    · simp at found
  · exact ofSpecifier found

namespace Body.MergeText

theorem balanced_of_read? {text : Text} {parts : MergeText} (found : read? text = some parts) :
    Balanced 0 parts.specifier :=
  balanced_of_untilClosed? ((read?_eq_some_iff.mp found).1.specifier [])

/-- The specifier of a merge stands where its place says. -/
theorem spells_specifier {document : Text} {start : Nat} {parts : MergeText}
    (spells : document.Spells ⟨start, start + parts.text.size⟩ parts.text) :
    document.Spells (parts.place start).specifier parts.specifier := by
  have opened : Text.size ['{'] = 1 := by decide
  have closed : Text.size ['}'] = 1 := by decide
  have command : Text.size ('\\' :: name) = 1 + name.size := by decide
  have whole : parts.text = '\\' :: name ++ parts.numberGap ++ ['{'] ++ parts.number ++ ['}']
      ++ parts.specifierGap ++ ['{'] ++ parts.specifier
      ++ (['}'] ++ parts.contentGap ++ ['{'] ++ parts.content ++ ['}']) := by
    simp [text, preamble]
  have spelled := spells.middle whole
  simp only [Text.size_append, command, opened, closed, ← Nat.add_assoc] at spelled
  exact spelled

end Body.MergeText

namespace Table

/-- The specifiers of a table: that of its columns and those of its merges. -/
def IsSpecifier (table : Table) (specifier : Text) : Prop :=
  specifier = table.specifier ∨ ∃ merge ∈ table.merges, specifier = table.slice merge.specifier

theorem balanced_specifier {document : Text} {tabular : Environment} {table : Table}
    (member : tabular ∈ environments document)
    (found : ofTabular document (environments document) tabular = .ok table) :
    Balanced 0 table.specifier := by
  obtain ⟨_, interior, _, -, -, -, interiorSpells, -⟩ := exists_spells_of_mem_environments member
  simp only [ofTabular, interiorSpells.slice_eq] at found
  cases readEq : Declaration.read tabular.interior.start interior with
  | error error => simp [readEq, bind, Except.bind] at found
  | ok declaration =>
      simp only [readEq, bind, Except.bind, pure, Except.pure, Except.ok.injEq] at found
      subst found
      obtain ⟨lead, interiorEq, startEq⟩ := Declaration.exists_front_of_read readEq
      have specifierSpells := interiorSpells.middle interiorEq
      rw [← startEq] at specifierSpells
      have specifierEq : document.slice declaration.specifierSpan = declaration.specifier :=
        specifierSpells.slice_eq
      simp only [specifier, slice, specifierEq]
      exact Declaration.balanced_of_read readEq

/-- The specifiers of a table are balanced. -/
theorem balanced_of_isSpecifier {document : Text} {tabular : Environment} {table : Table}
    (member : tabular ∈ environments document)
    (found : ofTabular document (environments document) tabular = .ok table) {specifier : Text}
    (isSpecifier : table.IsSpecifier specifier) : Balanced 0 specifier := by
  rcases isSpecifier with rfl | ⟨merge, isMerge, rfl⟩
  · exact balanced_specifier member found
  · obtain ⟨rfl, -, lexemes, -, hasBody⟩ := exists_body_of_ofTabular member found
    obtain ⟨row, isRow, isMerge⟩ := List.mem_flatMap.mp isMerge
    obtain ⟨cell, isCell, merged⟩ := List.mem_filterMap.mp isMerge
    obtain ⟨lexeme, inBody, parts, kindEq, rfl⟩ :=
      ((hasBody.madeOf isRow).cells cell isCell).exists_lexeme_of_merge merged
    have sound := hasBody.sound lexeme inBody
    have spells := sound.spells
    rw [sound.ofMerge parts kindEq, Lexeme.span, Lexeme.stop, sound.ofMerge parts kindEq] at spells
    obtain ⟨body, -, lexed⟩ := hasBody.lexed
    obtain ⟨text, read⟩ := exists_read?_of_mem_lex (lexed ▸ inBody) kindEq
    rw [slice, (MergeText.spells_specifier spells).slice_eq]
    exact MergeText.balanced_of_read? read

/-- A group of a specifier ends with the brace that closes it for the reader that cut the specifier
out, exactly if that reader closes it and the braces of its content, hidden ones included, do not
close it first and, unless it ends the specifier, are as many of either kind.  Where this holds of
all groups, as in every specifier without hidden braces, each letter outside the braces makes a
column. -/
theorem specifier_groups_iff {document : Text} {tabular : Environment} {table : Table}
    (member : tabular ∈ tabulars (environments document))
    (found : ofTabular document (environments document) tabular = .ok table) {specifier : Text}
    (isSpecifier : table.IsSpecifier specifier) :
    (∀ before group after, Specifier.pieces specifier = before ++ .group group :: after →
      (Specifier.EndsAlike group (Specifier.textOf after) ↔ ∃ content rest,
        braceGroup? (group ++ Specifier.textOf after) = some content ∧
          group ++ Specifier.textOf after = '{' :: content ++ '}' :: rest ∧
          Specifier.NeverCloses 0 content ∧
          (content.count '}' = content.count '{' ∨ rest = []))) ∧
      (Specifier.AllEndAlike specifier → (Specifier.columns specifier).map (·.alignment)
        = ((Specifier.scannedMarks 0 specifier).filter (·.makesColumn)).map
          (.ofLetter ·.character)) ∧
      (Specifier.HidesNoBrace specifier → Specifier.AllEndAlike specifier) := by
  have balanced := balanced_of_isSpecifier (List.mem_filter.mp member).1 found isSpecifier
  exact ⟨fun before group after split => Specifier.endsAlike_iff split,
    Specifier.map_alignment_columns_of_allEndAlike balanced,
    Specifier.allEndAlike_of_hidesNoBrace balanced⟩

/-- A tabular with a hidden brace in its column specifier and none in that of its merge. -/
def braced : Text :=
  "\\begin\x7btabular\x7d\x7b>\x7b\\\x7b\x7dll\x7d\n\\multicolumn\x7b2\x7d\x7b>\x7b\\bf\x7dc\x7d\x7bx\x7d \\\\\n\\end\x7btabular\x7d".toList

theorem specifier_groups_iff_braced :
    ∃ tabular ∈ tabulars (environments braced), ∃ table,
      ofTabular braced (environments braced) tabular = .ok table ∧
      table.IsSpecifier ">\x7b\\\x7b\x7dll".toList ∧
      ¬ Specifier.AllEndAlike ">\x7b\\\x7b\x7dll".toList ∧
      table.IsSpecifier ">\x7b\\bf\x7dc".toList ∧
      Specifier.AllEndAlike ">\x7b\\bf\x7dc".toList ∧
      (Specifier.columns ">\x7b\\bf\x7dc".toList).map (·.alignment) = [.center] := by
  have isTabular : ⟨"tabular".toList, ⟨0, 15⟩, ⟨56, 69⟩⟩ ∈ tabulars (environments braced) := by
    decide +kernel
  have specifiers : (ofTabular braced (environments braced)
      ⟨"tabular".toList, ⟨0, 15⟩, ⟨56, 69⟩⟩).map
        (fun table => (table.specifier, table.merges.map fun merge => table.slice merge.specifier))
      = .ok (">\x7b\\\x7b\x7dll".toList, [">\x7b\\bf\x7dc".toList]) := by decide +kernel
  obtain ⟨table, found, evaluated⟩ := exists_eq_ok_of_map specifiers
  obtain ⟨ofTable, ofMerges⟩ := Prod.mk.inj evaluated
  have first : table.IsSpecifier ">\x7b\\\x7b\x7dll".toList := Or.inl ofTable.symm
  have second : table.IsSpecifier ">\x7b\\bf\x7dc".toList := by
    have member : ">\x7b\\bf\x7dc".toList
        ∈ table.merges.map fun merge => table.slice merge.specifier := by
      rw [ofMerges]
      exact List.mem_singleton_self _
    obtain ⟨merge, isMerge, specifierEq⟩ := List.mem_map.mp member
    exact Or.inr ⟨merge, isMerge, specifierEq.symm⟩
  obtain ⟨groups, -, -⟩ := specifier_groups_iff isTabular found first
  obtain ⟨-, letters, bare⟩ := specifier_groups_iff isTabular found second
  have alike := bare (by decide)
  refine ⟨_, isTabular, table, found, first, fun all => ?_, second, alike, ?_⟩
  · have split : Specifier.pieces ">\x7b\\\x7b\x7dll".toList
        = [.symbol '>'] ++ .group "\x7b\\\x7b\x7dll".toList :: [] := by decide +kernel
    obtain ⟨content, rest, closed, wholeEq, -, counts⟩ :=
      (groups _ _ _ split).mp (all _ _ _ split)
    have content' : content = "\\\x7b".toList := by
      have known : braceGroup? "\x7b\\\x7b\x7dll".toList = some "\\\x7b".toList := by
        decide +kernel
      exact Option.some.inj (closed.symm.trans known)
    subst content'
    have restEq : "ll".toList = rest := by simpa using wholeEq
    rcases counts with counted | none
    · exact absurd counted (by decide)
    · exact absurd (restEq.trans none) (by decide)
  · rw [letters alike]
    decide +kernel

end Table

end LatexTabular
