import LatexTabular.Proofs.Scan.Lexing
import LatexTabular.Proofs.Sheet.Delimiters

/-!
# Delimiters and scans

No delimiter of an environment starts in a text that has been scanned
(`Scan.delimitersFrom_append`), and no comment does.
-/

namespace LatexTabular

open Text Markup Body

namespace Scan

variable {scan final : Scan} {text tail : Text}

theorem drop_length_takeWhile (accepts : Char → Bool) (text : Text) :
    text.drop (text.takeWhile accepts).length = text.dropWhile accepts := by
  have parts : text.takeWhile accepts ++ text.dropWhile accepts = text :=
    List.takeWhile_append_dropWhile
  calc text.drop (text.takeWhile accepts).length
      = (text.takeWhile accepts ++ text.dropWhile accepts).drop
          (text.takeWhile accepts).length := by rw [parts]
    _ = text.dropWhile accepts := List.drop_left

/-- In a quiet mode no brace comes next, also behind blank characters. -/
theorem bracedName?_eq_none (quiet : scan.mode.isQuiet = true)
    (reached : scan.run text = some final) (command : tail.head? = some '\\') :
    bracedName? ((text ++ tail).drop ((text ++ tail).takeWhile isBlank).length) = none := by
  have inked : isBlank '\\' = false := by decide
  obtain ⟨others, rfl⟩ := List.head?_eq_some_iff.mp command
  have parts : text.takeWhile isBlank ++ text.dropWhile isBlank = text :=
    List.takeWhile_append_dropWhile
  rw [← parts] at reached
  obtain ⟨next, -, nextQuiet, behind⟩ := exists_run_of_blanks
    (fun character member => List.mem_takeWhile_imp member) quiet reached
  have heads := head_ne_of_run nextQuiet behind
  rw [drop_length_takeWhile, List.dropWhile_append]
  cases stripped : text.dropWhile isBlank with
  | nil => simp [inked, bracedName?]
  | cons head rest =>
      have notOpening := (heads head (by rw [stripped]; rfl)).1
      simp only [List.isEmpty_cons, Bool.false_eq_true, if_false, List.cons_append]
      unfold bracedName?
      split
      next opened => exact absurd (List.cons.inj opened).1 notOpening
      next => rfl

/-- A word in front of a command stands in the text in front of that. -/
theorem exists_word {word rest : Text} (letters : ∀ character ∈ word, isLetter character = true)
    (command : tail.head? = some '\\') (whole : text ++ tail = word ++ rest) :
    ∃ behind, text = word ++ behind ∧ rest = behind ++ tail := by
  rcases List.append_eq_append_iff.mp whole with ⟨more, rfl, tailEq⟩ | ⟨behind, rfl, rfl⟩
  · cases more with
    | nil => exact ⟨[], by simp, by simpa using tailEq.symm⟩
    | cons head others =>
        obtain rfl : head = '\\' := by simpa [tailEq] using command
        exact absurd (letters '\\' (by simp)) (by decide)
  · exact ⟨behind, rfl, rfl⟩

/-- No delimiter is named behind a backslash that has been scanned. -/
theorem bracedName?_of_word {word rest : Text}
    (reached : scan.run ('\\' :: text) = some final) (quiet : final.mode.isQuiet = true)
    (command : tail.head? = some '\\') (nonempty : word ≠ [])
    (letters : ∀ character ∈ word, isLetter character = true)
    (notMerge : word ≠ MergeText.name) (harmful : isHarmless word = false)
    (whole : text ++ tail = word ++ rest) :
    bracedName? (rest.drop (rest.takeWhile isBlank).length) = none := by
  obtain ⟨behind, rfl, rfl⟩ := exists_word letters command whole
  obtain ⟨next, first, others⟩ := run_cons_eq_some.mp reached
  obtain ⟨target, effect, found, taken⟩ := step_eq_some.mp first
  obtain ⟨-, nextEq⟩ := take_eq_some.mp taken
  have nextMode : next.mode = target := by rw [nextEq]
  by_cases resting : scan.mode = .escape
  · have isText : next.mode = .text := by
      rw [resting] at found
      rcases Mode.next_of_escape found with
        ⟨letter, -, -⟩ | ⟨-, rfl, -⟩ | ⟨-, -, notBackslash, -, -⟩
      · exact absurd letter (by decide)
      · exact nextMode
      · exact absurd rfl notBackslash
    have word : next.run word = some next := by
      refine run_of_outside (fun character member => ?_) isText
      exact outside_of_isLetter (letters character member)
    rw [run_append_of word] at others
    exact bracedName?_eq_none (by rw [isText]; rfl) others command
  · obtain ⟨-, rfl, -⟩ := Mode.next_backslash resting found
    rw [run_append_of (run_name nextMode nonempty letters)] at others
    cases behind with
    | nil =>
        obtain rfl := Option.some.inj others
        exact absurd (harmful.symm.trans quiet) (by decide)
    | cons head more =>
        have isNext : isLetter head = true := by
          obtain ⟨middle, third, -⟩ := run_cons_eq_some.mp others
          obtain ⟨target, effect, found, -⟩ := step_eq_some.mp third
          by_contra noLetter
          simp [Mode.next, noLetter, notMerge, harmful] at found
        have inked : isBlank head = false := by
          cases blank : isBlank head with
          | false => rfl
          | true =>
              exact absurd (isNext.symm.trans (isLetter_eq_false_of_isBlank blank)) (by decide)
        have notOpening : head ≠ '{' := by
          rintro rfl
          exact absurd isNext (by decide)
        rw [drop_length_takeWhile, List.cons_append,
          List.dropWhile_cons_of_neg (by simp [inked])]
        unfold bracedName?
        split
        next opened => exact absurd (List.cons.inj opened).1 notOpening
        next => rfl

/-- No delimiter starts at a backslash that has been scanned. -/
theorem delimiter?_eq_none (offset : Nat) (reached : scan.run ('\\' :: text) = some final)
    (quiet : final.mode.isQuiet = true) (command : tail.head? = some '\\') :
    delimiter? offset ('\\' :: (text ++ tail)) = none := by
  refine delimiter?_eq_none_of_unnamed fun word rest known textEq => ?_
  have nonempty : word ≠ [] := by rcases known with rfl | rfl <;> decide
  have letters : word.all isLetter = true := by rcases known with rfl | rfl <;> decide
  have notMerge : word ≠ MergeText.name := by rcases known with rfl | rfl <;> decide
  have harmful : isHarmless word = false := by rcases known with rfl | rfl <;> decide
  exact bracedName?_of_word reached quiet command nonempty (List.all_eq_true.mp letters) notMerge
    harmful textEq

/-- No delimiter starts in a text that has been scanned. -/
theorem delimitersFrom_append (offset : Nat) (reached : scan.run text = some final)
    (quiet : final.mode.isQuiet = true) (command : tail.head? = some '\\') :
    delimitersFrom offset (text ++ tail) = delimitersFrom (offset + text.size) tail := by
  induction text generalizing scan offset with
  | nil => rfl
  | cons head rest ih =>
      obtain ⟨next, -, others⟩ := run_cons_eq_some.mp reached
      have none : delimiter? offset (head :: (rest ++ tail)) = none := by
        by_cases isBackslash : head = '\\'
        · subst isBackslash
          exact delimiter?_eq_none offset reached quiet command
        · exact delimiter?_eq_none_of_ne isBackslash
      rw [List.cons_append, delimitersFrom, none, ih _ others, size_cons, Nat.add_assoc]

/-- No comment starts in a text that has been scanned. -/
theorem notMem_of_run (reached : scan.run text = some final) : '%' ∉ text := by
  induction text generalizing scan with
  | nil => simp
  | cons head rest ih =>
      obtain ⟨next, first, others⟩ := run_cons_eq_some.mp reached
      obtain ⟨target, effect, found, -⟩ := step_eq_some.mp first
      have notPercent : '%' ≠ head := by
        rintro rfl
        simp [Mode.next_percent] at found
      exact List.not_mem_cons_of_ne_of_not_mem notPercent (ih others)

end Scan

end LatexTabular
