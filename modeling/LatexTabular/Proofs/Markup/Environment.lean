import LatexTabular.Markup.Environment
import LatexTabular.Proofs.Text.Boundary

/-!
# Where environments stand

The delimiters of a document follow one another without overlap, because a
backslash stands nowhere but at their front.  An environment therefore has an
interior between its two delimiters, and all three are parts of the document
(`exists_spells_of_mem_environments`).
-/

namespace LatexTabular.Markup

theorem eq_append_of_after? {lead text rest : Text}
    (found : Text.after? lead text = some rest) : text = lead ++ rest := by
  unfold Text.after? at found
  split at found
  next leads =>
    rw [← Option.some.inj found]
    exact List.prefix_iff_eq_append.mp (List.isPrefixOf_iff_prefix.mp leads) |>.symm
  next => simp at found

theorem after?_append (lead rest : Text) :
    Text.after? lead (lead ++ rest) = some rest := by
  simp [Text.after?]

/-- A name in braces is read as it is written, and no backslash is part of it. -/
theorem eq_append_of_bracedName? {text name : Text}
    (found : bracedName? text = some name) :
    (∃ rest, text = '{' :: name ++ '}' :: rest) ∧ '\\' ∉ name := by
  have letters (rest : Text) : '\\' ∉ rest.takeWhile Text.isLetter := by
    intro member
    exact absurd (List.mem_takeWhile_imp member) (by decide)
  unfold bracedName? at found
  split at found
  next rest =>
    have whole : rest.takeWhile Text.isLetter
        ++ rest.drop (rest.takeWhile Text.isLetter).length = rest :=
      List.prefix_iff_eq_append.mp (List.takeWhile_prefix _)
    split at found
    next => simp at found
    next =>
      split at found
      next after closed =>
        obtain rfl := Option.some.inj found
        rw [closed] at whole
        exact ⟨⟨after, by rw [List.cons_append, whole]⟩, letters rest⟩
      next after closed =>
        obtain rfl := Option.some.inj found
        rw [closed] at whole
        refine ⟨⟨after, ?_⟩, by simpa using letters rest⟩
        conv => lhs; rw [← whole]
        simp
      next => simp at found
  next => simp at found

/-- The text of a delimiter: a backslash, its command, blank characters and the
name in braces. -/
theorem exists_text_of_delimiter? {offset : Nat} {text : Text} {delimiter : Delimiter}
    (found : delimiter? offset text = some delimiter) :
    ∃ written rest, text = '\\' :: written ++ rest ∧ '\\' ∉ written ∧
      delimiter.span = ⟨offset, offset + Text.size ('\\' :: written)⟩ := by
  have fromCommand (command : Text) {rest name : Text} (plain : '\\' ∉ command)
      (behind : text = '\\' :: command ++ rest)
      (named : bracedName? (rest.drop (rest.takeWhile Text.isBlank).length) = some name) :
      ∃ written after, text = '\\' :: written ++ after ∧ '\\' ∉ written ∧
        offset + Text.size ('\\' :: written)
          = offset + Text.size ('\\' :: command)
            + Text.size (rest.takeWhile Text.isBlank) + name.size + 2 := by
    obtain ⟨⟨after, braced⟩, namePlain⟩ := eq_append_of_bracedName? named
    have whole : rest.takeWhile Text.isBlank
        ++ rest.drop (rest.takeWhile Text.isBlank).length = rest :=
      List.prefix_iff_eq_append.mp (List.takeWhile_prefix _)
    have gapPlain : '\\' ∉ rest.takeWhile Text.isBlank := by
      intro member
      exact absurd (List.mem_takeWhile_imp member) (by decide)
    refine ⟨command ++ rest.takeWhile Text.isBlank ++ '{' :: name ++ ['}'], after,
      ?_, ?_, ?_⟩
    · rw [braced] at whole
      conv => lhs; rw [behind, ← whole]
      simp
    · simp [plain, namePlain, gapPlain]
    · have brace : Text.size ['}'] = 1 := by decide
      have opened : '{'.utf8Size = 1 := by decide
      simp only [Text.size_cons, Text.size_append, brace, opened]
      omega
  unfold delimiter? at found
  simp only [Option.orElse_eq_or, Option.or_eq_some_iff, Option.bind_eq_bind,
    Option.bind_eq_some_iff, Option.pure_def, Option.some.injEq] at found
  rcases found with ⟨rest, isBegin, name, named, rfl⟩ | ⟨-, rest, isEnd, name, named, rfl⟩
  · obtain ⟨written, after, textEq, plain, sizes⟩ :=
      fromCommand "begin".toList (by decide) (eq_append_of_after? isBegin) named
    exact ⟨written, after, textEq, plain, by rw [sizes]; rfl⟩
  · obtain ⟨written, after, textEq, plain, sizes⟩ :=
      fromCommand "end".toList (by decide) (eq_append_of_after? isEnd) named
    exact ⟨written, after, textEq, plain, by rw [sizes]; rfl⟩

theorem delimiter?_eq_none_of_ne {offset : Nat} {head : Char} {rest : Text}
    (plain : head ≠ '\\') : delimiter? offset (head :: rest) = none := by
  by_contra found
  obtain ⟨delimiter, found⟩ := Option.ne_none_iff_exists'.mp found
  obtain ⟨written, after, textEq, -, -⟩ := exists_text_of_delimiter? found
  exact plain (List.cons.inj textEq).1

/-- A backslash begins no delimiter where no name in braces follows a word behind it. -/
theorem delimiter?_eq_none_of_unnamed {offset : Nat} {text : Text}
    (unnamed : ∀ word rest, word = "begin".toList ∨ word = "end".toList → text = word ++ rest →
      bracedName? (rest.drop (rest.takeWhile Text.isBlank).length) = none) :
    delimiter? offset ('\\' :: text) = none := by
  by_contra isSome
  obtain ⟨delimiter, found⟩ := Option.ne_none_iff_exists'.mp isSome
  have lacks {word rest name : Text} (known : word = "begin".toList ∨ word = "end".toList)
      (behind : Text.after? ('\\' :: word) ('\\' :: text) = some rest)
      (named : bracedName? (rest.drop (rest.takeWhile Text.isBlank).length) = some name) :
      False := by
    have textEq := (List.cons.inj (eq_append_of_after? behind)).2
    rw [unnamed word rest known textEq] at named
    exact absurd named (by simp)
  simp only [delimiter?, Option.orElse_eq_or, Option.or_eq_some_iff, Option.bind_eq_bind,
    Option.bind_eq_some_iff, Option.pure_def, Option.some.injEq] at found
  rcases found with ⟨rest, isBegin, name, named, -⟩ | ⟨-, rest, isEnd, name, named, -⟩
  · exact lacks (Or.inl rfl) isBegin named
  · exact lacks (Or.inr rfl) isEnd named

/-- No delimiter starts in a text without a backslash. -/
theorem delimitersFrom_append_of_notMem (offset : Nat) {text : Text} (rest : Text)
    (plain : '\\' ∉ text) :
    delimitersFrom offset (text ++ rest) = delimitersFrom (offset + text.size) rest := by
  induction text generalizing offset with
  | nil => rfl
  | cons head text ih =>
      have headPlain : head ≠ '\\' := fun equal => plain (by simp [equal])
      have textPlain : '\\' ∉ text := fun member => plain (List.mem_cons_of_mem _ member)
      simp only [List.cons_append, delimitersFrom, delimiter?_eq_none_of_ne headPlain,
        ih _ textPlain, Text.size_cons, Nat.add_assoc]

/-- A delimiter stands in the text where its span says, and begins with a backslash. -/
theorem exists_spells_of_mem_delimitersFrom {offset : Nat} {text : Text}
    {delimiter : Delimiter} (member : delimiter ∈ delimitersFrom offset text) :
    ∃ before written after, text = before ++ written ++ after ∧ written.head? = some '\\' ∧
      delimiter.span = ⟨offset + before.size, offset + before.size + written.size⟩ := by
  induction text generalizing offset with
  | nil => simp [delimitersFrom] at member
  | cons head rest ih =>
      have later (inRest : delimiter ∈ delimitersFrom (offset + head.utf8Size) rest) :
          ∃ before written after : Text, head :: rest = before ++ written ++ after ∧
            written.head? = some '\\' ∧
            delimiter.span = ⟨offset + before.size, offset + before.size + written.size⟩ := by
        obtain ⟨before, written, after, rfl, begins, spanEq⟩ := ih inRest
        refine ⟨head :: before, written, after, rfl, begins, ?_⟩
        simpa [Nat.add_assoc] using spanEq
      simp only [delimitersFrom] at member
      split at member
      next first found =>
        rcases List.mem_cons.mp member with rfl | inRest
        · obtain ⟨written, after, textEq, -, spanEq⟩ := exists_text_of_delimiter? found
          exact ⟨[], '\\' :: written, after, textEq, rfl, by simpa using spanEq⟩
        · exact later inRest
      next => exact later member

/-- Each delimiter ends before or where the next one starts. -/
theorem pairwise_delimitersFrom (offset : Nat) (text : Text) :
    (delimitersFrom offset text).Pairwise fun first second =>
      first.span.stop ≤ second.span.start := by
  induction text generalizing offset with
  | nil => exact .nil
  | cons head rest ih =>
      simp only [delimitersFrom]
      split
      next first found =>
        refine List.pairwise_cons.mpr ⟨?_, ih _⟩
        intro second member
        obtain ⟨written, after, textEq, plain, spanEq⟩ := exists_text_of_delimiter? found
        obtain ⟨rfl, restEq⟩ := List.cons.inj textEq
        rw [restEq, List.append_eq, delimitersFrom_append_of_notMem _ _ plain] at member
        obtain ⟨before, _, _, -, -, spanEq'⟩ := exists_spells_of_mem_delimitersFrom member
        rw [spanEq, spanEq', Text.size_cons]
        dsimp only
        omega
      next => exact ih _

namespace Environment

/-- A matched pair consists of two of the given delimiters, the opening one in
front. -/
theorem exists_delimiters_of_mem_matching {pending delimiters : List Delimiter}
    {environment : Environment}
    (pendingFirst : ∀ first ∈ pending, ∀ second ∈ delimiters,
      first.span.stop ≤ second.span.start)
    (ordered : delimiters.Pairwise fun first second =>
      first.span.stop ≤ second.span.start)
    (member : environment ∈ matching pending delimiters) :
    ∃ opener ∈ pending ++ delimiters, ∃ closer ∈ delimiters,
      environment = ⟨opener.name, opener.span, closer.span⟩ ∧
        opener.span.stop ≤ closer.span.start := by
  induction delimiters generalizing pending with
  | nil => simp [matching] at member
  | cons delimiter rest ih =>
      obtain ⟨next, ordered⟩ := List.pairwise_cons.mp ordered
      have restFirst : ∀ first ∈ pending, ∀ second ∈ rest,
          first.span.stop ≤ second.span.start := fun first inPending second inRest =>
        pendingFirst first inPending second (List.mem_cons_of_mem _ inRest)
      simp only [matching] at member
      split at member
      next =>
        obtain ⟨opener, isOpener, closer, isCloser, related⟩ :=
          ih (by simpa using ⟨next, restFirst⟩) ordered member
        exact ⟨opener, by simp at isOpener ⊢; tauto, closer,
          List.mem_cons_of_mem _ isCloser, related⟩
      next =>
        split at member
        next opener outer found =>
          have sub : ∀ first ∈ opener :: outer, first ∈ pending := by
            intro first inFound
            rw [← found] at inFound
            exact (List.dropWhile_sublist _).subset inFound
          rcases List.mem_cons.mp member with rfl | member
          · exact ⟨opener, by simp [sub opener], delimiter, List.mem_cons_self, rfl,
              pendingFirst opener (sub opener List.mem_cons_self) delimiter
                List.mem_cons_self⟩
          · obtain ⟨opener', isOpener, closer, isCloser, related⟩ :=
              ih (fun first inOuter => restFirst first
                (sub first (List.mem_cons_of_mem _ inOuter))) ordered member
            refine ⟨opener', ?_, closer, List.mem_cons_of_mem _ isCloser, related⟩
            rcases List.mem_append.mp isOpener with inOuter | inRest
            · simp [sub opener' (List.mem_cons_of_mem _ inOuter)]
            · simp [inRest]
        next =>
          obtain ⟨opener, isOpener, closer, isCloser, related⟩ := ih restFirst ordered member
          refine ⟨opener, ?_, closer, List.mem_cons_of_mem _ isCloser, related⟩
          rcases List.mem_append.mp isOpener with inPending | inRest
          · simp [inPending]
          · simp [inRest]

end Environment

/-- An environment consists of its two delimiters, which begin with a backslash, and of
its interior between them. -/
theorem exists_spells_of_mem_environments {document : Text} {environment : Environment}
    (member : environment ∈ environments document) :
    ∃ opening interior closing, opening.head? = some '\\' ∧ closing.head? = some '\\' ∧
      document.Spells environment.opening opening ∧
      document.Spells environment.interior interior ∧
      document.Spells environment.closing closing := by
  have member : environment ∈ Environment.matching [] (delimiters document) := by
    simpa [environments, List.mem_mergeSort] using member
  have spelled : ∀ delimiter ∈ delimiters document,
      ∃ written, written.head? = some '\\' ∧ document.Spells delimiter.span written := by
    intro delimiter inDelimiters
    obtain ⟨before, written, after, documentEq, begins, spanEq⟩ :=
      exists_spells_of_mem_delimitersFrom (List.mem_filter.mp inDelimiters).1
    exact ⟨written, begins, before, after, documentEq, by simpa using spanEq⟩
  obtain ⟨opener, isOpener, closer, isCloser, rfl, ordered⟩ :=
    Environment.exists_delimiters_of_mem_matching (by simp)
      ((pairwise_delimitersFrom 0 document).filter _) member
  obtain ⟨opening, openingBegins, opens⟩ := spelled opener isOpener
  obtain ⟨closing, closingBegins, closes⟩ := spelled closer isCloser
  obtain ⟨front, interior, back, documentEq, openingEq, closingEq⟩ :=
    opens.exists_between closes ordered
  refine ⟨opening, interior, closing, openingBegins, closingBegins, opens, ?_, closes⟩
  refine ⟨front ++ opening, closing ++ back, by simp [documentEq], ?_⟩
  simp [Environment.interior, openingEq, closingEq, Nat.add_assoc]

/-- The delimiters of an environment within another one. -/
theorem environments_of_enclosed {document outer inner : Text} {first second third fourth : Span}
    (delimited : delimiters document
      = [⟨true, outer, first⟩, ⟨true, inner, second⟩, ⟨false, inner, third⟩,
        ⟨false, outer, fourth⟩])
    (ordered : first.start < second.start) :
    environments document = [⟨outer, first, fourth⟩, ⟨inner, second, third⟩] := by
  have inEndOrder : Environment.matching [] (delimiters document)
      = [⟨inner, second, third⟩, ⟨outer, first, fourth⟩] := by
    rw [delimited]
    simp [Environment.matching]
  rw [environments, inEndOrder]
  simp [List.mergeSort, List.MergeSort.Internal.splitInTwo, Nat.not_le.mpr ordered]

/-- An environment is a part of its document that begins with a backslash. -/
theorem span_of_mem_environments {document : Text} {environment : Environment}
    (member : environment ∈ environments document) :
    environment.span.Fits document ∧ environment.span.start < environment.span.stop ∧
      document.Spells ⟨environment.span.start, environment.span.start + 1⟩ ['\\'] := by
  obtain ⟨opening, interior, closing, openingBegins, -, openingSpells, interiorSpells,
    closingSpells⟩ := exists_spells_of_mem_environments member
  have spells := (openingSpells.append interiorSpells).append closingSpells
  obtain ⟨rest, rfl⟩ := List.head?_eq_some_iff.mp openingBegins
  have backslash := openingSpells.middle (show '\\' :: rest = [] ++ ['\\'] ++ rest from rfl)
  have width : Text.size ['\\'] = 1 := by decide
  have stopEq : environment.span.stop = environment.span.start
      + Text.size ('\\' :: rest ++ interior ++ closing) := spells.stop_eq
  simp only [List.cons_append, Text.size_cons] at stopEq
  refine ⟨spells.fits, ?_, ?_⟩
  · have positive := '\\'.utf8Size_pos
    omega
  · simpa [width, Environment.span] using backslash

end LatexTabular.Markup
