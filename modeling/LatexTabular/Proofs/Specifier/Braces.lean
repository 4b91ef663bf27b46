import LatexTabular.Proofs.Markup.Balanced
import LatexTabular.Proofs.Specifier.Piece
import Mathlib.Data.List.Infix

/-!
# Two ways of finding a closing brace

A specifier is cut out of its document by a reader that passes over what a backslash hides, and
its own groups are read by counting every brace.  A group ends alike for both exactly if its
hidden braces leave the count as it is (`Specifier.endsAlike_iff`).  Where all groups do, the
letters that the first reader sees outside the braces are the columns
(`Specifier.map_alignment_columns_of_allEndAlike`).
-/

namespace LatexTabular.Specifier

open Markup

/-- What is read of a group behind its opening brace, where `depth` further groups are open inside
it. -/
def groupRest : (depth : Nat) → Text → Text
  | _, [] => []
  | depth, character :: rest =>
      if character = '{' then '{' :: groupRest (depth + 1) rest
      else if character = '}' then
        if depth = 0 then ['}'] else '}' :: groupRest (depth - 1) rest
      else character :: groupRest depth rest

/-- No front of a text closes more braces than it opens, where `depth` are open before it. -/
def NeverCloses (depth : Nat) (text : Text) : Prop :=
  ∀ front, front <+: text → front.count '}' ≤ front.count '{' + depth

/-- A group that is read as a piece, with `behind` after it, ends with the brace that closes it for
the reader of groups. -/
def EndsAlike (group behind : Text) : Prop :=
  ∃ content, braceGroup? (group ++ behind) = some content ∧ group = '{' :: content ++ ['}']

/-! ## Groups that are pieces -/

theorem piecesIn_succ (depth : Nat) {opened : Text} (nonempty : opened ≠ []) (text : Text) :
    piecesIn (depth + 1) opened text = .group (opened ++ groupRest depth text)
      :: pieces (text.drop (groupRest depth text).length) := by
  induction text generalizing depth opened with
  | nil => simp [piecesIn, groupRest, pieces]
  | cons character rest ih =>
      have longer {next : Char} : opened ++ [next] ≠ [] := by simp
      by_cases opens : character = '{'
      · simp [piecesIn, groupRest, opens, ih _ longer]
      by_cases closes : character = '}'
      · cases depth with
        | zero => simp [piecesIn, groupRest, closes, pieces]
        | succ depth => simp [piecesIn, groupRest, closes, ih _ longer]
      · simp [piecesIn, groupRest, opens, closes, ih _ longer]

theorem pieces_brace (rest : Text) :
    pieces ('{' :: rest)
      = .group ('{' :: groupRest 0 rest) :: pieces (rest.drop (groupRest 0 rest).length) := by
  rw [pieces, piecesIn, if_pos rfl, piecesIn_succ 0 (List.cons_ne_nil _ _)]
  rfl

theorem pieces_cons {character : Char} (noBrace : character ≠ '{') (rest : Text) :
    pieces (character :: rest) = .symbol character :: pieces rest := by
  rw [pieces, piecesIn, if_neg noBrace, pieces]

/-- The first piece of a text is a group or a character that opens none. -/
theorem pieces_eq_cons {text : Text} {piece : Piece} {others : List Piece}
    (split : pieces text = piece :: others) :
    (∃ rest, text = '{' :: rest ∧ piece = .group ('{' :: groupRest 0 rest) ∧
        others = pieces (rest.drop (groupRest 0 rest).length)) ∨
      ∃ character rest, text = character :: rest ∧ piece = .symbol character ∧
        others = pieces rest := by
  cases text with
  | nil => simp [pieces, piecesIn] at split
  | cons character rest =>
      by_cases opens : character = '{'
      · subst opens
        rw [pieces_brace] at split
        obtain ⟨pieceEq, othersEq⟩ := List.cons.inj split
        exact .inl ⟨rest, rfl, pieceEq.symm, othersEq.symm⟩
      · rw [pieces_cons opens] at split
        obtain ⟨pieceEq, othersEq⟩ := List.cons.inj split
        exact .inr ⟨character, rest, rfl, pieceEq.symm, othersEq.symm⟩

/-- A group is a piece where a brace stands outside all others. -/
theorem exists_behind_of_pieces {text group : Text} {before after : List Piece}
    (split : pieces text = before ++ .group group :: after) :
    ∃ behind, group = '{' :: groupRest 0 behind ∧ group ++ textOf after = '{' :: behind := by
  induction before generalizing text with
  | nil =>
      rcases pieces_eq_cons split with ⟨rest, rfl, isGroup, rfl⟩ | ⟨_, _, -, isSymbol, -⟩
      · obtain rfl := Piece.group.inj isGroup
        have whole := textOf_pieces ('{' :: rest)
        rw [pieces_brace] at whole
        exact ⟨rest, rfl, whole⟩
      · exact Piece.noConfusion isSymbol
  | cons piece others ih =>
      rcases pieces_eq_cons split with ⟨rest, -, -, others⟩ | ⟨_, rest, -, -, others⟩
      · exact ih others.symm
      · exact ih others.symm

/-! ## The count of braces -/

theorem neverCloses_cons {depth : Nat} {character : Char} {text : Text} :
    NeverCloses depth (character :: text) ↔
      ∀ front, front <+: text →
        (character :: front).count '}' ≤ (character :: front).count '{' + depth := by
  constructor
  · intro never front isFront
    exact never _ (List.cons_prefix_cons.mpr ⟨rfl, isFront⟩)
  · intro never front isFront
    rcases List.prefix_cons_iff.mp isFront with rfl | ⟨others, rfl, isOthers⟩
    · simp
    · exact never others isOthers

theorem neverCloses_opening {depth : Nat} {text : Text} :
    NeverCloses depth ('{' :: text) ↔ NeverCloses (depth + 1) text := by
  rw [neverCloses_cons]
  refine forall₂_congr fun front _ => ?_
  rw [List.count_cons_of_ne (by decide), List.count_cons_self]
  omega

theorem neverCloses_closing {depth : Nat} {text : Text} :
    NeverCloses (depth + 1) ('}' :: text) ↔ NeverCloses depth text := by
  rw [neverCloses_cons]
  refine forall₂_congr fun front _ => ?_
  rw [List.count_cons_self, List.count_cons_of_ne (by decide)]
  omega

theorem not_neverCloses_closing {text : Text} : ¬ NeverCloses 0 ('}' :: text) := by
  intro never
  simpa using never ['}'] (by simp)

theorem neverCloses_ordinary {depth : Nat} {character : Char} {text : Text}
    (noOpening : character ≠ '{') (noClosing : character ≠ '}') :
    NeverCloses depth (character :: text) ↔ NeverCloses depth text := by
  rw [neverCloses_cons]
  refine forall₂_congr fun front _ => ?_
  rw [List.count_cons_of_ne noOpening, List.count_cons_of_ne noClosing]

theorem groupRest_eq_nil_iff {depth : Nat} {text : Text} :
    groupRest depth text = [] ↔ text = [] := by
  cases text with
  | nil => simp [groupRest]
  | cons head rest =>
      simp only [groupRest]
      split_ifs <;> simp

/-- Counting ends with the brace behind a content exactly if the content does not close the group
and closes all its own braces; these may stay open at the end of the text. -/
theorem groupRest_eq_iff {depth : Nat} {content rest : Text} :
    groupRest depth (content ++ '}' :: rest) = content ++ ['}'] ↔
      NeverCloses depth content ∧
        (content.count '}' = content.count '{' + depth ∨ rest = []) := by
  induction content generalizing depth with
  | nil =>
      have never : NeverCloses depth [] := by simp [NeverCloses]
      cases depth with
      | zero => simp [groupRest, never]
      | succ depth => simp [groupRest, never, groupRest_eq_nil_iff]
  | cons head others ih =>
      by_cases opens : head = '{'
      · subst opens
        rw [List.cons_append, List.cons_append, groupRest, if_pos rfl, List.cons.injEq, ih,
          neverCloses_opening, List.count_cons_of_ne (by decide), List.count_cons_self,
          Nat.add_assoc, Nat.add_comm 1]
        simp
      by_cases closes : head = '}'
      · subst closes
        cases depth with
        | zero => simp [groupRest, not_neverCloses_closing]
        | succ depth =>
            have shifted : others.count '}' + 1 = others.count '{' + (depth + 1) ↔
                others.count '}' = others.count '{' + depth := by omega
            rw [List.count_cons_self, List.count_cons_of_ne (by decide), shifted,
              neverCloses_closing, ← ih]
            simp [groupRest]
      · rw [List.count_cons_of_ne opens, List.count_cons_of_ne closes,
          neverCloses_ordinary opens closes, ← ih]
        simp [groupRest, opens, closes]

/-- A group ends alike for both readers exactly if the reader of groups closes it and all braces
of its content, hidden ones included, leave the count as it is; at the end of the specifier it is
enough that they do not close it. -/
theorem endsAlike_iff {text group : Text} {before after : List Piece}
    (split : pieces text = before ++ .group group :: after) :
    EndsAlike group (textOf after) ↔ ∃ content rest,
      braceGroup? (group ++ textOf after) = some content ∧
        group ++ textOf after = '{' :: content ++ '}' :: rest ∧ NeverCloses 0 content ∧
        (content.count '}' = content.count '{' ∨ rest = []) := by
  obtain ⟨behind, groupEq, wholeEq⟩ := exists_behind_of_pieces split
  rw [EndsAlike, wholeEq, groupEq]
  constructor
  · rintro ⟨content, closed, contentEq⟩
    obtain ⟨rest, restEq⟩ := braceGroup?_isPrefix closed
    have behindEq : behind = content ++ '}' :: rest := by simpa using restEq.symm
    rw [List.cons_append, List.cons.injEq] at contentEq
    rw [behindEq] at contentEq
    have counted := groupRest_eq_iff.mp contentEq.2
    exact ⟨content, rest, closed, by simp [behindEq], counted⟩
  · rintro ⟨content, rest, closed, restEq, counted⟩
    have behindEq : behind = content ++ '}' :: rest := by simpa using restEq
    refine ⟨content, closed, ?_⟩
    rw [behindEq, groupRest_eq_iff.mpr counted]
    rfl

/-! ## Letters outside the braces -/

/-- The characters of a text that starts inside `depth` brace groups, for a reader that passes over
what a backslash hides. -/
def scannedMarks : (depth : Nat) → Text → List Mark
  | _, [] => []
  | depth, '\\' :: hidden :: rest =>
      ⟨'\\', depth != 0⟩ :: ⟨hidden, depth != 0⟩ :: scannedMarks depth rest
  | depth, character :: rest =>
      if character = '{' then ⟨character, true⟩ :: scannedMarks (depth + 1) rest
      else if character = '}' then ⟨character, depth != 0⟩ :: scannedMarks (depth - 1) rest
      else ⟨character, depth != 0⟩ :: scannedMarks depth rest

/-- All groups of a specifier end alike for both readers. -/
def AllEndAlike (text : Text) : Prop :=
  ∀ before group after, pieces text = before ++ .group group :: after →
    EndsAlike group (textOf after)

theorem allEndAlike_cons {character : Char} {rest : Text} (noBrace : character ≠ '{') :
    AllEndAlike (character :: rest) ↔ AllEndAlike rest := by
  rw [AllEndAlike, pieces_cons noBrace]
  constructor
  · intro alike before group after split
    exact alike (.symbol character :: before) group after (by rw [split]; rfl)
  · intro alike before group after split
    cases before with
    | nil => simp at split
    | cons piece others => exact alike others group after (List.cons.inj split).2

/-- A balanced content in braces is read as a group exactly if counting ends with it. -/
theorem pieces_group {content others : Text}
    (counted : groupRest 0 (content ++ '}' :: others) = content ++ ['}']) :
    pieces ('{' :: (content ++ '}' :: others))
      = .group ('{' :: content ++ ['}']) :: pieces others := by
  have parts : content ++ '}' :: others = content ++ ['}'] ++ others := by simp
  rw [pieces_brace, counted, parts, List.drop_left]
  rfl

theorem allEndAlike_group {content others : Text} (balanced : Balanced 0 content) :
    AllEndAlike ('{' :: (content ++ '}' :: others)) ↔
      groupRest 0 (content ++ '}' :: others) = content ++ ['}'] ∧ AllEndAlike others := by
  have closed : braceGroup? ('{' :: (content ++ '}' :: others)) = some content :=
    balanced.untilClosed?_closing others
  constructor
  · intro alike
    have whole := pieces_brace (content ++ '}' :: others)
    have joined := textOf_pieces ('{' :: (content ++ '}' :: others))
    rw [whole, textOf_cons, Piece.text_group] at joined
    obtain ⟨content', closed', groupEq⟩ := alike [] _ _ whole
    rw [joined, closed] at closed'
    obtain rfl := Option.some.inj closed'
    have counted := (List.cons.inj groupEq).2
    refine ⟨counted, fun before group after split => ?_⟩
    refine alike (.group ('{' :: content ++ ['}']) :: before) group after ?_
    rw [pieces_group counted, split]
    rfl
  · rintro ⟨counted, alike⟩ before group after split
    rw [pieces_group counted] at split
    cases before with
    | nil =>
        obtain ⟨groupEq, rfl⟩ := List.cons.inj split
        obtain rfl := Piece.group.inj groupEq
        refine ⟨content, ?_, rfl⟩
        rw [textOf_pieces]
        simpa using closed
    | cons piece rest => exact alike rest group after (List.cons.inj split).2

theorem scannedMarks_append {depth : Nat} {content : Text} (balanced : Balanced depth content)
    (rest : Text) :
    scannedMarks (depth + 1) (content ++ '}' :: rest)
      = (content ++ ['}']).map (⟨·, true⟩) ++ scannedMarks 0 rest := by
  induction balanced with
  | nil => simp [scannedMarks]
  | hidden character behind ih => simp [scannedMarks, ih]
  | opening behind ih => simp [scannedMarks, ih]
  | closing behind ih => simp [scannedMarks, ih]
  | ordinary noBackslash noOpening noClosing behind ih =>
      simp [scannedMarks, noBackslash, noOpening, noClosing, ih]

/-- Every specifier that is cut out of a document is empty, or begins with a hidden character, a
group or a character that is no brace. -/
theorem balanced_cases {text : Text} (balanced : Balanced 0 text) :
    text = [] ∨
      (∃ character rest, text = '\\' :: character :: rest ∧ Balanced 0 rest) ∨
      (∃ content rest, text = '{' :: (content ++ '}' :: rest) ∧ Balanced 0 content ∧
        Balanced 0 rest) ∨
      ∃ character rest, text = character :: rest ∧ character ≠ '\\' ∧ character ≠ '{' ∧
        character ≠ '}' ∧ Balanced 0 rest := by
  cases balanced with
  | nil => exact Or.inl rfl
  | hidden character behind => exact Or.inr (Or.inl ⟨character, _, rfl, behind⟩)
  | opening behind =>
      obtain ⟨content, rest, rfl, inner, others⟩ :=
        behind.exists_closing (show 0 + 1 = 0 + 0 + 1 from rfl)
      exact Or.inr (Or.inr (Or.inl ⟨content, rest, rfl, inner, others⟩))
  | ordinary noBackslash noOpening noClosing behind =>
      exact Or.inr (Or.inr (Or.inr ⟨_, _, rfl, noBackslash, noOpening, noClosing, behind⟩))

/-- What holds of the empty text, and of a text with one more part in front if of the text itself,
holds of every specifier that is cut out of a document. -/
@[elab_as_elim]
theorem balanced_induction {motive : Text → Prop} (nil : motive [])
    (hidden : ∀ character rest, Balanced 0 rest → motive rest →
      motive ('\\' :: character :: rest))
    (group : ∀ content rest, Balanced 0 content → motive rest →
      motive ('{' :: (content ++ '}' :: rest)))
    (ordinary : ∀ character rest, character ≠ '\\' → character ≠ '{' → character ≠ '}' →
      motive rest → motive (character :: rest))
    {text : Text} (balanced : Balanced 0 text) : motive text := by
  induction lengthEq : text.length using Nat.strong_induction_on generalizing text with
  | _ length ih =>
      rcases balanced_cases balanced with rfl | ⟨character, rest, rfl, behind⟩ |
        ⟨content, rest, rfl, inner, behind⟩ |
        ⟨character, rest, rfl, noBackslash, noOpening, noClosing, behind⟩
      · exact nil
      · have shorter : rest.length < length := by
          simp only [← lengthEq, List.length_cons]
          omega
        exact hidden character rest behind (ih _ shorter behind rfl)
      · have shorter : rest.length < length := by
          simp only [← lengthEq, List.length_cons, List.length_append]
          omega
        exact group content rest inner (ih _ shorter behind rfl)
      · have shorter : rest.length < length := by
          simp only [← lengthEq, List.length_cons]
          omega
        exact ordinary character rest noBackslash noOpening noClosing (ih _ shorter behind rfl)

/-- Where all groups end alike, both readers see the same characters outside the braces. -/
theorem scannedMarks_eq_marks {text : Text} (balanced : Balanced 0 text) :
    AllEndAlike text → scannedMarks 0 text = marks 0 text := by
  refine balanced_induction (fun _ => rfl) ?hidden ?group ?ordinary balanced
  case hidden =>
    intro character rest behind ih alike
    -- A hidden opening brace would begin a group for one reader only.
    have noHidden := (allEndAlike_cons (by decide)).mp alike
    have noOpening : character ≠ '{' := by
      rintro rfl
      obtain ⟨content, closed, -⟩ := noHidden [] _ _ (pieces_brace rest)
      rw [← Piece.text_group ('{' :: _), ← textOf_cons, ← pieces_brace, textOf_pieces,
        braceGroup?, behind.untilClosed?_eq_none] at closed
      simp at closed
    have same := ih ((allEndAlike_cons noOpening).mp noHidden)
    simp [scannedMarks, marks, noOpening, same]
  case group =>
    intro content rest inner ih alike
    obtain ⟨counted, alike⟩ := (allEndAlike_group inner).mp alike
    rw [← flatMap_marks_pieces, pieces_group counted, List.flatMap_cons, flatMap_marks_pieces,
      ← ih alike]
    simp [scannedMarks, scannedMarks_append inner, Piece.marks]
  case ordinary =>
    intro character rest noBackslash noOpening noClosing ih alike
    have same := ih ((allEndAlike_cons noOpening).mp alike)
    simp [scannedMarks, marks, noBackslash, noOpening, noClosing, same]

/-! ## Columns of letters -/

theorem Reading.map_alignment_take (reading : Reading) (mark : Mark) :
    (reading.take mark).columns.map (·.alignment)
      = ([mark].filter Mark.makesColumn).map (.ofLetter ·.character)
        ++ reading.columns.map (·.alignment) := by
  unfold take
  cases isLetter : mark.makesColumn with
  | true => simp [isLetter]
  | false =>
      simp only [Bool.false_eq_true, if_false, List.filter_cons, isLetter, List.filter_nil,
        List.map_nil, List.nil_append]
      split
      · rfl
      split
      · split_ifs <;> rfl
      · split_ifs <;> rfl

theorem Reading.map_alignment_finish (reading : Reading) :
    reading.finish.map (·.alignment) = (reading.columns.map (·.alignment)).reverse := by
  unfold finish
  split
  next none => simp [none]
  next last earlier columnsEq => simp [columnsEq]

/-- The columns of a specifier are its letters outside the braces. -/
theorem map_alignment_columns (text : Text) :
    (columns text).map (·.alignment)
      = ((marks 0 text).filter Mark.makesColumn).map (.ofLetter ·.character) := by
  have taken (all : List Mark) (reading : Reading) :
      (all.foldl Reading.take reading).columns.map (·.alignment)
        = ((all.filter Mark.makesColumn).map (Alignment.ofLetter ·.character)).reverse
          ++ reading.columns.map (·.alignment) := by
    induction all generalizing reading with
    | nil => rfl
    | cons mark rest ih =>
        rw [List.foldl_cons, ih, Reading.map_alignment_take]
        cases isLetter : mark.makesColumn <;> simp [isLetter]
  rw [columns, Reading.map_alignment_finish, taken]
  simp [Reading.start]

/-- Where all groups end alike for both readers, every letter outside the braces makes a column,
in their order. -/
theorem map_alignment_columns_of_allEndAlike {text : Text} (balanced : Balanced 0 text)
    (alike : AllEndAlike text) :
    (columns text).map (·.alignment)
      = ((scannedMarks 0 text).filter Mark.makesColumn).map (.ofLetter ·.character) := by
  rw [scannedMarks_eq_marks balanced alike, map_alignment_columns]

/-! ## Specifiers without hidden braces -/

/-- No brace stands directly behind a backslash. -/
def HidesNoBrace (text : Text) : Prop :=
  ¬ ['\\', '{'] <:+: text ∧ ¬ ['\\', '}'] <:+: text

instance (text : Text) : Decidable (HidesNoBrace text) := inferInstanceAs (Decidable (_ ∧ _))

theorem HidesNoBrace.of_isInfix {text part : Text} (hidesNone : HidesNoBrace text)
    (isPart : part <:+: text) : HidesNoBrace part :=
  ⟨fun hides => hidesNone.1 (hides.trans isPart), fun hides => hidesNone.2 (hides.trans isPart)⟩

theorem HidesNoBrace.ne_of_backslash {character : Char} {rest : Text}
    (hidesNone : HidesNoBrace ('\\' :: character :: rest)) : character ≠ '{' ∧ character ≠ '}' := by
  have atFront : ['\\', character] <:+: '\\' :: character :: rest := ⟨[], rest, rfl⟩
  constructor
  · rintro rfl
    exact hidesNone.1 atFront
  · rintro rfl
    exact hidesNone.2 atFront

/-- Without hidden braces a balanced text closes all its braces and `depth` further ones, however
they are counted. -/
theorem neverCloses_of_balanced {depth : Nat} {text : Text} (balanced : Balanced depth text)
    (hidesNone : HidesNoBrace text) :
    NeverCloses depth text ∧ text.count '}' = text.count '{' + depth := by
  induction balanced with
  | nil => simp [NeverCloses]
  | @hidden depth rest character behind ih =>
      obtain ⟨noOpening, noClosing⟩ := hidesNone.ne_of_backslash
      obtain ⟨never, counts⟩ := ih (hidesNone.of_isInfix ⟨['\\', character], [], by simp⟩)
      rw [neverCloses_ordinary (by decide) (by decide), neverCloses_ordinary noOpening noClosing]
      simpa [List.count_cons, noOpening, noClosing] using ⟨never, counts⟩
  | opening behind ih =>
      obtain ⟨never, counts⟩ := ih (hidesNone.of_isInfix ⟨['{'], [], by simp⟩)
      refine ⟨neverCloses_opening.mpr never, ?_⟩
      rw [List.count_cons_self, List.count_cons_of_ne (by decide)]
      omega
  | closing behind ih =>
      obtain ⟨never, counts⟩ := ih (hidesNone.of_isInfix ⟨['}'], [], by simp⟩)
      refine ⟨neverCloses_closing.mpr never, ?_⟩
      rw [List.count_cons_self, List.count_cons_of_ne (by decide)]
      omega
  | @ordinary depth character rest noBackslash noOpening noClosing behind ih =>
      obtain ⟨never, counts⟩ := ih (hidesNone.of_isInfix ⟨[character], [], by simp⟩)
      refine ⟨(neverCloses_ordinary noOpening noClosing).mpr never, ?_⟩
      rw [List.count_cons_of_ne noOpening, List.count_cons_of_ne noClosing, counts]

/-- Without hidden braces all groups end alike for both readers. -/
theorem allEndAlike_of_hidesNoBrace {text : Text} (balanced : Balanced 0 text) :
    HidesNoBrace text → AllEndAlike text := by
  refine balanced_induction ?nil ?hidden ?group ?ordinary balanced
  case nil =>
    intro _ before group after split
    simp [pieces, piecesIn] at split
  case hidden =>
    intro character rest behind ih hidesNone
    have noOpening := hidesNone.ne_of_backslash.1
    rw [allEndAlike_cons (by decide), allEndAlike_cons noOpening]
    exact ih (hidesNone.of_isInfix ⟨['\\', character], [], by simp⟩)
  case group =>
    intro content rest inner ih hidesNone
    have within : HidesNoBrace content :=
      hidesNone.of_isInfix ⟨['{'], '}' :: rest, by simp⟩
    have behindGroup : HidesNoBrace rest :=
      hidesNone.of_isInfix ⟨'{' :: (content ++ ['}']), [], by simp⟩
    obtain ⟨never, counts⟩ := neverCloses_of_balanced inner within
    exact (allEndAlike_group inner).mpr
      ⟨groupRest_eq_iff.mpr ⟨never, Or.inl counts⟩, ih behindGroup⟩
  case ordinary =>
    intro character rest noBackslash noOpening noClosing ih hidesNone
    rw [allEndAlike_cons noOpening]
    exact ih (hidesNone.of_isInfix ⟨[character], [], by simp⟩)

end LatexTabular.Specifier
