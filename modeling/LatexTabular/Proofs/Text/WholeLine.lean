import LatexTabular.Proofs.Text.Line

/-!
# Texts that have a line to themselves

A text is widened to its whole line exactly when nothing but blank characters stands beside it
there (`Text.wholeLine_cases`).  So widened spans of texts that begin and end with ink stay
apart when the texts lie apart (`Text.wholeLine_stop_le_start`).
-/

namespace LatexTabular.Text

/-- The characters of a text that are not blank. -/
def ink (text : Text) : Text := text.filter (!isBlank ·)

@[simp] theorem ink_append (left right : Text) : ink (left ++ right) = ink left ++ ink right :=
  List.filter_append ..

theorem ink_eq_nil_iff {text : Text} : ink text = [] ↔ allBlank text = true := by
  simp [ink, allBlank]

theorem ink_trimLeft (text : Text) : ink (trimLeft text) = ink text := by
  have lead : ink (text.takeWhile isBlank) = [] := by
    rw [ink_eq_nil_iff, allBlank, List.all_eq_true]
    exact fun character member => List.mem_takeWhile_imp member
  conv => rhs; rw [← List.takeWhile_append_dropWhile (p := isBlank) (l := text)]
  rw [ink_append, lead, List.nil_append, trimLeft]

theorem ink_trimRight (text : Text) : ink (trimRight text) = ink text := by
  have reversed := congrArg List.reverse (ink_trimLeft text.reverse)
  simpa [ink, trimLeft, trimRight, List.filter_reverse] using reversed

/-- Trimming takes no ink away. -/
theorem ink_trim (text : Text) : ink (trim text) = ink text := by
  rw [trim, ink_trimRight, ink_trimLeft]

/-- Trimming takes away what is blank around a text. -/
theorem trim_append_append {lead trail : Text} (blankLead : allBlank lead = true)
    (blankTrail : allBlank trail = true) (text : Text) :
    trim (lead ++ text ++ trail) = trim text := by
  have noLead : trimLeft (lead ++ (text ++ trail)) = trimLeft (text ++ trail) :=
    List.dropWhile_append_of_pos (List.all_eq_true.mp blankLead)
  have noTrail (rest : Text) : trimRight (rest ++ trail) = trimRight rest := by
    have blank : ∀ character ∈ trail.reverse, isBlank character = true := by
      intro character member
      exact List.all_eq_true.mp blankTrail character (List.mem_reverse.mp member)
    rw [trimRight, List.reverse_append, List.dropWhile_append_of_pos blank, trimRight]
  have emptied : trimLeft trail = [] := by
    simpa [trimLeft, allBlank, List.dropWhile_eq_nil_iff] using blankTrail
  rw [trim, List.append_assoc, noLead, trim]
  by_cases blank : trimLeft text = []
  · have nothing : trimLeft (text ++ trail) = [] := by
      simp only [trimLeft] at blank emptied ⊢
      simp [List.dropWhile_append, blank, emptied]
    rw [nothing, blank]
  · have kept : trimLeft (text ++ trail) = trimLeft text ++ trail := by
      simp only [trimLeft] at blank ⊢
      simp [List.dropWhile_append, blank]
    rw [kept, noTrail]

/-- Nothing is left of a blank text. -/
theorem trim_eq_nil_iff {text : Text} : trim text = [] ↔ allBlank text = true := by
  constructor
  · intro nothing
    rw [← ink_eq_nil_iff, ← ink_trim, nothing]
    rfl
  · intro blank
    have trimmed := trim_append_append blank (rfl : allBlank [] = true) []
    rwa [List.append_nil, List.append_nil] at trimmed

/-- What stands around a text in a line that is the same when trimmed is blank. -/
theorem allBlank_of_trim_eq {lead text trail : Text}
    (same : trim (lead ++ text ++ trail) = trim text) :
    allBlank lead = true ∧ allBlank trail = true := by
  have inks := congrArg ink same
  rw [ink_trim, ink_trim, ink_append, ink_append] at inks
  have lengths := congrArg List.length inks
  simp only [List.length_append] at lengths
  constructor
  · exact ink_eq_nil_iff.mp (List.length_eq_zero_iff.mp (by omega))
  · exact ink_eq_nil_iff.mp (List.length_eq_zero_iff.mp (by omega))

/-- A text alone on its line, between what stands in front of the line and behind it. -/
structure AloneOnLine (document front lead text trail back : Text) : Prop where
  around : AroundLine document front (lead ++ text ++ trail) back
  blankLead : allBlank lead = true
  blankTrail : allBlank trail = true

/-- The span of a text that is alone on its line is widened to the line, with the line feed behind
it or, on the last line, the one in front of it. -/
theorem AloneOnLine.wholeLine_eq {document front lead text trail back : Text}
    (alone : AloneOnLine document front lead text trail back) :
    wholeLine document ⟨(front ++ lead).size, (front ++ lead ++ text).size⟩
      = if back = [] then ⟨front.size - 1, (front ++ lead ++ text ++ trail).size⟩
        else ⟨front.size, (front ++ lead ++ text ++ trail).size + 1⟩ := by
  have around := alone.around
  have documentEq : document = front ++ lead ++ text ++ (trail ++ back) := by
    simp [around.document_eq]
  have spells : document.Spells ⟨(front ++ lead).size, (front ++ lead ++ text).size⟩ text :=
    ⟨front ++ lead, trail ++ back, documentEq, by rw [size_append _ text]⟩
  have stopEq : (lineBehind front (lead ++ text ++ trail)).span.stop
      = (front ++ lead ++ text ++ trail).size := by
    simp only [lineBehind, ← size_append, List.append_assoc]
  have trimmed := trim_append_append alone.blankLead alone.blankTrail text
  have within : ¬ (front ++ lead ++ text ++ trail).size < (front ++ lead ++ text).size := by
    rw [size_append _ trail]
    omega
  rw [List.append_assoc lead] at around
  simp only [wholeLine, around.lineAt_eq, around.text_eq, spells.slice_eq]
  rw [← List.append_assoc lead]
  simp only [stopEq, within, trimmed, decide_false, bne_self_eq_false, Bool.or_self, if_false,
    Bool.false_eq_true]
  by_cases last : back = []
  · subst last
    simp [lineBehind, documentEq]
  · have := size_pos_of_ne_nil last
    rw [if_pos, if_neg last]
    · simp [lineBehind]
    · simp only [documentEq, size_append]
      omega

/-- A text reaches beyond the line it begins in, or lies within it. -/
theorem exists_aroundLine_text (before text after : Text) :
    ∃ front lead, before = front ++ lead ∧
      ((∃ right back, AroundLine (before ++ text ++ after) front (lead ++ right) back ∧
          (lineBehind front (lead ++ right)).span.stop < (before ++ text).size) ∨
        ∃ trail back, after = trail ++ back ∧
          AroundLine (before ++ text ++ after) front (lead ++ text ++ trail) back) := by
  obtain ⟨front, lead, right, back, rfl, behind, around⟩ :=
    exists_aroundLine_append before (text ++ after)
  rw [← List.append_assoc] at around
  refine ⟨front, lead, rfl, ?_⟩
  by_cases beyond : (lineBehind front (lead ++ right)).span.stop < (front ++ lead ++ text).size
  · exact .inl ⟨right, back, around, beyond⟩
  · obtain ⟨trail, rfl⟩ : text <+: right := by
      refine isPrefix_of_size_le ⟨after, behind⟩ ⟨back, rfl⟩ ?_
      simp only [lineBehind, size_append] at beyond
      omega
    rw [← List.append_assoc lead] at around
    exact .inr ⟨trail, back, by simpa using behind, around⟩

/-- A span is widened to its line, with one line feed, only if its text is alone there. -/
theorem wholeLine_cases (before text after : Text) :
    wholeLine (before ++ text ++ after) ⟨before.size, (before ++ text).size⟩
        = ⟨before.size, (before ++ text).size⟩ ∨
      ∃ front lead trail back, before = front ++ lead ∧ after = trail ++ back ∧
        AloneOnLine (before ++ text ++ after) front lead text trail back ∧
        wholeLine (before ++ text ++ after) ⟨before.size, (before ++ text).size⟩
          = if back = [] then ⟨front.size - 1, (before ++ text ++ trail).size⟩
            else ⟨front.size, (before ++ text ++ trail).size + 1⟩ := by
  have spells := Spells.of_append before text after
  rw [← size_append] at spells
  obtain ⟨front, lead, rfl, ⟨right, back, around, beyond⟩ | ⟨trail, back, rfl, around⟩⟩ :=
    exists_aroundLine_text before text after
  · left
    simp only [wholeLine, around.lineAt_eq]
    rw [if_pos (by simp only [beyond, decide_true, Bool.true_or])]
  · by_cases same : trim (lead ++ text ++ trail) = trim text
    · obtain ⟨blankLead, blankTrail⟩ := allBlank_of_trim_eq same
      have alone : AloneOnLine (front ++ lead ++ text ++ (trail ++ back)) front lead text trail back :=
        ⟨around, blankLead, blankTrail⟩
      exact .inr ⟨front, lead, trail, back, rfl, rfl, alone, alone.wholeLine_eq⟩
    · left
      rw [List.append_assoc lead] at around same
      simp only [wholeLine, around.lineAt_eq, around.text_eq, spells.slice_eq]
      rw [if_pos (by simp only [bne_iff_ne.mpr same, Bool.or_true])]

/-- A widened span adds blank characters on both sides of the text of the span. -/
theorem exists_spells_wholeLine {document : Text} {span : Span} (fits : span.Fits document) :
    ∃ lead trail, allBlank lead = true ∧ allBlank trail = true ∧
      document.Spells (wholeLine document span) (lead ++ document.slice span ++ trail) ∧
      span.start = (wholeLine document span).start + lead.size := by
  have newline : isBlank '\n' = true := by decide
  obtain ⟨before, text, after, rfl, rfl, sliceEq⟩ := fits.exists_append
  rw [sliceEq]
  rcases wholeLine_cases before text after with
    same | ⟨front, lead, trail, back, rfl, rfl, alone, widened⟩
  · rw [same]
    refine ⟨[], [], rfl, rfl, ⟨before, after, by simp, by simp⟩, rfl⟩
  · rw [widened]
    have blankLead := alone.blankLead
    have blankTrail := alone.blankTrail
    split
    next last =>
      subst last
      rcases List.eq_nil_or_concat front with rfl | ⟨lines, last, rfl⟩
      · exact ⟨lead, trail, blankLead, blankTrail, ⟨[], [], by simp, by simp⟩, by simp⟩
      · -- On the last line the line feed in front of it goes with it.
        obtain rfl := alone.around.behindBreak last (by simp)
        refine ⟨'\n' :: lead, trail, ?_, blankTrail, ⟨lines, [], by simp, ?_⟩, ?_⟩
        · simpa [allBlank, newline] using blankLead
        · simp [utf8Size_newline, Nat.add_assoc, Nat.add_comm 1]
        · simp [utf8Size_newline, Nat.add_comm 1]
    next inner =>
      obtain ⟨next, more, rfl⟩ := List.exists_cons_of_ne_nil inner
      obtain rfl := alone.around.beforeBreak next rfl
      refine ⟨lead, trail ++ ['\n'], blankLead, ?_, ⟨front, more, by simp, ?_⟩, by simp⟩
      · simpa [allBlank, newline] using blankTrail
      · simp [utf8Size_newline, Nat.add_assoc]

/-- A widened span fits the document and contains the span. -/
theorem fits_wholeLine {document : Text} {span : Span} (fits : span.Fits document) :
    (wholeLine document span).Fits document ∧ (wholeLine document span).contains span = true := by
  obtain ⟨lead, trail, -, -, spells, startEq⟩ := exists_spells_wholeLine fits
  have wideStop := spells.stop_eq
  have stopEq := fits.spells_slice.stop_eq
  refine ⟨spells.fits, ?_⟩
  simp only [size_append, Span.contains, Bool.and_eq_true, decide_eq_true_eq] at wideStop ⊢
  omega

/-- Blank characters with a line feed end in front of a text that begins with ink. -/
theorem isPrefix_of_blank {between rest trail more : Text} {head : Char}
    (same : between ++ head :: rest = trail ++ '\n' :: more) (blank : allBlank trail = true)
    (inked : isBlank head = false) : trail ++ ['\n'] <+: between := by
  have whole : between ++ head :: rest = trail ++ ['\n'] ++ more := by simp [same]
  have isPart : between <+: between ++ head :: rest := List.prefix_append ..
  rcases List.prefix_or_prefix_of_prefix ⟨more, whole.symm⟩ isPart
    with isPart | ⟨extra, extraEq⟩
  · exact isPart
  · cases extra with
    | nil => exact ⟨[], by simpa using extraEq.symm⟩
    | cons first extra =>
        rw [← extraEq, List.append_assoc, List.append_cancel_left_eq, List.cons_append] at whole
        obtain rfl := (List.cons.inj whole).1
        have inTrail : head ∈ trail ++ ['\n'] := by
          rw [← extraEq]
          simp
        rcases List.mem_append.mp inTrail with member | isBreak
        · rw [allBlank, List.all_eq_true] at blank
          rw [blank head member] at inked
          exact Bool.noConfusion inked
        · obtain rfl := List.mem_singleton.mp isBreak
          exact absurd inked (by decide)

/-- Blank characters begin behind a text that ends with ink. -/
theorem isSuffix_of_blank {text between front lead : Text} {last : Char}
    (same : text ++ between = front ++ lead) (blank : allBlank lead = true)
    (isLast : last ∈ text.getLast?) (inked : isBlank last = false) : lead <:+ between := by
  have isEnd : between <:+ text ++ between := List.suffix_append ..
  rcases List.suffix_or_suffix_of_suffix ⟨front, same.symm⟩ isEnd
    with isPart | ⟨extra, extraEq⟩
  · exact isPart
  · rw [← extraEq, ← List.append_assoc, List.append_cancel_right_eq] at same
    cases extra using List.reverseRecOn with
    | nil => exact ⟨[], by simpa using extraEq.symm⟩
    | append_singleton extra end_ =>
        obtain rfl : end_ = last := by
          rw [same, ← List.append_assoc] at isLast
          simpa using isLast
        have inLead : end_ ∈ lead := by
          rw [← extraEq]
          simp
        rw [allBlank, List.all_eq_true] at blank
        rw [blank end_ inLead] at inked
        exact Bool.noConfusion inked

/-- A text up to a line feed ends in front of a text without one. -/
theorem isPrefix_of_unbroken {upto more front lead : Text}
    (same : upto ++ ['\n'] ++ more = front ++ lead) (unbroken : '\n' ∉ lead) :
    upto ++ ['\n'] <+: front := by
  have isFront : front <+: front ++ lead := List.prefix_append ..
  rcases List.prefix_or_prefix_of_prefix ⟨more, same⟩ isFront with isPart | ⟨extra, extraEq⟩
  · exact isPart
  · rw [← extraEq, List.append_assoc, List.append_cancel_left_eq] at same
    cases extra using List.reverseRecOn with
    | nil => exact ⟨[], by simpa using extraEq.symm⟩
    | append_singleton extra last =>
        rw [← List.append_assoc] at extraEq
        obtain ⟨-, lastEq⟩ := List.append_inj' extraEq rfl
        obtain rfl := (List.cons.inj lastEq).1
        exact absurd (same ▸ by simp) unbroken

/-- In front of a text that begins with ink a widened span ends with its own text or with a line
feed. -/
theorem exists_wholeLine_stop_eq (before text between rest : Text) {head : Char}
    (inked : isBlank head = false) :
    ∃ upto, upto <+: between ∧ (upto = [] ∨ ∃ trail, upto = trail ++ ['\n']) ∧
      (wholeLine (before ++ text ++ (between ++ head :: rest))
        ⟨before.size, (before ++ text).size⟩).stop = (before ++ text ++ upto).size := by
  rcases wholeLine_cases before text (between ++ head :: rest) with
    same | ⟨front, lead, trail, back, -, afterEq, alone, widened⟩
  · exact ⟨[], List.nil_prefix, .inl rfl, by rw [same, List.append_nil]⟩
  · cases back with
    | nil =>
        have blank := alone.blankTrail
        rw [List.append_nil] at afterEq
        rw [← afterEq] at blank
        simp [allBlank, inked] at blank
    | cons next more =>
        obtain rfl : next = '\n' := alone.around.beforeBreak next rfl
        refine ⟨trail ++ ['\n'], isPrefix_of_blank afterEq alone.blankTrail inked,
          .inr ⟨trail, rfl⟩, ?_⟩
        rw [widened, if_neg (by simp)]
        simp only [size_append, size_newline]
        omega

/-- Blank characters of one line begin behind ink, and behind the line feed that follows it. -/
theorem isPrefix_of_blankLead {text upto beyond front lead : Text} {last : Char}
    (same : text ++ upto ++ beyond = front ++ lead)
    (ends : upto = [] ∨ ∃ trail, upto = trail ++ ['\n'])
    (isLast : last ∈ text.getLast?) (inked : isBlank last = false)
    (blank : allBlank lead = true) (unbroken : '\n' ∉ lead) : text ++ upto <+: front := by
  rcases ends with rfl | ⟨trail, rfl⟩
  · rw [List.append_nil] at same ⊢
    obtain ⟨more, rfl⟩ := isSuffix_of_blank same blank isLast inked
    rw [← List.append_assoc, List.append_cancel_right_eq] at same
    exact ⟨more, same⟩
  · rw [← List.append_assoc] at same ⊢
    exact isPrefix_of_unbroken same unbroken

/-- Widened spans of two texts stay apart, unless they stand on the last line, if the first
text ends and the second begins with ink. -/
theorem wholeLine_stop_le_start {before first between second after : Text} {last head : Char}
    (isLast : last ∈ first.getLast?) (lastInked : isBlank last = false)
    (isHead : head ∈ second.head?) (headInked : isBlank head = false)
    (further : allBlank after = false) :
    (wholeLine (before ++ first ++ between ++ second ++ after)
        ⟨before.size, (before ++ first).size⟩).stop
      ≤ (wholeLine (before ++ first ++ between ++ second ++ after)
        ⟨(before ++ first ++ between).size, (before ++ first ++ between ++ second).size⟩).start := by
  obtain ⟨rest, rfl⟩ := List.head?_eq_some_iff.mp isHead
  obtain ⟨upto, ⟨beyond, rfl⟩, ends, stopEq⟩ :=
    exists_wholeLine_stop_eq before first between (rest ++ after) headInked
  rw [← List.cons_append, ← List.append_assoc, ← List.append_assoc] at stopEq
  rw [stopEq]
  rcases wholeLine_cases (before ++ first ++ (upto ++ beyond)) (head :: rest) after with
    same | ⟨front, lead, trail, back, frontEq, afterEq, alone, widened⟩
  · rw [same]
    simp only [size_append]
    omega
  · have inner : back ≠ [] := by
      rintro rfl
      rw [afterEq, List.append_nil, alone.blankTrail] at further
      exact Bool.noConfusion further
    have unbroken := alone.around.unbroken
    simp only [List.mem_append, not_or] at unbroken
    rw [← List.append_assoc] at frontEq
    obtain ⟨more, rfl⟩ := isPrefix_of_blankLead frontEq ends
      (List.mem_getLast?_append_of_mem_getLast? isLast) lastInked alone.blankLead unbroken.1.1
    rw [widened, if_neg inner, size_append _ more]
    exact Nat.le_add_right _ _

end LatexTabular.Text
