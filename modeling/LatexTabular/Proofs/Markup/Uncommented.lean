import LatexTabular.Proofs.Markup.Comment
import LatexTabular.Proofs.Markup.Moving

/-!
# Environments of a document without comments

Delimiters are looked for where no comment is open, and none has a percent sign, so cutting
comments from a part of a document moves them and nothing else (`uncommentedFrom_withoutComments`).
With its delimiters each environment of the document moves (`environments_withoutComments`).
-/

namespace LatexTabular

open Markup

/-- Where an offset moves when the comments are cut from a text that starts at `start`. -/
def cutOffset (start : Nat) (text : Text) (offset : Nat) : Nat :=
  min offset start + (withoutComments .nothing (text.takeBytes (offset - start))).size
    + (offset - (start + text.size))

section Offsets

variable {start offset : Nat} {text front back : Text}

theorem cutOffset_of_le (inFront : offset ≤ start) : cutOffset start text offset = offset := by
  have nothing : text.takeBytes 0 = [] := Text.takeBytes_size_append [] text
  rw [cutOffset, Nat.sub_eq_zero_of_le inFront, nothing]
  simp only [withoutComments_nil, Text.size_nil]
  omega

/-- Within the text an offset moves by what is cut in front of it. -/
theorem cutOffset_within (textEq : text = front ++ back) :
    cutOffset start text (start + front.size)
      = start + (withoutComments .nothing front).size := by
  rw [cutOffset, Nat.add_sub_cancel_left, textEq, Text.takeBytes_size_append, Text.size_append]
  omega

/-- Behind the text everything moves alike. -/
theorem cutOffset_behind (start : Nat) (text : Text) (offset : Nat) :
    cutOffset start text (start + text.size + offset)
      = start + (withoutComments .nothing text).size + offset := by
  have whole : text.takeBytes (text.size + offset) = text := by
    simpa [Text.takeBytes] using
      @Text.takeBytes_append_of_le text [] _ (Nat.le_add_right text.size offset)
  have place : start + text.size + offset - start = text.size + offset := by omega
  rw [cutOffset, place, whole]
  omega

theorem start_le_cutOffset_iff : start ≤ cutOffset start text offset ↔ start ≤ offset := by
  rcases Nat.lt_or_ge offset start with inFront | behind
  · rw [cutOffset_of_le inFront.le]
  · rw [cutOffset]
    omega

/-- What ends with the text or in front of its end does so where the comments are cut. -/
theorem cutOffset_le_iff :
    cutOffset start text offset ≤ start + (withoutComments .nothing text).size
      ↔ offset ≤ start + text.size := by
  rcases Nat.lt_or_ge (start + text.size) offset with behind | within
  · obtain ⟨more, rfl⟩ := Nat.exists_eq_add_of_lt behind
    rw [Nat.add_assoc, cutOffset_behind]
    omega
  · have parts := congrArg Text.size (withoutComments_append .nothing
      (text.takeBytes (offset - start)) (text.dropBytes (offset - start)))
    rw [Text.takeBytes_append_dropBytes, Text.size_append] at parts
    rw [cutOffset]
    omega

end Offsets

namespace Markup

/-- The delimiters of a text that starts at an offset which no comment hides. -/
def uncommentedFrom (offset : Nat) (reach : Reach) : Text → List Delimiter
  | [] => []
  | head :: rest =>
      (if reach = .comment then [] else (delimiter? offset (head :: rest)).toList)
        ++ uncommentedFrom (offset + head.utf8Size) (reach.after head) rest

theorem delimiters_eq (document : Text) :
    delimiters document = uncommentedFrom 0 .nothing document := by
  have fromFront (front rest : Text) :
      (delimitersFrom front.size rest).filter
          (fun delimiter => !isCommented (front ++ rest) delimiter.span.start)
        = uncommentedFrom front.size (Reach.nothing.behind front) rest := by
    induction rest generalizing front with
    | nil => rfl
    | cons head rest ih =>
        have others := ih (front ++ [head])
        rw [List.append_assoc, List.singleton_append, Text.size_append, Text.size_cons,
          Text.size_nil, Nat.add_zero, Reach.behind_append, Reach.behind_cons, Reach.behind_nil]
          at others
        have commented := isCommented_iff (front ++ head :: rest) front.size
        rw [Text.takeBytes_size_append] at commented
        rw [uncommentedFrom, ← others, delimitersFrom]
        cases found : delimiter? front.size (head :: rest) with
        | none => simp
        | some delimiter =>
            have start : delimiter.span.start = front.size := by
              obtain ⟨_, _, _, _, -, -, -, rfl⟩ := delimiter?_eq_some_iff.mp found
              rfl
            rw [List.filter_cons, start]
            by_cases hidden : Reach.nothing.behind front = .comment
            · simp [hidden, commented.mpr hidden]
            · simp [hidden, Bool.eq_false_iff.mpr (mt commented.mp hidden)]
  exact fromFront [] document

section Joined

variable {offset : Nat} {reach : Reach} {front back : Text}

/-- Where texts are joined and no delimiter reaches over the seam, each has its own. -/
theorem uncommentedFrom_append
    (apart : ∀ left right, front = left ++ right → right ≠ [] → ∀ offset,
      delimiter? offset (right ++ back) = delimiter? offset right) :
    uncommentedFrom offset reach (front ++ back)
      = uncommentedFrom offset reach front
        ++ uncommentedFrom (offset + front.size) (reach.behind front) back := by
  induction front generalizing offset reach with
  | nil => rfl
  | cons head rest ih =>
      have first := apart [] (head :: rest) rfl (List.cons_ne_nil _ _) offset
      rw [List.cons_append] at first ⊢
      rw [uncommentedFrom, uncommentedFrom, first, ih, List.append_assoc, Text.size_cons,
        Nat.add_assoc, Reach.behind_cons]
      intro left right restEq
      exact apart (head :: left) right (by rw [restEq, List.cons_append])

/-- No delimiter reaches over a closing brace or a backslash. -/
theorem uncommentedFrom_append_of_fence
    (fenced : front.getLast? = some '}' ∨ back.head? = some '\\') :
    uncommentedFrom offset reach (front ++ back)
      = uncommentedFrom offset reach front
        ++ uncommentedFrom (offset + front.size) (reach.behind front) back := by
  refine uncommentedFrom_append fun left right frontEq nonempty offset => ?_
  rcases fenced with closes | opens
  · obtain ⟨init, rightEq⟩ : ∃ init, right = init ++ ['}'] := by
      rw [frontEq, List.getLast?_append_of_ne_nil _ nonempty] at closes
      exact List.getLast?_eq_some_iff.mp closes
    rw [rightEq, List.append_assoc, List.singleton_append]
    cases init with
    | nil => simp only [List.nil_append, delimiter?_eq_none_of_ne (show '}' ≠ '\\' by decide)]
    | cons head init =>
        exact delimiter?_append_fence offset (List.cons_ne_nil _ _) (by decide) back
  · obtain ⟨rest, rfl⟩ := List.head?_eq_some_iff.mp opens
    rw [delimiter?_append_fence offset nonempty (by decide) rest,
      delimiter?_append_of_noBrace offset right (by decide)]

end Joined

theorem uncommentedFrom_add (offset shift : Nat) (reach : Reach) (text : Text) :
    uncommentedFrom (offset + shift) reach text
      = (uncommentedFrom offset reach text).map (Delimiter.moved (· + shift)) := by
  induction text generalizing offset reach with
  | nil => rfl
  | cons head rest ih =>
      have others := ih (offset + head.utf8Size) (reach.after head)
      rw [Nat.add_right_comm] at others
      rw [uncommentedFrom, uncommentedFrom, List.map_append, others, delimiter?_add]
      congr 1
      split
      · rfl
      · cases delimiter? offset (head :: rest) <;> rfl

section WithoutComments

variable {reach first second : Reach} {text written : Text}

theorem notMem_delimiterOf (opens : Bool) {gap name : Text} (blank : Text.allBlank gap = true)
    (isName : IsName name) : '%' ∉ delimiterOf opens gap name := by
  have inGap : '%' ∉ gap := fun member =>
    absurd (List.all_eq_true.mp blank _ member) (by decide)
  have inName : '%' ∉ name := by
    obtain ⟨letters, -, areLetters, nameEq⟩ := isName
    have inLetters : '%' ∉ letters := fun member =>
      absurd (List.all_eq_true.mp areLetters _ member) (by decide)
    rcases nameEq with rfl | rfl <;> simp [inLetters]
  cases opens <;> simp [delimiterOf, inGap, inName]

/-- A text without percent signs is read in front of the text with its comments cut if it is read
in front of the text. -/
theorem isPrefix_withoutComments_iff (open' : reach ≠ .comment) (noPercent : '%' ∉ written) :
    written <+: withoutComments reach text ↔ written <+: text := by
  induction written generalizing reach text with
  | nil => simp
  | cons head rest ih =>
      rw [List.mem_cons, not_or] at noPercent
      cases text with
      | nil => simp
      | cons next others =>
          rw [withoutComments_cons (Reach.hides_eq_false open' next), List.cons_prefix_cons,
            List.cons_prefix_cons]
          refine and_congr_right fun same => ?_
          subst same
          exact ih (Reach.after_ne_comment open' (Ne.symm noPercent.1)) noPercent.2

/-- Outside comments a delimiter is read where comments are cut as it was. -/
theorem delimiter?_withoutComments (open' : reach ≠ .comment) (offset : Nat) (text : Text) :
    delimiter? offset (withoutComments reach text) = delimiter? offset text :=
  delimiter?_congr fun opens _ _ blank isName =>
    isPrefix_withoutComments_iff open' (notMem_delimiterOf opens blank isName)

/-- A delimiter outside comments keeps its length where they are cut. -/
theorem delimiter?_moved {offset offset' : Nat} {move : Nat → Nat} (open' : reach ≠ .comment)
    (moves : ∀ front back, text = front ++ back →
      move (offset + front.size) = offset' + (withoutComments reach front).size) :
    delimiter? offset' text = (delimiter? offset text).map (Delimiter.moved move) := by
  refine Option.ext fun delimiter => ?_
  rw [Option.map_eq_some_iff]
  have moved {opens : Bool} {gap name rest : Text} (blank : Text.allBlank gap = true)
      (isName : IsName name) (textEq : text = delimiterOf opens gap name ++ rest) :
      Span.moved move ⟨offset, offset + (delimiterOf opens gap name).size⟩
        = ⟨offset', offset' + (delimiterOf opens gap name).size⟩ := by
    have starts := moves [] text rfl
    have stops := moves _ _ textEq
    rw [withoutComments_of_notMem open' (notMem_delimiterOf opens blank isName)] at stops
    rw [Span.moved, stops]
    exact congrArg (Span.mk · _) starts
  constructor
  · intro found
    obtain ⟨opens, gap, name, rest, blank, isName, textEq, rfl⟩ := delimiter?_eq_some_iff.mp found
    refine ⟨_, delimiter?_eq_some_iff.mpr ⟨opens, gap, name, rest, blank, isName, textEq, rfl⟩, ?_⟩
    rw [Delimiter.moved, moved blank isName textEq]
  · rintro ⟨own, found, rfl⟩
    obtain ⟨opens, gap, name, rest, blank, isName, textEq, rfl⟩ := delimiter?_eq_some_iff.mp found
    refine delimiter?_eq_some_iff.mpr ⟨opens, gap, name, rest, blank, isName, textEq, ?_⟩
    rw [Delimiter.moved, moved blank isName textEq]

/-- The delimiters of a text move where its comments are cut. -/
theorem uncommentedFrom_withoutComments {offset offset' : Nat} {move : Nat → Nat}
    (covers : first.Covers second)
    (moves : ∀ front back, text = front ++ back →
      move (offset + front.size) = offset' + (withoutComments second front).size) :
    uncommentedFrom offset' first (withoutComments second text)
      = (uncommentedFrom offset first text).map (Delimiter.moved move) := by
  induction text generalizing offset offset' first second with
  | nil => rfl
  | cons head rest ih =>
      cases hidden : second.hides head with
      | true =>
          obtain ⟨rfl, stays⟩ := Reach.after_of_hides hidden
          obtain rfl : first = .comment := covers.elim id id
          have others := @ih .comment .comment (offset + head.utf8Size) offset' (.inl rfl)
            fun front back restEq => by
              have moved := moves (head :: front) back (by rw [restEq, List.cons_append])
              rwa [Text.size_cons, ← Nat.add_assoc, withoutComments_cons_of_hides hidden] at moved
          rw [withoutComments_cons_of_hides hidden, others, uncommentedFrom, stays]
          rfl
      | false =>
          have others := @ih _ _ (offset + head.utf8Size) (offset' + head.utf8Size)
            (covers.after head) fun front back restEq => by
              have moved := moves (head :: front) back (by rw [restEq, List.cons_append])
              rwa [Text.size_cons, ← Nat.add_assoc, withoutComments_cons hidden, Text.size_cons,
                ← Nat.add_assoc] at moved
          have first' : (if first = .comment then []
                else (delimiter? offset' (withoutComments second (head :: rest))).toList)
              = (if first = .comment then []
                else (delimiter? offset (head :: rest)).toList).map (Delimiter.moved move) := by
            split
            · rfl
            next open' =>
              obtain rfl := covers.eq_of_ne open'
              rw [delimiter?_withoutComments open', delimiter?_moved open' moves]
              cases delimiter? offset (head :: rest) <;> rfl
          rw [withoutComments_cons hidden] at first' ⊢
          rw [uncommentedFrom, uncommentedFrom, List.map_append, first', others]

end WithoutComments

theorem uncommentedFrom_sublist (offset : Nat) (reach : Reach) (text : Text) :
    (uncommentedFrom offset reach text).Sublist (delimitersFrom offset text) := by
  induction text generalizing offset reach with
  | nil => exact .slnil
  | cons head rest ih =>
      have others := ih (offset + head.utf8Size) (reach.after head)
      rw [uncommentedFrom, delimitersFrom]
      cases delimiter? offset (head :: rest) with
      | none => simpa using others
      | some delimiter =>
          split
          · exact others.cons _
          · exact others.cons_cons _

section Document

variable {front body back : Text} (closes : front.getLast? = some '}')
  (opens : back.head? = some '\\')

include closes

/-- Behind a brace no character is hidden, though a comment may be open. -/
theorem covers_behind : (Reach.nothing.behind front).Covers .nothing := by
  by_cases open' : Reach.nothing.behind front = .comment
  · exact .inr open'
  · exact .inl (Reach.behind_eq_nothing closes (by decide) open')

include opens

/-- The delimiters of a document move where the comments of a part of it are cut. -/
theorem delimiters_withoutComments :
    delimiters (front ++ (withoutComments .nothing body ++ back))
      = (delimiters (front ++ (body ++ back))).map
        (Delimiter.moved (cutOffset front.size body)) := by
  have covers := covers_behind closes
  have atFront : (uncommentedFrom 0 .nothing front).map
      (Delimiter.moved (cutOffset front.size body)) = uncommentedFrom 0 .nothing front := by
    refine (List.map_congr_left fun delimiter member => ?_).trans (List.map_id _)
    have bounds := stop_le_of_mem_delimitersFrom ((uncommentedFrom_sublist _ _ _).subset member)
    simp only [Delimiter.moved, Span.moved, cutOffset_of_le bounds.2,
      cutOffset_of_le (bounds.1.le.trans bounds.2), id_eq]
  have inBody := @uncommentedFrom_withoutComments _ _ body front.size front.size
    (cutOffset front.size body) covers fun _ _ => cutOffset_within
  have atBack (reach : Reach) :
      (uncommentedFrom (front.size + body.size) reach back).map
          (Delimiter.moved (cutOffset front.size body))
        = uncommentedFrom (front.size + (withoutComments .nothing body).size) reach back := by
    have shifted (shift : Nat) := uncommentedFrom_add 0 shift reach back
    simp only [Nat.zero_add] at shifted
    rw [shifted (front.size + body.size), List.map_map,
      shifted (front.size + (withoutComments .nothing body).size)]
    refine List.map_congr_left fun delimiter _ => ?_
    have move (offset : Nat) : cutOffset front.size body (offset + (front.size + body.size))
        = offset + (front.size + (withoutComments .nothing body).size) := by
      rw [Nat.add_comm, cutOffset_behind, Nat.add_comm]
    simp only [Function.comp, Delimiter.moved, Span.moved, move]
  rw [delimiters_eq, delimiters_eq, uncommentedFrom_append_of_fence (.inl closes),
    uncommentedFrom_append_of_fence (.inl closes), uncommentedFrom_append_of_fence (.inr opens),
    uncommentedFrom_append_of_fence (.inr opens), Nat.zero_add, covers.behind_withoutComments,
    List.map_append, List.map_append, atFront, inBody, atBack]

end Document

/-- Delimiters stand one behind the other. -/
theorem pairwise_start_delimiters (document : Text) :
    (delimiters document).Pairwise fun first second =>
      first.span.start < second.span.start := by
  refine ((pairwise_delimitersFrom 0 document).filter _).imp_of_mem ?_
  intro first second isFirst isSecond follows
  exact (stop_le_of_mem_delimitersFrom (List.mem_filter.mp isFirst).1).1.trans_le follows

/-- Environments move with the delimiters of their document. -/
theorem environments_of_delimiters_moved {document document' : Text} {move : Nat → Nat}
    (moved : delimiters document' = (delimiters document).map (Delimiter.moved move)) :
    environments document' = (environments document).map (Environment.moved move) := by
  refine environments_moved moved ?_
  have starts := pairwise_start_delimiters document
  have starts' := pairwise_start_delimiters document'
  rw [moved, List.pairwise_map] at starts'
  let Agree (first second : Delimiter) : Prop :=
    (move first.span.start ≤ move second.span.start ↔ first.span.start ≤ second.span.start) ∧
      (move second.span.start ≤ move first.span.start ↔ second.span.start ≤ first.span.start)
  have symmetric : Std.Symm Agree := ⟨fun _ _ => And.symm⟩
  have agree : (delimiters document).Pairwise Agree := by
    refine (starts.and starts').imp fun {first second} apart => ?_
    have apart : first.span.start < second.span.start ∧
        move first.span.start < move second.span.start := apart
    exact ⟨by omega, by omega⟩
  have reflexive : ∀ delimiter ∈ delimiters document, Agree delimiter delimiter :=
    fun _ _ => ⟨by omega, by omega⟩
  exact fun first isFirst second isSecond =>
    (List.Pairwise.forall_of_forall reflexive agree isFirst isSecond).1

/-- The environments of a document move where the comments of a part of it are cut. -/
theorem environments_withoutComments {front body back : Text}
    (closes : front.getLast? = some '}') (opens : back.head? = some '\\') :
    environments (front ++ (withoutComments .nothing body ++ back))
      = (environments (front ++ (body ++ back))).map
        (Environment.moved (cutOffset front.size body)) :=
  environments_of_delimiters_moved (delimiters_withoutComments closes opens)

/-- A delimiter stands in its text as it is written. -/
theorem exists_delimiterOf_of_mem_delimitersFrom {offset : Nat} {text : Text}
    {delimiter : Delimiter} (member : delimiter ∈ delimitersFrom offset text) :
    ∃ (before : Text) (opens : Bool) (gap name after : Text),
      Text.allBlank gap = true ∧ IsName name ∧
      text = before ++ (delimiterOf opens gap name ++ after) ∧
      delimiter.span = ⟨offset + before.size,
        offset + (before ++ delimiterOf opens gap name).size⟩ := by
  induction text generalizing offset with
  | nil => simp [delimitersFrom] at member
  | cons head rest ih =>
      have later (inRest : delimiter ∈ delimitersFrom (offset + head.utf8Size) rest) :
          ∃ (before : Text) (opens : Bool) (gap name after : Text),
            Text.allBlank gap = true ∧ IsName name ∧
            head :: rest = before ++ (delimiterOf opens gap name ++ after) ∧
            delimiter.span = ⟨offset + before.size,
              offset + (before ++ delimiterOf opens gap name).size⟩ := by
        obtain ⟨before, opens, gap, name, after, blank, isName, rfl, spanEq⟩ := ih inRest
        refine ⟨head :: before, opens, gap, name, after, blank, isName, rfl, ?_⟩
        simpa [Nat.add_assoc] using spanEq
      simp only [delimitersFrom] at member
      split at member
      next first found =>
        rcases List.mem_cons.mp member with rfl | inRest
        · obtain ⟨opens, gap, name, after, blank, isName, textEq, rfl⟩ :=
            delimiter?_eq_some_iff.mp found
          exact ⟨[], opens, gap, name, after, blank, isName, textEq, rfl⟩
        · exact later inRest
      next => exact later member

/-- No comment is open in front of a delimiter, and nothing is open behind it. -/
theorem behind_of_mem_delimiters {document : Text} {delimiter : Delimiter}
    (member : delimiter ∈ delimiters document) :
    Reach.nothing.behind (document.takeBytes delimiter.span.start) ≠ .comment ∧
      Reach.nothing.behind (document.takeBytes delimiter.span.stop) = .nothing := by
  obtain ⟨isDelimiter, uncommented⟩ := List.mem_filter.mp member
  have open' : Reach.nothing.behind (document.takeBytes delimiter.span.start) ≠ .comment :=
    fun hidden => by simp [(isCommented_iff _ _).mpr hidden] at uncommented
  refine ⟨open', ?_⟩
  obtain ⟨before, opens, gap, name, after, blank, isName, documentEq, spanEq⟩ :=
    exists_delimiterOf_of_mem_delimitersFrom isDelimiter
  obtain ⟨init, written, -⟩ := exists_delimiterOf_eq opens blank isName
  rw [spanEq, documentEq, Nat.zero_add] at open' ⊢
  rw [Text.takeBytes_size_append] at open'
  rw [← List.append_assoc, Nat.zero_add, Text.takeBytes_size_append]
  refine Reach.behind_eq_nothing (show _ = some '}' from ?_) (by decide) ?_
  · rw [List.getLast?_append_of_ne_nil _ (by simp [written]), written, ← List.cons_append,
      List.getLast?_concat]
  · rw [Reach.behind_append]
    exact Reach.behind_ne_comment open' (notMem_delimiterOf opens blank isName)

end Markup

/-- Whether a span of a text that starts at `start` begins with a backslash outside comments and
leaves nothing open behind it. -/
def Span.Uncommented (start : Nat) (text : Text) (span : Span) : Prop :=
  ∃ lead inner rest, text = lead ++ (inner ++ rest) ∧
    span = ⟨start + lead.size, start + (lead ++ inner).size⟩ ∧ inner.head? = some '\\' ∧
    Reach.nothing.behind lead ≠ .comment ∧ Reach.nothing.behind (lead ++ inner) = .nothing

/-- The environments within a part of a document stand outside its comments. -/
theorem Markup.uncommented_of_mem_environments {front body back : Text} {environment : Environment}
    (closes : front.getLast? = some '}')
    (member : environment ∈ environments (front ++ (body ++ back)))
    (starts : front.size ≤ environment.span.start)
    (stops : environment.span.stop ≤ front.size + body.size) :
    environment.span.Uncommented front.size body := by
  obtain ⟨opening, interior, closing, begins, -, openingSpells, interiorSpells, closingSpells⟩ :=
    exists_spells_of_mem_environments member
  obtain ⟨before, after, documentEq, spanEq⟩ : (front ++ (body ++ back)).Spells environment.span
      (opening ++ interior ++ closing) :=
    (openingSpells.append interiorSpells).append closingSpells
  obtain ⟨opener, isOpener, closer, isCloser, pairs⟩ := exists_delimiters_of_mem_environments member
  have openerStart : opener.span.start = environment.span.start :=
    (congrArg Span.start pairs.spans.1).symm
  have closerStop : closer.span.stop = environment.span.stop :=
    (congrArg Span.stop pairs.spans.2).symm
  have atStart := (behind_of_mem_delimiters isOpener).1
  have atStop := (behind_of_mem_delimiters isCloser).2
  obtain ⟨rest, rfl⟩ := List.head?_eq_some_iff.mp begins
  generalize innerEq : '\\' :: rest ++ interior ++ closing = inner at documentEq spanEq
  have isFirst : inner.head? = some '\\' := by rw [← innerEq]; rfl
  rw [spanEq] at starts stops openerStart closerStop
  rw [openerStart] at atStart
  rw [closerStop, ← Text.size_append] at atStop
  obtain ⟨lead, rfl⟩ : front <+: before :=
    Text.isPrefix_of_size_le ⟨_, rfl⟩ ⟨inner ++ after, by rw [documentEq]; simp⟩ starts
  have bodyBack : body ++ back = lead ++ inner ++ after := by simpa using documentEq
  obtain ⟨remaining, bodyEq⟩ : lead ++ inner <+: body := by
    refine Text.isPrefix_of_size_le ⟨after, bodyBack.symm⟩ ⟨back, rfl⟩ ?_
    simp only [Text.size_append] at stops ⊢
    omega
  have whole : front ++ (body ++ back) = front ++ (lead ++ inner) ++ after := by
    rw [bodyBack]
    simp
  have wholeFront : front ++ (body ++ back) = front ++ lead ++ (inner ++ after) := by
    rw [whole]
    simp
  have covers := covers_behind closes
  rw [wholeFront, Text.takeBytes_size_append, Reach.behind_append] at atStart
  rw [whole, List.append_assoc front lead, Text.takeBytes_size_append, Reach.behind_append]
    at atStop
  refine ⟨lead, inner, remaining, by rw [← bodyEq, List.append_assoc], ?_, isFirst, ?_, ?_⟩
  · rw [spanEq]
    simp only [Text.size_append, Nat.add_assoc]
  · rwa [(covers.behind lead).eq_of_ne atStart]
  · rw [(covers.behind (lead ++ inner)).eq_of_ne (by simp [atStop]), atStop]

end LatexTabular
