import LatexTabular.Proofs.Body.Geometry
import LatexTabular.Proofs.Markup.Environment
import Mathlib.Data.List.Nodup
import Mathlib.Data.List.Perm.Basic

/-!
# How environments nest

The environments of a document are nested: of any two, one lies strictly inside the other or
they share nothing (`pairwise_nested_environments`).  Each is made of an opening and a closing
delimiter of its name (`exists_delimiters_of_mem_environments`), and no delimiter belongs to two
of them (`nodup_delimiterSpans`).
-/

namespace LatexTabular

/-- Two spans of which one lies strictly inside the other, or which share nothing. -/
def Span.Nested (first second : Span) : Prop :=
  first.Apart second ∨ first.Inside second ∨ second.Inside first

theorem Span.Nested.symm {first second : Span} (nested : first.Nested second) :
    second.Nested first := by
  rcases nested with apart | inside | inside
  · exact Or.inl (Or.symm apart)
  · exact Or.inr (Or.inr inside)
  · exact Or.inr (Or.inl inside)

namespace Markup

/-- The first delimiter ends before or where the second one starts. -/
def Delimiter.Before (first second : Delimiter) : Prop := first.span.stop ≤ second.span.start

namespace Environment

variable {pending delimiters : List Delimiter} {environment : Environment}

/-- The spans of the delimiters of an environment. -/
def delimiterSpans (environment : Environment) : List Span :=
  [environment.opening, environment.closing]

/-- An opening and a closing delimiter of one name make up an environment. -/
structure Pairs (environment : Environment) (opener closer : Delimiter) : Prop where
  opens : opener.opens = true ∧ opener.name = environment.name
  closes : closer.opens = false ∧ closer.name = environment.name
  spans : environment.opening = opener.span ∧ environment.closing = closer.span
  ordered : opener.Before closer

/-- The pending opening delimiters in front of the delimiters still to come. -/
structure Waiting (pending delimiters : List Delimiter) : Prop where
  opens : ∀ opener ∈ pending, opener.opens = true
  /-- The last one comes first. -/
  stacked : pending.Pairwise fun last first => first.Before last
  inFront : ∀ opener ∈ pending, ∀ delimiter ∈ delimiters, opener.Before delimiter
  ordered : delimiters.Pairwise Delimiter.Before

theorem Waiting.push {delimiter : Delimiter} (waiting : Waiting pending (delimiter :: delimiters))
    (isOpening : delimiter.opens = true) : Waiting (delimiter :: pending) delimiters := by
  obtain ⟨next, ordered⟩ := List.pairwise_cons.mp waiting.ordered
  refine ⟨List.forall_mem_cons.mpr ⟨isOpening, waiting.opens⟩, ?_, ?_, ordered⟩
  · refine List.pairwise_cons.mpr ⟨fun opener member => ?_, waiting.stacked⟩
    exact waiting.inFront opener member delimiter List.mem_cons_self
  · refine List.forall_mem_cons.mpr ⟨next, fun opener member other inRest => ?_⟩
    exact waiting.inFront opener member other (List.mem_cons_of_mem _ inRest)

/-- Pending openers can be dropped, together with the next delimiter. -/
theorem Waiting.drop {delimiter : Delimiter} {outer : List Delimiter}
    (waiting : Waiting pending (delimiter :: delimiters)) (isPart : outer.Sublist pending) :
    Waiting outer delimiters :=
  ⟨fun opener member => waiting.opens opener (isPart.subset member),
    waiting.stacked.sublist isPart,
    fun opener member other inRest =>
      waiting.inFront opener (isPart.subset member) other (List.mem_cons_of_mem _ inRest),
    waiting.ordered.of_cons⟩

theorem sublist_of_dropWhile {name : Text} {opener : Delimiter} {outer : List Delimiter}
    (found : pending.dropWhile (·.name != name) = opener :: outer) :
    (opener :: outer).Sublist pending := by
  rw [← found]
  exact List.dropWhile_sublist _

theorem name_of_dropWhile {name : Text} {opener : Delimiter} {outer : List Delimiter}
    (found : pending.dropWhile (·.name != name) = opener :: outer) : opener.name = name := by
  have stops := List.head?_dropWhile_not (·.name != name) pending
  rw [found] at stops
  simpa using stops

/-- A matched pair closes a pending opener or one of the delimiters still to come. -/
theorem exists_pairs_of_mem_matching (waiting : Waiting pending delimiters)
    (member : environment ∈ matching pending delimiters) :
    ∃ opener ∈ pending ++ delimiters, ∃ closer ∈ delimiters, environment.Pairs opener closer := by
  induction delimiters generalizing pending with
  | nil => exact absurd member List.not_mem_nil
  | cons delimiter rest ih =>
      rw [matching] at member
      split at member
      next isOpening =>
        obtain ⟨opener, isOpener, closer, isCloser, pairs⟩ := ih (waiting.push isOpening) member
        refine ⟨opener, ?_, closer, List.mem_cons_of_mem _ isCloser, pairs⟩
        simpa [or_left_comm] using isOpener
      next isClosing =>
        split at member
        next opener outer found =>
          have isPart := sublist_of_dropWhile found
          have isPending := isPart.subset List.mem_cons_self
          rcases List.mem_cons.mp member with rfl | member
          · exact ⟨opener, List.mem_append_left _ isPending, delimiter, List.mem_cons_self,
              ⟨waiting.opens opener isPending, rfl⟩,
              ⟨Bool.eq_false_iff.mpr isClosing, (name_of_dropWhile found).symm⟩, ⟨rfl, rfl⟩,
              waiting.inFront opener isPending delimiter List.mem_cons_self⟩
          · have outerPart := (List.sublist_cons_self opener outer).trans isPart
            obtain ⟨other, isOther, closer, isCloser, pairs⟩ := ih (waiting.drop outerPart) member
            refine ⟨other, ?_, closer, List.mem_cons_of_mem _ isCloser, pairs⟩
            rcases List.mem_append.mp isOther with inOuter | inRest
            · exact List.mem_append_left _ (outerPart.subset inOuter)
            · exact List.mem_append_right _ (List.mem_cons_of_mem _ inRest)
        next =>
          obtain ⟨opener, isOpener, closer, isCloser, pairs⟩ :=
            ih (waiting.drop (List.Sublist.refl _)) member
          refine ⟨opener, ?_, closer, List.mem_cons_of_mem _ isCloser, pairs⟩
          rcases List.mem_append.mp isOpener with inPending | inRest
          · exact List.mem_append_left _ inPending
          · exact List.mem_append_right _ (List.mem_cons_of_mem _ inRest)

/-- An environment that ends earlier than another one stands in front of it or between its
delimiters. -/
def Precedes (first second : Environment) : Prop :=
  first.closing.stop ≤ second.opening.start ∨
    second.opening.stop ≤ first.opening.start ∧ first.closing.stop ≤ second.closing.start

/-- Closing an opener drops all that were opened since, so what is closed later was opened
before it or is still to come. -/
theorem pairwise_matching (waiting : Waiting pending delimiters) :
    (matching pending delimiters).Pairwise Precedes := by
  induction delimiters generalizing pending with
  | nil => exact .nil
  | cons delimiter rest ih =>
      rw [matching]
      split
      next isOpening => exact ih (waiting.push isOpening)
      next =>
        split
        next opener outer found =>
          have isPart := sublist_of_dropWhile found
          have later := waiting.drop ((List.sublist_cons_self opener outer).trans isPart)
          have next := (List.pairwise_cons.mp waiting.ordered).1
          have below := (List.pairwise_cons.mp (waiting.stacked.sublist isPart)).1
          refine List.pairwise_cons.mpr ⟨fun second member => ?_, ih later⟩
          obtain ⟨other, isOther, closer, isCloser, pairs⟩ :=
            exists_pairs_of_mem_matching later member
          have ends : delimiter.span.stop ≤ closer.span.start := next closer isCloser
          rcases List.mem_append.mp isOther with inOuter | inRest
          · have begins : other.span.stop ≤ opener.span.start := below other inOuter
            refine Or.inr ?_
            rw [pairs.spans.1, pairs.spans.2]
            exact ⟨begins, ends⟩
          · refine Or.inl ?_
            rw [pairs.spans.1]
            exact next other inRest
        next => exact ih (waiting.drop (List.Sublist.refl _))

end Environment

section Document

variable {document : Text} {environment : Environment}

theorem waiting_delimiters (document : Text) :
    Environment.Waiting [] (delimiters document) :=
  ⟨by simp, .nil, by simp, (pairwise_delimitersFrom 0 document).filter _⟩

theorem environments_perm (document : Text) :
    (environments document).Perm (Environment.matching [] (delimiters document)) :=
  List.mergeSort_perm _ _

/-- Each environment is made of an opening and a closing delimiter of its name. -/
theorem exists_delimiters_of_mem_environments (member : environment ∈ environments document) :
    ∃ opener ∈ delimiters document, ∃ closer ∈ delimiters document,
      environment.Pairs opener closer :=
  Environment.exists_pairs_of_mem_matching (waiting_delimiters document)
    ((environments_perm document).mem_iff.mp member)

/-- The delimiters of an environment are no empty texts, and the opening one stands in front. -/
theorem ordered_of_mem_environments (member : environment ∈ environments document) :
    environment.opening.start < environment.opening.stop ∧
      environment.opening.stop ≤ environment.closing.start ∧
      environment.closing.start < environment.closing.stop := by
  obtain ⟨opening, interior, closing, opens, closes, openingSpells, interiorSpells,
    closingSpells⟩ := exists_spells_of_mem_environments member
  have openingStop := openingSpells.stop_eq
  have closingStop := closingSpells.stop_eq
  have openingPositive := Text.size_pos_of_head? opens
  have closingPositive := Text.size_pos_of_head? closes
  have between := interiorSpells.fits.ordered
  dsimp only [Environment.interior] at between
  omega

/-- Of two environments one stands in front of the other or between its delimiters. -/
theorem pairwise_precedes_environments (document : Text) :
    (environments document).Pairwise fun first second =>
      first.Precedes second ∨ second.Precedes first := by
  have matched := Environment.pairwise_matching (waiting_delimiters document)
  exact (environments_perm document).symm.pairwise (matched.imp Or.inl) Or.symm

/-- Of two environments one lies strictly inside the other, or they share nothing. -/
theorem pairwise_nested_environments (document : Text) :
    (environments document).Pairwise fun first second => first.span.Nested second.span := by
  refine (pairwise_precedes_environments document).imp_of_mem ?_
  intro first second isFirst isSecond related
  have firstOrdered := ordered_of_mem_environments isFirst
  have secondOrdered := ordered_of_mem_environments isSecond
  have nested {inner outer : Environment}
      (innerOrdered : inner.opening.start < inner.opening.stop)
      (outerOrdered : outer.opening.start < outer.opening.stop ∧
        outer.closing.start < outer.closing.stop)
      (precedes : inner.Precedes outer) : inner.span.Nested outer.span := by
    rcases precedes with inFront | ⟨begins, ends⟩
    · exact Or.inl (Or.inl inFront)
    · refine Or.inr (Or.inl ⟨?_, ?_⟩)
      · exact Nat.lt_of_lt_of_le outerOrdered.1 begins
      · exact Nat.lt_of_le_of_lt ends outerOrdered.2
  rcases related with precedes | precedes
  · exact nested firstOrdered.1 ⟨secondOrdered.1, secondOrdered.2.2⟩ precedes
  · exact (nested secondOrdered.1 ⟨firstOrdered.1, firstOrdered.2.2⟩ precedes).symm

/-- No delimiter belongs to two environments or twice to one. -/
theorem nodup_delimiterSpans (document : Text) :
    ((environments document).flatMap Environment.delimiterSpans).Nodup := by
  refine List.nodup_flatMap.mpr ⟨fun environment member => ?_, ?_⟩
  · have ordered := ordered_of_mem_environments member
    have different : environment.opening ≠ environment.closing := by
      intro same
      rw [same] at ordered
      omega
    simpa [Environment.delimiterSpans] using different
  · refine (pairwise_precedes_environments document).imp_of_mem ?_
    intro first second isFirst isSecond related span inFirst inSecond
    have firstOrdered := ordered_of_mem_environments isFirst
    have secondOrdered := ordered_of_mem_environments isSecond
    simp only [Environment.delimiterSpans, List.mem_cons, List.not_mem_nil, or_false]
      at inFirst inSecond
    unfold Environment.Precedes at related
    rcases inFirst with rfl | rfl <;> rcases inSecond with same | same <;>
      have start := congrArg Span.start same <;> omega

/-- Environments are listed in the order of their beginnings, no two of which are the same. -/
theorem pairwise_start_environments (document : Text) :
    (environments document).Pairwise fun first second => first.span.start < second.span.start := by
  have sorted : (environments document).Pairwise fun first second =>
      first.opening.start ≤ second.opening.start := by
    have sorted := @List.pairwise_mergeSort Environment
      (fun first second => decide (first.opening.start ≤ second.opening.start))
      (fun first second third left right => by
        rw [decide_eq_true_eq] at left right ⊢
        exact Nat.le_trans left right)
      (fun first second => by
        rw [Bool.or_eq_true, decide_eq_true_eq, decide_eq_true_eq]
        exact Nat.le_total _ _)
      (Environment.matching [] (delimiters document))
    exact sorted.imp of_decide_eq_true
  refine (sorted.and (pairwise_precedes_environments document)).imp_of_mem ?_
  intro first second isFirst isSecond related
  have firstOrdered := ordered_of_mem_environments isFirst
  have secondOrdered := ordered_of_mem_environments isSecond
  obtain ⟨before, precedes⟩ := related
  unfold Environment.Precedes at precedes
  have start : first.span.start = first.opening.start := rfl
  have start' : second.span.start = second.opening.start := rfl
  omega

end Document

end Markup

end LatexTabular
