import LatexTabular.Proofs.Markup.Nesting
import LatexTabular.Proofs.Table.Body
import Mathlib.Data.List.Forall2

/-!
# The ways to read a table agree

All tables of a document can be read at once, or the first one, or the innermost one around an
offset.  What is read around an offset is the last of all tables that reach there
(`Table.readAt_eq_of_readAll`), and `Table.nested_and_readers_agree` collects how the three ways
agree for documents whose environments are nested.
-/

namespace LatexTabular

open Markup

namespace Table

variable {document : Text} {tables : List Table} {offset : Nat}

/-- Whether an offset lies in a table or at either end of it. -/
def touches (table : Table) (offset : Nat) : Bool :=
  table.span.start ≤ offset && offset ≤ table.span.stop

theorem mapM_eq_ok_iff {α β : Type} {read : α → Except EditError β} {items : List α}
    {results : List β} :
    items.mapM read = .ok results ↔ List.Forall₂ (fun item result => read item = .ok result)
      items results := by
  induction items generalizing results with
  | nil => cases results <;> simp [pure, Except.pure]
  | cons item rest ih =>
      rw [List.mapM_cons]
      cases first : read item with
      | error error => cases results <;> simp [bind, Except.bind, first]
      | ok result =>
          cases others : rest.mapM read with
          | error error => cases results <;> simp [bind, Except.bind, ← ih, others, first]
          | ok remaining =>
              cases results <;> simp [bind, Except.bind, pure, Except.pure, ← ih, others, first]

/-- A table that is read from a tabular. -/
def OfTabular (document : Text) (tabular : Environment) (table : Table) : Prop :=
  ofTabular document (environments document) tabular = .ok table

/-- The tables are those of the tabulars, one by one. -/
theorem forall₂_of_readAll (read : readAll document = .ok tables) :
    List.Forall₂ (fun tabular table => OfTabular document tabular table ∧
      table.span = tabular.span) (tabulars (environments document)) tables := by
  have each := mapM_eq_ok_iff.mp read
  refine List.Forall₂.imp ?_
    ((List.forall₂_and_left _ _).mpr ⟨fun tabular member => member, each⟩)
  rintro tabular table ⟨member, found⟩
  have isEnvironment := (List.mem_filter.mp member).1
  obtain ⟨-, -, body, -, hasBody⟩ := exists_body_of_ofTabular isEnvironment found
  exact ⟨found, hasBody.span⟩

theorem sublist_tabulars (document : Text) :
    (tabulars (environments document)).Sublist (environments document) := List.filter_sublist

/-- What holds of the spans of any two environments holds of those of any two tables. -/
theorem pairwise_span_of_readAll (read : readAll document = .ok tables)
    {related : Span → Span → Prop}
    (pairwise : (environments document).Pairwise fun first second =>
      related first.span second.span) :
    tables.Pairwise fun first second => related first.span second.span := by
  have spans : tables.map Table.span = (tabulars (environments document)).map Environment.span := by
    have same := (forall₂_of_readAll read).flip.imp fun _ _ found => found.2
    exact List.forall₂_eq_eq_eq ▸ List.forall₂_map_left_iff.mpr (List.forall₂_map_right_iff.mpr same)
  have ofTabulars := pairwise.sublist (sublist_tabulars document)
  rw [← List.pairwise_map (f := Environment.span), ← spans] at ofTabulars
  exact List.pairwise_map.mp ofTabulars

theorem readFirst_eq_of_readAll (read : readAll document = .ok tables) :
    readFirst document = (tables.head?.map Except.ok).getD (.error .noTabular) := by
  have each := forall₂_of_readAll read
  dsimp only [readFirst]
  generalize tabulars (environments document) = all at each ⊢
  cases each with
  | nil => rfl
  | cons found _ => exact found.1

/-- The last of some tables belongs to the last of their tabulars. -/
theorem getLast?_of_forall₂ {α β : Type} {related : α → β → Prop} {items : List α}
    {results : List β} (each : List.Forall₂ related items results) :
    items.getLast? = none ∧ results.getLast? = none ∨
      ∃ item result, items.getLast? = some item ∧ results.getLast? = some result ∧
        related item result := by
  have reversed := List.forall₂_reverse_iff.mpr each
  rw [List.getLast?_eq_head?_reverse, List.getLast?_eq_head?_reverse]
  generalize items.reverse = backwards at reversed ⊢
  generalize results.reverse = backwards' at reversed ⊢
  cases reversed with
  | nil => exact Or.inl ⟨rfl, rfl⟩
  | cons found _ => exact Or.inr ⟨_, _, rfl, rfl, found⟩

/-- Around an offset the last of all tables that reach there is read. -/
theorem readAt_eq_of_readAll (read : readAll document = .ok tables) (offset : Nat) :
    readAt document offset = ((tables.filter (·.touches offset)).getLast?.map Except.ok).getD
      (.error (.noTabularAt offset)) := by
  have around : List.Forall₂ (fun tabular table => OfTabular document tabular table ∧
      table.span = tabular.span)
      ((tabulars (environments document)).filter fun tabular =>
        tabular.span.start ≤ offset && offset ≤ tabular.span.stop)
      (tables.filter (·.touches offset)) := by
    refine List.rel_filter ?_ (forall₂_of_readAll read)
    rintro tabular table ⟨-, spanEq⟩
    dsimp only [touches]
    rw [spanEq]
  unfold readAt
  rcases getLast?_of_forall₂ around with ⟨none, none'⟩ | ⟨tabular, table, last, last', found⟩
  · simp only [none, none']
    rfl
  · simp only [last, last']
    exact found.1

/-- Inside the last table that reaches an offset no other one does. -/
theorem not_inside_of_getLast? {last other : Table}
    (ordered : tables.Pairwise fun first second => first.span.start < second.span.start)
    (isLast : (tables.filter (·.touches offset)).getLast? = some last)
    (member : other ∈ tables) (touches : other.touches offset = true) :
    ¬ other.span.Inside last.span := by
  rintro ⟨begins, -⟩
  obtain ⟨init, split⟩ := List.getLast?_eq_some_iff.mp isLast
  have inOrder := ordered.sublist (List.filter_sublist (p := (·.touches offset)))
  have around : other ∈ tables.filter (·.touches offset) := List.mem_filter.mpr ⟨member, touches⟩
  rw [split] at inOrder around
  rcases List.mem_append.mp around with isEarlier | isLast
  · have before := (List.pairwise_append.mp inOrder).2.2 other isEarlier last List.mem_cons_self
    omega
  · rw [List.mem_singleton.mp isLast] at begins
    exact Nat.lt_irrefl _ begins

/-- At the start of the first tabular no other one reaches. -/
theorem readAt_start_eq_readFirst {tabular : Environment}
    (isFirst : (tabulars (environments document)).head? = some tabular) :
    readAt document tabular.span.start = readFirst document := by
  obtain ⟨rest, tabularsEq⟩ := List.head?_eq_some_iff.mp isFirst
  have starts := (pairwise_start_environments document).sublist (sublist_tabulars document)
  have isEnvironment : tabular ∈ environments document :=
    (sublist_tabulars document).subset (by simp [tabularsEq])
  have ordered := (span_of_mem_environments isEnvironment).1.ordered
  rw [tabularsEq] at starts
  have none : rest.filter (fun other => decide (other.span.start ≤ tabular.span.start)
      && decide (tabular.span.start ≤ other.span.stop)) = [] := by
    refine List.filter_eq_nil_iff.mpr fun other member => ?_
    have behind := (List.pairwise_cons.mp starts).1 other member
    simp [Nat.not_le.mpr behind]
  simp [readAt, readFirst, tabularsEq, none, ordered]

/-- How the tables of a document are read one by one. -/
structure ReadAlike (document : Text) (tables : List Table) : Prop where
  ordered : tables.Pairwise fun first second => first.span.start < second.span.start
  nested : tables.Pairwise fun first second => first.span.Nested second.span
  first : readFirst document = (tables.head?.map Except.ok).getD (.error .noTabular)
  around : ∀ offset, readAt document offset
    = ((tables.filter (·.touches offset)).getLast?.map Except.ok).getD
      (.error (.noTabularAt offset))
  innermost : ∀ offset last, (tables.filter (·.touches offset)).getLast? = some last →
    ∀ other ∈ tables, other.touches offset = true → ¬ other.span.Inside last.span
  start : ∀ table ∈ tables.head?, readAt document table.span.start = readFirst document

/-- The environments of a document are nested and share no delimiter, and what is read at the
front, around an offset and at the start of the first tabular are some of all its tables. -/
theorem nested_and_readers_agree (document : Text) :
    ((environments document).Pairwise fun first second => first.span.Nested second.span) ∧
      ((environments document).flatMap Environment.delimiterSpans).Nodup ∧
      (∀ environment ∈ environments document, ∃ opener ∈ delimiters document,
        ∃ closer ∈ delimiters document, environment.Pairs opener closer) ∧
      (∀ tabular ∈ (tabulars (environments document)).head?,
        readAt document tabular.span.start = readFirst document) ∧
      ∀ tables, readAll document = .ok tables → ReadAlike document tables := by
  refine ⟨pairwise_nested_environments document, nodup_delimiterSpans document,
    fun environment => exists_delimiters_of_mem_environments,
    fun tabular isFirst => readAt_start_eq_readFirst isFirst, fun tables read => ?_⟩
  have ordered := @pairwise_span_of_readAll _ _ read (fun first second => first.start < second.start)
    (pairwise_start_environments document)
  refine ⟨ordered, pairwise_span_of_readAll read (pairwise_nested_environments document),
    readFirst_eq_of_readAll read, readAt_eq_of_readAll read,
    fun offset last isLast other member touches =>
      not_inside_of_getLast? ordered isLast member touches, fun table isFirst => ?_⟩
  have each := forall₂_of_readAll read
  generalize tabularsEq : tabulars (environments document) = all at each
  cases each with
  | nil => exact absurd isFirst (by simp)
  | cons found _ =>
      obtain rfl := Option.mem_some_iff.mp isFirst
      rw [found.2]
      exact readAt_start_eq_readFirst (by rw [tabularsEq]; rfl)

/-- A tabular in a cell of another one, and a third one right behind them. -/
def enclosing : Text :=
  "\\begin\x7btabular\x7d\x7bl\x7d\\begin\x7btabular\x7d\x7bc\x7da\\end\x7btabular\x7d".toList
    ++ "\\end\x7btabular\x7d\\begin\x7btabular\x7d\x7br\x7db\\end\x7btabular\x7d".toList

theorem nested_and_readers_agree_enclosing :
    ∃ tables, readAll enclosing = .ok tables ∧
      tables.map Table.span = [⟨0, 63⟩, ⟨18, 50⟩, ⟨63, 95⟩] ∧ ReadAlike enclosing tables := by
  have inEndOrder : Environment.matching [] (delimiters enclosing)
      = [⟨"tabular".toList, ⟨18, 33⟩, ⟨37, 50⟩⟩, ⟨"tabular".toList, ⟨0, 15⟩, ⟨50, 63⟩⟩,
        ⟨"tabular".toList, ⟨63, 78⟩, ⟨82, 95⟩⟩] := by
    decide +kernel
  have matched : environments enclosing = [⟨"tabular".toList, ⟨0, 15⟩, ⟨50, 63⟩⟩,
      ⟨"tabular".toList, ⟨18, 33⟩, ⟨37, 50⟩⟩, ⟨"tabular".toList, ⟨63, 78⟩, ⟨82, 95⟩⟩] := by
    rw [environments, inEndOrder]
    simp [List.mergeSort, List.MergeSort.Internal.splitInTwo]
  have spans : (readAll enclosing).map (·.map Table.span)
      = .ok [⟨0, 63⟩, ⟨18, 50⟩, ⟨63, 95⟩] := by
    dsimp only [readAll]
    rw [matched]
    decide +kernel
  obtain ⟨tables, read, spansEq⟩ := exists_eq_ok_of_map spans
  exact ⟨tables, read, spansEq,
    (nested_and_readers_agree enclosing).2.2.2.2 tables read⟩

end Table

end LatexTabular
