import Lox.Proofs.Derivation.Program
import Lox.Proofs.Listing.Forms

/-!
The listing of a program tells the program, its places aside. What the grammar derives from the
tokens of a text is legible if no numeral in the text is too large.
-/

namespace Lox

open Located (moved)
open Reader (ident)

/-- A literal that is no infinite number. -/
def Literal.IsFinite : Literal → Prop
  | .number x => x.isFinite = true
  | .string _ => True

instance : DecidablePred Literal.IsFinite
  | .number x => inferInstanceAs (Decidable (x.isFinite = true))
  | .string _ => inferInstanceAs (Decidable True)

/-- The operand that a token writes is legible. -/
def Token.Legible (t : Token) : Prop :=
  ∀ a, t.atom? = some a → a.Legible

lemma Token.Legible.name {t : Token} (h : t.Legible) (kind : t.kind = .identifier) :
    IsName t.lexeme := by
  have writes : t.atom? = some (.identifier (ident t)) := by
    rw [Token.atom?, kind]
  exact h _ writes

/-- Every token of a text is legible, unless it is a numeral that is too large. -/
lemma Scan.legible_of_mem {text : List Char} {t : Token} (h : t ∈ tokens (items text))
    (finite : ∀ l ∈ t.literal, l.IsFinite) : t.Legible := by
  intro a writes
  unfold Token.atom? at writes
  split at writes <;> cases writes
  · next x _ carries => exact finite _ carries
  · next s _ carries => exact no_quote h carries
  · next kind => exact isName_of_identifier h kind
  all_goals trivial

section

variable {c : Category} {form : Form} {ts : List Token} {t : Term} {p : Phrase}

lemma Separated.mem_of_part {parts : List (List Token)} {us : List Token} (h : Separated parts us) :
    ∀ part ∈ parts, ∀ u ∈ part, u ∈ us := by
  induction h with
  | none => exact List.forall_mem_nil _
  | one => simp
  | @more ts us vs parts comma _ _ ih =>
    intro part within u inside
    rcases List.mem_cons.mp within with rfl | within
    · exact List.mem_append_left _ inside
    · exact List.mem_append_right _ (List.mem_cons_of_mem _ (ih part within u inside))

/-- A term that is derived from legible tokens is legible. -/
lemma DerivesTerm.legible (h : DerivesTerm c ts t) (tokens : ∀ u ∈ ts, u.Legible) :
    t.Legible := by
  induction h with
  | loosest _ ih | operand _ ih | called _ ih | primary _ ih => exact ih tokens
  | assign _ target _ _ first second =>
    simp only [List.forall_mem_append, List.forall_mem_cons] at tokens
    exact ⟨(first tokens.1).target target, second tokens.2.2⟩
  | @join k ts us lhs rhs sign op _ _ _ first second =>
    simp only [List.forall_mem_append, List.forall_mem_cons] at tokens
    cases op <;> exact ⟨first tokens.1, second tokens.2.2⟩
  | unary _ _ ih =>
    exact ih (List.forall_mem_cons.mp tokens).2
  | @call ts us _ parts _ _ _ _ _ separated _ _ first others =>
    simp only [List.forall_mem_append, List.forall_mem_cons] at tokens
    have arguments : ∀ t ∈ parts.map Prod.snd, t.Legible := by
      simp only [List.forall_mem_map]
      intro part within
      have mine := separated.mem_of_part part.1 (List.mem_map_of_mem within)
      exact others part within fun u inside => tokens.2.2.1 u (mine u inside)
    exact ⟨first tokens.1, Term.allLegible_iff.mpr arguments⟩
  | atom writes => exact List.forall_mem_singleton.mp tokens _ writes
  | read _ | rand _ => trivial
  | floor _ _ _ _ ih =>
    simp only [List.forall_mem_append, List.forall_mem_cons] at tokens
    exact ih tokens.2.2.1
  | substring _ _ _ _ _ _ _ _ first second third =>
    simp only [List.forall_mem_append, List.forall_mem_cons] at tokens
    exact ⟨first tokens.2.2.1, second tokens.2.2.2.2.1, third tokens.2.2.2.2.2.2.1⟩
  | group _ _ _ ih =>
    simp only [List.forall_mem_append, List.forall_mem_cons] at tokens
    exact ih tokens.2.1

lemma MaybeDerivesTerm.legible {value : Option Term} (h : MaybeDerivesTerm ts value)
    (tokens : ∀ u ∈ ts, u.Legible) : Term.MaybeLegible value := by
  cases h with
  | none => trivial
  | some derived => exact derived.legible tokens

lemma DerivesVariable.legible (h : DerivesVariable ts p) (tokens : ∀ u ∈ ts, u.Legible) :
    p.Legible := by
  cases h with
  | plain kind _ =>
    simp only [List.forall_mem_cons] at tokens
    exact ⟨tokens.1.name kind, trivial⟩
  | initial kind _ derived _ =>
    simp only [List.forall_mem_append, List.forall_mem_cons] at tokens
    exact ⟨tokens.1.name kind, derived.legible tokens.2.2.1⟩

lemma DerivesInitializer.legible {initializer : Option Phrase}
    (h : DerivesInitializer ts initializer) (tokens : ∀ u ∈ ts, u.Legible) :
    Phrase.MaybeLegible initializer := by
  cases h with
  | none _ => trivial
  | declareVar _ derived => exact derived.legible (List.forall_mem_cons.mp tokens).2
  | expression derived _ =>
    simp only [List.forall_mem_append] at tokens
    exact derived.legible tokens.1

/-- The loop that a `for` stands for is legible with the clauses of the `for` and its body. -/
lemma Phrase.Legible.forLoop {line : Nat} {initializer : Option Phrase}
    {condition increment : Option Term} (first : Phrase.MaybeLegible initializer)
    (test : Term.MaybeLegible condition) (step : Term.MaybeLegible increment) (run : p.Legible) :
    (Phrase.forLoop line initializer condition increment p).Legible := by
  have tested : (condition.getD (.atom (.bool true) line)).Legible := by
    cases condition with
    | none => trivial
    | some condition => exact test
  cases increment with
  | none =>
    cases initializer with
    | none => exact ⟨tested, run⟩
    | some _ => exact ⟨first, ⟨tested, run⟩, trivial⟩
  | some _ =>
    cases initializer with
    | none => exact ⟨tested, run, step, trivial⟩
    | some _ => exact ⟨first, ⟨tested, run, step, trivial⟩, trivial⟩

/-- Phrases are legible if each of them is that is derived from legible tokens. -/
lemma Phrase.allLegible_parts {parts : List (List Token × Phrase)}
    (tokens : ∀ u ∈ (parts.map Prod.fst).flatten, u.Legible)
    (h : ∀ part ∈ parts, (∀ u ∈ part.1, u.Legible) → part.2.Legible) :
    AllLegible (parts.map Prod.snd) := by
  refine Phrase.allLegible_iff.mpr (List.forall_mem_map.mpr fun part within => ?_)
  exact h part within fun u inside =>
    tokens u (List.mem_flatten_of_mem (List.mem_map_of_mem within) inside)

/-- A phrase that is derived from legible tokens is legible. -/
lemma DerivesPhrase.legible (h : DerivesPhrase form ts p) (tokens : ∀ u ∈ ts, u.Legible) :
    p.Legible := by
  induction h with
  | declareVar _ derived => exact derived.legible (List.forall_mem_cons.mp tokens).2
  | declareFun _ name _ names separated _ _ _ _ _ ih =>
    simp only [List.forall_mem_append, List.forall_mem_cons] at tokens
    obtain ⟨-, legible, -, parameters, -, -, body, -⟩ := tokens
    refine ⟨legible.name name, ?_, Phrase.allLegible_parts body ih⟩
    simp only [List.forall_mem_map]
    intro t within
    have mine := separated.mem_of_part [t] (List.mem_map_of_mem within)
    exact (parameters t (mine t (List.mem_singleton_self t))).name (names t within)
  | statement _ ih => exact ih tokens
  | expression derived _ =>
    simp only [List.forall_mem_append] at tokens
    exact derived.legible tokens.1
  | print _ derived _ =>
    simp only [List.forall_mem_append, List.forall_mem_cons] at tokens
    exact derived.legible tokens.2.1
  | returnFrom _ derived _ =>
    simp only [List.forall_mem_append, List.forall_mem_cons] at tokens
    exact derived.legible tokens.2.1
  | block _ _ _ ih =>
    simp only [List.forall_mem_append, List.forall_mem_cons] at tokens
    exact Phrase.allLegible_parts tokens.2.1 ih
  | branch _ _ test _ _ ih =>
    simp only [List.forall_mem_append, List.forall_mem_cons] at tokens
    exact ⟨test.legible tokens.2.2.1, ih tokens.2.2.2.2, trivial⟩
  | branchElse _ _ test _ _ _ _ first second =>
    simp only [List.forall_mem_append, List.forall_mem_cons] at tokens
    exact ⟨test.legible tokens.2.2.1, first tokens.2.2.2.2.1, second tokens.2.2.2.2.2.2⟩
  | whileLoop _ _ test _ _ ih =>
    simp only [List.forall_mem_append, List.forall_mem_cons] at tokens
    exact ⟨test.legible tokens.2.2.1, ih tokens.2.2.2.2⟩
  | forLoop _ _ first test _ step _ _ ih =>
    simp only [List.forall_mem_append, List.forall_mem_cons] at tokens
    obtain ⟨-, -, clause, condition, -, increment, -, body⟩ := tokens
    exact .forLoop (first.legible clause) (test.legible condition) (step.legible increment)
      (ih body)
  | stringLoop _ _ _ name _ derived _ _ ih =>
    simp only [List.forall_mem_append, List.forall_mem_cons] at tokens
    obtain ⟨-, -, -, legible, -, iterable, -, body⟩ := tokens
    exact ⟨legible.name name, derived.legible iterable, ih body⟩

end

namespace Source

/-- A program whose numerals are finite denotes legible phrases. -/
lemma legible_of_program {text : List Char} {ss : List Statement} (h : program text = .ok ss)
    (finite : ∀ t ∈ proper text, ∀ l ∈ t.literal, l.IsFinite) :
    ∃ ps, Statement.AllDenote ss ps ∧ Phrase.AllLegible ps := by
  obtain ⟨-, ps, ⟨parts, derived, tokens, rfl⟩, denote⟩ := program_sound h
  refine ⟨_, denote, Phrase.allLegible_parts ?_ fun part within => (derived part within).legible⟩
  rw [← tokens]
  intro t within
  exact Scan.legible_of_mem (List.mem_of_mem_dropLast within) (finite t within)

/-- Two programs that are listed alike are the same trees, places aside, unless a number in one of
them is too large to be finite. -/
theorem listings_unambiguous {text text' : List Char} {ss ss' : List Statement}
    (h : program text = .ok ss) (h' : program text' = .ok ss')
    (finite : ∀ t ∈ proper text, ∀ l ∈ t.literal, l.IsFinite)
    (finite' : ∀ t ∈ proper text', ∀ l ∈ t.literal, l.IsFinite)
    (same : ss.map Statement.listing = ss'.map Statement.listing) :
    ∃ ps ps', Statement.AllDenote ss ps ∧ Statement.AllDenote ss' ps' ∧
      moved .nowhere ps = moved .nowhere ps' := by
  obtain ⟨ps, denote, legible⟩ := legible_of_program h finite
  obtain ⟨ps', denote', legible'⟩ := legible_of_program h' finite'
  refine ⟨ps, ps', denote, denote', ?_⟩
  rw [← Statement.listings_eq, ← Statement.listings_eq, denote.listings, denote'.listings] at same
  have nested := Nested.texts_injective legible.nested legible'.nested same
  rw [← Phrase.allMoved_eq, ← Phrase.allMoved_eq]
  exact Phrase.allMoved_nowhere_eq legible legible' nested

/-- A `for` with one clause is listed like the `while` that it stands for. -/
theorem listings_unambiguous_loop :
    let text := "for (; a < 1.50;) print \"(nil) \";".toList
    let text' := "while (a < 1.5) // again\n print \"(nil) \";".toList
    ∃ ss ss', program text = .ok ss ∧ program text' = .ok ss' ∧
      (∀ t ∈ proper text, ∀ l ∈ t.literal, l.IsFinite) ∧
      (∀ t ∈ proper text', ∀ l ∈ t.literal, l.IsFinite) ∧
      ss.map Statement.listing = ss'.map Statement.listing ∧
      ∃ ps ps', Statement.AllDenote ss ps ∧ Statement.AllDenote ss' ps' ∧
        moved .nowhere ps = moved .nowhere ps' := by
  intro text text'
  have listed : (program text).toOption.map (List.map Statement.listing) =
      some ["(while (< a 1.5) (print \"(nil) \"))"] := by decide +kernel
  have listed' : (program text').toOption.map (List.map Statement.listing) =
      some ["(while (< a 1.5) (print \"(nil) \"))"] := by decide +kernel
  have finite : ∀ t ∈ proper text, ∀ l ∈ t.literal, l.IsFinite := by decide +kernel
  have finite' : ∀ t ∈ proper text', ∀ l ∈ t.literal, l.IsFinite := by decide +kernel
  cases read : program text with
  | error ds => simp [read, Except.toOption] at listed
  | ok ss =>
    cases read' : program text' with
    | error ds => simp [read', Except.toOption] at listed'
    | ok ss' =>
      rw [read] at listed
      rw [read'] at listed'
      have same : ss.map Statement.listing = ss'.map Statement.listing :=
        (Option.some.inj listed).trans (Option.some.inj listed').symm
      exact ⟨ss, ss', rfl, rfl, finite, finite', same,
        listings_unambiguous read read' finite finite' same⟩

end Source

end Lox
