import Lox.Proofs.Derivation.Concatenation
import Lox.Proofs.Reading.Diagnostics
import Lox.Proofs.Reading.Recorded
import Lox.Proofs.Scan.Unended

/-!
A statement without the semicolon that ends it. Reading stops at the token behind it. If that one
starts a statement, reading does not go on before it but at the first boundary after it, so that
mistakes in the statement that it starts are not found.
-/

namespace Lox

open Reading Reader Grammar
open Located (moved)

/-- The semicolon at the end of a statement that prints, evaluates an expression or declares a
variable. -/
def Statement.ending? : Statement → Option Requirement
  | .print _ => some .printEnd
  | .expression _ => some .expressionEnd
  | .declareVar _ _ => some .variableEnd
  | _ => none

/-- The same for the tree of a statement. -/
def Phrase.ending? : Phrase → Option Requirement
  | .print _ => some .printEnd
  | .expression _ => some .expressionEnd
  | .declareVar _ _ => some .variableEnd
  | _ => none

lemma Statement.Denotes.ending {st : Statement} {p : Phrase} (h : st.Denotes p) :
    st.ending? = p.ending? := by
  cases st <;> simp only [Statement.Denotes] at h <;> grind [Statement.ending?, Phrase.ending?]

/-- An expression does not end with a slash. -/
lemma DerivesTerm.ends {c : Category} {ts : List Token} {t : Term} (h : DerivesTerm c ts t) :
    ∃ us last, ts = us ++ [last] ∧ last.kind ≠ .slash := by
  induction h with
  | loosest _ ih | operand _ ih | called _ ih | primary _ ih => exact ih
  | @assign ts _ _ _ _ equals _ _ _ _ _ ih =>
    obtain ⟨us, last, rfl, other⟩ := ih
    exact ⟨ts ++ equals :: us, last, by simp, other⟩
  | @join _ ts _ _ _ sign _ _ _ _ _ ih =>
    obtain ⟨us, last, rfl, other⟩ := ih
    exact ⟨ts ++ sign :: us, last, by simp, other⟩
  | @unary _ _ sign _ _ _ ih =>
    obtain ⟨us, last, rfl, other⟩ := ih
    exact ⟨sign :: us, last, by simp, other⟩
  | @call ts us _ _ opening closing _ _ _ _ _ hc _ _ =>
    exact ⟨ts ++ opening :: us, closing, by simp, by simp [hc]⟩
  | @atom t a known =>
    refine ⟨[], t, rfl, fun slash => ?_⟩
    simp [Token.atom?, slash] at known
  | @read t hk | @rand t hk => exact ⟨[], t, rfl, by simp [hk]⟩
  | @floor ts _ keyword opening closing _ _ _ hc _ =>
    exact ⟨keyword :: opening :: ts, closing, by simp, by simp [hc]⟩
  | @substring ts us vs _ _ _ keyword opening comma comma' closing _ _ _ _ _ _ _ hc _ _ _ =>
    exact ⟨keyword :: opening :: (ts ++ comma :: (us ++ comma' :: vs)), closing, by simp,
      by simp [hc]⟩
  | @group ts _ opening closing _ _ hc _ =>
    exact ⟨opening :: ts, closing, by simp, by simp [hc]⟩

/-- A token that starts a statement does not go on with one. -/
lemma TokenKind.ends_of_startsStatement {kind : TokenKind} (h : kind.startsStatement = true) :
    kind ≠ .semicolon ∧ Continuation.ofKind? kind = none := by
  cases kind <;> first | exact ⟨by decide, rfl⟩ | cases h

/-- A reader reads so many tokens and stops at what stands behind them, where a semicolon is
missing. -/
def Reader.StopsAfter {α : Type} (x : Reader α) (what : Requirement) (ts : List Token) : Prop :=
  ∀ (s : Reading) (t : Token) (rest : List Token), s.nodes = #[] → t.kind ≠ .semicolon →
    Continuation.ofKind? t.kind = none →
    x (s.facing (ts ++ t :: rest)) =
      .error (SyntaxError.atToken t (.missing what t.kind)) (s.facing (t :: rest))

namespace Unbounded

variable {inside dangling : Bool} {ts us : List Token} {term : Term} {p : Phrase}
  {what : Requirement} {keyword : Token}

lemma require_stops {α : Type} {f : Token → Reader α} {s : Reading} {t : Token}
    {rest : List Token} (semicolon : what.kind = .semicolon) (other : t.kind ≠ .semicolon) :
    (require what >>= f) (s.facing (t :: rest)) =
      .error (SyntaxError.atToken t (.missing what t.kind)) (s.facing (t :: rest)) := by
  have run := require_eq what (s.facing (t :: rest))
  have here : (s.facing (t :: rest)).current = t := rfl
  rw [here, semicolon, if_neg other] at run
  exact bind_error run

lemma printStatement_stops (h : DerivesTerm .assignment ts term) :
    (printStatement expression).StopsAfter .printEnd ts := by
  intro s t rest bare other none
  obtain ⟨e, run, -⟩ := expression_then rest h bare none
  rw [printStatement, bind_ok run, require_stops rfl other]

lemma expressionStatement_stops (h : DerivesTerm .assignment ts term) :
    (expressionStatement expression).StopsAfter .expressionEnd ts := by
  intro s t rest bare other none
  obtain ⟨e, run, -⟩ := expression_then rest h bare none
  rw [expressionStatement, bind_ok run, require_stops rfl other]

lemma variableDeclaration_stops (h : DerivesVariable us p) : ∃ ts last semicolon,
    us = ts ++ [last, semicolon] ∧ last.kind ≠ .slash ∧
      (variableDeclaration expression).StopsAfter .variableEnd (ts ++ [last]) := by
  cases h with
  | @plain name semicolon hn _ =>
    refine ⟨[], name, semicolon, rfl, by simp [hn], ?_⟩
    intro s t rest _ other none
    have noEqual : t.kind ≠ .equal := by
      rintro equal
      rw [equal] at none
      cases none
    change variableDeclaration expression (s.facing (name :: t :: rest)) = _
    rw [variableDeclaration, require_facing hn, ifAt, bind_assoc, accept_other (by exact noEqual)]
    simp only [Bool.false_eq_true, if_false, pure_bind]
    rw [require_stops rfl other]
  | @initial us term name equals semicolon hn he derived _ =>
    obtain ⟨vs, last, rfl, noSlash⟩ := derived.ends
    refine ⟨name :: equals :: vs, last, semicolon, by simp, noSlash, ?_⟩
    intro s t rest bare other none
    obtain ⟨e, run, -⟩ := expression_then rest derived bare none
    simp only [List.cons_append]
    rw [variableDeclaration, require_facing hn, ifAt, bind_assoc, accept_facing he (by decide)]
    simp only [if_true]
    rw [bind_ok (map_ok run), require_stops rfl other]

/-- Only three forms of statements end with a semicolon of their own. -/
lemma statement_stops (h : DerivesPhrase (.statement inside dangling) us p)
    (ending : p.ending? = some what) : ∃ ts last semicolon,
    us = ts ++ [last, semicolon] ∧ last.kind ≠ .slash ∧
      statement.StopsAfter what (ts ++ [last]) := by
  cases h with
  | @expression _ _ us term semicolon derived _ =>
    cases ending
    obtain ⟨vs, last, rfl, noSlash⟩ := derived.ends
    refine ⟨vs, last, semicolon, by simp, noSlash, ?_⟩
    intro s t rest bare other none
    have run := expressionStatement_stops derived s t rest bare other none
    obtain ⟨first, others, same, starts⟩ := derived.opens
    rw [same, List.cons_append] at run ⊢
    rw [statement_eq, statementOf, current_facing]
    cases hk : first.kind <;> first | exact run | (rw [hk] at starts; cases starts)
  | @print _ _ us term keyword semicolon hk derived _ =>
    cases ending
    obtain ⟨vs, last, rfl, noSlash⟩ := derived.ends
    refine ⟨keyword :: vs, last, semicolon, by simp, noSlash, ?_⟩
    intro s t rest bare other none
    have run := printStatement_stops derived s t rest bare other none
    simp only [List.cons_append]
    rw [statement_eq, statementOf, current_facing]
    simp only [hk]
    rw [advance_facing (by simp [hk])]
    exact run
  | @forLoop _ _ _ _ _ _ initializer =>
    cases initializer <;> cases ending
  | _ => cases ending

lemma declaration_stops (h : DerivesPhrase (.declaration inside) us p)
    (ending : p.ending? = some what) : ∃ ts last semicolon,
    us = ts ++ [last, semicolon] ∧ last.kind ≠ .slash ∧
      declaration.StopsAfter what (ts ++ [last]) := by
  cases h with
  | @declareVar _ vs _ keyword hk derived =>
    have same : what = .variableEnd := by
      cases derived <;> cases ending <;> rfl
    obtain ⟨ts, last, semicolon, rfl, noSlash, stops⟩ := variableDeclaration_stops derived
    refine ⟨keyword :: ts, last, semicolon, rfl, noSlash, ?_⟩
    intro s t rest bare other none
    rw [declaration_eq, declarationOf, List.cons_append, List.cons_append,
      accept_other (by change keyword.kind ≠ _; simp [hk])]
    simp only [Bool.false_eq_true, if_false]
    rw [accept_facing hk (by decide), same]
    exact stops s t rest bare other none
  | declareFun => cases ending
  | statement derived =>
    obtain ⟨ts, last, semicolon, rfl, noSlash, stops⟩ := statement_stops derived ending
    refine ⟨ts, last, semicolon, rfl, noSlash, ?_⟩
    intro s t rest bare other none
    have run := stops s t rest bare other none
    obtain ⟨first, others, same, starts⟩ := derived.opens
    obtain ⟨vs, written⟩ : ∃ vs, ts ++ [last] = first :: vs := by
      cases ts with
      | nil => exact ⟨[], by rw [(List.cons.inj same).1]; rfl⟩
      | cons _ vs => exact ⟨vs ++ [last], by rw [(List.cons.inj same).1]; rfl⟩
    have plain : first.kind ≠ .kwFun ∧ first.kind ≠ .kwVar := by
      constructor <;> intro hk <;> rw [hk] at starts <;> cases starts
    rw [written, List.cons_append] at run ⊢
    rw [declaration_eq, declarationOf, accept_other (by exact plain.1)]
    simp only [Bool.false_eq_true, if_false]
    rw [accept_other (by exact plain.2)]
    exact run

end Unbounded

namespace Source

/-- What is found against the grammar behind the first token of a text, from the next boundary
on. -/
def grammaticalBehind (text : List Char) : List SyntaxError :=
  mistakesIn (Reading.start (utf8Length text) (Scan.tokens (Scan.items text))).resumed

/-- The tokens of a statement that is the whole of a text. -/
lemma unended_of_program {text : List Char} {st : Statement} {what : Requirement}
    (read : program text = .ok [st]) (ending : st.ending? = some what) : ∃ ts last semicolon,
    Scan.Yields text (ts ++ [last, semicolon]) ∧ last.kind ≠ .slash ∧
      Unbounded.declaration.StopsAfter what (ts ++ [last]) := by
  obtain ⟨quiet, _, ⟨parts, derived, split, rfl⟩, p, others, denotes, nothing, trees⟩ :=
    program_sound read
  obtain rfl : others = [] := nothing
  obtain ⟨part, rfl, rfl⟩ := List.map_eq_singleton_iff.mp trees
  obtain ⟨us, q, tokens, -⟩ := Scan.tokens_items text
  obtain ⟨ts, last, semicolon, written, noSlash, stops⟩ := Unbounded.declaration_stops
    (derived part List.mem_cons_self) (denotes.ending ▸ ending)
  refine ⟨ts, last, semicolon, ⟨quiet, q, ?_⟩, noSlash, stops⟩
  rw [proper, tokens, List.dropLast_concat] at split
  rw [tokens, split]
  simp [written]

/-- Reading a declaration that stops at a token goes on at the first boundary after that token. -/
lemma mistakesIn_stopped {s t : Reading} {e : SyntaxError} (proper : s.current.kind ≠ .eof)
    (stops : Unbounded.declaration s = .error e t) :
    mistakesIn s = mistakesIn (t.note e).resumed := by
  have same : Unbounded.declarations false s = Unbounded.declarations false (t.note e).resumed := by
    refine (congrFun (Unbounded.declarations_eq false) s).trans ?_
    rw [declarationsOf, bind_sees, bind_sees]
    simp only [beq_eq_false_iff_ne.mpr proper, Bool.false_and, Bool.or_false, Bool.false_eq_true,
      if_false]
    rw [bind_ok (recovering_error stops)]
  simp only [mistakesIn, program_eq, same]

/-- Moved tokens have the same mistakes at their places. -/
lemma mistakesIn_moved (m : Relocation) (s : Reading) :
    mistakesIn ((Setting.alone m).on s) = moved m (mistakesIn s) := by
  rw [mistakesIn, program_moved]
  unfold mistakesIn
  cases Grammar.program s <;> rfl

lemma moved_atToken (m : Relocation) (t : Token) (cause : SyntaxError.Cause) :
    moved m (SyntaxError.atToken t cause) = SyntaxError.atToken (moved m t) cause :=
  rfl

lemma mistakesIn_unended {ts : List Token} {what : Requirement} {t : Token}
    (stops : Unbounded.declaration.StopsAfter what ts) (some : ts ≠ [])
    (kinds : ∀ u ∈ ts, u.kind ≠ .eof) (boundary : t.kind.startsStatement = true)
    (m : Relocation) (us : List Token) (r : Position) :
    mistakesIn ⟨ts ++ moved m (t :: us), moved m (Token.atEnd r), #[], #[], 0, rfl⟩ =
      moved m (SyntaxError.atToken t (.missing what t.kind) ::
        mistakesIn (Reading.resumed ⟨t :: us, Token.atEnd r, #[], #[], 0, rfl⟩)) := by
  let second : Reading := ⟨t :: us, Token.atEnd r, #[], #[], 0, rfl⟩
  let whole : Reading := ⟨ts ++ moved m (t :: us), moved m (Token.atEnd r), #[], #[], 0, rfl⟩
  have proper : whole.current.kind ≠ .eof := by
    obtain ⟨first, others, rfl⟩ := List.exists_cons_of_ne_nil some
    exact kinds first List.mem_cons_self
  obtain ⟨noSemicolon, none⟩ := TokenKind.ends_of_startsStatement boundary
  have run := stops whole (moved m t) (moved m us) rfl noSemicolon none
  let e := SyntaxError.atToken (moved m t) (.missing what t.kind)
  have resumed : ((whole.facing (moved m t :: moved m us)).note e).resumed =
      ((Setting.alone m).on second.resumed).following #[e] := by
    have tokens : recovered (moved m t :: moved m us) = moved m (recovered (t :: us)) ++ [] := by
      rw [← Setting.recovered_moved m (.inl rfl), List.append_nil]
      rfl
    simp [Reading.resumed, facing, note, tokens, following, Setting.on, Setting.alone,
      Setting.others, whole, second]
  calc mistakesIn whole
      = mistakesIn ((whole.facing (moved m t :: moved m us)).note e).resumed :=
        mistakesIn_stopped proper run
    _ = mistakesIn (((Setting.alone m).on second.resumed).following #[e]) := by rw [resumed]
    _ = [e] ++ moved m (mistakesIn second.resumed) := by
        rw [mistakesIn_following, mistakesIn_moved]

/-- Where a statement is missing its semicolon and a token follows that starts a statement, the
mistake at that token is the first. The others are those behind it, from the next boundary on. -/
theorem grammatical_unended {before after second : List Char} {st : Statement}
    {what : Requirement} {t : Token}
    (read : program (before ++ ';' :: after) = .ok [st]) (ending : st.ending? = some what)
    (last : (proper (before ++ ';' :: after)).getLast?.map (·.span.start) =
      some (utf8Length before))
    (next : (proper second).head? = some t) (boundary : t.kind.startsStatement = true) :
    grammatical (before ++ after ++ '\n' :: second) =
      moved (.behind (utf8Length (before ++ after) + 1) ((before ++ after).count '\n' + 1))
        (SyntaxError.atToken t (.missing what t.kind) :: grammaticalBehind second) := by
  obtain ⟨ts, word, semicolon, whole, noSlash, stops⟩ := unended_of_program read ending
  rw [List.append_cons ts word [semicolon]] at whole
  have place : semicolon.span.start = utf8Length before := by
    obtain ⟨-, q, tokens⟩ := whole
    rw [proper, tokens, List.dropLast_concat, List.getLast?_concat] at last
    exact Option.some.inj last
  have unended : Scan.Yields (before ++ after) (ts ++ [word]) := by
    refine Scan.yields_unended whole place fun u ends => ?_
    rw [List.getLast?_concat] at ends
    exact Option.some.inj ends ▸ noSlash
  obtain ⟨ts', q, alone, joined, -⟩ := Scan.tokens_newline (before ++ after) second unended.1
  obtain ⟨q', tokens⟩ := unended.2
  obtain rfl : ts' = ts ++ [word] := (List.append_inj' (alone.symm.trans tokens) rfl).1
  obtain ⟨vs, _, tokens', kinds⟩ := Scan.tokens_items (before ++ after)
  obtain rfl : ts ++ [word] = vs := (List.append_inj' (alone.symm.trans tokens') rfl).1
  obtain ⟨us, r, behind, -⟩ := Scan.tokens_items second
  rw [proper, behind, List.dropLast_concat] at next
  obtain ⟨us', rfl⟩ := List.head?_eq_some_iff.mp next
  have start : Reading.start (utf8Length second) (Scan.tokens (Scan.items second)) =
      ⟨t :: us', Token.atEnd r, #[], #[], 0, rfl⟩ := by
    rw [behind, start_concat _ _ (Token.atEnd r) rfl]
  have start' : Reading.start (utf8Length (before ++ after ++ '\n' :: second))
      (Scan.tokens (Scan.items (before ++ after ++ '\n' :: second))) =
      ⟨ts ++ [word] ++ moved (Scan.movedBehind (before ++ after)) (t :: us'),
        moved (Scan.movedBehind (before ++ after)) (Token.atEnd r), #[], #[], 0, rfl⟩ := by
    have split : moved (Scan.movedBehind (before ++ after)) (t :: us' ++ [Token.atEnd r]) =
        moved (Scan.movedBehind (before ++ after)) (t :: us') ++
          [moved (Scan.movedBehind (before ++ after)) (Token.atEnd r)] := List.map_append
    rw [joined, behind, split, ← List.append_assoc, start_concat _ _ _ rfl]
  have result := mistakesIn_unended stops (by simp) kinds boundary
    (Scan.movedBehind (before ++ after)) us' r
  rw [← start', ← start] at result
  exact result

/-- Of the two mistakes behind a statement that is not ended, the first is not found. -/
theorem grammatical_unended_comment :
    let before := "print 1".toList
    let after := " // one".toList
    let second := "print ; var = 2;".toList
    ∃ st t, program (before ++ ';' :: after) = .ok [st] ∧ st.ending? = some .printEnd ∧
      (proper (before ++ ';' :: after)).getLast?.map (·.span.start) = some (utf8Length before) ∧
      (proper second).head? = some t ∧ t.kind.startsStatement = true ∧
      grammatical (before ++ after ++ '\n' :: second) =
        moved (.behind (utf8Length (before ++ after) + 1) ((before ++ after).count '\n' + 1))
          (SyntaxError.atToken t (.missing .printEnd t.kind) :: grammaticalBehind second) ∧
      (grammaticalBehind second).map SyntaxError.cause = [.missing .variableName .equal] := by
  intro before after second
  have endings : (program (before ++ ';' :: after)).toOption.map (List.map Statement.ending?) =
      some [some .printEnd] := by decide +kernel
  have last : (proper (before ++ ';' :: after)).getLast?.map (·.span.start) =
      some (utf8Length before) := by decide +kernel
  have starts : (proper second).head?.map (·.kind.startsStatement) = some true := by
    decide +kernel
  have behind : (grammaticalBehind second).map SyntaxError.cause =
      [.missing .variableName .equal] := by decide +kernel
  obtain ⟨t, next, boundary⟩ := Option.map_eq_some_iff.mp starts
  cases read : program (before ++ ';' :: after) with
  | error ds =>
    rw [read] at endings
    cases endings
  | ok ss =>
    rw [read] at endings
    obtain ⟨st, rfl, ending⟩ := List.map_eq_singleton_iff.mp (Option.some.inj endings)
    exact ⟨st, t, rfl, ending, last, next, boundary,
      grammatical_unended read ending last next boundary, behind⟩

/-- The mistake in `print ;` is hidden by a statement on the line above it that has no semicolon. -/
theorem grammatical_unended_hidden :
    let before := "print 1".toList
    let second := "print ;".toList
    (program (before ++ [';'])).toOption.map (List.map Statement.ending?) =
        some [some .printEnd] ∧
      Scan.errors (Scan.items second) = [] ∧
      (proper second).head?.map (·.kind.startsStatement) = some true ∧
      ¬∃ e m, grammatical (before ++ '\n' :: second) = e :: moved m (grammatical second) := by
  intro before second
  refine ⟨by decide +kernel, by decide +kernel, by decide +kernel, ?_⟩
  rintro ⟨e, m, same⟩
  have both : (grammatical (before ++ '\n' :: second)).length = 1 := by decide +kernel
  have alone : (grammatical second).length = 1 := by decide +kernel
  have moves : (moved m (grammatical second)).length = (grammatical second).length :=
    List.length_map _
  rw [same, List.length_cons, moves, alone] at both
  cases both

end Source

end Lox
