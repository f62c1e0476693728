import Lox.Proofs.Derivation.Concatenation
import Lox.Proofs.Reading.ForesightRules
import Lox.Proofs.Scan.Cut

/-!
Mistakes are found at the earliest token at which they can be. The tokens before the first one that
stops a declaration can always be completed, and together with it they never can. So the first
tokens of a program without mistakes are wrong at their end only.
-/

namespace Lox

open Reading Reader Grammar

namespace Diagnostic

/-- The mistake that stopped a declaration, if it is one. -/
def fatal? : Diagnostic → Option SyntaxError
  | .lexical _ => none
  | .grammatical e => if e.cause.isFatal then some e else none

end Diagnostic

namespace Source

/-- The first mistake reported for a text that stopped a declaration. -/
def firstFatal (text : List Char) : Option SyntaxError :=
  match program text with
  | .ok _ => none
  | .error ds => ds.findSome? Diagnostic.fatal?

/-- A text whose first fatal mistake `e` was found at its token `t`, which is written as `part`:
what stands before that token can be completed on the lines below, and nothing on the lines below
the token itself can prevent the mistake. -/
structure StopsAt (text : List Char) (e : SyntaxError) (t : Token)
    (before part after : List Char) : Prop where
  among : t ∈ Scan.tokens (Scan.items text)
  error : e = SyntaxError.atToken t e.cause
  split : text = before ++ part ++ after
  span : t.span = ⟨utf8Length before, utf8Length part⟩
  completed : ∃ c, Scan.errors (Scan.items (before ++ '\n' :: c)) = [] ∧
    firstFatal (before ++ '\n' :: c) = none
  hopeless : t.kind ≠ .eof → ∀ c, firstFatal (before ++ part ++ '\n' :: c) = some e

lemma findSome?_fatal (ls : List LexicalError) (es : List SyntaxError) :
    (ls.map Diagnostic.lexical ++ es.map Diagnostic.grammatical).findSome? Diagnostic.fatal? =
      SyntaxError.firstFatal es := by
  have lexical : (ls.map Diagnostic.lexical).findSome? Diagnostic.fatal? = none := by
    simp [Diagnostic.fatal?]
  rw [List.findSome?_append, lexical, Option.none_or]
  induction es with
  | nil => rfl
  | cons e es ih =>
    rw [SyntaxError.firstFatal] at ih ⊢
    by_cases fatal : e.cause.isFatal = true
    · simp [Diagnostic.fatal?, fatal]
    · simp [Diagnostic.fatal?, fatal, ih]

/-- What is reported for a text is what is known where its declarations end. -/
lemma firstFatal_of_tokens {text : List Char} {ts : List Token} {q : Position}
    (tokens : Scan.tokens (Scan.items text) = ts ++ [Token.atEnd q]) :
    firstFatal text = SyntaxError.firstFatal
      ((Unbounded.declarations false).mistakes ⟨ts, Token.atEnd q, #[], #[], 0, rfl⟩) := by
  have start := start_concat (utf8Length text) ts (Token.atEnd q) rfl
  have whole := program_eq ⟨ts, Token.atEnd q, #[], #[], 0, rfl⟩
  simp only [firstFatal, program, programOfTokens, tokens, start, whole, mistakes]
  cases Unbounded.declarations false ⟨ts, Token.atEnd q, #[], #[], 0, rfl⟩ with
  | error e t =>
    simp only [Array.toList_push]
    exact findSome?_fatal _ _
  | ok ss t =>
    by_cases empty : t.errors.isEmpty = true
    · have none : t.errors = #[] := Array.isEmpty_iff.mp empty
      have lexical := findSome?_fatal (Scan.errors (Scan.items text)) []
      rw [List.map_nil, List.append_nil] at lexical
      simp only [none, Array.isEmpty_empty, if_true]
      split_ifs
      · rfl
      · exact lexical
    · simp only [empty, if_false, Bool.false_eq_true]
      exact findSome?_fatal _ _

/-- The declarations of tokens are predicted up to the first token that cannot be used. -/
lemma declarations_viable {ts : List Token} (proper : ∀ t ∈ ts, t.kind ≠ .eof) :
    Viable NoElse (· = .eof) (fun _ : Unit => Unbounded.declarations false) ts :=
  ((Unbounded.statements_predict (ts.length + 1)).declarations false).viable ts
    (Nat.lt_succ_self _) proper

lemma firstFatal_of_accepts {text : List Char} {ts r : List Token} {q : Position}
    (tokens : Scan.tokens (Scan.items text) = ts ++ [Token.atEnd q])
    (accepts : Accepts (Unbounded.declarations false)
      ⟨ts, Token.atEnd q, #[], #[], 0, rfl⟩ r) : firstFatal text = none := by
  obtain ⟨ss, t, run, -, calm⟩ := accepts
  rw [firstFatal_of_tokens tokens, mistakes_ok run]
  exact calm

/-- Where the first fatal mistake of a text without lexical mistakes is found. -/
lemma stopsAt_of_firstFatal {text : List Char} {e : SyntaxError}
    (clean : Scan.errors (Scan.items text) = []) (found : firstFatal text = some e) :
    ∃ t before part after, StopsAt text e t before part after := by
  obtain ⟨ts, q, tokens, proper⟩ := Scan.tokens_items text
  obtain ⟨p, r, cs, rfl, written, -, completes, ends⟩ := declarations_viable proper
  rcases ends with ⟨-, done⟩ | ⟨cause, stuck⟩
  · have none := firstFatal_of_accepts tokens (done () _ r rfl rfl rfl)
    rw [none] at found
    cases found
  · have error : e = SyntaxError.atToken (r.headD (Token.atEnd q)) cause := by
      have rejects := stuck () ⟨p ++ r, Token.atEnd q, #[], #[], 0, rfl⟩ r rfl rfl rfl
      rw [firstFatal_of_tokens tokens] at found
      exact Option.some.inj (found.symm.trans rejects)
    have split : ∃ us, Scan.tokens (Scan.items text) = p ++ r.headD (Token.atEnd q) :: us := by
      cases r with
      | nil => exact ⟨[], by rw [tokens, List.append_nil]; rfl⟩
      | cons t r => exact ⟨r ++ [Token.atEnd q], by rw [tokens, List.append_assoc]; rfl⟩
    obtain ⟨us, split⟩ := split
    obtain ⟨before, part, after, whole, span, here, behind⟩ := Scan.yields_cut clean split
    refine ⟨r.headD (Token.atEnd q), before, part, after, ?_, ?_, whole, span, ?_, ?_⟩
    · rw [split]
      exact List.mem_append_right p List.mem_cons_self
    · rw [error]
      rfl
    · obtain ⟨c, qs, ⟨none, q', scan⟩, kinds⟩ := Scan.exists_text cs written
      obtain ⟨vs, q'', joined, kinds', quiet⟩ := here.newline c
      refine ⟨c, quiet none, firstFatal_of_accepts joined
        (completes () _ vs [] rfl ?_ (by rw [List.append_nil]) rfl)⟩
      rw [scan, List.map_append, kinds] at kinds'
      exact (List.append_inj' kinds' rfl).1
    · intro more c
      obtain ⟨vs, q', joined, -⟩ := (behind more).newline c
      rw [firstFatal_of_tokens joined, error]
      cases r with
      | nil => exact absurd rfl more
      | cons t r => exact stuck () _ (t :: vs) rfl (List.append_assoc p [t] vs) rfl

/-- The first tokens of a program, and more of it that stand behind them. -/
lemma start_of_proper (length : Nat) {ts : List Token} (proper : ∀ t ∈ ts, t.kind ≠ .eof) :
    ∃ last h, Reading.start length ts = ⟨ts, last, #[], #[], 0, h⟩ := by
  cases ends : ts.getLast? with
  | none =>
    obtain rfl := List.getLast?_eq_none_iff.mp ends
    exact ⟨_, rfl, rfl⟩
  | some t =>
    have other := proper t (List.mem_of_getLast? ends)
    refine ⟨Token.mk .eof ⟨length, 0⟩ t.line "" none, rfl, ?_⟩
    simp only [Reading.start, ends, dif_neg other]

/-- The first tokens of a program without mistakes are wrong at their end only. -/
lemma take_atEnd {text : List Char} {ss : List Statement} (read : program text = .ok ss)
    {length n : Nat} {es : List SyntaxError}
    (wrong : programOfTokens length ((Scan.tokens (Scan.items text)).take n) = .error es) :
    ∀ e ∈ es, e.site = .atEnd := by
  obtain ⟨ts, q, tokens, proper⟩ := Scan.tokens_items text
  have run := declarations_of_program read tokens
  rw [tokens] at wrong
  by_cases all : ts.length < n
  · -- all tokens are those of the program
    rw [List.take_of_length_le (by simpa using Nat.succ_le_of_lt all), programOfTokens,
      start_concat _ _ _ rfl, program_eq, run] at wrong
    cases wrong
  · have some : n ≤ ts.length := Nat.not_lt.mp all
    rw [List.take_append_of_le_length some] at wrong
    have proper' : ∀ t ∈ ts.take n, t.kind ≠ .eof :=
      fun t within => proper t (List.mem_of_mem_take within)
    obtain ⟨last, ends, start⟩ := start_of_proper length proper'
    rw [programOfTokens, start, program_eq] at wrong
    let more : Reading := ⟨ts.drop n, Token.atEnd q, #[], #[], 0, rfl⟩
    have joined : (Reading.mk (ts.take n) last #[] #[] 0 ends).before more =
        ⟨ts, Token.atEnd q, #[], #[], 0, rfl⟩ := by
      simp only [Reading.before, more, List.take_append_drop]
    rw [← joined] at run
    rcases Unbounded.declarations_foresee false _ ss _ run rfl with ⟨t, here, same⟩ | ended
    · have quiet : t.errors = #[] := congrArg Reading.errors same.symm
      rw [here] at wrong
      simp only [quiet, Array.isEmpty_empty, if_true] at wrong
      cases wrong
    · unfold Ended at ended
      cases here : Unbounded.declarations false ⟨ts.take n, last, #[], #[], 0, ends⟩ with
      | ok ss' t =>
        simp only [here] at wrong ended
        split at wrong
        · cases wrong
        · cases wrong
          exact fun e he => (ended.errors e he).resolve_left (by simp)
      | error e t =>
        simp only [here, Array.toList_push] at wrong ended
        cases wrong
        exact fun e he => (ended.errors e he).resolve_left (by simp)

/-- In a text without lexical mistakes the first fatal mistake is found at the earliest token: the
tokens before it can be completed, and with that token itself they cannot. And where a text has a
program, its first tokens alone have mistakes at their end only. -/
theorem earliest_mistake (text : List Char) :
    (∀ e, Scan.errors (Scan.items text) = [] → firstFatal text = some e →
      ∃ t before part after, StopsAt text e t before part after) ∧
    ∀ ss, program text = .ok ss → ∀ length n es,
      programOfTokens length ((Scan.tokens (Scan.items text)).take n) = .error es →
      ∀ e ∈ es, e.site = .atEnd :=
  ⟨fun _ => stopsAt_of_firstFatal, fun _ read _ _ _ wrong => take_atEnd read wrong⟩

/-- A group that is not closed where it should be, and a call of which the last tokens are
missing. -/
theorem earliest_mistake_call :
    let grouped := "print (a b);".toList
    let called := "print f(a);".toList
    (∃ e, Scan.errors (Scan.items grouped) = [] ∧ firstFatal grouped = some e ∧
      ∃ t before part after, StopsAt grouped e t before part after) ∧
    ∃ ss es, program called = .ok ss ∧
      programOfTokens 11 ((Scan.tokens (Scan.items called)).take 3) = .error es ∧
      ∀ e ∈ es, e.site = .atEnd := by
  intro grouped called
  have clean : Scan.errors (Scan.items grouped) = [] := by decide +kernel
  have some : (firstFatal grouped).isSome = true := by decide +kernel
  have right : (program called).toOption.isSome = true := by decide +kernel
  have wrong : (programOfTokens 11 ((Scan.tokens (Scan.items called)).take 3)).toOption.isSome =
      false := by decide +kernel
  obtain ⟨e, found⟩ := Option.isSome_iff_exists.mp some
  refine ⟨⟨e, clean, found, (earliest_mistake grouped).1 e clean found⟩, ?_⟩
  cases read : program called with
  | error ds =>
    rw [read] at right
    cases right
  | ok ss =>
    cases short : programOfTokens 11 ((Scan.tokens (Scan.items called)).take 3) with
    | ok ss' =>
      rw [short] at wrong
      cases wrong
    | error es => exact ⟨ss, es, rfl, rfl, (earliest_mistake called).2 ss read 11 3 es short⟩

end Source

end Lox
