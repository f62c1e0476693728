import Lox.Proofs.Derivation.Program
import Lox.Proofs.Reading.CarriedRules
import Lox.Proofs.Scan.Joined

/-!
Programs one after the other. A text without mistakes leaves nothing to the text on the lines after
it but its place: what is read there is what is read of it alone, right or wrong, unless it goes on
with `else`.
-/

namespace Lox

open Reading Reader Grammar
open Located (moved)

variable {α : Type} [Located α] {c : Setting} {s t : Reading}

/-- What holds at every depth holds without one. -/
lemma Reader.Carries.unbounded {closed : Bool} {k least : Nat} {x : Nat → Reader α} {y : Reader α}
    (settles : ∀ n, ∃ d, Alike n least (x d) y)
    (h : ∀ d, Carries c closed k (x d) (x d)) : Carries c closed k y y := by
  intro s
  obtain ⟨d, same⟩ := settles (max s.left (c.on s).left + 1)
  have here : x d s = y s := (same s (by omega)).1
  have there : x d (c.on s) = y (c.on s) := (same (c.on s) (by omega)).1
  have carries := h d s
  refine ⟨?_, fun run sees => ?_, fun run sees => ?_⟩
  · have goes := carries.goes
    unfold Goes at goes ⊢
    rwa [here] at goes
  · exact there.symm.trans (carries.ok (here.trans run) sees)
  · exact there.symm.trans (carries.error (here.trans run) sees)

namespace Unbounded

lemma declaration_carried (c : Setting) : Carries c true 1 declaration declaration :=
  .unbounded (fun n => ⟨4 * n, declaration_unbounded (Nat.le_refl _)⟩)
    fun d => (statements_carried c d).declaration

lemma declarations_carried (c : Setting) (inBlock : Bool) :
    Carries c false 0 (declarations inBlock) (declarations inBlock) :=
  .unbounded (fun n => ⟨4 * n + 1, declarations_unbounded (Nat.le_refl _) inBlock⟩)
    fun d => (statements_carried c d).declarations inBlock

lemma declarations_onward {inBlock : Bool} {ss : List Statement}
    (run : declarations inBlock s = .ok ss t) : Onward s t :=
  (declarations_unbounded (n := s.left + 1) (Nat.le_refl _) inBlock s (Nat.lt_succ_self _)).2.onward
    run

/-- Where no mistake is recorded, the first declaration is one, and the others follow it. -/
lemma declarations_first {ss : List Statement} (run : declarations false s = .ok ss t)
    (quiet : t.errors = s.errors) (proper : s.current.kind ≠ .eof) :
    ∃ st others u, declaration s = .ok st u ∧ declarations false u = .ok others t ∧
      ss = st :: others ∧ u.left < s.left ∧ t.errors = u.errors := by
  rw [declarations_eq, declarationsOf, bind_sees, bind_sees] at run
  simp only [beq_eq_false_iff_ne.mpr proper, Bool.false_and, Bool.or_false, Bool.false_eq_true,
    if_false] at run
  have goes : Goes 1 declaration s :=
    (declaration_unbounded (n := s.left + 1) (Nat.le_refl _) s (Nat.lt_succ_self _)).2
  cases hx : declaration s with
  | error e u =>
    have recovers : recovering declaration s = .ok none (u.note e).resumed := by
      simp only [recovering, hx]
    rw [bind_ok recovers] at run
    have recorded := (declarations_onward run).errors.length_le
    have before := (goes.error hx).errors.length_le
    rw [quiet] at recorded
    simp only [Reading.resumed, Reading.note, Array.toList_push, List.length_append,
      List.length_cons, List.length_nil] at recorded
    omega
  | ok st u =>
    have recovers : recovering declaration s = .ok (some st) u := by simp only [recovering, hx]
    rw [bind_ok recovers] at run
    simp only at run
    obtain ⟨onward, passed⟩ := goes.ok hx
    cases hy : declarations false u with
    | error e v =>
      rw [bind_error hy] at run
      cases run
    | ok others v =>
      rw [bind_ok hy] at run
      cases run
      have back := (declarations_onward hy).errors
      rw [quiet] at back
      have same := onward.errors.eq_of_length_le back.length_le
      exact ⟨st, others, u, rfl, hy, rfl, by omega, quiet.trans (Array.toList_inj.mp same)⟩

/-- Declarations that end without a new mistake are read before those that stand behind. -/
lemma declarations_behind {ss : List Statement} (run : declarations false s = .ok ss t)
    (quiet : t.errors = s.errors) :
    declarations false (c.on s) = ((moved c.move ss ++ ·) <$> declarations false) (c.on t) := by
  induction hn : s.left using Nat.strongRecOn generalizing s ss with
  | _ n ih =>
    by_cases ends : s.current.kind = .eof
    · rw [declarations_eq, declarationsOf, bind_sees, bind_sees] at run
      simp only [ends, beq_self_eq_true, Bool.true_or, if_true] at run
      cases run
      have nothing : (moved c.move ([] : List Statement) ++ ·) = id := rfl
      rw [nothing, id_map]
    · obtain ⟨st, others, u, first, run', rfl, shorter, quiet'⟩ :=
        declarations_first run quiet ends
      have carried := (declaration_carried c s).ok first (.inl rfl)
      have recovers : recovering declaration (c.on s) = .ok (some (moved c.move st)) (c.on u) := by
        simp only [recovering, carried]
      have proper : (c.on s).current.kind ≠ .eof := by
        rw [Setting.on_current (.of_left (by omega))]
        exact ends
      have behind := ih u.left (by omega) run' quiet' rfl
      have step : declarations false (c.on s) =
          (do let others ← declarations false; pure (moved c.move st :: others)) (c.on u) := by
        refine (congrFun (declarations_eq false) (c.on s)).trans ?_
        rw [declarationsOf, bind_sees, bind_sees]
        simp only [beq_eq_false_iff_ne.mpr proper, Bool.false_and, Bool.or_false,
          Bool.false_eq_true, if_false]
        rw [bind_ok recovers]
      rw [step]
      cases hx : declarations false (c.on t) with
      | ok more v =>
        rw [map_ok hx] at behind ⊢
        rw [bind_ok behind]
        rfl
      | error e v =>
        rw [map_error hx] at behind ⊢
        rw [bind_error behind]

end Unbounded

namespace Source

/-- The tokens of a text are read from a state without mistakes and nodes, outside of functions. -/
lemma start_concat (length : Nat) (ts : List Token) (last : Token) (h : last.kind = .eof) :
    Reading.start length (ts ++ [last]) = ⟨ts, last, #[], #[], 0, h⟩ := by
  simp [Reading.start, h]

/-- The program of a text is read to the end of its tokens. -/
lemma declarations_of_program {text : List Char} {ss : List Statement}
    (read : program text = .ok ss) {ts : List Token} {q : Position}
    (tokens : Scan.tokens (Scan.items text) = ts ++ [Token.atEnd q]) :
    Unbounded.declarations false ⟨ts, Token.atEnd q, #[], #[], 0, rfl⟩ =
      .ok ss ⟨[], Token.atEnd q, #[], #[], 0, rfl⟩ := by
  obtain ⟨-, -, ⟨parts, derived, split, rfl⟩, -⟩ := program_sound read
  have start := start_concat (utf8Length text) ts (Token.atEnd q) rfl
  rw [proper, tokens, List.dropLast_concat] at split
  have complete := fun part hp => Unbounded.completesForm (derived part hp)
  obtain ⟨ss', -, run⟩ := Unbounded.declarations_complete
    (s := ⟨ts, Token.atEnd q, #[], #[], 0, rfl⟩) [] derived complete rfl rfl false (.inl rfl)
  rw [List.append_nil, ← split] at run
  have whole : programOfTokens (utf8Length text) (Scan.tokens (Scan.items text)) = .ok ss' := by
    have run' : declarations (ample ⟨ts, Token.atEnd q, #[], #[], 0, rfl⟩) false
      ⟨ts, Token.atEnd q, #[], #[], 0, rfl⟩ = .ok ss' ⟨[], Token.atEnd q, #[], #[], 0, rfl⟩ := run
    rw [programOfTokens, tokens, start, Grammar.program, run']
    rfl
  have same : ss' = ss := by
    simp only [program, whole] at read
    split at read
    · exact Except.ok.inj read
    · cases read
  exact same ▸ run

lemma program_eq (s : Reading) : Grammar.program s =
    match Unbounded.declarations false s with
    | .ok statements t => if t.errors.isEmpty then .ok statements else .error t.errors.toList
    | .error e t => .error (t.errors.push e).toList :=
  rfl

/-- Moved tokens have the same program at their places, or the same mistakes. -/
lemma program_moved (m : Relocation) (s : Reading) :
    Grammar.program ((Setting.alone m).on s) = moved m (Grammar.program s) := by
  have carried := Unbounded.declarations_carried (Setting.alone m) false s
  rw [program_eq, program_eq]
  cases read : Unbounded.declarations false s with
  | ok ss t =>
    have empty : ((Setting.alone m).on t).errors.isEmpty = t.errors.isEmpty := by
      simp [Setting.on, Setting.alone, Array.isEmpty]
    simp only [carried.ok read (.inr (.inl rfl)), empty]
    split
    · rfl
    · exact congrArg Except.error Array.toList_map
  | error e t =>
    simp only [carried.error read (.inl rfl)]
    refine congrArg Except.error ?_
    simp only [Setting.on, Setting.alone, Array.toList_push, Array.toList_map]
    exact (List.map_append : (t.errors.toList ++ [e]).map (moved m) = _).symm

/-- Tokens that make up a program are read before what stands behind them. -/
lemma program_behind {s t : Reading} {ss : List Statement}
    (run : Unbounded.declarations false s = .ok ss t) (quiet : t.errors = s.errors) :
    Grammar.program (c.on s) = (moved c.move ss ++ ·) <$> Grammar.program (c.on t) := by
  have behind := Unbounded.declarations_behind (c := c) run quiet
  rw [program_eq, program_eq, behind]
  cases read : Unbounded.declarations false (c.on t) with
  | ok others u =>
    rw [map_ok read]
    simp only
    split <;> rfl
  | error e u =>
    rw [map_error read]
    rfl

lemma map_moved {β : Type} [Located β] {m : Relocation} {f : α → β}
    (h : ∀ a, f (moved m a) = moved m (f a)) (as : List α) :
    (moved m as).map f = moved m (as.map f) := by
  have same : f ∘ moved m = moved m ∘ f := funext h
  change (as.map (moved m)).map f = (as.map f).map (moved m)
  rw [List.map_map, List.map_map, same]

lemma moved_lexical (m : Relocation) (es : List LexicalError) :
    (moved m es).map Diagnostic.lexical = moved m (es.map Diagnostic.lexical) :=
  map_moved (f := Diagnostic.lexical) (fun _ => rfl) es

lemma moved_grammatical (m : Relocation) (es : List SyntaxError) :
    (moved m es).map Diagnostic.grammatical = moved m (es.map Diagnostic.grammatical) :=
  map_moved (f := Diagnostic.grammatical) (fun _ => rfl) es

/-- Tokens that make up a program have it before the tokens of any text that does not begin with
`else`. -/
lemma programOfTokens_concat (m : Relocation) (length length' : Nat) {ss : List Statement}
    {ts us : List Token} {q r : Position}
    (run : Unbounded.declarations false ⟨ts, Token.atEnd q, #[], #[], 0, rfl⟩ =
      .ok ss ⟨[], Token.atEnd q, #[], #[], 0, rfl⟩)
    (noElse : ∀ t, us.head? = some t → t.kind ≠ .kwElse) :
    programOfTokens length (ts ++ moved m (us ++ [Token.atEnd r])) =
      (ss ++ ·) <$> moved m (programOfTokens length' (us ++ [Token.atEnd r])) := by
  let second : Reading := ⟨us, Token.atEnd r, #[], #[], 0, rfl⟩
  have begins : ((Setting.alone m).on second).current.kind ≠ .kwElse := by
    cases us with
    | nil => exact nofun
    | cons t us => exact noElse t rfl
  -- the first tokens stay where they are, and the second ones, moved, stand behind them
  let both : Setting := ⟨.still, some ((Setting.alone m).on second), fun u there => by
    cases there
    exact begins⟩
  have split : ts ++ moved m (us ++ [Token.atEnd r]) =
      (ts ++ moved m us) ++ [moved m (Token.atEnd r)] := by
    rw [List.append_assoc]
    exact congrArg (ts ++ ·) List.map_append
  have start : Reading.start length (ts ++ moved m (us ++ [Token.atEnd r])) =
      both.on ⟨ts, Token.atEnd q, #[], #[], 0, rfl⟩ := by
    rw [split, start_concat _ _ (moved m (Token.atEnd r)) rfl]
    simp [both, second, Setting.alone, Setting.on, Setting.others,
      moved_still_list fun _ : Token => rfl]
  have start' : Reading.start length' (us ++ [Token.atEnd r]) = second := start_concat _ _ _ rfl
  have finish : both.on ⟨[], Token.atEnd q, #[], #[], 0, rfl⟩ = (Setting.alone m).on second := by
    simp [both, second, Setting.alone, Setting.on, Setting.others]
    rfl
  have still : moved both.move ss = ss := moved_still_list Statement.moved_still ss
  have behind := program_behind (c := both) run rfl
  rwa [finish, program_moved, still, ← start, ← start'] at behind

/-- Where a text has a program, the text after it on the lines below has its own program, or its own
mistakes, all at their places: behind the first text and the newline after it. -/
theorem program_newline {first second : List Char} {ss : List Statement}
    (read : program first = .ok ss)
    (noElse : ∀ t, (Scan.tokens (Scan.items second)).head? = some t → t.kind ≠ .kwElse) :
    program (first ++ '\n' :: second) =
      match program second with
      | .ok others =>
        .ok (ss ++ moved (.behind (utf8Length first + 1) (first.count '\n' + 1)) others)
      | .error ds =>
        .error (moved (.behind (utf8Length first + 1) (first.count '\n' + 1)) ds) := by
  obtain ⟨none, -⟩ := program_sound read
  obtain ⟨ts, q, alone, tokens, errors⟩ := Scan.tokens_newline first second none
  obtain ⟨us, r, tokens', -⟩ := Scan.tokens_items second
  generalize hm : Scan.movedBehind first = m at tokens errors
  have noElse : ∀ t, us.head? = some t → t.kind ≠ .kwElse := by
    intro t here
    refine noElse t ?_
    rw [tokens', List.head?_append, here]
    rfl
  have result := programOfTokens_concat m (utf8Length (first ++ '\n' :: second))
    (utf8Length second) (r := r) (declarations_of_program read alone) noElse
  rw [← tokens', ← tokens] at result
  have moves : Relocation.behind (utf8Length first + 1) (first.count '\n' + 1) = m := hm
  simp only [program, result, errors, moves, moved_lexical]
  cases programOfTokens (utf8Length second) (Scan.tokens (Scan.items second)) with
  | ok others => cases Scan.errors (Scan.items second) <;> rfl
  | error es =>
    change Except.error (_ ++ (moved m es).map Diagnostic.grammatical) = _
    rw [moved_grammatical]
    exact congrArg Except.error List.map_append.symm

/-- A statement with a comment after it, and two mistakes on the next line. -/
theorem program_newline_comment :
    let first := "if (nil) print nil; // no else".toList
    let second := "return @ nil;".toList
    ∃ ss, program first = .ok ss ∧
      (∀ t, (Scan.tokens (Scan.items second)).head? = some t → t.kind ≠ .kwElse) ∧
      program (first ++ '\n' :: second) =
        match program second with
        | .ok others =>
          .ok (ss ++ moved (.behind (utf8Length first + 1) (first.count '\n' + 1)) others)
        | .error ds =>
          .error (moved (.behind (utf8Length first + 1) (first.count '\n' + 1)) ds) := by
  intro first second
  have clean : (program first).toOption.isSome = true := by decide +kernel
  have head : (Scan.tokens (Scan.items second)).head?.map Token.kind = some .kwReturn := by
    decide +kernel
  have noElse : ∀ t, (Scan.tokens (Scan.items second)).head? = some t → t.kind ≠ .kwElse := by
    intro t here
    have kind : t.kind = .kwReturn := by simpa [here] using head
    simp [kind]
  cases read : program first with
  | error ds =>
    rw [read] at clean
    cases clean
  | ok ss => exact ⟨ss, rfl, noElse, program_newline read noElse⟩

end Source

end Lox
