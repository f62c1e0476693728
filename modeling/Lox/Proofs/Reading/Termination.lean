import Lox.Proofs.Derivation.Concatenation
import Lox.Proofs.Reading.Calls
import Mathlib.Logic.Relation
import Mathlib.Order.WellFounded

/-!
Every call leaves fewer tokens to read, or as many to a rule that is nearer to the tokens, so no
rule calls others for ever. A program is read to the end of its tokens, and each attempt at a
declaration on the way passes a token.
-/

namespace Lox

open Reading Reader

namespace Grammar

/-- A rule calls only those of a lower rank before it passes a token. -/
def Rule.rank : Rule → Nat
  | .operand | .continuations _ _ | .parameters _ => 0
  | .operation _ => 1
  | .arguments _ | .expression => 2
  | .statement => 3
  | .declaration => 4
  | .attempt => 5
  | .declarations _ => 6
  | .block => 7

/-- Before the end, an attempt passes a token, whether it finds a declaration or a mistake. -/
lemma attempt_goes {s : Reading} (proper : s.current.kind ≠ .eof) :
    Goes 1 (readers .attempt) s :=
  (recovering_alikeAt proper
    (declaration_unbounded (n := s.left + 1) (Nat.le_refl _) s (Nat.lt_succ_self _))).2

/-- Where attempts before the end pass a token, what follows them is read with fewer tokens left. -/
lemma declarationsFrom_alike {n : Nat} {attempt attempt' : Reader (Option Statement)}
    {others others' : Reader (List Statement)}
    (ha : ∀ s, s.current.kind ≠ .eof → s.left < n + 1 → AlikeAt s 1 attempt attempt')
    (ho : Alike n 0 others others') (inBlock : Bool) :
    Alike (n + 1) 0 (declarationsFrom attempt others inBlock)
      (declarationsFrom attempt' others' inBlock) := by
  intro s few
  refine sees_alikeAt (sees_alikeAt ?_)
  split
  · exact pure_alike _ s few
  · next goesOn =>
    have proper : s.current.kind ≠ .eof := by
      intro ends
      simp [ends] at goesOn
    refine ((ha s proper few).bind (k := 0) (fun found t passed => ?_) (Nat.le_refl _)).least
      (Nat.zero_le _)
    cases found with
    | some st => exact (ho.bind fun _ => pure_alike _) t (by omega)
    | none => exact ho t (by omega)

namespace Call

variable {outer inner : Call}

/-- How many tokens are left, and the rank of the rule. -/
def size (call : Call) : Nat × Nat :=
  (call.start.left, call.rule.rank)

/-- Readers that are spared are the readers of the grammar where the call in question does not
come. -/
lemma Spares.alike {R : Readers} (spares : inner.Spares R) {n : Nat} {rule : Rule}
    (apart : inner.rule = rule → n ≤ inner.start.left) :
    Alike n rule.least (R rule) (readers rule) := by
  intro s few
  refine ⟨spares ⟨rule, s⟩ ?_, readers_goes rule s⟩
  rintro rfl
  exact absurd few (Nat.not_lt.mpr (apart rfl))

/-- A call is smaller than the one that makes it. -/
lemma Leads.smaller (h : outer.Leads inner) :
    Prod.Lex (· < ·) (· < ·) inner.size outer.size := by
  obtain ⟨R, spares, differs⟩ := h
  by_contra large
  rw [Prod.lex_def, not_or, not_and] at large
  obtain ⟨many, high⟩ := large
  obtain ⟨rule, s⟩ := outer
  have many : s.left ≤ inner.start.left := Nat.le_of_not_lt many
  have fewer (callee : Rule) : Alike s.left callee.least (R callee) (readers callee) :=
    spares.alike fun _ => many
  have lower (callee : Rule) (below : callee.rank < rule.rank) :
      Alike (s.left + 1) callee.least (R callee) (readers callee) := by
    refine spares.alike fun same => ?_
    have other : inner.start.left ≠ s.left := by
      intro equal
      exact high equal (by simpa only [size, same] using below)
    exact Nat.lt_of_le_of_ne many other.symm
  refine differs ?_
  rw [← readers_body]
  have few : s.left < s.left + 1 := Nat.lt_succ_self _
  cases rule with
  | operand => exact (operandOf_alike (fun power => fewer (.operation power)) s few).1
  | operation power =>
    exact ((lower .operand Nat.zero_lt_one).bind_shorter
      (fun lhs => fewer (.continuations power lhs)) s few).1
  | continuations power lhs =>
    exact (continuationsOf_alike (fun power => fewer (.operation power)) (fewer (.arguments 0))
      (fun lhs => fewer (.continuations power lhs)) power lhs s few).1
  | arguments count =>
    exact (argumentsOf_alike (fun power => lower (.operation power) (by simp [Rule.rank]))
      (fewer (.arguments (count + 1))).least_zero count s few).1
  | expression =>
    exact (expressionOf_alike (fun power => lower (.operation power) (by simp [Rule.rank])) s few).1
  | parameters count =>
    exact (parametersOf_alike (fewer (.parameters (count + 1))).least_zero count s few).1
  | statement =>
    exact (statementOf_alike (lower .expression (by simp [Rule.rank])) (fewer .statement)
      (fewer .block) s few).1
  | declaration =>
    exact (declarationOf_alike (fewer .expression) (fewer (.parameters 0)).least_zero
      (lower .statement (by simp [Rule.rank])) (fewer .block) s few).1
  | attempt =>
    have same := (lower .declaration (by simp [Rule.rank]) s few).1
    simp only [Readers.body, recovering, same]
  | block =>
    exact (blockOf_alike (lower (.declarations true) (by simp [Rule.rank])) s few).1
  | declarations inBlock =>
    have attempts (t : Reading) (proper : t.current.kind ≠ .eof) (few : t.left < s.left + 1) :
        AlikeAt t 1 (R .attempt) (readers .attempt) :=
      ⟨(lower .attempt (by simp [Rule.rank]) t few).1, attempt_goes proper⟩
    exact (declarationsFrom_alike attempts (fewer (.declarations inBlock)) inBlock s few).1

/-- No rule calls others for ever. -/
theorem wellFounded : WellFounded fun inner outer : Call => outer.Leads inner :=
  Subrelation.wf (fun h => h.smaller)
    (InvImage.wf size (WellFounded.prod_lex Nat.lt_wfRel.wf Nat.lt_wfRel.wf))

/-- A call is made where a mistake in it makes a difference. -/
lemma leads_of_error {callee : Rule} {m : Reading}
    (g : SyntaxError → EStateM.Result SyntaxError Reading outer.rule.Result)
    (injective : Function.Injective g)
    (h : ∀ R e, Spares ⟨callee, m⟩ R → R callee m = .error e m →
      R.body outer.rule outer.start = g e) : outer.Leads ⟨callee, m⟩ := by
  classical
  let failing (e : SyntaxError) : Readers := fun rule s =>
    if Call.mk rule s = ⟨callee, m⟩ then .error e m else readers rule s
  have spares (e : SyntaxError) : Spares ⟨callee, m⟩ (failing e) := fun other differs =>
    if_neg differs
  have body (e : SyntaxError) : (failing e).body outer.rule outer.start = g e :=
    h _ e (spares e) (if_pos rfl)
  let e := SyntaxError.atToken m.current .badTarget
  let f := SyntaxError.atToken m.current .returnOutside
  by_cases same : g e = readers outer.rule outer.start
  · refine ⟨failing f, spares f, fun again => ?_⟩
    have equal := injective (same.trans (again.symm.trans (body f)))
    cases congrArg SyntaxError.cause equal
  · exact ⟨failing e, spares e, body e ▸ same⟩

lemma error_injective {α : Type} (m : Reading) :
    Function.Injective fun e => (.error e m : EStateM.Result SyntaxError Reading α) := by
  intro e f same
  cases same
  rfl

/-- Before the end, declarations begin with an attempt at one. -/
lemma leads_attempt {s : Reading} {inBlock : Bool} (proper : s.current.kind ≠ .eof)
    (goesOn : s.current.kind ≠ .rightBrace) :
    Leads ⟨.declarations inBlock, s⟩ ⟨.attempt, s⟩ := by
  refine leads_of_error (fun e => .error e s) (error_injective s) fun R e _ failed => ?_
  change declarationsFrom (R .attempt) (R (.declarations inBlock)) inBlock s = _
  rw [declarationsFrom, bind_sees, bind_sees]
  simp only [beq_eq_false_iff_ne.mpr proper, beq_eq_false_iff_ne.mpr goesOn, Bool.and_false,
    Bool.or_false, Bool.false_eq_true, if_false]
  exact bind_error failed

lemma leads_declaration (s : Reading) : Leads ⟨.attempt, s⟩ ⟨.declaration, s⟩ := by
  refine leads_of_error (fun e => .ok none (s.note e).resumed) ?_ fun R e _ failed =>
    recovering_error failed
  intro e f same
  have states := (EStateM.Result.ok.inj same).2
  have errors : s.errors.push e = s.errors.push f := congrArg Reading.errors states
  exact (Array.push_eq_push.mp errors).1

lemma leads_declarations (s : Reading) : Leads ⟨.block, s⟩ ⟨.declarations true, s⟩ :=
  leads_of_error (fun e => .error e s) (error_injective s) fun _ _ _ failed => bind_error failed

/-- A function is declared by calling for its body inside of it. -/
lemma leads_body {s t : Reading} {head : Ident × List Ident} (function : s.current.kind = .kwFun)
    (run : functionHead (Unbounded.parameters 0) s.pass = .ok head t) :
    Leads ⟨.declaration, s⟩ ⟨.block, t.deeper⟩ := by
  refine leads_of_error (fun e => .error e t.deeper.shallower) (error_injective _)
    fun R e spares failed => ?_
  have names : R (.parameters 0) = Unbounded.parameters 0 :=
    funext fun u => spares ⟨.parameters 0, u⟩ (by simp)
  change declarationOf (R .expression) (R (.parameters 0)) (R .statement) (R .block) s = _
  rw [declarationOf, accept_bind_eq, if_pos function, if_pos rfl, names, bind_ok run]
  exact bind_error (insideFunction_error failed)

/-- What a call comes to begins after it and ends before it. -/
lemma within_of_leads (h : Relation.ReflTransGen Leads outer inner) :
    outer.start.Before inner.start ∧ inner.finish.Before outer.finish := by
  induction h with
  | refl => exact ⟨.refl _, .refl _⟩
  | tail _ step ih =>
    obtain ⟨starts, ends⟩ := step.within
    exact ⟨ih.1.trans starts, ends.trans ih.2⟩

lemma onward (call : Call) : Onward call.start call.finish :=
  (readers_goes call.rule call.start).finish

/-- An attempt never fails, and before the end it passes a token. -/
lemma attempt_finish {call : Call} (attempt : call.rule = .attempt) :
    (∃ found, recovering Unbounded.declaration call.start = .ok found call.finish) ∧
      (call.start.current.kind ≠ .eof → call.finish.left < call.start.left) := by
  obtain ⟨rule, s⟩ := call
  subst attempt
  have run : ∃ found t, recovering Unbounded.declaration s = .ok found t := by
    cases h : Unbounded.declaration s with
    | ok st t => exact ⟨_, _, recovering_ok h⟩
    | error e t => exact ⟨_, _, recovering_error h⟩
  obtain ⟨found, t, run⟩ := run
  have ends : finish ⟨.attempt, s⟩ = t := finish_ok run
  refine ⟨⟨found, ends ▸ run⟩, fun proper => ?_⟩
  rw [ends]
  exact ((attempt_goes proper).ok run).2

end Call

end Grammar

namespace Source

open Grammar

/-- The first tokens of a text are read from a state with no other token that ends them. -/
lemma start_take (text : List Char) (n : Nat) :
    let s := Reading.start (utf8Length text) ((Scan.tokens (Scan.items text)).take n)
    s.errors = #[] ∧ ∀ t ∈ s.rest, t.kind ≠ .eof := by
  obtain ⟨ts, q, same, proper⟩ := Scan.tokens_items text
  rw [same]
  by_cases whole : ts.length < n
  · rw [List.take_of_length_le (by simpa using Nat.succ_le_of_lt whole), start_concat _ _ _ rfl]
    exact ⟨rfl, proper⟩
  · rw [List.take_append_of_le_length (Nat.le_of_not_lt whole)]
    have first : ∀ t ∈ ts.take n, t.kind ≠ .eof :=
      fun t within => proper t (List.mem_of_mem_take within)
    unfold Reading.start
    split
    · exact ⟨rfl, List.forall_mem_nil _⟩
    · next t last =>
      have other : t.kind ≠ .eof := first t (List.mem_of_getLast? last)
      rw [dif_neg other]
      exact ⟨rfl, first⟩

/-- However the tokens of a text are cut off, reading them ends at the end. Its calls never go on
for ever, and never go back: tokens are only passed, mistakes only recorded. Each attempt at a
declaration leaves the depth of functions as it was, and before the end it passes a token. -/
theorem programOfTokens_progress (text : List Char) (n : Nat) :
    let tokens := (Scan.tokens (Scan.items text)).take n
    let s := Reading.start (utf8Length text) tokens
    let whole : Call := ⟨.declarations false, s⟩
    (∃ ss, (∀ depth, ample s ≤ depth → declarations depth false s = .ok ss whole.finish) ∧
      programOfTokens (utf8Length text) tokens =
        if whole.finish.errors.isEmpty then .ok ss else .error whole.finish.errors.toList) ∧
    whole.finish.rest = [] ∧ whole.finish.current.kind = .eof ∧
    (WellFounded fun inner outer : Call => outer.Leads inner) ∧
    ∀ call, Relation.ReflTransGen Call.Leads whole call →
      s.Before call.start ∧ call.start.Before call.finish ∧ call.finish.Before whole.finish ∧
      call.finish.functionDepth = call.start.functionDepth ∧
      (call.rule = .attempt →
        (∃ found, recovering Unbounded.declaration call.start = .ok found call.finish) ∧
        (call.start.current.kind ≠ .eof → call.finish.left < call.start.left)) := by
  intro tokens s whole
  obtain ⟨-, proper⟩ := start_take text n
  obtain ⟨ss, t, run⟩ := declarations_ok (ample s) false s
  have ends : whole.finish = t := finish_ok (x := Unbounded.declarations false) run
  have atEnd : whole.finish.current.kind = .eof := ends ▸ Unbounded.declarations_end run
  refine ⟨⟨ss, ?_, ?_⟩, ?_, atEnd, Call.wellFounded, ?_⟩
  · intro depth deep
    have enough : 4 * (s.left + 1) + 1 ≤ depth := by
      have : 4 * (s.left + 2) ≤ depth := deep
      omega
    rw [ends]
    exact (declarations_unbounded enough false s (Nat.lt_succ_self _)).1.trans run
  · have run' : Unbounded.declarations false s = .ok ss t := run
    rw [programOfTokens, program_eq, run', ends]
  · cases left : whole.finish.rest with
    | nil => rfl
    | cons first others =>
      have here : whole.finish.current = first := by simp [Reading.current, left]
      have within : first ∈ s.rest := whole.onward.rest.subset (by simp [left])
      exact absurd (here ▸ atEnd) (proper first within)
  · intro call reached
    obtain ⟨starts, finishes⟩ := Call.within_of_leads reached
    exact ⟨starts, call.onward.before, finishes, call.onward.functionDepth, Call.attempt_finish⟩

/-- Where the tokens end in the body of a function, the attempt there passes the one that is out of
place. -/
theorem programOfTokens_progress_body :
    let text := "fun f() { ) }".toList
    let s := Reading.start (utf8Length text) ((Scan.tokens (Scan.items text)).take 6)
    ∃ call : Call, Relation.ReflTransGen Call.Leads ⟨.declarations false, s⟩ call ∧
      call.rule = .attempt ∧ call.start.current.kind = .rightParen ∧
      call.start.functionDepth = 1 ∧ call.finish.functionDepth = 1 ∧
      call.finish.left < call.start.left := by
  intro text s
  obtain ⟨-, -, -, -, calls⟩ := programOfTokens_progress text 6
  have head : ∃ name t, functionHead (Unbounded.parameters 0) s.pass = .ok name t ∧
      t.deeper.current.kind = .rightParen ∧ t.functionDepth = 0 := by
    refine ⟨_, _, rfl, ?_, ?_⟩ <;> decide +kernel
  obtain ⟨name, t, run, here, depth⟩ := head
  have reached : Relation.ReflTransGen Call.Leads ⟨.declarations false, s⟩ ⟨.attempt, t.deeper⟩ :=
    .head (Call.leads_attempt (by decide +kernel) (by decide +kernel)) <|
      .head (Call.leads_declaration s) <| .head (Call.leads_body (by decide +kernel) run) <|
      .head (Call.leads_declarations _) <|
      .single (Call.leads_attempt (by simp [here]) (by simp [here]))
  obtain ⟨-, -, -, same, attempt⟩ := calls _ reached
  have inside : t.deeper.functionDepth = 1 := congrArg (· + 1) depth
  exact ⟨_, reached, rfl, here, inside, same.trans inside, (attempt rfl).2 (by simp [here])⟩

end Source

end Lox
