import Lox.Proofs.Reading.Carried

/-!
What a reader does with tokens is decided at the first one it cannot use, and what it has passed up
to there can be completed. `Viable` says so of one list of tokens, for readers that differ only in
values already read; `Predicts` says it of all lists below a length.
-/

namespace Lox

open Reading Reader

namespace SyntaxError

/-- Whether a mistake stops the declaration in which it is found. -/
def Cause.isFatal : Cause → Bool
  | .missing _ _ | .noExpression _ => true
  | .badTarget | .tooManyArguments | .tooManyParameters | .returnOutside => false

/-- The first mistake that stopped a declaration. -/
def firstFatal (es : List SyntaxError) : Option SyntaxError :=
  es.find? fun e => e.cause.isFatal

lemma firstFatal_of_prefix {es fs : List SyntaxError} {e : SyntaxError} (h : es <+: fs)
    (found : firstFatal es = some e) : firstFatal fs = some e := by
  obtain ⟨gs, rfl⟩ := h
  rw [firstFatal] at found ⊢
  rw [List.find?_append, found]
  rfl

lemma firstFatal_concat {es : List SyntaxError} {e : SyntaxError} (none : firstFatal es = none)
    (fatal : e.cause.isFatal = true) : firstFatal (es ++ [e]) = some e := by
  rw [firstFatal] at none ⊢
  simp [none, fatal]

lemma firstFatal_push {es : Array SyntaxError} {e : SyntaxError}
    (none : firstFatal es.toList = none) (slight : e.cause.isFatal = false) :
    firstFatal (es.push e).toList = Option.none := by
  rw [firstFatal] at none ⊢
  simp [none, slight]

end SyntaxError

namespace Token

/-- The kind of the next token, where none are left that of the end. -/
def nextKind : List Token → TokenKind
  | [] => .eof
  | t :: _ => t.kind

lemma nextKind_eq_of_head {ts us : List Token} (h : ts.head? = us.head?) :
    nextKind ts = nextKind us := by
  cases ts <;> cases us <;> cases h <;> rfl

/-- Tokens of the kinds `cs` begin as `cs` does. -/
lemma nextKind_append {qs r : List Token} {cs : List TokenKind} (h : qs.map kind = cs) :
    nextKind (qs ++ r) = cs.head?.getD (nextKind r) := by
  subst h
  cases qs <;> rfl

/-- What is put in the place of `r` behind some tokens does not change their first one, unless there
are none. -/
lemma head?_append_congr {p r r' : List Token} (h : r'.head? = r.head?) :
    (p ++ r').head? = (p ++ r).head? := by
  cases p with
  | nil => exact h
  | cons t p => rfl

end Token

open SyntaxError (firstFatal firstFatal_of_prefix firstFatal_concat firstFatal_push)
open Token (nextKind nextKind_append nextKind_eq_of_head head?_append_congr)

namespace Reading

/-- Nothing found so far stopped a declaration. -/
def Calm (s : Reading) : Prop :=
  firstFatal s.errors.toList = none

lemma current_kind (s : Reading) : s.current.kind = nextKind s.rest := by
  obtain ⟨rest, last, -, -, -, ends⟩ := s
  cases rest with
  | nil => exact ends
  | cons t rest => rfl

lemma pass_rest {s : Reading} {t : Token} {r : List Token} (rest : s.rest = t :: r)
    (proper : t.kind ≠ .eof) : s.pass.rest = r := by
  change passed s.rest = r
  rw [rest, passed, if_neg proper]

end Reading

namespace Reader

variable {ι κ α β : Type} {first follow first' follow' : TokenKind → Prop} {ts p r : List Token}
  {cs : List TokenKind} {n : Nat}

/-- All mistakes known where a reader ends. -/
def mistakes (x : Reader α) (s : Reading) : List SyntaxError :=
  match x s with
  | .ok _ t => t.errors.toList
  | .error e t => t.errors.toList ++ [e]

/-- The reader ends before the tokens `r`, without a fatal mistake. -/
def Accepts (x : Reader α) (s : Reading) (r : List Token) : Prop :=
  ∃ a t, x s = .ok a t ∧ t.rest = r ∧ t.Calm

/-- The first fatal mistake known where the reader ends. -/
def Rejects (x : Reader α) (s : Reading) (e : SyntaxError) : Prop :=
  firstFatal (mistakes x s) = some e

/-- The readers pass the tokens `p`, whatever stands behind them instead of `r`, as long as it
begins with the same token. -/
def Done (x : ι → Reader α) (p r : List Token) : Prop :=
  ∀ i s r', s.Calm → s.rest = p ++ r' → r'.head? = r.head? → Accepts (x i) s r'

/-- The readers find fault with the token after `p`, whatever stands behind that token. -/
def Stuck (x : ι → Reader α) (p r : List Token) : Prop :=
  ∃ cause, ∀ i s r', s.Calm → s.rest = p ++ r' → r'.head? = r.head? →
    Rejects (x i) s (SyntaxError.atToken (r'.headD s.last) cause)

/-- The readers pass `p` with tokens of the kinds `cs` after it, if what follows may follow. -/
def Completes (follow : TokenKind → Prop) (x : ι → Reader α) (p : List Token)
    (cs : List TokenKind) : Prop :=
  ∀ i s qs r', s.Calm → qs.map Token.kind = cs → s.rest = p ++ (qs ++ r') →
    follow (nextKind r') → Accepts (x i) s r'

/-- How readers fare on tokens: they pass some and then are done or find fault with the next one,
and what they pass can be completed. Where they pass none, what completes it begins as they may. -/
def Viable (first follow : TokenKind → Prop) (x : ι → Reader α) (ts : List Token) : Prop :=
  ∃ p r cs, ts = p ++ r ∧ TokenKind.eof ∉ cs ∧
    (p = [] → ∀ k, follow k → first (cs.head?.getD k)) ∧ Completes follow x p cs ∧
    (cs = [] ∧ Done x p r ∨ Stuck x p r)

/-- Readers are viable on all lists of less than `n` tokens before the end. -/
structure Predicts (n : Nat) (first follow : TokenKind → Prop) (x : ι → Reader α) : Prop where
  goes : ∀ i s, Goes 0 (x i) s
  viable : ∀ ts : List Token, ts.length < n → (∀ t ∈ ts, t.kind ≠ .eof) →
    Viable first follow x ts

/-! What the results of a reader say of what is put together from it. -/

section Results

variable {x : Reader α} {f : α → Reader β} {s t : Reading} {a : α} {e : SyntaxError}

lemma mistakes_ok (h : x s = .ok a t) : mistakes x s = t.errors.toList := by
  rw [mistakes, h]

lemma mistakes_error (h : x s = .error e t) : mistakes x s = t.errors.toList ++ [e] := by
  rw [mistakes, h]

lemma Goes.mistakes (h : Goes 0 x s) : s.errors.toList <+: x.mistakes s := by
  cases run : x s with
  | ok a t => exact mistakes_ok run ▸ (h.onward run).errors
  | error e t => exact mistakes_error run ▸ (h.error run).errors.trans (List.prefix_append _ _)

lemma Rejects.bind (h : Rejects x s e) (goes : ∀ a t, Goes 0 (f a) t) :
    Rejects (x >>= f) s e := by
  cases run : x s with
  | error e' t =>
    rw [Rejects, mistakes_error run] at h
    rw [Rejects, mistakes_error (bind_error run)]
    exact h
  | ok a t =>
    rw [Rejects, mistakes_ok run] at h
    have same : (x >>= f).mistakes s = (f a).mistakes t := by
      rw [mistakes, bind_ok run, mistakes]
    rw [Rejects, same]
    exact firstFatal_of_prefix (goes a t).mistakes h

/-- What follows a reader that is done is read from where it ends. -/
lemma Accepts.bind (h : Accepts x s r) (goes : Goes 0 x s) : ∃ a t, t.rest = r ∧ t.Calm ∧
    t.last = s.last ∧ (x >>= f) s = f a t := by
  obtain ⟨a, t, run, rest, calm⟩ := h
  exact ⟨a, t, rest, calm, (goes.onward run).last, bind_ok run⟩

lemma accepts_of_eq {y : Reader α} (same : x s = y t) (h : Accepts y t r) : Accepts x s r := by
  obtain ⟨a, u, run, ends⟩ := h
  exact ⟨a, u, same.trans run, ends⟩

lemma rejects_of_eq {y : Reader α} (same : x s = y t) (h : Rejects y t e) : Rejects x s e := by
  rw [Rejects, mistakes] at h ⊢
  rwa [same]

end Results

namespace Viable

variable {x y : ι → Reader α} {f : ι → α → Reader β}

/-- More tokens may come first, fewer may follow. -/
lemma mono (h : Viable first follow x ts) (hf : ∀ k, first k → first' k)
    (hw : ∀ k, follow' k → follow k) : Viable first' follow' x ts := by
  obtain ⟨p, r, cs, split, proper, begins, completes, ends⟩ := h
  exact ⟨p, r, cs, split, proper, fun none k hk => hf _ (begins none k (hw k hk)),
    fun i s qs r' calm kinds rest hk => completes i s qs r' calm kinds rest (hw _ hk), ends⟩

/-- Readers fare as others do from states with the same tokens, if they end alike. -/
lemma transport {z : κ → Reader β} (h : Viable first follow x ts) (g : κ → ι)
    (start : Reading → Reading) (same : ∀ s, (start s).rest = s.rest ∧ (start s).last = s.last ∧
      (start s).errors = s.errors)
    (accepts : ∀ k s u, Accepts (x (g k)) (start s) u → Accepts (z k) s u)
    (rejects : ∀ k s e, Rejects (x (g k)) (start s) e → Rejects (z k) s e) :
    Viable first follow z ts := by
  obtain ⟨p, r, cs, split, proper, begins, completes, ends⟩ := h
  have calm' : ∀ s, s.Calm → (start s).Calm := by
    intro s calm
    rwa [Calm, (same s).2.2]
  refine ⟨p, r, cs, split, proper, begins, ?_, ?_⟩
  · exact fun k s qs u calm kinds rest hu => accepts k s u
      (completes (g k) (start s) qs u (calm' s calm) kinds ((same s).1.trans rest) hu)
  · rcases ends with ⟨none, done⟩ | ⟨cause, stuck⟩
    · exact .inl ⟨none, fun k s u calm rest head => accepts k s u
        (done (g k) (start s) u (calm' s calm) ((same s).1.trans rest) head)⟩
    · refine .inr ⟨cause, fun k s u calm rest head => rejects k s _ ?_⟩
      have found := stuck (g k) (start s) u (calm' s calm) ((same s).1.trans rest) head
      rwa [(same s).2.1] at found

lemma comap (h : Viable first follow x ts) (g : κ → ι) :
    Viable first follow (fun k => x (g k)) ts :=
  h.transport g id (fun _ => ⟨rfl, rfl, rfl⟩) (fun _ _ _ => id) fun _ _ _ => id

/-- Where the first reader is done, what follows decides. What completes it begins as the first
reader may be followed. -/
lemma bind_done (goes : ∀ i s, Goes 0 (x i) s) (begins : p = [] → ∀ k, follow k → first k)
    (completes : Completes follow x p []) (done : Done x p r)
    (hf : Viable first' follow' (fun ia : ι × α => f ia.1 ia.2) r)
    (meets : ∀ k, first' k → follow k) : Viable first follow' (fun i => x i >>= f i) (p ++ r) := by
  obtain ⟨p', r', cs', rfl, proper', begins', completes', ends'⟩ := hf
  -- the first reader is done before what the second passes, or what completes that
  have next : ∀ i s qs u, s.Calm → qs.map Token.kind = cs' →
      s.rest = p ++ (p' ++ (qs ++ u)) → follow' (nextKind u) →
      Accepts (x i) s (p' ++ (qs ++ u)) := by
    intro i s qs u calm kinds rest hu
    cases p' with
    | cons t p' => exact done i s _ calm rest rfl
    | nil =>
      refine completes i s [] _ calm rfl rest (meets _ ?_)
      rw [List.nil_append, nextKind_append kinds]
      exact begins' rfl _ hu
  refine ⟨p ++ p', r', cs', by rw [List.append_assoc], proper', ?_, ?_, ?_⟩
  · intro none k hk
    obtain ⟨rfl, rfl⟩ := List.append_eq_nil_iff.mp none
    exact begins rfl _ (meets _ (begins' rfl k hk))
  · intro i s qs u calm kinds rest hu
    rw [List.append_assoc] at rest
    obtain ⟨a, t, here, calm', -, same⟩ :=
      (next i s qs u calm kinds rest hu).bind (f := f i) (goes i s)
    exact accepts_of_eq same (completes' (i, a) t qs u calm' kinds here hu)
  · rcases ends' with ⟨none, done'⟩ | ⟨cause, stuck⟩
    · refine .inl ⟨none, fun i s u calm rest head => ?_⟩
      rw [List.append_assoc] at rest
      obtain ⟨a, t, here, calm', -, same⟩ :=
        (done i s _ calm rest (head?_append_congr head)).bind (f := f i) (goes i s)
      exact accepts_of_eq same (done' (i, a) t u calm' here head)
    · refine .inr ⟨cause, fun i s u calm rest head => ?_⟩
      rw [List.append_assoc] at rest
      obtain ⟨a, t, here, calm', last, same⟩ :=
        (done i s _ calm rest (head?_append_congr head)).bind (f := f i) (goes i s)
      exact rejects_of_eq same (last ▸ stuck (i, a) t u calm' here head)

/-- Where the first reader finds fault, the second is completed from nothing. -/
lemma bind_stuck (goes : ∀ i s, Goes 0 (x i) s) (goes' : ∀ i a s, Goes 0 (f i a) s)
    (proper : .eof ∉ cs) (begins : p = [] → ∀ k, follow k → first (cs.head?.getD k))
    (completes : Completes follow x p cs) (stuck : Stuck x p r)
    (hnil : Viable first' follow' (fun ia : ι × α => f ia.1 ia.2) [])
    (meets : ∀ k, first' k → follow k) : Viable first follow' (fun i => x i >>= f i) (p ++ r) := by
  obtain ⟨p', r', cs', none, proper', begins', completes', -⟩ := hnil
  obtain ⟨rfl, rfl⟩ := List.append_eq_nil_iff.mp none.symm
  have heads : ∀ k, (cs ++ cs').head?.getD k = cs.head?.getD (cs'.head?.getD k) := by
    intro k
    cases cs <;> rfl
  refine ⟨p, r, cs ++ cs', rfl, ?_, ?_, ?_, ?_⟩
  · exact fun within => (List.mem_append.mp within).elim proper proper'
  · intro here k hk
    rw [heads]
    exact begins here _ (meets _ (begins' rfl k hk))
  · intro i s qs u calm kinds rest hu
    obtain ⟨qs, qs', rfl, kinds, kinds'⟩ := List.map_eq_append_iff.mp kinds
    rw [List.append_assoc] at rest
    have follows : follow (nextKind (qs' ++ u)) := by
      rw [nextKind_append kinds']
      exact meets _ (begins' rfl _ hu)
    obtain ⟨a, t, here, calm', -, same⟩ :=
      (completes i s qs _ calm kinds rest follows).bind (f := f i) (goes i s)
    exact accepts_of_eq same (completes' (i, a) t qs' u calm' kinds' here hu)
  · obtain ⟨cause, stuck⟩ := stuck
    exact .inr ⟨cause, fun i s u calm rest head =>
      (stuck i s u calm rest head).bind fun a t => goes' i a t⟩

/-- One reader after the other. -/
lemma bind (goes : ∀ i s, Goes 0 (x i) s) (goes' : ∀ i a s, Goes 0 (f i a) s)
    (hx : Viable first follow x ts)
    (hf : ∀ p r, ts = p ++ r → Done x p r →
      Viable first' follow' (fun ia : ι × α => f ia.1 ia.2) r)
    (hnil : Viable first' follow' (fun ia : ι × α => f ia.1 ia.2) [])
    (meets : ∀ k, first' k → follow k) : Viable first follow' (fun i => x i >>= f i) ts := by
  obtain ⟨p, r, cs, rfl, proper, begins, completes, ends⟩ := hx
  rcases ends with ⟨rfl, done⟩ | stuck
  · exact bind_done goes begins completes done (hf p r rfl done) meets
  · exact bind_stuck goes goes' proper begins completes stuck hnil meets

/-- Readers that agree wherever the next token is one of those in question fare alike. -/
lemma congr {K : TokenKind → Prop} (h : Viable first follow y ts) (here : K (nextKind ts))
    (hf : ∀ k, first k → K k) (same : ∀ i s, K s.current.kind → x i s = y i s) :
    Viable first follow x ts := by
  obtain ⟨p, r, cs, rfl, proper, begins, completes, ends⟩ := h
  have alike : ∀ i s u, s.rest = p ++ u → u.head? = r.head? → x i s = y i s := by
    intro i s u rest head
    refine same i s ?_
    rw [current_kind, rest, nextKind_eq_of_head (head?_append_congr head)]
    exact here
  refine ⟨p, r, cs, rfl, proper, begins, ?_, ?_⟩
  · intro i s qs u calm kinds rest hu
    refine accepts_of_eq (same i s ?_) (completes i s qs u calm kinds rest hu)
    rw [current_kind, rest]
    cases p with
    | cons t p => exact here
    | nil =>
      rw [List.nil_append, nextKind_append kinds]
      exact hf _ (begins rfl _ hu)
  · rcases ends with ⟨none, done⟩ | ⟨cause, stuck⟩
    · exact .inl ⟨none, fun i s u calm rest head =>
        accepts_of_eq (alike i s u rest head) (done i s u calm rest head)⟩
    · exact .inr ⟨cause, fun i s u calm rest head =>
        rejects_of_eq (alike i s u rest head) (stuck i s u calm rest head)⟩

/-- Readers that pass a token and go on. -/
lemma passing {t : Token} {rest : List Token} (proper : t.kind ≠ .eof)
    (same : ∀ i s, s.current = t → x i s = y i s.pass) (h : Viable first' follow y rest) :
    Viable first follow x (t :: rest) := by
  obtain ⟨p, r, cs, rfl, proper', -, completes, ends⟩ := h
  have passes : ∀ i s u, s.rest = t :: u → x i s = y i s.pass ∧ s.pass.rest = u := by
    intro i s u here
    refine ⟨same i s ?_, pass_rest here proper⟩
    rw [Reading.current, here]
    rfl
  refine ⟨t :: p, r, cs, rfl, proper', fun none => absurd none (List.cons_ne_nil t p),
    ?_, ?_⟩
  · intro i s qs u calm kinds here hu
    obtain ⟨run, left⟩ := passes i s _ here
    exact accepts_of_eq run (completes i s.pass qs u calm kinds left hu)
  · rcases ends with ⟨none, done⟩ | ⟨cause, stuck⟩
    · refine .inl ⟨none, fun i s u calm here head => ?_⟩
      obtain ⟨run, left⟩ := passes i s _ here
      exact accepts_of_eq run (done i s.pass u calm left head)
    · refine .inr ⟨cause, fun i s u calm here head => ?_⟩
      obtain ⟨run, left⟩ := passes i s _ here
      exact rejects_of_eq run (stuck i s.pass u calm left head)

/-- Readers that are done at once before the kinds that may follow. -/
lemma stopping (stops : ∀ i s, s.Calm → follow s.current.kind ∨ s.current.kind = nextKind ts →
      ∃ a t, x i s = .ok a t ∧ t.rest = s.rest ∧ t.Calm) : Viable follow follow x ts := by
  refine ⟨[], ts, [], rfl, List.not_mem_nil, fun _ _ hk => hk, ?_, .inl ⟨rfl, ?_⟩⟩
  · intro i s qs r' calm kinds rest hk
    obtain rfl := List.map_eq_nil_iff.mp kinds
    obtain ⟨a, t, run, same, calm'⟩ := stops i s calm (.inl (by rwa [current_kind, rest]))
    exact ⟨a, t, run, same.trans rest, calm'⟩
  · intro i s r' calm rest head
    obtain ⟨a, t, run, same, calm'⟩ := stops i s calm
      (.inr (by rw [current_kind, rest]; exact nextKind_eq_of_head head))
    exact ⟨a, t, run, same.trans rest, calm'⟩

/-- Readers that find fault at once with a token of the kind that comes next, but pass tokens of
some kinds. -/
lemma failing (cs : List TokenKind) (cause : TokenKind → SyntaxError.Cause)
    (proper : .eof ∉ cs) (begins : ∀ k, follow k → first (cs.head?.getD k))
    (completes : Completes follow x [] cs) (fatal : ∀ k, (cause k).isFatal = true)
    (fails : ∀ i s, s.rest.head? = ts.head? →
      x i s = .error (SyntaxError.atToken s.current (cause s.current.kind)) s) :
    Viable first follow x ts := by
  refine ⟨[], ts, cs, rfl, proper, fun _ => begins, completes,
    .inr ⟨cause (nextKind ts), fun i s r' calm rest head => ?_⟩⟩
  obtain rfl : s.rest = r' := rest
  have kind : s.current.kind = nextKind ts := (current_kind s).trans (nextKind_eq_of_head head)
  have run := fails i s head
  rw [kind] at run
  rw [Rejects, mistakes_error run]
  exact firstFatal_concat calm (fatal _)

lemma insideFunction (h : Viable first follow x ts) :
    Viable first follow (fun i => insideFunction (x i)) ts := by
  refine h.transport id Reading.deeper (fun _ => ⟨rfl, rfl, rfl⟩) ?_ ?_
  · rintro i s u ⟨a, t, run, rest, calm⟩
    exact ⟨a, t.shallower, insideFunction_ok run, rest, calm⟩
  · intro i s e found
    change Rejects (x i) s.deeper e at found
    cases run : x i s.deeper with
    | ok a t =>
      rw [Rejects, mistakes_ok run] at found
      rwa [Rejects, mistakes_ok (insideFunction_ok run)]
    | error e' t =>
      rw [Rejects, mistakes_error run] at found
      rwa [Rejects, mistakes_error (insideFunction_error run)]

/-- What recovers from the mistakes of readers knows of all of them. -/
lemma recovering (h : Viable first follow x ts) :
    Viable first follow (fun i => recovering (x i)) ts := by
  refine h.transport id id (fun _ => ⟨rfl, rfl, rfl⟩) ?_ ?_
  · rintro i s u ⟨a, t, run, ends⟩
    exact ⟨some a, t, recovering_ok run, ends⟩
  · intro i s e found
    have knows : (Reader.recovering (x i)).mistakes s = (x i).mistakes s := by
      cases run : x i s with
      | ok a t => rw [mistakes_ok run, mistakes_ok (recovering_ok run)]
      | error e t =>
        rw [mistakes_error run, mistakes_ok (recovering_error run)]
        exact Array.toList_push
    rw [Rejects, knows]
    exact found

end Viable

end Reader

end Lox
