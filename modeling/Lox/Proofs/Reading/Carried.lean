import Lox.Proofs.Place.Located
import Lox.Proofs.Reading.Rules

/-!
Reading in another setting: the tokens are moved, and those of a second text may stand behind them.
As long as a reader has not come to the second text, it does there what it does without it, with all
places moved. A reader that is closed does so even where its tokens are used up when it succeeds.
-/

namespace Lox

open Reading Reader
open Located (moved)

/-- Where tokens are read: how they are moved, and what stands behind them. No `else` may follow
them there, since it could belong to an `if` among them. -/
structure Setting where
  move : Relocation
  behind : Option Reading
  noElse : ∀ u, behind = some u → u.current.kind ≠ .kwElse

namespace Setting

/-- Tokens are moved, and nothing stands behind them. -/
def alone (m : Relocation) : Setting :=
  ⟨m, none, nofun⟩

variable {c : Setting} {s t : Reading}

/-- The tokens that stand behind. -/
def others (c : Setting) : List Token :=
  c.behind.elim [] Reading.rest

/-- A state in the setting. -/
def on (c : Setting) (s : Reading) : Reading where
  rest := moved c.move s.rest ++ c.others
  last := c.behind.elim (moved c.move s.last) Reading.last
  errors := s.errors.map (moved c.move)
  nodes := s.nodes.map (moved c.move)
  functionDepth := s.functionDepth
  ends := by
    cases c.behind with
    | none => exact s.ends
    | some u => exact u.ends

/-- The next token does not stand behind. -/
def Open (c : Setting) (s : Reading) : Prop :=
  c.behind = none ∨ s.rest ≠ []

lemma Open.of_onward (h : c.Open t) (onward : Onward s t) : c.Open s := by
  refine h.imp_right fun some used => some ?_
  have none := onward.rest
  rw [used] at none
  exact List.suffix_nil.mp none

lemma Open.of_left (h : 0 < s.left) : c.Open s :=
  .inr (List.ne_nil_of_length_pos h)

lemma on_current (h : c.Open s) : (c.on s).current = moved c.move s.current := by
  rcases h with none | some
  · simp only [Reading.current, on, others, none, Option.elim_none, List.append_nil]
    cases s.rest <;> rfl
  · obtain ⟨first, rest, split⟩ := List.exists_cons_of_ne_nil some
    simp only [Reading.current, on, split]
    rfl

/-- Where the tokens are used up, what stands behind comes next, and this is no `else`. -/
lemma on_current_shut (h : ¬c.Open s) :
    s.current.kind = .eof ∧ (c.on s).current.kind ≠ .kwElse := by
  obtain ⟨some, used⟩ := not_or.mp h
  obtain ⟨u, there⟩ := Option.ne_none_iff_exists'.mp some
  have none : s.rest = [] := not_not.mp used
  refine ⟨by simpa [Reading.current, none] using s.ends, ?_⟩
  have same : (c.on s).current = u.current := by
    simp only [Reading.current, on, others, there, Option.elim_some, none]
    rfl
  exact same ▸ c.noElse u there

lemma on_pass (h : s.current.kind ≠ .eof) : (c.on s).pass = c.on s.pass := by
  have split := rest_eq h
  have proper : (moved c.move s.current).kind ≠ .eof := h
  have passes : passed (c.on s).rest = moved c.move s.pass.rest ++ c.others := by
    simp only [on, split]
    change passed (moved c.move s.current :: (moved c.move s.pass.rest ++ c.others)) = _
    rw [passed, if_neg proper]
  simp only [Reading.pass, passes]
  rfl

lemma on_note (e : SyntaxError) : (c.on s).note (moved c.move e) = c.on (s.note e) := by
  simp only [Reading.note, on, Array.map_push]

lemma on_add (node : Node) : (c.on s).add (moved c.move node) = c.on (s.add node) := by
  simp only [Reading.add, on, Array.map_push]

lemma on_bare : (c.on s).bare = c.on s.bare := by
  simp only [Reading.bare, on, List.map_toArray, List.map_nil]

lemma toBoundary_moved (m : Relocation) (previous : TokenKind) {ts us : List Token}
    (h : us = [] ∨ toBoundary previous ts ≠ []) :
    toBoundary previous (moved m ts ++ us) = moved m (toBoundary previous ts) ++ us := by
  induction ts generalizing previous with
  | nil =>
    obtain rfl := h.resolve_right fun some => some rfl
    rfl
  | cons t ts ih =>
    change toBoundary previous (moved m t :: (moved m ts ++ us)) = _
    simp only [toBoundary] at h ⊢
    have kind : (moved m t).kind = t.kind := rfl
    rw [kind]
    split
    · rfl
    · next goesOn =>
      rw [if_neg goesOn] at h
      exact ih t.kind h

lemma recovered_moved (m : Relocation) {ts us : List Token}
    (h : us = [] ∨ recovered ts ≠ []) :
    recovered (moved m ts ++ us) = moved m (recovered ts) ++ us := by
  cases ts with
  | nil =>
    obtain rfl := h.resolve_right fun some => some rfl
    rfl
  | cons t ts =>
    change recovered (moved m t :: (moved m ts ++ us)) = _
    simp only [recovered] at h ⊢
    have kind : (moved m t).kind = t.kind := rfl
    rw [kind]
    split
    · rfl
    · next goesOn =>
      rw [if_neg goesOn] at h
      exact toBoundary_moved m t.kind h

lemma on_resumed (h : c.Open s.resumed) : (c.on s).resumed = c.on s.resumed := by
  have tokens : recovered (c.on s).rest = moved c.move (recovered s.rest) ++ c.others := by
    refine recovered_moved c.move (h.imp_left fun none => ?_)
    simp only [others, none, Option.elim_none]
  simp only [Reading.resumed, tokens]
  rfl

end Setting

namespace Reader

variable {α β : Type} [Located α] [Located β] {c : Setting} {s : Reading} {closed : Bool}
  {i j k : Nat}

/-- From a state, a reader passes so many tokens if it succeeds, and another reader does in a
setting what it does, if what stands behind has not been seen. A closed reader may end there. -/
structure CarriesAt (c : Setting) (closed : Bool) (least : Nat) (x y : Reader α) (s : Reading) :
    Prop where
  goes : Goes least x s
  ok {a : α} {t : Reading} : x s = .ok a t → closed = true ∨ c.Open t →
    y (c.on s) = .ok (moved c.move a) (c.on t)
  error {e : SyntaxError} {t : Reading} : x s = .error e t → c.Open t →
    y (c.on s) = .error (moved c.move e) (c.on t)

/-- The same from all states. -/
def Carries (c : Setting) (closed : Bool) (least : Nat) (x y : Reader α) : Prop :=
  ∀ s, CarriesAt c closed least x y s

omit [Located α] [Located β] in
lemma Goes.bind {x : Reader α} {f : α → Reader β} (hx : Goes j x s)
    (hf : ∀ a t, t.left + j ≤ s.left → Goes k (f a) t) : Goes (j + k) (x >>= f) s :=
  (AlikeAt.bind (y := x) (g := f) ⟨rfl, hx⟩ (fun a t passed => ⟨rfl, hf a t passed⟩)
    (Nat.le_refl _)).2

namespace CarriesAt

variable {x y : Reader α} {f g : α → Reader β}

lemma least (h : CarriesAt c closed k x y s) (hi : i ≤ k) : CarriesAt c closed i x y s :=
  ⟨h.goes.mono hi, h.ok, h.error⟩

/-- A closed reader may be taken for one that is not. -/
lemma relax (h : CarriesAt c true k x y s) : CarriesAt c closed k x y s :=
  ⟨h.goes, fun run _ => h.ok run (.inl rfl), h.error⟩

/-- Where what stands behind comes next, a reader is done only if it need pass no token. -/
lemma of_shut (goes : Goes k x s) (shut : ¬c.Open s) (h : closed = false ∨ 0 < k) :
    CarriesAt c closed k x y s := by
  refine ⟨goes, fun run sees => ?_, fun run sees => ?_⟩
  · obtain ⟨onward, passed⟩ := goes.ok run
    rcases sees with rfl | sees
    · rcases h with never | some
      · exact absurd never.symm Bool.false_ne_true
      · have left : 0 < s.left := by omega
        exact absurd (.of_left left) shut
    · exact absurd (sees.of_onward onward) shut
  · exact absurd (sees.of_onward (goes.error run)) shut

lemma bind_if {closed' : Bool} (hx : CarriesAt c closed j x y s)
    (hf : ∀ a t, t.left + j ≤ s.left → CarriesAt c closed' k (f a) (g (moved c.move a)) t)
    (h : closed = true ∨ closed' = false ∨ 0 < k) :
    CarriesAt c closed' (j + k) (x >>= f) (y >>= g) s := by
  have goes : Goes (j + k) (x >>= f) s := hx.goes.bind fun a t passed => (hf a t passed).goes
  cases run : x s with
  | error e t =>
    refine ⟨goes, fun run' => ?_, fun run' sees => ?_⟩
    · rw [bind_error run] at run'
      cases run'
    · rw [bind_error run] at run'
      cases run'
      exact bind_error (hx.error run sees)
  | ok a t =>
    have next := hf a t (hx.goes.ok run).2
    refine ⟨goes, fun run' sees => ?_, fun run' sees => ?_⟩
    · rw [bind_ok run] at run'
      obtain ⟨onward, passed⟩ := next.goes.ok run'
      have here : closed = true ∨ c.Open t := by
        rcases h with yes | no | some
        · exact .inl yes
        · exact .inr ((sees.resolve_left fun yes =>
            Bool.false_ne_true (no.symm.trans yes)).of_onward onward)
        · exact .inr (.of_left (by omega))
      rw [bind_ok (hx.ok run here)]
      exact next.ok run' sees
    · rw [bind_ok run] at run'
      rw [bind_ok (hx.ok run (.inr (sees.of_onward (next.goes.error run'))))]
      exact next.error run' sees

end CarriesAt

namespace Carries

variable {x y : Reader α} {f g : α → Reader β}

lemma least (h : Carries c closed k x y) (hi : i ≤ k) : Carries c closed i x y :=
  fun s => (h s).least hi

lemma least_zero (h : Carries c closed k x y) : Carries c closed 0 x y :=
  h.least (Nat.zero_le k)

lemma relax (h : Carries c true k x y) : Carries c closed k x y :=
  fun s => (h s).relax

/-- After a closed reader. -/
lemma bind (hx : Carries c true j x y) (hf : ∀ a, Carries c closed k (f a) (g (moved c.move a))) :
    Carries c closed (j + k) (x >>= f) (y >>= g) :=
  fun s => (hx s).bind_if (fun a t _ => hf a t) (.inl rfl)

/-- The whole need not be closed. -/
lemma bind_open (hx : Carries c closed j x y)
    (hf : ∀ a, Carries c false k (f a) (g (moved c.move a))) :
    Carries c false (j + k) (x >>= f) (y >>= g) :=
  fun s => (hx s).bind_if (fun a t _ => hf a t) (.inr (.inl rfl))

/-- What comes next must pass a token. -/
lemma bind_next (hx : Carries c false j x y)
    (hf : ∀ a, Carries c closed (k + 1) (f a) (g (moved c.move a))) :
    Carries c closed (j + (k + 1)) (x >>= f) (y >>= g) :=
  fun s => (hx s).bind_if (fun a t _ => hf a t) (.inr (.inr (Nat.succ_pos k)))

lemma ite {p : Prop} [Decidable p] {x y x' y' : Reader α} (hx : Carries c closed k x x')
    (hy : Carries c closed k y y') : Carries c closed k (if p then x else y)
      (if p then x' else y') := by
  split
  · exact hx
  · exact hy

end Carries

/-! The single steps of readers. -/

lemma pure_carries (a : α) : Carries c true 0 (pure a) (pure (moved c.move a)) := by
  refine fun s => ⟨(pure_alike (n := s.left + 1) a s (Nat.lt_succ_self _)).2, fun run _ => ?_,
    fun run _ => ?_⟩
  · cases run
    rfl
  · cases run

lemma map_carries (f : α → β) (h : ∀ a, moved c.move (f a) = f (moved c.move a)) {x y : Reader α}
    (hx : Carries c closed k x y) : Carries c closed k (f <$> x) (f <$> y) := by
  intro s
  have goes : Goes k (f <$> x) s := by
    cases run : x s with
    | ok a t => exact .of_ok (map_ok run) ((hx s).goes.ok run).1 ((hx s).goes.ok run).2
    | error e t => exact .of_error (map_error run) ((hx s).goes.error run)
  refine ⟨goes, fun run' sees => ?_, fun run' sees => ?_⟩
  · cases run : x s with
    | ok a t =>
      rw [map_ok run] at run'
      cases run'
      rw [map_ok ((hx s).ok run sees), h]
    | error e t =>
      rw [map_error run] at run'
      cases run'
  · cases run : x s with
    | ok a t =>
      rw [map_ok run] at run'
      cases run'
    | error e t =>
      rw [map_error run] at run'
      cases run'
      rw [map_error ((hx s).error run sees)]

lemma some_carries {x y : Reader α} (hx : Carries c closed k x y) :
    Carries c closed k (some <$> x) (some <$> y) :=
  map_carries some (fun _ => rfl) hx

lemma moved_atToken (m : Relocation) (t : Token) (cause : SyntaxError.Cause) :
    moved m (SyntaxError.atToken t cause) = SyntaxError.atToken (moved m t) cause :=
  rfl

lemma fail_carries (cause : TokenKind → SyntaxError.Cause) :
    Carries c closed k (fail (α := α) cause) (fail cause) := by
  refine fun s => ⟨(fail_alike (n := s.left + 1) cause s (Nat.lt_succ_self _)).2, fun run _ => ?_,
    fun run sees => ?_⟩
  · cases run
  · cases run
    change EStateM.Result.error (SyntaxError.atToken (c.on s).current _) (c.on s) = _
    rw [Setting.on_current sees, moved_atToken]
    rfl

/-- What is done at the current token. -/
lemma current_carriesAt {f g : Token → Reader β}
    (h : CarriesAt c closed k (f s.current) (g (moved c.move s.current)) s)
    (next : closed = false ∨ 0 < k) :
    CarriesAt c closed k (current >>= f) (current >>= g) s := by
  by_cases sees : c.Open s
  · have same : (current >>= g) (c.on s) = g (moved c.move s.current) (c.on s) := by
      rw [bind_current, Setting.on_current sees]
    exact ⟨h.goes, fun run sees' => same.trans (h.ok run sees'),
      fun run sees' => same.trans (h.error run sees')⟩
  · exact .of_shut h.goes sees next

lemma sees_carriesAt {kind : TokenKind} {f g : Bool → Reader β}
    (h : CarriesAt c closed k (f (s.current.kind == kind)) (g (s.current.kind == kind)) s)
    (next : closed = false ∨ 0 < k) :
    CarriesAt c closed k (sees kind >>= f) (sees kind >>= g) s :=
  current_carriesAt (f := fun t => f (t.kind == kind)) (g := fun t => g (t.kind == kind)) h next

lemma get_carriesAt {f g : Reading → Reader β} (h : CarriesAt c closed k (f s) (g (c.on s)) s) :
    CarriesAt c closed k (get >>= f) (get >>= g) s :=
  ⟨h.goes, h.ok, h.error⟩

/-- Passing a token that is not the end. -/
lemma advance_carriesAt {f g : Token → Reader β} (h : s.current.kind ≠ .eof)
    (hf : ∀ t, Carries c closed k (f t) (g (moved c.move t))) :
    CarriesAt c closed (k + 1) (advance >>= f) (advance >>= g) s := by
  have left := pass_left h
  have sees : c.Open s := .of_left (by omega)
  have passes : CarriesAt c true 1 advance advance s := by
    refine ⟨.of_ok rfl (.pass s) (Nat.le_of_eq left), fun run _ => ?_, fun run _ => ?_⟩
    · cases run
      change EStateM.Result.ok (c.on s).current (c.on s).pass = _
      rw [Setting.on_current sees, Setting.on_pass h]
    · cases run
  exact (passes.bind_if (fun t u _ => hf t u) (.inl rfl)).least (Nat.le_of_eq (Nat.add_comm k 1))

lemma require_carries (what : Requirement) : Carries c true 1 (require what) (require what) := by
  intro s
  have goes : Goes 1 (require what) s :=
    (require_alike (n := s.left + 1) what s (Nat.lt_succ_self _)).2
  refine ⟨goes, fun run _ => ?_, fun run sees => ?_⟩
  · have passed := (goes.ok run).2
    have sees : c.Open s := .of_left (by omega)
    rw [require_eq] at run ⊢
    rw [Setting.on_current sees]
    split at run
    · next seen =>
      cases run
      have proper : s.current.kind ≠ .eof := seen ▸ requirement_kind_ne_eof what
      rw [Setting.on_pass proper]
      exact if_pos seen
    · cases run
  · rw [require_eq] at run ⊢
    split at run
    · cases run
    · next missing =>
      cases run
      rw [Setting.on_current sees]
      exact if_neg missing

lemma accept_carriesAt {kind : TokenKind} (proper : kind ≠ .eof)
    (h : c.Open s ∨ s.current.kind ≠ kind ∧ (c.on s).current.kind ≠ kind) :
    CarriesAt c true 0 (accept kind) (accept kind) s := by
  refine ⟨(accept_alike (n := s.left + 1) kind s (Nat.lt_succ_self _)).2, fun run _ => ?_,
    fun run _ => ?_⟩
  · rw [accept_eq] at run ⊢
    rcases h with sees | ⟨no, no'⟩
    · rw [Setting.on_current sees]
      split at run
      · next seen =>
        cases run
        rw [Setting.on_pass (seen ▸ proper)]
        exact if_pos seen
      · next other =>
        cases run
        exact if_neg other
    · rw [if_neg no] at run
      cases run
      exact if_neg no'
  · rw [accept_eq] at run
    split at run <;> cases run

lemma accept_carries {kind : TokenKind} (proper : kind ≠ .eof) :
    Carries c false 0 (accept kind) (accept kind) := by
  intro s
  by_cases sees : c.Open s
  · exact (accept_carriesAt proper (.inl sees)).relax
  · exact .of_shut (accept_alike (n := s.left + 1) kind s (Nat.lt_succ_self _)).2 sees (.inl rfl)

/-- Whether an `else` follows is clear even where the tokens are used up. -/
lemma acceptElse_carries : Carries c true 0 (accept .kwElse) (accept .kwElse) := by
  intro s
  by_cases sees : c.Open s
  · exact accept_carriesAt (by decide) (.inl sees)
  · obtain ⟨ends, noElse⟩ := Setting.on_current_shut sees
    exact accept_carriesAt (by decide) (.inr ⟨by simp [ends], noElse⟩)

lemma sees_carries (kind : TokenKind) : Carries c false 0 (sees kind) (sees kind) :=
  fun s => sees_carriesAt (f := pure) (g := pure) ((pure_carries _ s).relax) (.inl rfl)

lemma record_carries (e : SyntaxError) :
    Carries c true 0 (record e) (record (moved c.move e)) := by
  refine fun s => ⟨(record_alike (n := s.left + 1) e s (Nat.lt_succ_self _)).2, fun run _ => ?_,
    fun run _ => ?_⟩
  · cases run
    change EStateM.Result.ok () ((c.on s).note (moved c.move e)) = _
    rw [Setting.on_note]
  · cases run

lemma push_carries (node : Node) : Carries c true 0 (push node) (push (moved c.move node)) := by
  refine fun s => ⟨(push_alike (n := s.left + 1) node s (Nat.lt_succ_self _)).2, fun run _ => ?_,
    fun run _ => ?_⟩
  · cases run
    change EStateM.Result.ok (c.on s).nodes.size ((c.on s).add (moved c.move node)) = _
    rw [Setting.on_add]
    simp only [Setting.on, Array.size_map]
    rfl
  · cases run

lemma limit_carries (count : Nat) (cause : SyntaxError.Cause) :
    Carries c false 0 (limit count cause) (limit count cause) := by
  unfold limit
  refine .ite (fun s => current_carriesAt ?_ (.inl rfl)) (pure_carries ()).relax
  exact (record_carries _ s).relax

lemma unlessAt_carries (kind : TokenKind) (otherwise : α) {x y : Reader α}
    (h : Carries c false k x y) :
    Carries c false 0 (unlessAt kind otherwise x) (unlessAt kind (moved c.move otherwise) y) :=
  (sees_carries kind).bind_open (k := 0) fun _ => .ite (pure_carries otherwise).relax h.least_zero

lemma ifAt_carries {kind : TokenKind} (proper : kind ≠ .eof) {x y : Reader α}
    (h : Carries c false k x y) : Carries c false 0 (ifAt kind x) (ifAt kind y) :=
  (accept_carries proper).bind_open (k := 0) fun _ => .ite (some_carries h.least_zero)
    (pure_carries none).relax

lemma ifElse_carries {x y : Reader α} (h : Carries c closed k x y) :
    Carries c closed 0 (ifAt .kwElse x) (ifAt .kwElse y) :=
  acceptElse_carries.bind (k := 0) fun _ => .ite (some_carries h.least_zero)
    (pure_carries none).relax

lemma insideFunction_carries {x y : Reader α} (h : Carries c closed k x y) :
    Carries c closed k (insideFunction x) (insideFunction y) := by
  intro s
  have inside := h s.deeper
  have deeper : (c.on s).deeper = c.on s.deeper := rfl
  cases run : x s.deeper with
  | ok a t =>
    have run' : insideFunction x s = .ok a t.shallower := by simp only [insideFunction, run]
    obtain ⟨onward, passed⟩ := inside.goes.ok run
    refine ⟨.of_ok run' onward.shallower passed, fun run'' sees => ?_, fun run'' => ?_⟩
    · cases run'.symm.trans run''
      simp only [insideFunction, deeper, inside.ok run sees]
      rfl
    · cases run'.symm.trans run''
  | error e t =>
    have run' : insideFunction x s = .error e t.shallower := by simp only [insideFunction, run]
    refine ⟨.of_error run' (inside.goes.error run).shallower, fun run'' => ?_, fun run'' sees => ?_⟩
    · cases run'.symm.trans run''
    · cases run'.symm.trans run''
      simp only [insideFunction, deeper, inside.error run sees]
      rfl

/-- A reader that goes on after a mistake does not end in it, so it need not be closed. -/
lemma recovering_carries {x y : Reader α} (h : Carries c false k x y) :
    Carries c false 0 (recovering x) (recovering y) := by
  intro s
  cases run : x s with
  | ok a t =>
    have run' : recovering x s = .ok (some a) t := by simp only [recovering, run]
    obtain ⟨onward, -⟩ := (h s).goes.ok run
    refine ⟨.of_ok run' onward onward.left_le, fun run'' sees => ?_, fun run'' => ?_⟩
    · cases run'.symm.trans run''
      simp only [recovering, (h s).ok run sees]
      rfl
    · cases run'.symm.trans run''
  | error e t =>
    have run' : recovering x s = .ok none (t.note e).resumed := by simp only [recovering, run]
    have onward := (((h s).goes.error run).trans (.note t e)).trans (.resumed _)
    refine ⟨.of_ok run' onward onward.left_le, fun run'' sees => ?_, fun run'' => ?_⟩
    · cases run'.symm.trans run''
      have sees : c.Open (t.note e).resumed :=
        sees.resolve_left fun never => Bool.false_ne_true never
      have sees' : c.Open t := sees.of_onward ((Onward.note t e).trans (.resumed _))
      simp only [recovering, (h s).error run sees', Setting.on_note, Setting.on_resumed sees]
      rfl
    · cases run'.symm.trans run''

end Reader

end Lox
