import Lox.Proofs.Reading.Rules

/-!
Where mistakes against the grammar are found. A reader records them at tokens between the one at
which it starts and the one that it reaches, in the order of the text. Only the mistake that an
assignment has no target is recorded late: at its `=`, when what is assigned has been read.
-/

namespace Lox

/-- Of two mistakes, the second is not found before the first, or is recorded late. -/
def SyntaxError.Follows (a b : SyntaxError) : Prop :=
  a.span.start ≤ b.span.start ∨ b.cause = .badTarget

open Reader Reading

namespace Reading

/-- The offset of the current token. -/
def place (s : Reading) : Nat :=
  s.current.span.start

/-- The tokens that are left and the one at the end. -/
def ahead (s : Reading) : List Token :=
  s.rest ++ [s.last]

end Reading

section

-- The tokens at which mistakes are found.
variable (W : Token → Prop)

/-- The tokens ahead are among those, in the order of the text. -/
structure Reading.Ordered (s : Reading) : Prop where
  tokens : ∀ t ∈ s.ahead, W t
  order : s.ahead.Pairwise fun t u => t.span.start ≤ u.span.start

/-- A mistake is found at one of the tokens, which stands between two places, or it is recorded
late, at a token before the second place. -/
def SyntaxError.FoundIn (low high : Nat) (e : SyntaxError) : Prop :=
  ∃ t cause, W t ∧ e = atToken t cause ∧ (low ≤ t.span.start ∨ cause = .badTarget) ∧
    t.span.start ≤ high

/-- From one state to another, the mistakes recorded are in order and stand where they should. -/
structure Reported (low : Nat) (s t : Reading) : Prop where
  onward : Onward s t
  found : ∃ es, t.errors.toList = s.errors.toList ++ es ∧ es.Pairwise SyntaxError.Follows ∧
    ∀ e ∈ es, e.FoundIn W low t.place

/-- A reader records mistakes from a place on. It stops at a mistake at its current token. -/
def Reader.Reports {α : Type} (low : Nat) (x : Reader α) : Prop :=
  ∀ s : Reading, s.Ordered W → low ≤ s.place → match x s with
    | .ok _ t => Reported W low s t
    | .error e t => Reported W low s t ∧ ∃ cause, e = SyntaxError.atToken t.current cause

/-- A reader always succeeds, and records nothing. -/
def Reader.Quiet {α : Type} (x : Reader α) : Prop :=
  ∀ s : Reading, ∃ a t, x s = .ok a t ∧ Onward s t ∧ t.errors = s.errors

end

variable {W : Token → Prop} {α β : Type} {low low' high : Nat}

namespace Reading

variable {s t u : Reading}

lemma ahead_split (s : Reading) : ∃ others, s.ahead = s.current :: others := by
  unfold ahead current
  cases s.rest with
  | nil => exact ⟨[], rfl⟩
  | cons t rest => exact ⟨rest ++ [s.last], rfl⟩

lemma Onward.ahead (h : Onward s t) : t.ahead <:+ s.ahead := by
  obtain ⟨passed, split⟩ := h.rest
  exact ⟨passed, by simp only [Reading.ahead, h.last, ← split, List.append_assoc]⟩

namespace Ordered

lemma onward (h : s.Ordered W) (onward : Onward s t) : t.Ordered W :=
  ⟨fun u within => h.tokens u (onward.ahead.subset within),
    h.order.sublist onward.ahead.sublist⟩

lemma current (h : s.Ordered W) : W s.current := by
  obtain ⟨others, split⟩ := s.ahead_split
  exact h.tokens s.current (by rw [split]; exact List.mem_cons_self)

lemma place_le (h : s.Ordered W) (onward : Onward s t) : s.place ≤ t.place := by
  obtain ⟨others, split⟩ := s.ahead_split
  obtain ⟨others', split'⟩ := t.ahead_split
  have within : t.current ∈ s.ahead :=
    onward.ahead.subset (by rw [split']; exact List.mem_cons_self)
  have order := h.order
  rw [split] at within order
  rcases List.mem_cons.mp within with same | later
  · exact Nat.le_of_eq (congrArg (·.span.start) same.symm)
  · exact (List.pairwise_cons.mp order).1 _ later

end Ordered

end Reading

namespace SyntaxError

variable {a b : SyntaxError}

lemma FoundIn.mono (h : b.FoundIn W low' high) (hl : low ≤ low') {high' : Nat}
    (hh : high ≤ high') : b.FoundIn W low high' := by
  obtain ⟨t, cause, here, same, after, before⟩ := h
  exact ⟨t, cause, here, same, after.imp_left (Nat.le_trans hl), Nat.le_trans before hh⟩

/-- What is found from a place on follows what is found up to it. -/
lemma FoundIn.follows (h : a.FoundIn W low high) (k : b.FoundIn W high high') : a.Follows b := by
  obtain ⟨t, cause, -, rfl, -, before⟩ := h
  obtain ⟨u, cause', -, rfl, after, -⟩ := k
  exact after.imp_left (Nat.le_trans before)

end SyntaxError

namespace Reported

variable {s t u : Reading}

/-- A step that records nothing. -/
lemma quiet (onward : Onward s t) (same : t.errors = s.errors) : Reported W low s t :=
  ⟨onward, [], by rw [same, List.append_nil], .nil, List.forall_mem_nil _⟩

lemma mono (h : Reported W low' s t) (hl : low ≤ low') : Reported W low s t := by
  obtain ⟨onward, es, split, order, found⟩ := h
  exact ⟨onward, es, split, order, fun e within => (found e within).mono hl (Nat.le_refl _)⟩

/-- A state reached by a quiet step is as good to start from. -/
lemma after_quiet (onward : Onward s t) (same : t.errors = s.errors) (h : Reported W low t u) :
    Reported W low s u := by
  obtain ⟨onward', es, split, rest⟩ := h
  exact ⟨onward.trans onward', es, by rw [split, same], rest⟩

lemma trans (ordered : s.Ordered W) (hl : low ≤ t.place) (h : Reported W low s t)
    (k : Reported W t.place t u) : Reported W low s u := by
  have farther := (ordered.onward h.onward).place_le k.onward
  obtain ⟨onward, es, split, order, found⟩ := h
  obtain ⟨onward', es', split', order', found'⟩ := k
  refine ⟨onward.trans onward', es ++ es', by rw [split', split, List.append_assoc], ?_, ?_⟩
  · refine List.pairwise_append.mpr ⟨order, order', fun a old b new => ?_⟩
    exact (found a old).follows (found' b new)
  · intro e within
    rcases List.mem_append.mp within with old | new
    · exact (found e old).mono (Nat.le_refl _) farther
    · exact (found' e new).mono hl (Nat.le_refl _)

/-- One more mistake is recorded. -/
lemma note {e : SyntaxError} (found : e.FoundIn W low s.place) : Reported W low s (s.note e) := by
  refine ⟨.note s e, [e], by simp [Reading.note], List.pairwise_singleton _ _, ?_⟩
  exact List.forall_mem_singleton.mpr found

end Reported

lemma Reading.Ordered.foundIn {s : Reading} (h : s.Ordered W) (cause : SyntaxError.Cause) :
    (SyntaxError.atToken s.current cause).FoundIn W s.place s.place :=
  ⟨s.current, cause, h.current, rfl, .inl (Nat.le_refl _), Nat.le_refl _⟩

namespace Reader.Reports

variable {x : Reader α}

lemma bind {f : α → Reader β} (h : Reports W low x)
    (hf : ∀ a low', low ≤ low' → Reports W low' (f a)) : Reports W low (x >>= f) := by
  intro s ordered le
  have here := h s ordered le
  cases hx : x s with
  | ok a t =>
    simp only [hx] at here
    have farther := Nat.le_trans le (ordered.place_le here.onward)
    have there := hf a t.place farther t (ordered.onward here.onward) (Nat.le_refl _)
    rw [bind_ok hx]
    cases hfx : f a t with
    | ok b u =>
      simp only [hfx] at there ⊢
      exact here.trans ordered farther there
    | error e u =>
      simp only [hfx] at there ⊢
      exact ⟨here.trans ordered farther there.1, there.2⟩
  | error e t =>
    simp only [hx] at here
    rw [bind_error hx]
    exact here

/-- A mistake may stand at the token that is looked at before anything is read. -/
lemma current_bind {f : Token → Reader β}
    (h : ∀ t, W t → Reports W t.span.start (f t)) : Reports W low (current >>= f) := by
  intro s ordered le
  have here := h s.current ordered.current s ordered (Nat.le_refl _)
  change match f s.current s with
    | .ok _ t => Reported W low s t
    | .error e t => Reported W low s t ∧ ∃ cause, e = SyntaxError.atToken t.current cause
  cases hf : f s.current s with
  | ok a t =>
    simp only [hf] at here
    exact here.mono le
  | error e t =>
    simp only [hf] at here
    exact ⟨here.1.mono le, here.2⟩

/-- A reader that records nothing leaves the place from which mistakes are recorded. -/
lemma quiet_bind {f : α → Reader β} (quiet : x.Quiet) (h : ∀ a, Reports W low (f a)) :
    Reports W low (x >>= f) := by
  intro s ordered le
  obtain ⟨a, t, run, onward, same⟩ := quiet s
  have here := h a t (ordered.onward onward) (Nat.le_trans le (ordered.place_le onward))
  rw [bind_ok run]
  cases hf : f a t with
  | ok b u =>
    simp only [hf] at here
    exact here.after_quiet onward same
  | error e u =>
    simp only [hf] at here
    exact ⟨here.1.after_quiet onward same, here.2⟩

lemma of_quiet (quiet : x.Quiet) : Reports W low x := by
  intro s _ _
  obtain ⟨a, t, run, onward, same⟩ := quiet s
  rw [run]
  exact .quiet onward same

lemma advance_bind {f : Token → Reader β} (h : ∀ t, Reports W low (f t)) :
    Reports W low (advance >>= f) :=
  quiet_bind (fun s => ⟨s.current, s.pass, rfl, .pass s, rfl⟩) h

lemma get_bind {f : Reading → Reader β} (h : ∀ s, Reports W low (f s)) :
    Reports W low (get >>= f) :=
  quiet_bind (fun s => ⟨s, s, rfl, .refl s, rfl⟩) h

lemma pure (a : α) : Reports W low (pure a) :=
  of_quiet fun s => ⟨a, s, rfl, .refl s, rfl⟩

lemma sees (kind : TokenKind) : Reports W low (sees kind) :=
  of_quiet fun s => ⟨_, s, rfl, .refl s, rfl⟩

lemma push (node : Node) : Reports W low (push node) :=
  of_quiet fun s => ⟨_, _, rfl, .add s node, rfl⟩

lemma accept (kind : TokenKind) : Reports W low (accept kind) := by
  refine of_quiet fun s => ?_
  rw [accept_eq]
  split_ifs
  · exact ⟨true, _, rfl, .pass s, rfl⟩
  · exact ⟨false, _, rfl, .refl s, rfl⟩

lemma map {f : α → β} (h : Reports W low x) : Reports W low (f <$> x) := by
  intro s ordered le
  have here := h s ordered le
  cases hx : x s with
  | ok a t =>
    simp only [hx] at here
    rw [map_ok hx]
    exact here
  | error e t =>
    simp only [hx] at here
    rw [map_error hx]
    exact here

lemma fail (cause : TokenKind → SyntaxError.Cause) :
    Reports W low (fail (α := α) cause) :=
  fun s _ _ => ⟨.quiet (.refl s) rfl, _, rfl⟩

lemma require (what : Requirement) : Reports W low (require what) := by
  intro s _ _
  rw [require_eq]
  split_ifs
  · exact .quiet (.pass s) rfl
  · exact ⟨.quiet (.refl s) rfl, _, rfl⟩

/-- A mistake is recorded at a token that is not behind the place, and not before it unless late. -/
lemma record {t : Token} {cause : SyntaxError.Cause} (here : W t)
    (after : low ≤ t.span.start ∨ cause = .badTarget) (before : t.span.start ≤ low) :
    Reports W low (record (SyntaxError.atToken t cause)) :=
  fun _ _ le => .note ⟨t, cause, here, rfl, after, Nat.le_trans before le⟩

lemma limit (count : Nat) (cause : SyntaxError.Cause) : Reports W low (limit count cause) := by
  intro s ordered le
  rw [limit_eq]
  split_ifs
  · exact .note ((ordered.foundIn cause).mono le (Nat.le_refl _))
  · exact .quiet (.refl s) rfl

lemma unlessAt (kind : TokenKind) (otherwise : α) (h : ∀ low, Reports W low x) :
    Reports W low (unlessAt kind otherwise x) := by
  refine (sees kind).bind fun seen low' _ => ?_
  split
  · exact .pure otherwise
  · exact h low'

lemma ifAt (kind : TokenKind) (h : ∀ low, Reports W low x) : Reports W low (ifAt kind x) := by
  refine (accept kind).bind fun seen low' _ => ?_
  split
  · exact (h low').map
  · exact .pure none

lemma insideFunction (h : Reports W low x) : Reports W low (insideFunction x) := by
  intro s ordered le
  have here := h s.deeper ⟨ordered.tokens, ordered.order⟩ le
  unfold Reader.insideFunction
  cases hx : x s.deeper with
  | ok a t =>
    simp only [hx] at here
    exact ⟨here.onward.shallower, here.found⟩
  | error e t =>
    simp only [hx] at here
    exact ⟨⟨here.1.onward.shallower, here.1.found⟩, here.2⟩

/-- The mistake at which a step stopped is recorded where it stopped, before reading goes on. -/
lemma recovering (h : Reports W low x) : Reports W low (recovering x) := by
  intro s ordered le
  have here := h s ordered le
  unfold Reader.recovering
  cases hx : x s with
  | ok a t =>
    simp only [hx] at here
    exact here
  | error e t =>
    simp only [hx] at here
    obtain ⟨reported, cause, rfl⟩ := here
    have ordered' := ordered.onward reported.onward
    have farther := Nat.le_trans le (ordered.place_le reported.onward)
    have noted := reported.trans ordered farther (.note (ordered'.foundIn cause))
    refine noted.trans ordered ?_ (.quiet (.resumed _) rfl)
    exact farther

end Reader.Reports

end Lox
