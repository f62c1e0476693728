import Lox.Proofs.Evaluation.Leaving
import Lox.Proofs.Evaluation.Nearest

/-!
The rounds of a loop over a string. The text is fixed when the loop begins: each round takes the
next character off it, whatever the body does. So a loop over two texts in a row is the loop over
the first one and, unless that is left, the loop over the second one.
-/

namespace Lox

variable {α β : Type} {s t u : State} {scope n k : Nat} {name : String} {body : Statement}
  {text front back : List Char}

namespace Settles

variable {x : Nat → Exec α} {r : EStateM.Result Stop State α}

/-- What ends so with some fuel ends so with all greater fuel. -/
lemma iff_run (lasts : ∀ fuel, Exec.Lasts (x fuel) (x (fuel + 1))) (ended : ¬Exhausted r) :
    Settles x s r ↔ ∃ fuel, x fuel s = r := by
  constructor
  · exact exists_run
  · rintro ⟨fuel, rfl⟩
    exact of_lasts lasts ended

/-- A run goes on from where its first step ends. -/
lemma bind_iff {a : α} {f : Nat → α → Exec β} {r : EStateM.Result Stop State β}
    (first : Settles x s (.ok a t)) :
    Settles (fun fuel => x fuel >>= f fuel) s r ↔ Settles (fun fuel => f fuel a) t r := by
  constructor
  · rintro ⟨least, ends⟩
    obtain ⟨least', ends'⟩ := first
    refine ⟨max least least', fun fuel le => ?_⟩
    rw [← ends fuel (Nat.le_trans (Nat.le_max_left _ _) le)]
    change _ = EStateM.bind (x fuel) (f fuel) s
    rw [EStateM.bind, ends' fuel (Nat.le_trans (Nat.le_max_right _ _) le)]
  · exact first.bind_ok

lemma succ_iff : Settles (fun fuel => x (fuel + 1)) s r ↔ Settles x s r := by
  constructor
  · exact of_succ
  · rintro ⟨least, ends⟩
    exact ⟨least, fun fuel le => ends (fuel + 1) (Nat.le_succ_of_le le)⟩

/-- A run never ends if no fuel is enough. -/
lemma never_iff (lasts : ∀ fuel, Exec.Lasts (x fuel) (x (fuel + 1))) :
    (∀ fuel, Exhausted (x fuel s)) ↔ ∀ r, ¬Exhausted r → ¬Settles x s r := by
  constructor
  · intro never r ended ends
    obtain ⟨fuel, rfl⟩ := ends.exists_run
    exact ended (never fuel)
  · intro never fuel
    by_contra ended
    exact never _ ended (of_lasts lasts ended)

end Settles

/-- Goes on with a step unless a value has been returned. -/
def Completion.onward (y : Exec Completion) : Completion → Exec Completion
  | .returned v => pure (.returned v)
  | .normal => y

/-- Two steps end as the first one does if that one is left, and else as the second one does. -/
lemma Settles.onward_iff {x y : Nat → Exec Completion} {r : EStateM.Result Stop State Completion}
    (hx : ∀ fuel, Exec.Lasts (x fuel) (x (fuel + 1)))
    (hy : ∀ fuel, Exec.Lasts (y fuel) (y (fuel + 1))) (ended : ¬Exhausted r) :
    Settles (fun fuel => x fuel >>= Completion.onward (y fuel)) s r ↔
      Run.Leaves r ∧ Settles x s r ∨ ∃ t, Settles x s (.ok .normal t) ∧ Settles y t r := by
  constructor
  · intro ends
    obtain ⟨fuel, run⟩ := ends.exists_run
    change EStateM.bind (x fuel) (Completion.onward (y fuel)) s = r at run
    rw [EStateM.bind] at run
    cases first : x fuel s with
    | error e t =>
      rw [first] at run
      subst run
      exact .inl ⟨.stopped e t, (iff_run hx ended).mpr ⟨fuel, first⟩⟩
    | ok completion t =>
      rw [first] at run
      cases completion with
      | returned v =>
        subst run
        exact .inl ⟨.returned v t, (iff_run hx ended).mpr ⟨fuel, first⟩⟩
      | normal => exact .inr ⟨t, .of_ok hx first, (iff_run hy ended).mpr ⟨fuel, run⟩⟩
  · rintro (⟨leaves, ends⟩ | ⟨t, first, ends⟩)
    · exact ends.bind_leaves leaves fun _ _ => rfl
    · exact first.bind_ok ends

namespace Run

/-- What a loop does with a text in two parts. The second part has the fuel that the first one
leaves. -/
lemma characters_append (fuel scope : Nat) (name : String) (body : Statement)
    (front back : List Char) :
    characters fuel scope name body (front ++ back) =
      characters fuel scope name body front >>=
        Completion.onward (characters (fuel - front.length) scope name body back) := by
  induction front generalizing fuel with
  | nil =>
    rw [List.nil_append]
    conv_rhs => rw [characters]
    rfl
  | cons c front ih =>
    cases fuel with
    | zero =>
      rw [List.cons_append, characters, characters]
      rfl
    | succ fuel =>
      rw [List.cons_append, characters, characters]
      simp only [bind_assoc]
      congr 1
      funext _
      congr 1
      funext completion
      cases completion with
      | returned v => rfl
      | normal =>
        simp only [ih, List.length_cons, Nat.add_sub_add_right]

lemma characters_append_iff {r : EStateM.Result Stop State Completion} (ended : ¬Exhausted r) :
    Settles (fun fuel => characters fuel scope name body (front ++ back)) s r ↔
      Leaves r ∧ Settles (fun fuel => characters fuel scope name body front) s r ∨
        ∃ t, Settles (fun fuel => characters fuel scope name body front) s (.ok .normal t) ∧
          Settles (fun fuel => characters fuel scope name body back) t r := by
  have lasts (text : List Char) (fuel : Nat) := (lasting fuel).characters scope name body text
  have later (fuel : Nat) : Exec.Lasts (characters (fuel - front.length) scope name body back)
      (characters (fuel + 1 - front.length) scope name body back) := by
    by_cases some : front.length ≤ fuel
    · rw [Nat.succ_sub some]
      exact lasts back _
    · rw [Nat.sub_eq_zero_of_le (by omega), Nat.sub_eq_zero_of_le (by omega)]
      exact .refl _
  have shift (t : State) :
      Settles (fun fuel => characters (fuel - front.length) scope name body back) t r ↔
        Settles (fun fuel => characters fuel scope name body back) t r := by
    rw [Settles.iff_run later ended, Settles.iff_run (lasts back) ended]
    constructor
    · rintro ⟨fuel, run⟩
      exact ⟨_, run⟩
    · rintro ⟨fuel, run⟩
      use fuel + front.length
      rw [Nat.add_sub_cancel]
      exact run
  simp only [characters_append]
  rw [Settles.onward_iff (lasts front) later ended]
  simp only [shift]

lemma statements_pair_iff {st st' : Statement} {r : EStateM.Result Stop State Completion}
    (ended : ¬Exhausted r) : Settles (fun fuel => statements fuel scope [st, st']) s r ↔
      Leaves r ∧ Settles (fun fuel => statement fuel scope st) s r ∨
        ∃ t, Settles (fun fuel => statement fuel scope st) s (.ok .normal t) ∧
          Settles (fun fuel => statement fuel scope st') t r := by
  have last (fuel : Nat) (st : Statement) :
      statements (fuel + 1) scope [st] = statement fuel scope st := by
    rw [statements]
    conv_rhs => rw [← bind_pure (statement fuel scope st)]
    congr 1
    funext completion
    cases completion with
    | returned v => rfl
    | normal => rw [statements]
  have first (fuel : Nat) : statements (fuel + 1) scope [st, st'] =
      statement fuel scope st >>= Completion.onward (statements fuel scope [st']) := by
    rw [statements]
    rfl
  rw [← Settles.succ_iff]
  simp only [first]
  rw [Settles.onward_iff (fun fuel => (lasting fuel).statement scope st)
    (fun fuel => (lasting fuel).statements scope [st']) ended]
  have shift (t : State) : Settles (fun fuel => statements fuel scope [st']) t r ↔
      Settles (fun fuel => statement fuel scope st') t r := by
    rw [← Settles.succ_iff]
    simp only [last]
  simp only [shift]

end Run

/-! ## Rounds -/

/-- A name that has been bound in a scope means its value there. -/
lemma Scopes.get?_declare {scopes : Scopes} (there : scope < scopes.size) (v : Value) :
    (scopes.declare scope name v).get? scope name = some v := by
  simp only [get?, find?, findWithin, Scopes.declare, Array.getElem?_modify, if_pos trivial,
    Array.getElem?_eq_getElem there, Option.map_some, Bindings.lookup_set]

/-- The part is a loop over characters. -/
def Part.Looping : Part → Prop
  | .characters _ _ _ _ => True
  | _ => False

namespace Moment

variable {m m' : Moment}

/-- The second moment comes some rounds of a loop over characters after the first one. -/
inductive Rounds : Nat → Moment → Moment → Prop
  | none (m : Moment) : Rounds 0 m m
  | next {k : Nat} {m m' m'' : Moment} :
    m.part.Looping → m.Leads m' → m'.part.Looping → Rounds k m' m'' → Rounds (k + 1) m m''

/-- In a round, counted from zero, a loop over characters binds its variable to a value: it is what
the variable means where the body begins. -/
def BindsIn (m : Moment) (k : Nat) (v : Value) : Prop :=
  ∃ scope name body text n s m', Rounds k m ⟨.characters scope name body text, n, s⟩ ∧
    Leads ⟨.characters scope name body text, n, s⟩ m' ∧ m'.part = .statement scope body ∧
    m'.state.scopes.get? scope name = some v

/-- A round takes the next character off the text and does nothing else to it. -/
lemma Leads.takes (h : Leads ⟨.characters scope name body text, n, s⟩ m) (loops : m.part.Looping) :
    ∃ c rest fuel t u, text = c :: rest ∧ m = ⟨.characters scope name body rest, n, u⟩ ∧
      Exec.declare scope name (.string (String.singleton c)) s = .ok () t ∧
      Run.statement fuel scope body t = .ok .normal u := by
  cases h with
  | character => exact loops.elim
  | next declared run => exact ⟨_, _, _, _, _, rfl, rfl, declared, run⟩

/-- After some rounds the characters are left that stood behind as many in the text. -/
lemma Rounds.rest (h : Rounds k ⟨.characters scope name body text, n, s⟩ m) : k ≤ text.length ∧
    ∃ t, m = ⟨.characters scope name body (text.drop k), n, t⟩ := by
  generalize first : (⟨.characters scope name body text, n, s⟩ : Moment) = start at h
  induction h generalizing text s with
  | none =>
    subst first
    exact ⟨Nat.zero_le _, s, rfl⟩
  | next _ leads loops _ ih =>
    subst first
    obtain ⟨c, rest, fuel, t, u, rfl, rfl, -, -⟩ := leads.takes loops
    obtain ⟨le, after⟩ := ih rfl
    exact ⟨Nat.succ_le_succ le, after⟩

/-- Before the last round there have been the ones before it. -/
lemma Rounds.earlier (h : Rounds k m m') {j : Nat} (le : j ≤ k) : ∃ m'', Rounds j m m'' := by
  induction h generalizing j with
  | none =>
    obtain rfl := Nat.le_zero.mp le
    exact ⟨_, .none _⟩
  | next loops leads again _ ih =>
    cases j with
    | zero => exact ⟨_, .none _⟩
    | succ j =>
      obtain ⟨m'', rounds⟩ := ih (Nat.le_of_succ_le_succ le)
      exact ⟨m'', .next loops leads again rounds⟩

/-- The scope of a loop is still there in its later rounds. -/
lemma Rounds.there (h : Rounds k ⟨.characters scope name body text, n, s⟩ m)
    (there : scope < s.scopes.size) : scope < m.state.scopes.size := by
  generalize first : (⟨.characters scope name body text, n, s⟩ : Moment) = start at h
  induction h generalizing text s with
  | none =>
    subst first
    exact there
  | next _ leads loops _ ih =>
    subst first
    obtain ⟨c, rest, fuel, t, u, rfl, rfl, declared, run⟩ := leads.takes loops
    have grown := (Run.statement_gains body scope fuel t).grown
    simp only [Exec.after, run] at grown
    cases declared
    apply ih _ rfl
    simp only [Scopes.declare, Array.size_modify] at grown
    exact Nat.lt_of_lt_of_le there grown

/-- What a loop binds in a round is the character at that place of the text, as a string. -/
lemma BindsIn.character {v : Value} (h : BindsIn ⟨.characters scope name body text, n, s⟩ k v)
    (there : scope < s.scopes.size) :
    ∃ c, text[k]? = some c ∧ v = .string (String.singleton c) := by
  obtain ⟨scope', name', body', text', n', t, m, rounds, leads, part, bound⟩ := h
  have there := rounds.there there
  obtain ⟨-, u, same⟩ := rounds.rest
  cases same
  generalize left : text.drop k = rest at leads
  cases leads with
  | next => cases part
  | @character _ _ _ c rest _ _ _ declared =>
    cases declared
    rw [Scopes.get?_declare there] at bound
    cases bound
    use c
    constructor
    · rw [← List.head?_drop, left]
      rfl
    · rfl

/-- The next round begins as soon as the ones before it have ended. -/
lemma Rounds.binds (h : Rounds k ⟨.characters scope name body text, n, s⟩ m)
    (there : scope < s.scopes.size) (more : k < text.length) :
    ∃ v, BindsIn ⟨.characters scope name body text, n, s⟩ k v := by
  have there := h.there there
  obtain ⟨-, t, rfl⟩ := h.rest
  rw [List.drop_eq_getElem_cons more] at h
  let v : Value := .string (String.singleton text[k])
  exact ⟨v, scope, name, body, _, n, t, _, h, .character rfl, rfl, Scopes.get?_declare there v⟩

/-- A loop over characters ends if all its rounds do, and then with the last one. -/
lemma completes_iff : Settles (fun fuel => Run.characters fuel scope name body text) s
    (.ok .normal u) ↔
      ∃ m, Rounds text.length ⟨.characters scope name body text, n, s⟩ m ∧ m.state = u := by
  constructor
  · intro ends
    obtain ⟨fuel, run⟩ := ends.exists_run
    clear ends
    induction text generalizing fuel s with
    | nil =>
      rw [Run.characters] at run
      cases run
      exact ⟨_, .none _, rfl⟩
    | cons c text ih =>
      cases fuel with
      | zero =>
        rw [Run.characters] at run
        cases run
      | succ fuel =>
        rw [Run.characters] at run
        obtain ⟨_, t, declared, run⟩ := Exec.bind_ends run
        obtain ⟨completion, t', ended, run⟩ := Exec.bind_ends run
        cases completion with
        | returned v => cases run
        | normal =>
          obtain ⟨m, rounds, same⟩ := ih fuel run
          exact ⟨m, Rounds.next trivial (.next declared ended) trivial rounds, same⟩
  · rintro ⟨m, rounds, rfl⟩
    generalize length : text.length = k at rounds
    generalize first : (⟨.characters scope name body text, n, s⟩ : Moment) = start at rounds
    induction rounds generalizing text s with
    | none =>
      subst first
      obtain rfl := List.length_eq_zero_iff.mp length
      refine ⟨0, fun fuel _ => ?_⟩
      simp only [Run.characters]
      rfl
    | next _ leads loops _ ih =>
      subst first
      obtain ⟨c, rest, fuel, t, u, rfl, rfl, declared, run⟩ := leads.takes loops
      apply Settles.of_succ
      simp only [Run.characters]
      apply Settles.bind_ok (.const declared)
      apply (Run.settles_statement run).bind_ok
      exact ih (Nat.succ.inj length) rfl

end Moment

/-- A loop over a text that is written out. -/
def Statement.overText (name : Ident) (text : String) (body : Statement) : Statement :=
  .stringLoop name (.single (.atom (.string text) name.line)) body

namespace Run

open Moment

variable {r : EStateM.Result Stop State Completion} {name : Ident}

/-- A loop over a string goes through the text that its subject comes to. -/
lemma stringLoop_iff {e : Expression} {text : String}
    (found : Settles (fun fuel => expression fuel scope e) s (.ok (.string text) t)) :
    Settles (fun fuel => statement fuel scope (.stringLoop name e body)) s r ↔
      Settles (fun fuel => characters fuel scope name.name body text.toList) t r := by
  rw [← Settles.succ_iff]
  simp only [statement]
  exact Settles.bind_iff found

lemma settles_text (text : String) (line : Nat) : Settles
    (fun fuel => expression fuel scope (.single (.atom (.string text) line))) s
    (.ok (.string text) s) := by
  apply Settles.of_succ
  simp only [expression, node]
  exact .const rfl

lemma overText_iff {text : String} :
    Settles (fun fuel => statement fuel scope (.overText name text body)) s r ↔
      Settles (fun fuel => characters fuel scope name.name body text.toList) s r :=
  stringLoop_iff (settles_text text name.line)

/-- A loop over two texts in a row ends as the loop over the first one does if that is left, and
else as the loop over the second one does after it. -/
lemma overText_append_iff {front back : String} (ended : ¬Exhausted r) :
    Settles (fun fuel => statement fuel scope (.overText name (front ++ back) body)) s r ↔
      Leaves r ∧ Settles (fun fuel => statement fuel scope (.overText name front body)) s r ∨
        ∃ t, Settles (fun fuel => statement fuel scope (.overText name front body)) s
            (.ok .normal t) ∧
          Settles (fun fuel => statement fuel scope (.overText name back body)) t r := by
  simp only [overText_iff, String.toList_append]
  exact characters_append_iff ended

/-- A loop over two texts in a row is the loop over the first one and then that over the second one,
in all that they do and in whether they end. If the first one is left, by a `return` or an error,
the whole is left so. The text is fixed when a loop begins: what a loop does is settled by the text
that its subject comes to, each round takes one character off it and binds it, and the loop ends
normally after as many rounds as there are characters. -/
theorem string_loop_append (scope : Nat) (name : Ident) (body : Statement) (front back : String)
    (s : State) :
    let runs (st : Statement) := fun fuel => statement fuel scope st
    let loop (text : String) := Statement.overText name text body
    let both := fun fuel => statements fuel scope [loop front, loop back]
    (∀ r, ¬Exhausted r → (Settles (runs (loop (front ++ back))) s r ↔ Settles both s r)) ∧
    ((∀ fuel, Exhausted (runs (loop (front ++ back)) fuel s)) ↔
      ∀ fuel, Exhausted (both fuel s)) ∧
    (∀ r, ¬Exhausted r → Leaves r → Settles (runs (loop front)) s r →
      Settles (runs (loop (front ++ back))) s r) ∧
    (∀ t r, ¬Exhausted r → Settles (runs (loop front)) s (.ok .normal t) →
      (Settles (runs (loop (front ++ back))) s r ↔ Settles (runs (loop back)) t r)) ∧
    ∀ e text t n, Settles (fun fuel => expression fuel scope e) s (.ok (.string text) t) →
      let first : Moment := ⟨.characters scope name.name body text.toList, n, t⟩
      (∀ r, Settles (runs (.stringLoop name e body)) s r ↔
        Settles (fun fuel => characters fuel scope name.name body text.toList) t r) ∧
      (∀ k m, Rounds k first m → k ≤ text.toList.length ∧
        m.part = .characters scope name.name body (text.toList.drop k)) ∧
      (scope < t.scopes.size → ∀ k v, first.BindsIn k v →
        ∃ c, text.toList[k]? = some c ∧ v = .string (String.singleton c)) ∧
      ∀ u, Settles (runs (.stringLoop name e body)) s (.ok .normal u) ↔
        ∃ m, Rounds text.toList.length first m ∧ m.state = u := by
  intro runs loop both
  have same (r : EStateM.Result Stop State Completion) (ended : ¬Exhausted r) :
      Settles (runs (loop (front ++ back))) s r ↔ Settles both s r := by
    rw [statements_pair_iff ended]
    exact overText_append_iff ended
  have lasts (st : Statement) (fuel : Nat) := (lasting fuel).statement scope st
  have lasts' (fuel : Nat) := (lasting fuel).statements scope [loop front, loop back]
  refine ⟨same, ?_, ?_, ?_, ?_⟩
  · rw [Settles.never_iff (lasts _), Settles.never_iff lasts']
    exact forall₂_congr fun r ended => not_congr (same r ended)
  · intro r ended leaves ends
    exact (overText_append_iff ended).mpr (.inl ⟨leaves, ends⟩)
  · intro t r ended first
    rw [overText_append_iff ended]
    constructor
    · rintro (⟨leaves, ends⟩ | ⟨u, again, ends⟩)
      · cases first.unique ends
        cases leaves
      · cases first.unique again
        exact ends
    · exact fun ends => .inr ⟨t, first, ends⟩
  · intro e text t n found first
    refine ⟨fun r => stringLoop_iff found, fun k m rounds => ?_,
      fun there k v bound => bound.character there, fun u => ?_⟩
    · obtain ⟨le, u, rfl⟩ := rounds.rest
      exact ⟨le, rfl⟩
    · rw [stringLoop_iff found]
      exact completes_iff

/-- A loop that prints two characters, and one loop for each of them. -/
theorem string_loop_append_print :
    let s := State.fresh 0 ⟨"", [], ""⟩
    let c : Ident := ⟨"c", ⟨0, 1⟩, 1⟩
    let body : Statement := .print (.single (.atom (.identifier c) 1))
    let runs (text : String) := fun fuel => statement fuel 0 (.overText c text body)
    ∃ t u, Settles (runs "a") s (.ok .normal t) ∧ Settles (runs "é") t (.ok .normal u) ∧
      Settles (runs ("a" ++ "é")) s (.ok .normal u) ∧ u.console = ⟨"a\né\n", [], ""⟩ ∧
      ∃ m, Rounds 2 ⟨.characters 0 "c" body ['a', 'é'], 0, s⟩ m ∧ m.state = u := by
  intro s c body runs
  let t := (runs "a" 9).after s
  let u := (runs "é" 9).after t
  have first : runs "a" 9 s = .ok .normal t := Exec.eq_ok (by decide +kernel)
  have second : runs "é" 9 t = .ok .normal u := Exec.eq_ok (by decide +kernel)
  obtain ⟨-, -, -, normal, fixed⟩ := string_loop_append 0 c body "a" "é" s
  have ended : ¬Exhausted (.ok .normal u : EStateM.Result Stop State Completion) :=
    not_exhausted_ok
  have whole := (normal t _ ended (settles_statement first)).mpr (settles_statement second)
  obtain ⟨-, -, -, rounds⟩ := fixed _ _ s 0 (settles_text ("a" ++ "é") 1)
  refine ⟨t, u, settles_statement first, settles_statement second, whole, ?_, ?_⟩
  · decide +kernel
  · exact (rounds u).mp whole

end Run

end Lox
