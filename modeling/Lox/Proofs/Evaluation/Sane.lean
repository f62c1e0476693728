import Lox.Proofs.Evaluation.Derived
import Lox.Proofs.Evaluation.Kept
import Lox.Proofs.Scan.Pieces

/-!
Regions. Parents and functions lead from the scopes of a region to no others, so that a run in one
of them touches no others. The region of all scopes gives the invariant of a session: every function
that a state holds has code, and the code is the syntax of a function body.
-/

namespace Lox

variable {region : Nat → Prop} {x y : Extent} {n : Nat} {s : State}

/-- A function is among those made so far, and its scope lies in a region. -/
def Value.Within (region : Nat → Prop) (x : Extent) (v : Value) : Prop :=
  ∀ f, v = .function f → region f.scope ∧ f.scope < x.scopes ∧ f.number < x.functions

lemma Value.Within.mono {v : Value} (h : v.Within region x) (more : x ≤ y) :
    v.Within region y := by
  intro f hf
  obtain ⟨inside, scope, number⟩ := h f hf
  exact ⟨inside, Nat.lt_of_lt_of_le scope more.1, Nat.lt_of_lt_of_le number more.2⟩

/-- Parents and functions lead from the scopes of a region to no others. -/
structure Scopes.Closed (region : Nat → Prop) (x : Extent) (scopes : Scopes) : Prop where
  parent {i p : Nat} {cell : Scope} :
    region i → scopes[i]? = some cell → cell.parent = some p → region p
  value {i : Nat} {cell : Scope} {entry : String × Value} :
    region i → scopes[i]? = some cell → entry ∈ cell.bindings → entry.2.Within region x

namespace Scopes.Closed

variable {scopes : Scopes}

lemma mono (h : scopes.Closed region x) (more : x ≤ y) : scopes.Closed region y :=
  ⟨h.parent, fun inside found bound => (h.value inside found bound).mono more⟩

lemma declare (h : scopes.Closed region x) {v : Value} (hv : v.Within region x) (i : Nat)
    (name : String) : Scopes.Closed region x (scopes.declare i name v) := by
  constructor
  · intro j p cell inside found up
    simp only [Scopes.declare, Array.getElem?_modify] at found
    split at found
    · obtain ⟨old, there, rfl⟩ := Option.map_eq_some_iff.mp found
      exact h.parent inside there up
    · exact h.parent inside found up
  · intro j cell entry inside found bound
    simp only [Scopes.declare, Array.getElem?_modify] at found
    split at found
    · obtain ⟨old, there, rfl⟩ := Option.map_eq_some_iff.mp found
      rcases Bindings.mem_set bound with same | bound
      · exact same ▸ hv
      · exact h.value inside there bound
    · exact h.value inside found bound

lemma opened (h : scopes.Closed region x) {i : Nat} (inside : region i) {bs : Bindings}
    (hb : ∀ entry ∈ bs, entry.2.Within region x) :
    Scopes.Closed region x (scopes.opened (some i) bs).2 := by
  constructor
  · intro j p cell within found up
    simp only [Scopes.opened, Array.getElem?_push] at found
    split at found
    · cases found
      cases up
      exact inside
    · exact h.parent within found up
  · intro j cell entry within found bound
    simp only [Scopes.opened, Array.getElem?_push] at found
    split at found
    · cases found
      exact hb entry bound
    · exact h.value within found bound

/-- The way outward stays in the region. -/
lemma findWithin (h : scopes.Closed region x) {name : String} {depth i holder : Nat} {v : Value}
    (inside : region i) (found : scopes.findWithin name depth i = some (holder, v)) :
    region holder ∧ v.Within region x := by
  induction depth generalizing i with
  | zero => simp [Scopes.findWithin] at found
  | succ depth ih =>
    rw [Scopes.findWithin] at found
    split at found
    · cases found
    · next cell there =>
      split at found
      · next value bound =>
        cases found
        exact ⟨inside, h.value inside there (TokenKind.mem_of_lookup bound)⟩
      · split at found
        · next p up => exact ih (h.parent inside there up) found
        · cases found

end Scopes.Closed

/-- The code of a function is the syntax of a function body. -/
def Code.Sound (c : Code (List Statement)) : Prop :=
  ∃ ps, Statement.AllDenote c.body ps ∧ Phrase.AllFit true ps

/-- Some scopes, with all those that there were not yet at some time. -/
structure Region where
  holds : Nat → Prop
  before : Scopes
  later {i : Nat} : before.size ≤ i → holds i

namespace Region

/-- All scopes, of which the outermost one was there before. -/
def whole : Region :=
  ⟨fun _ => True, #[default], fun _ => trivial⟩

/-- No other scopes have been touched, and all code is sound. -/
structure Frames (r : Region) (s : State) : Prop where
  scopes : s.scopes.Closed r.holds s.extent
  grown : r.before.size ≤ s.scopes.size
  others : ∀ i, ¬r.holds i → s.scopes[i]? = r.before[i]?
  codes : ∀ (i : Nat) (c : Code (List Statement)), s.codes[i]? = some c → c.Sound

variable {r : Region}

namespace Frames

lemma declare (h : r.Frames s) {v : Value} (hv : v.Within r.holds s.extent) {i : Nat}
    (inside : r.holds i) (name : String) :
    r.Frames { s with scopes := s.scopes.declare i name v } := by
  refine ⟨?_, ?_, ?_, h.codes⟩
  · rw [Discipline.extent_declare]
    exact h.scopes.declare hv i name
  · simpa [Scopes.declare] using h.grown
  · intro j outside
    have other : i ≠ j := fun same => outside (same ▸ inside)
    simpa [Scopes.declare, Array.getElem?_modify, other] using h.others j outside

lemma opened (h : r.Frames s) {i : Nat} (inside : r.holds i) {bs : Bindings}
    (hb : ∀ entry ∈ bs, entry.2.Within r.holds s.extent) :
    r.Frames { s with scopes := (s.scopes.opened (some i) bs).2 } := by
  have more : s.extent ≤
      Machine.extent { s with scopes := (s.scopes.opened (some i) bs).2 } := by
    constructor <;> simp [Machine.extent, Scopes.opened]
  refine ⟨(h.scopes.opened inside hb).mono more, Nat.le_trans h.grown more.1, ?_, h.codes⟩
  intro j outside
  have other : j ≠ s.scopes.size := fun same => outside (r.later (same ▸ h.grown))
  simpa [Scopes.opened, Array.getElem?_push, other] using h.others j outside

lemma made (h : r.Frames s) {c : Code (List Statement)} (hc : c.Sound) :
    r.Frames { s with codes := s.codes.push c } := by
  have more : s.extent ≤ Machine.extent { s with codes := s.codes.push c } := by
    constructor <;> simp [Machine.extent]
  refine ⟨h.scopes.mono more, h.grown, h.others, fun i d found => ?_⟩
  simp only [Array.getElem?_push] at found
  split at found
  · cases found
    exact hc
  · exact h.codes i d found

end Frames

lemma exists_allDenote {ss : List Statement} {inside : Bool}
    (h : ∀ st ∈ ss, Statement.Derived inside st) :
    ∃ ps, Statement.AllDenote ss ps ∧ Phrase.AllFit inside ps := by
  induction ss with
  | nil => exact ⟨[], rfl, by simp only [Phrase.AllFit]⟩
  | cons st ss ih =>
    simp only [List.mem_cons, forall_eq_or_imp] at h
    obtain ⟨⟨p, first, fit⟩, others⟩ := h
    obtain ⟨ps, denote, fits⟩ := ih others
    refine ⟨p :: ps, ⟨p, ps, first, denote, rfl⟩, ?_⟩
    simp only [Phrase.AllFit]
    exact ⟨fit, fits⟩

/-- What is run in a region stays there. -/
def discipline (r : Region) : Discipline where
  toFragment := .derived
  state _ s := r.Frames s
  value := Value.Within r.holds
  scope x i := r.holds i ∧ i < x.scopes
  binds x i _ := r.holds i ∧ i < x.scopes
  stop x e := (∀ d, e ≠ .defect d) ∧
    ∀ error : RuntimeError, e = .error error → ∀ v ∈ error.fault.values, v.Within r.holds x
  value_mono more h := h.mono more
  scope_mono more h := ⟨h.1, Nat.lt_of_lt_of_le h.2 more.1⟩
  binds_mono more h := ⟨h.1, Nat.lt_of_lt_of_le h.2 more.1⟩
  plain h := fun f hf => absurd hf (h f)
  quoted := by
    rintro nodes i v line x ⟨t, lies, plain⟩ found
    exact absurd found (lies.not_value plain)
  body := by
    intro n s i code st frames found within
    obtain ⟨ps, denote, fit⟩ := frames.codes i code found
    exact denote.derived fit st within
  closure h := ⟨(h _ rfl).1, (h _ rfl).2.1⟩
  bound := by
    intro n s i name v frames inside found
    obtain ⟨⟨holder, v⟩, there, rfl⟩ := Option.map_eq_some_iff.mp found
    exact (frames.scopes.findWithin inside.1 there).2
  declare frames inside hv := frames.declare hv inside.1 _
  assign frames inside found hv :=
    frames.declare hv (frames.scopes.findWithin inside.1 found).1 _
  opened frames inside hb := frames.opened inside.1 hb
  fresh frames :=
    have inside := ⟨r.later frames.grown, Nat.lt_succ_self _⟩
    ⟨inside, fun _ => inside⟩
  made := by
    intro n s i code frames inside hc
    refine ⟨frames.made (exists_allDenote hc), ?_⟩
    rintro f ⟨⟩
    exact ⟨inside.1, inside.2, Nat.lt_succ_self _⟩
  printed _ h := ⟨h.scopes, h.grown, h.others, h.codes⟩
  read h := ⟨h.scopes, h.grown, h.others, h.codes⟩
  rand h := ⟨h.scopes, h.grown, h.others, h.codes⟩
  timed h := ⟨h.scopes, h.grown, h.others, h.codes⟩
  entered h _ := ⟨h.scopes, h.grown, h.others, h.codes⟩
  left h := ⟨h.scopes, h.grown, h.others, h.codes⟩
  fault known := ⟨nofun, by rintro error ⟨⟩; exact known⟩
  outOfFuel := ⟨nofun, nofun⟩
  missingNode := by
    rintro x nodes i ⟨t, lies, -⟩ missing
    exact absurd missing lies.found
  missingCode h beyond := absurd (h _ rfl).2.2 (Nat.not_lt_of_le beyond)

end Region

/-- Every function that the state holds has code, and all code is sound. -/
def State.Sane (s : State) : Prop :=
  Region.whole.Frames s

end Lox
