import Lox.Proofs.Decimal.Value
import Lox.Proofs.Evaluation.Rounds

/-!
Parts of strings. Indices count the characters that a loop over the string visits: the part between
two indices is made of what the loop binds in the rounds between them. Fractional indices are
rounded down, and those below zero or above the number of characters, the infinities and NaN are
refused.
-/

namespace Lox

open Binary
open Float.Model (UnpackedFloat)

namespace Native

variable {s : String} {a b x y : Float} {i j k length : Nat} {v : ℚ}

/-- The part of a string between two indices. -/
def part (s : String) (a b : Float) : Except Fault Value :=
  applySubstring [.string s, .number a, .number b]

/-- A number that is rounded down is no index of a text of some length. -/
def Outside (length : Nat) (x : Float) : Prop :=
  x.isNaN = true ∨ x < 0 ∨ Float.ofNat length < x

lemma isIndex_iff : isIndex length x = true ↔ ¬Outside length x := by
  simp only [isIndex, Outside, Bool.and_eq_true, Bool.not_eq_true', Bool.or_eq_false_iff,
    decide_eq_false_iff_not, not_or, Bool.not_eq_true]
  exact and_comm

lemma value?_ofNat (few : length ≤ 2 ^ 53) : value? (Float.ofNat length) = some (length : ℚ) := by
  have exact := rounded_small few
  rw [ofNat_eq, value?_float (by omega), exact]

lemma inside_iff : (isIndex length x && isIndex length y) = true ↔
    ¬(Outside length x ∨ Outside length y) := by
  rw [Bool.and_eq_true, isIndex_iff, isIndex_iff, not_or]

/-- The indices of a text are the numbers from zero to its length. -/
lemma outside_iff (few : length ≤ 2 ^ 53) :
    Outside length x ↔ ¬∃ v, value? x = some v ∧ 0 ≤ v ∧ v ≤ length := by
  have top := value?_ofNat few
  have zero : value? 0 = some ((0 : Nat) : ℚ) := value?_ofNat (Nat.zero_le _)
  cases value : value? x with
  | some v =>
    rw [Outside, lt_iff value zero, lt_iff top value, isNaN_of_value value]
    simp only [Bool.false_eq_true, false_or, Option.some.injEq, exists_eq_left', not_and_or, not_le,
      Nat.cast_zero]
  | none =>
    simp only [reduceCtorEq, false_and, exists_false, not_false_eq_true, iff_true]
    rcases none_cases value with number | above | below
    · exact .inl number
    · exact .inr (.inr (above _ _ top))
    · exact .inr (.inl (below _ _ zero))

/-- A number is an index if it is finite and the greatest integer below it is one. -/
lemma outside_floor_iff (few : length ≤ 2 ^ 53) : Outside length (Floor.float x) ↔
    ¬∃ v, value? x = some v ∧ 0 ≤ ⌊v⌋ ∧ ⌊v⌋ ≤ length := by
  rw [outside_iff few, value?_floor]
  cases value? x with
  | none => simp
  | some v =>
    simp only [Option.map_some, Option.some.injEq, exists_eq_left']
    norm_cast

lemma part_refused : part s a b =
    .error (.substringRange (Floor.float a) (Floor.float b) s.toList.length) ↔
      Outside s.toList.length (Floor.float a) ∨ Outside s.toList.length (Floor.float b) := by
  simp only [part, applySubstring]
  by_cases refused : Outside s.toList.length (Floor.float a) ∨
      Outside s.toList.length (Floor.float b)
  · rw [if_neg (fun inside => inside_iff.mp inside refused)]
    simp only [refused]
  · rw [if_pos (inside_iff.mpr refused)]
    simp only [refused, iff_false]
    by_cases empty : Floor.float b ≤ Floor.float a
    · rw [if_pos empty]
      intro same
      cases same
    · rw [if_neg empty]
      intro same
      cases same

/-- An index that is rounded down already names the same place. -/
lemma part_floor (s : String) (a b : Float) :
    part s (Floor.float a) (Floor.float b) = part s a b := by
  simp only [part, applySubstring, floor_floor]

/-- A part that is not refused is yielded, and it is empty if it stops before it starts. -/
lemma exists_part (inside : ¬(Outside s.toList.length (Floor.float a) ∨
    Outside s.toList.length (Floor.float b))) : ∃ text, part s a b = .ok (.string text) ∧
      (Floor.float b ≤ Floor.float a → text = "") := by
  simp only [part, applySubstring]
  rw [if_pos (inside_iff.mpr inside)]
  by_cases empty : Floor.float b ≤ Floor.float a
  · rw [if_pos empty]
    exact ⟨"", rfl, fun _ => rfl⟩
  · rw [if_neg empty]
    exact ⟨_, rfl, fun le => absurd le empty⟩

lemma natural_eq (value : value? x = some v) : Floor.natural x = ⌊v⌋.toNat := by
  rw [Floor.natural, integer?_eq, value]
  rfl

lemma value?_floor_ofNat (few : i ≤ 2 ^ 53) :
    value? (Floor.float (.ofNat i)) = some (i : ℚ) := by
  rw [value?_floor, value?_ofNat few, Option.map_some, Int.floor_natCast]
  rfl

lemma inside_floor_ofNat (few : length ≤ 2 ^ 53) (inside : i ≤ length) :
    ¬Outside length (Floor.float (.ofNat i)) := by
  rw [outside_iff few, not_not]
  exact ⟨i, value?_floor_ofNat (inside.trans few), by positivity, by exact_mod_cast inside⟩

lemma part_slice (few : s.toList.length ≤ 2 ^ 53) (ordered : i ≤ j) (inside : j ≤ s.toList.length) :
    part s (.ofNat i) (.ofNat j) = .ok (.string (String.ofList (slice s.toList i j))) := by
  have start := value?_floor_ofNat ((ordered.trans inside).trans few)
  have stop := value?_floor_ofNat (inside.trans few)
  have here := inside_floor_ofNat few (ordered.trans inside)
  have there := inside_floor_ofNat few inside
  simp only [part, applySubstring]
  rw [if_pos (inside_iff.mpr (not_or.mpr ⟨here, there⟩)), natural_eq start, natural_eq stop]
  simp only [le_iff stop start, Nat.cast_le, Int.floor_natCast, Int.toNat_natCast]
  by_cases empty : j ≤ i
  · have none : j - i = 0 := by omega
    rw [if_pos empty, slice, none, List.take_zero]
  · rw [if_neg empty]

end Native

namespace Moment

/-- A loop over a string begins its rounds: its subject has come to the string, and the scope of the
loop is there. -/
def LoopsOver (m : Moment) (s : String) : Prop :=
  ∃ scope name e body n before after,
    Leads ⟨.statement scope (.stringLoop name e body), n, before⟩ m ∧
      m = ⟨.characters scope name.name body s.toList, n, after⟩ ∧ scope < after.scopes.size

/-- The strings that a loop binds in its rounds from one on, up to but without another. -/
def BindsBetween (m : Moment) (i j : Nat) (texts : List String) : Prop :=
  List.Forall₂ (fun k text => m.BindsIn k (.string text)) (List.range' i (j - i)) texts

variable {m m' : Moment} {s : String} {i j k : Nat} {v : Value} {texts : List String}

/-- A loop binds the characters of its string one after the other. -/
lemma LoopsOver.binds (h : m.LoopsOver s) (bound : m.BindsIn k v) :
    ∃ c, s.toList[k]? = some c ∧ v = .string (String.singleton c) := by
  obtain ⟨scope, name, e, body, n, before, after, -, rfl, there⟩ := h
  exact bound.character there

lemma LoopsOver.round (h : m.LoopsOver s) (rounds : Rounds k m m') (more : k < s.toList.length) :
    m.BindsIn k (.string (String.singleton s.toList[k])) := by
  obtain ⟨scope, name, e, body, n, before, after, -, rfl, there⟩ := h
  obtain ⟨v, bound⟩ := rounds.binds there more
  obtain ⟨c, found, rfl⟩ := bound.character there
  rw [List.getElem?_eq_getElem more] at found
  cases found
  exact bound

/-- What a loop binds between two rounds are the characters there. -/
lemma LoopsOver.between (h : m.LoopsOver s) (bound : m.BindsBetween i j texts) :
    texts = (Native.slice s.toList i j).map String.singleton := by
  rw [BindsBetween] at bound
  rw [Native.slice]
  generalize j - i = count at bound
  induction count generalizing i texts with
  | zero =>
    cases bound
    rfl
  | succ count ih =>
    rw [List.range'_succ] at bound
    cases bound with
    | cons first others =>
      obtain ⟨c, found, same⟩ := h.binds first
      cases same
      obtain ⟨inside, rfl⟩ := List.getElem?_eq_some_iff.mp found
      rw [List.drop_eq_getElem_cons inside, List.take_succ_cons, List.map_cons, ih others]

/-- A loop that ends normally has had a round for each character. -/
lemma LoopsOver.all {u : State} (h : m.LoopsOver s)
    (ends : m.part.Completes m.state (.ok .normal u)) :
    m.BindsBetween 0 s.toList.length (s.toList.map String.singleton) := by
  have rounds : ∃ m', Rounds s.toList.length m m' := by
    obtain ⟨scope, name, e, body, n, before, after, -, rfl, -⟩ := h
    obtain ⟨m', rounds, -⟩ := completes_iff.mp ends
    exact ⟨m', rounds⟩
  obtain ⟨m', rounds⟩ := rounds
  rw [BindsBetween, List.forall₂_iff_get]
  constructor
  · simp
  · intro k _ more
    rw [List.length_map] at more
    obtain ⟨m'', first⟩ := rounds.earlier more.le
    simpa using h.round first more

end Moment

namespace Native

lemma join_singletons (cs : List Char) :
    String.join (cs.map String.singleton) = String.ofList cs := by
  rw [← String.toList_inj, String.toList_join, String.toList_ofList, List.flatMap_map]
  simp

lemma slice_append (cs : List Char) (first : i ≤ j) (second : j ≤ k) :
    slice cs i j ++ slice cs j k = slice cs i k := by
  have split : k - i = (j - i) + (k - j) := by omega
  have start : j = i + (j - i) := by omega
  rw [slice, slice, slice, split, List.take_add, List.drop_drop, ← start]

/-- For strings of up to `2 ^ 53` characters, so that all their indices are numbers: the part from
one index to another is made of the strings that a loop binds in the rounds between them, each of
them one character; parts in a row make up the whole; and a loop that ends normally has bound all of
the string. For all strings and numbers: a part is refused exactly if an index, rounded down, is NaN,
below zero or above the number of characters; any other one is the part between the indices rounded
down, which is empty if it stops before it starts. -/
theorem substring_characters (s : String) :
    (s.toList.length ≤ 2 ^ 53 →
      (∀ m : Moment, m.LoopsOver s → ∀ i j, i ≤ j → j ≤ s.toList.length → ∀ texts,
        m.BindsBetween i j texts →
          part s (.ofNat i) (.ofNat j) = .ok (.string (String.join texts))) ∧
      (∀ i j k, i ≤ j → j ≤ k → k ≤ s.toList.length → ∃ front back : String,
        part s (.ofNat i) (.ofNat j) = .ok (.string front) ∧
        part s (.ofNat j) (.ofNat k) = .ok (.string back) ∧
        part s (.ofNat i) (.ofNat k) = .ok (.string (front ++ back))) ∧
      ∀ x, Outside s.toList.length (Floor.float x) ↔
        ¬∃ v, value? x = some v ∧ 0 ≤ ⌊v⌋ ∧ ⌊v⌋ ≤ s.toList.length) ∧
    (∀ m : Moment, m.LoopsOver s →
      (∀ k v, m.BindsIn k v → k < s.toList.length ∧ ∃ c, v = .string (String.singleton c)) ∧
      (∀ k m', Moment.Rounds k m m' → k < s.toList.length → ∃ v, m.BindsIn k v) ∧
      ∀ u, m.part.Completes m.state (.ok .normal u) →
        ∃ texts, m.BindsBetween 0 s.toList.length texts ∧ String.join texts = s) ∧
    ∀ a b,
      let refused := Outside s.toList.length (Floor.float a) ∨
        Outside s.toList.length (Floor.float b)
      (part s a b = .error (.substringRange (Floor.float a) (Floor.float b) s.toList.length) ↔
        refused) ∧
      (¬refused → ∃ text, part s a b = .ok (.string text) ∧
        part s (Floor.float a) (Floor.float b) = .ok (.string text) ∧
        (Floor.float b ≤ Floor.float a → text = "")) := by
  constructor
  · intro few
    constructor
    · intro m loops i j ordered inside texts bound
      rw [part_slice few ordered inside, loops.between bound, join_singletons]
    · constructor
      · intro i j k first second inside
        have front := part_slice few first (second.trans inside)
        have back := part_slice few second inside
        refine ⟨_, _, front, back, ?_⟩
        rw [part_slice few (first.trans second) inside, ← String.ofList_append,
          slice_append s.toList first second]
      · exact fun x => outside_floor_iff few
  · constructor
    · intro m loops
      constructor
      · intro k v bound
        obtain ⟨c, found, same⟩ := loops.binds bound
        obtain ⟨inside, -⟩ := List.getElem?_eq_some_iff.mp found
        exact ⟨inside, c, same⟩
      · constructor
        · intro k m' rounds more
          exact ⟨_, loops.round rounds more⟩
        · intro u ends
          refine ⟨_, loops.all ends, ?_⟩
          rw [join_singletons, String.ofList_toList]
    · intro a b
      constructor
      · exact part_refused
      · intro inside
        obtain ⟨text, yielded, empty⟩ := exists_part inside
        exact ⟨text, yielded, (part_floor s a b).trans yielded, empty⟩

/-- A loop over three characters, of one, two and four bytes. -/
theorem substring_characters_bytes :
    let s := State.fresh 0 ⟨"", [], ""⟩
    let loop := Statement.overText ⟨"c", ⟨0, 1⟩, 1⟩ "aé😀" (.block [])
    "aé😀".toList.length ≤ 2 ^ 53 ∧ ∃ m : Moment, Moment.Leads ⟨.statement 0 loop, 0, s⟩ m ∧
      m.LoopsOver "aé😀" ∧ ∃ texts, m.BindsBetween 0 3 texts ∧ String.join texts = "aé😀" ∧
        part "aé😀" (.ofNat 0) (.ofNat 3) = .ok (.string (String.join texts)) := by
  intro s loop
  let start := (Run.expression 9 0 (.single (.atom (.string "aé😀") 1))).after s
  have string : Run.expression 9 0 (.single (.atom (.string "aé😀") 1)) s =
      .ok (.string "aé😀") start := Exec.eq_ok (by decide +kernel)
  have leads : Moment.Leads ⟨.statement 0 loop, 0, s⟩
      ⟨.characters 0 "c" (.block []) "aé😀".toList, 0, start⟩ := .stringLoop string
  have loops : Moment.LoopsOver ⟨.characters 0 "c" (.block []) "aé😀".toList, 0, start⟩ "aé😀" :=
    ⟨0, ⟨"c", ⟨0, 1⟩, 1⟩, _, _, 0, s, start, leads, rfl, by decide +kernel⟩
  let run := Run.characters 9 0 "c" (.block []) "aé😀".toList
  have ends : run start = .ok .normal (run.after start) := Exec.eq_ok (by decide +kernel)
  have few : "aé😀".toList.length ≤ 2 ^ 53 := by decide
  obtain ⟨exact, rounds, -⟩ := substring_characters "aé😀"
  obtain ⟨texts, bound, joined⟩ := (rounds _ loops).2.2 _
    (.of_ok (fun fuel => (Run.lasting fuel).characters 0 "c" (.block []) "aé😀".toList) ends)
  have whole := (exact few).1 _ loops 0 3 (by decide) (by decide) texts bound
  exact ⟨few, _, leads, loops, texts, bound, joined, whole⟩

end Native

end Lox
