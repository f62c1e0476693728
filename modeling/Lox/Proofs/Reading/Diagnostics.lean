import Lox.Proofs.Reading.ReportsRules
import Lox.Proofs.Scan.Partition

/-!
The mistakes of a text, in the order in which they are listed: those that the scan finds, in the
order of the text, and then those against the grammar. Of these only assignments without a target
may be listed too late, behind mistakes in the values that they assign.
-/

namespace Lox

namespace Scan

lemma mem_errors {scan : List Scanned} {e : LexicalError} (h : e ∈ errors scan) :
    .error e ∈ scan := by
  obtain ⟨item, within, same⟩ := List.mem_filterMap.mp h
  cases item with
  | ok t => cases same
  | error f =>
    cases same
    exact within

lemma items_tiles (text : List Char) : Tiles [] text (items text) :=
  locate_tiles [] text

lemma tokens_increasing (text : List Char) :
    (tokens (items text)).Pairwise fun t u => t.span.start < u.span.start := by
  refine (items_tiles text).increasing.filterMap _ fun a b lt t ht u hu => ?_
  cases a <;> cases ht
  cases b <;> cases hu
  exact lt.1

lemma errors_increasing (text : List Char) :
    (errors (items text)).Pairwise fun a b => a.span.start < b.span.start := by
  refine (items_tiles text).increasing.filterMap _ fun a b lt d hd e he => ?_
  cases a <;> cases hd
  cases b <;> cases he
  exact lt.1

end Scan

namespace Source

/-- The mistakes against the grammar in the tokens of a text. -/
def grammatical (text : List Char) : List SyntaxError :=
  match programOfTokens (utf8Length text) (Scan.tokens (Scan.items text)) with
  | .ok _ => []
  | .error es => es

/-- All mistakes of a text. -/
def diagnostics (text : List Char) : List Diagnostic :=
  match program text with
  | .ok _ => []
  | .error ds => ds

lemma diagnostics_eq (text : List Char) : diagnostics text =
    (Scan.errors (Scan.items text)).map .lexical ++ (grammatical text).map .grammatical := by
  simp only [diagnostics, program, grammatical]
  cases programOfTokens (utf8Length text) (Scan.tokens (Scan.items text)) with
  | ok ss =>
    cases Scan.errors (Scan.items text) with
    | nil => rfl
    | cons e es => simp
  | error es => rfl

/-- Before the first token, all tokens of a text are ahead. -/
lemma start_ordered (text : List Char) :
    (Reading.start (utf8Length text) (Scan.tokens (Scan.items text))).Ordered
        (· ∈ Scan.tokens (Scan.items text)) ∧
      (Reading.start (utf8Length text) (Scan.tokens (Scan.items text))).errors = #[] := by
  obtain ⟨ts, q, same, -⟩ := Scan.tokens_items text
  have increasing := (Scan.tokens_increasing text).imp Nat.le_of_lt
  have start : Reading.start (utf8Length text) (ts ++ [Token.atEnd q]) =
      ⟨ts, Token.atEnd q, #[], #[], 0, rfl⟩ := by
    simp [Reading.start, Token.atEnd]
  rw [same] at increasing ⊢
  rw [start]
  exact ⟨⟨fun t within => within, increasing⟩, rfl⟩

/-- What is found against the grammar is found at tokens. -/
lemma grammatical_found (text : List Char) :
    (grammatical text).Pairwise SyntaxError.Follows ∧
      ∀ e ∈ grammatical text, ∃ t cause,
        t ∈ Scan.tokens (Scan.items text) ∧ e = .atToken t cause := by
  obtain ⟨ordered, none⟩ := start_ordered text
  unfold grammatical
  split
  · exact ⟨.nil, List.forall_mem_nil _⟩
  · next es found => exact Grammar.program_reported ordered none found

/-- The mistakes of a text are those that the scan finds, in the order of the text, and then those
against the grammar, of which one stands before another that is listed earlier only if it is an
assignment without a target. -/
theorem diagnostics_ordered (text : List Char) :
    diagnostics text =
      (Scan.errors (Scan.items text)).map .lexical ++ (grammatical text).map .grammatical ∧
    (Scan.errors (Scan.items text)).Pairwise (fun a b => a.span.start < b.span.start) ∧
    (grammatical text).Pairwise fun a b =>
      a.span.start ≤ b.span.start ∨ b.cause = .badTarget :=
  ⟨diagnostics_eq text, Scan.errors_increasing text, (grammatical_found text).1⟩

/-- The first of two assignments without a target is listed behind the second, which is in its
value. -/
theorem diagnostics_chained_assignment :
    (diagnostics "1 = 2 = 3;".toList).map (fun d => (d.code, d.span)) =
      [("PS003", ⟨6, 1⟩), ("PS003", ⟨2, 1⟩)] ∧
    ¬(grammatical "1 = 2 = 3;".toList).Pairwise fun a b => a.span.start ≤ b.span.start := by
  decide +kernel

end Source

end Lox
