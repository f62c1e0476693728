import Lox.Proofs.Scan.Partition

/-!
What the tokens hold that write operands. An identifier is spelled like a word and is not reserved,
and there is no quote in a string.
-/

namespace Lox

/-- A text that is spelled like a name or a reserved word. -/
def IsWord (w : String) : Prop :=
  Piece.startsWith Piece.startsWord w.toList = true ∧ ∀ c ∈ w.toList, Piece.continuesWord c = true

instance (w : String) : Decidable (IsWord w) :=
  @instDecidableAnd _ _ _ (List.decidableBAll _ w.toList)

/-- A word that is not reserved. -/
structure IsName (w : String) : Prop where
  word : IsWord w
  free : TokenKind.ofKeyword? w = none

namespace TokenKind

lemma ofKeyword_ne_identifier (word : String) : ofKeyword? word ≠ some .identifier := by
  intro reserved
  have listed := mem_of_lookup reserved
  simp [keywords] at listed

lemma ofSymbol_ne_identifier (cs : List Char) : ofSymbol? cs ≠ some .identifier := by
  intro spelled
  have listed := mem_of_lookup spelled
  simp [symbols] at listed

end TokenKind

namespace Piece

variable {c : Char} {rest : List Char}

/-- If a piece is an identifier, its text is a name. -/
def Named (piece : Piece) : Prop :=
  ∀ l, piece.sort = .token .identifier l → IsName (String.ofList piece.text)

lemma word_named (letter : startsWord c = true) : Named (word (c :: rest)).1 := by
  intro l sort
  have continues : continuesWord c = true := by simp [continuesWord, letter]
  refine ⟨⟨?_, ?_⟩, ?_⟩
  · rw [word, String.toList_ofList, List.takeWhile_cons_of_pos continues]
    exact letter
  · rw [word, String.toList_ofList]
    exact all_takeWhile (c :: rest)
  · cases reserved : TokenKind.ofKeyword? (String.ofList ((c :: rest).takeWhile continuesWord)) with
    | none => exact reserved
    | some kind =>
      simp only [word, reserved, Option.getD_some, Sort.token.injEq] at sort
      obtain ⟨rfl, -⟩ := sort
      exact absurd reserved (TokenKind.ofKeyword_ne_identifier _)

lemma single_named (c : Char) (rest : List Char) : Named (single c rest).1 := by
  intro l sort
  unfold single at sort
  split at sort
  · next spelled =>
    cases sort
    exact absurd spelled (TokenKind.ofSymbol_ne_identifier _)
  · cases sort

lemma symbol_named (c : Char) (rest : List Char) : Named (symbol c rest).1 := by
  unfold symbol
  split
  · exact single_named c []
  · split
    · next spelled =>
      intro l sort
      cases sort
      exact absurd spelled (TokenKind.ofSymbol_ne_identifier _)
    · exact single_named c _

lemma number_named (cs : List Char) : Named (number cs).1 := by
  intro l sort
  simp only [number] at sort
  split at sort
  · split at sort <;> cases sort
  · cases sort

lemma string_named (rest : List Char) : Named (string rest).1 := by
  intro l sort
  unfold string at sort
  split at sort <;> cases sort

lemma first_named (c : Char) (rest : List Char) : Named (first c rest).1 := by
  unfold first
  split_ifs with blank slashes quote digit mark letter
  · intro l sort
    cases sort
  · intro l sort
    cases sort
  · exact string_named rest
  · exact number_named (c :: rest)
  · intro l sort
    cases sort
  · exact word_named letter
  · exact symbol_named c rest

end Piece

namespace Scan

variable {text : List Char} {t : Token}

/-- Identifiers are names. -/
lemma isName_of_identifier (h : t ∈ tokens (items text)) (kind : t.kind = .identifier) :
    IsName t.lexeme := by
  rcases mem_tokens_locate h with ⟨q, rfl⟩ | ⟨piece, within, lexeme, sort⟩
  · cases kind
  · obtain ⟨c, rest, rfl⟩ := Piece.mem_ofText within
    rw [kind] at sort
    rw [lexeme]
    exact Piece.first_named c rest _ sort

/-- There is no quote in a string. -/
lemma no_quote (h : t ∈ tokens (items text)) {s : String} (carries : t.literal = some (.string s)) :
    '\x22' ∉ s.toList := by
  have written := (items_inText text _ (mem_tokens h)).written
  rw [carries] at written
  generalize t.kind = kind, t.lexeme.toList = cs at written
  cases written with
  | string body plain => rwa [String.toList_ofList]

end Scan

end Lox
