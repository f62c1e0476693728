import Lox.Proofs.Derivation.Expression

/-!
The grammar of statements, declarations and programs. A `for` has the tree of the block with a
`while` loop that it stands for.
-/

namespace Lox

open Reader

/-- What a statement may be: whether a function encloses it, and whether it may end in an `if`
without `else`. One that stands before an `else` may not, so an `else` belongs to the nearest `if`.
-/
inductive Form
  | declaration (inside : Bool)
  | statement (inside dangling : Bool)
deriving DecidableEq

/-- The loop that a `for` on a line stands for. Without a condition it never ends. -/
def Phrase.forLoop (line : Nat) (initializer : Option Phrase) (condition : Option Term)
    (increment : Option Term) (body : Phrase) : Phrase :=
  let body :=
    match increment with
    | some increment => .block [body, .expression increment]
    | none => body
  let loop := .whileLoop (condition.getD (.atom (.bool true) line)) body
  match initializer with
  | some initializer => .block [initializer, loop]
  | none => loop

/-- What follows `var`. -/
inductive DerivesVariable : List Token → Phrase → Prop
  | plain {name semicolon : Token} :
    name.kind = .identifier → semicolon.kind = .semicolon →
    DerivesVariable [name, semicolon] (.declareVar (ident name) none)
  | initial {ts : List Token} {t : Term} {name equals semicolon : Token} :
    name.kind = .identifier → equals.kind = .equal → DerivesTerm .assignment ts t →
    semicolon.kind = .semicolon →
    DerivesVariable (name :: equals :: (ts ++ [semicolon])) (.declareVar (ident name) (some t))

/-- The first clause of a `for`, with its semicolon. -/
inductive DerivesInitializer : List Token → Option Phrase → Prop
  | none {semicolon : Token} : semicolon.kind = .semicolon → DerivesInitializer [semicolon] none
  | declareVar {ts : List Token} {p : Phrase} {keyword : Token} :
    keyword.kind = .kwVar → DerivesVariable ts p → DerivesInitializer (keyword :: ts) (some p)
  | expression {ts : List Token} {t : Term} {semicolon : Token} :
    DerivesTerm .assignment ts t → semicolon.kind = .semicolon →
    DerivesInitializer (ts ++ [semicolon]) (some (.expression t))

/-- Tokens are a statement or declaration of a form, with this tree. -/
inductive DerivesPhrase : Form → List Token → Phrase → Prop
  | declareVar {inside : Bool} {ts : List Token} {p : Phrase} {keyword : Token} :
    keyword.kind = .kwVar → DerivesVariable ts p →
    DerivesPhrase (.declaration inside) (keyword :: ts) p
  | declareFun {inside : Bool} {us : List Token} {names : List Token}
      {parts : List (List Token × Phrase)} {keyword name opening closing brace last : Token} :
    keyword.kind = .kwFun → name.kind = .identifier → opening.kind = .leftParen →
    (∀ t ∈ names, t.kind = .identifier) → Separated (names.map fun t => [t]) us →
    names.length ≤ arityLimit → closing.kind = .rightParen → brace.kind = .leftBrace →
    (∀ part ∈ parts, DerivesPhrase (.declaration true) part.1 part.2) →
    last.kind = .rightBrace →
    DerivesPhrase (.declaration inside)
      (keyword :: name :: opening ::
        (us ++ closing :: brace :: ((parts.map Prod.fst).flatten ++ [last])))
      (.declareFun (ident name) (names.map ident) (parts.map Prod.snd))
  | statement {inside : Bool} {ts : List Token} {p : Phrase} :
    DerivesPhrase (.statement inside true) ts p → DerivesPhrase (.declaration inside) ts p
  | expression {inside dangling : Bool} {ts : List Token} {t : Term} {semicolon : Token} :
    DerivesTerm .assignment ts t → semicolon.kind = .semicolon →
    DerivesPhrase (.statement inside dangling) (ts ++ [semicolon]) (.expression t)
  | print {inside dangling : Bool} {ts : List Token} {t : Term} {keyword semicolon : Token} :
    keyword.kind = .kwPrint → DerivesTerm .assignment ts t → semicolon.kind = .semicolon →
    DerivesPhrase (.statement inside dangling) (keyword :: (ts ++ [semicolon])) (.print t)
  | returnFrom {dangling : Bool} {ts : List Token} {value : Option Term}
      {keyword semicolon : Token} :
    keyword.kind = .kwReturn → MaybeDerivesTerm ts value → semicolon.kind = .semicolon →
    DerivesPhrase (.statement true dangling) (keyword :: (ts ++ [semicolon]))
      (.returnFrom keyword.line value)
  | block {inside dangling : Bool} {parts : List (List Token × Phrase)} {first last : Token} :
    first.kind = .leftBrace →
    (∀ part ∈ parts, DerivesPhrase (.declaration inside) part.1 part.2) →
    last.kind = .rightBrace →
    DerivesPhrase (.statement inside dangling)
      (first :: ((parts.map Prod.fst).flatten ++ [last])) (.block (parts.map Prod.snd))
  | branch {inside : Bool} {ts us : List Token} {condition : Term} {success : Phrase}
      {keyword opening closing : Token} :
    keyword.kind = .kwIf → opening.kind = .leftParen → DerivesTerm .assignment ts condition →
    closing.kind = .rightParen → DerivesPhrase (.statement inside true) us success →
    DerivesPhrase (.statement inside true) (keyword :: opening :: (ts ++ closing :: us))
      (.branch condition success none)
  | branchElse {inside dangling : Bool} {ts us vs : List Token} {condition : Term}
      {success failure : Phrase} {keyword opening closing other : Token} :
    keyword.kind = .kwIf → opening.kind = .leftParen → DerivesTerm .assignment ts condition →
    closing.kind = .rightParen → DerivesPhrase (.statement inside false) us success →
    other.kind = .kwElse → DerivesPhrase (.statement inside dangling) vs failure →
    DerivesPhrase (.statement inside dangling)
      (keyword :: opening :: (ts ++ closing :: (us ++ other :: vs)))
      (.branch condition success (some failure))
  | whileLoop {inside dangling : Bool} {ts us : List Token} {condition : Term} {body : Phrase}
      {keyword opening closing : Token} :
    keyword.kind = .kwWhile → opening.kind = .leftParen → DerivesTerm .assignment ts condition →
    closing.kind = .rightParen → DerivesPhrase (.statement inside dangling) us body →
    DerivesPhrase (.statement inside dangling) (keyword :: opening :: (ts ++ closing :: us))
      (.whileLoop condition body)
  | forLoop {inside dangling : Bool} {ts us vs ws : List Token} {initializer : Option Phrase}
      {condition increment : Option Term} {body : Phrase}
      {keyword opening semicolon closing : Token} :
    keyword.kind = .kwFor → opening.kind = .leftParen → DerivesInitializer ts initializer →
    MaybeDerivesTerm us condition → semicolon.kind = .semicolon →
    MaybeDerivesTerm vs increment → closing.kind = .rightParen →
    DerivesPhrase (.statement inside dangling) ws body →
    DerivesPhrase (.statement inside dangling)
      (keyword :: opening :: (ts ++ (us ++ semicolon :: (vs ++ closing :: ws))))
      (.forLoop keyword.line initializer condition increment body)
  | stringLoop {inside dangling : Bool} {ts us : List Token} {iterable : Term} {body : Phrase}
      {keyword opening binder name preposition closing : Token} :
    keyword.kind = .kwLoop → opening.kind = .leftParen → binder.kind = .kwVar →
    name.kind = .identifier → preposition.kind = .kwIn → DerivesTerm .assignment ts iterable →
    closing.kind = .rightParen → DerivesPhrase (.statement inside dangling) us body →
    DerivesPhrase (.statement inside dangling)
      (keyword :: opening :: binder :: name :: preposition :: (ts ++ closing :: us))
      (.stringLoop (ident name) iterable body)

/-- Tokens are the declarations of a program, one after another. -/
def DerivesProgram (ts : List Token) (ps : List Phrase) : Prop :=
  ∃ parts : List (List Token × Phrase),
    (∀ part ∈ parts, DerivesPhrase (.declaration false) part.1 part.2) ∧
      ts = (parts.map Prod.fst).flatten ∧ ps = parts.map Prod.snd

end Lox
