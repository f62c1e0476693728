import Lox.Grammar.Reading
import Lox.Proofs.Tree.Level

/-!
The grammar of expressions as a relation between lists of tokens and terms. It says which lists are
expressions and which tree each of them has, and nothing of how they are read.
-/

namespace Lox

/-- The levels of expressions, loosest first. -/
inductive Category
  | assignment
  | level (k : Level)
  | unary
  | call
  | primary
deriving DecidableEq

/-- The operands of a level of operators. -/
def Level.operand (k : Level) : Category :=
  match k.next? with
  | some next => .level next
  | none => .unary

/-- The unary operator that a token stands for. -/
def UnaryOp.ofKind? : TokenKind → Option UnaryOp
  | .minus => some .negate
  | .bang => some .not
  | _ => none

/-- The operand that a single token writes. -/
def Token.atom? (t : Token) : Option Atom :=
  match t.kind, t.literal with
  | .number, some (.number x) => some (.number x)
  | .string, some (.string s) => some (.string s)
  | .identifier, _ => some (.identifier (Reader.ident t))
  | .kwNil, _ => some .nil
  | .kwTrue, _ => some (.bool true)
  | .kwFalse, _ => some (.bool false)
  | _, _ => none

/-- Lists of tokens with a comma between each two of them. -/
inductive Separated : List (List Token) → List Token → Prop
  | none : Separated [] []
  | one {ts : List Token} : Separated [ts] ts
  | more {ts us vs : List Token} {parts : List (List Token)} {comma : Token} :
    comma.kind = .comma → Separated (us :: parts) vs →
    Separated (ts :: us :: parts) (ts ++ comma :: vs)

/-- Tokens are an expression of a level, with this tree. -/
inductive DerivesTerm : Category → List Token → Term → Prop
  | loosest {ts : List Token} {t : Term} :
    DerivesTerm (.level .or) ts t → DerivesTerm .assignment ts t
  | assign {ts us : List Token} {target value : Term} {name : Ident} {equals : Token} :
    DerivesTerm (.level .or) ts target → target.target? = some name → equals.kind = .equal →
    DerivesTerm .assignment us value →
    DerivesTerm .assignment (ts ++ equals :: us) (.assign name value)
  | operand {k : Level} {ts : List Token} {t : Term} :
    DerivesTerm k.operand ts t → DerivesTerm (.level k) ts t
  | join {k : Level} {ts us : List Token} {lhs rhs : Term} {sign : Token} {op : Infix} :
    DerivesTerm (.level k) ts lhs → k.operator? sign.kind = some op →
    DerivesTerm k.operand us rhs →
    DerivesTerm (.level k) (ts ++ sign :: us) (op.join lhs rhs sign.line)
  | unary {ts : List Token} {rhs : Term} {sign : Token} {op : UnaryOp} :
    UnaryOp.ofKind? sign.kind = some op → DerivesTerm .unary ts rhs →
    DerivesTerm .unary (sign :: ts) (.unary op rhs sign.line)
  | called {ts : List Token} {t : Term} : DerivesTerm .call ts t → DerivesTerm .unary ts t
  | call {ts us : List Token} {callee : Term} {parts : List (List Token × Term)}
      {opening closing : Token} :
    DerivesTerm .call ts callee → opening.kind = .leftParen →
    (∀ part ∈ parts, DerivesTerm .assignment part.1 part.2) →
    Separated (parts.map Prod.fst) us → parts.length ≤ arityLimit → closing.kind = .rightParen →
    DerivesTerm .call (ts ++ opening :: (us ++ [closing]))
      (.call callee (parts.map Prod.snd) closing.line)
  | primary {ts : List Token} {t : Term} : DerivesTerm .primary ts t → DerivesTerm .call ts t
  | atom {t : Token} {a : Atom} :
    t.atom? = some a → DerivesTerm .primary [t] (.atom a t.line)
  | read {t : Token} : t.kind = .kwRead → DerivesTerm .primary [t] (.read t.line)
  | rand {t : Token} : t.kind = .kwRand → DerivesTerm .primary [t] (.rand t.line)
  | floor {ts : List Token} {argument : Term} {keyword opening closing : Token} :
    keyword.kind = .kwFloor → opening.kind = .leftParen → DerivesTerm .assignment ts argument →
    closing.kind = .rightParen →
    DerivesTerm .primary (keyword :: opening :: (ts ++ [closing])) (.floor argument keyword.line)
  | substring {ts us vs : List Token} {subject start stop : Term}
      {keyword opening comma comma' closing : Token} :
    keyword.kind = .kwSubstring → opening.kind = .leftParen →
    DerivesTerm .assignment ts subject → comma.kind = .comma →
    DerivesTerm .assignment us start → comma'.kind = .comma →
    DerivesTerm .assignment vs stop → closing.kind = .rightParen →
    DerivesTerm .primary
      (keyword :: opening :: (ts ++ comma :: (us ++ comma' :: (vs ++ [closing]))))
      (.substring subject start stop keyword.line)
  | group {ts : List Token} {inner : Term} {opening closing : Token} :
    opening.kind = .leftParen → DerivesTerm .assignment ts inner → closing.kind = .rightParen →
    DerivesTerm .primary (opening :: (ts ++ [closing])) (.group inner)

lemma DerivesTerm.of_primary {ts : List Token} {t : Term} (h : DerivesTerm .primary ts t) :
    DerivesTerm .assignment ts t := by
  have tightest : DerivesTerm (.level .multiplicative) ts t := .operand (.called (.primary h))
  have additive : DerivesTerm (.level .additive) ts t := .operand tightest
  have comparison : DerivesTerm (.level .comparison) ts t := .operand additive
  have equality : DerivesTerm (.level .equality) ts t := .operand comparison
  have and : DerivesTerm (.level .and) ts t := .operand equality
  exact .loosest (.operand and)

/-- The same where an expression may be missing. -/
inductive MaybeDerivesTerm : List Token → Option Term → Prop
  | none : MaybeDerivesTerm [] none
  | some {ts : List Token} {t : Term} :
    DerivesTerm .assignment ts t → MaybeDerivesTerm ts (some t)

end Lox
