import Lox.Program.Expression

/-!
Statements and declarations. There is no `for`: it is read as a block with a `while` loop.
-/

namespace Lox

inductive Statement
  | declareVar (name : Ident) (initial : Option Expression)
  | declareFun (name : Ident) (parameters : List Ident) (body : List Statement)
  | expression (value : Expression)
  | print (value : Expression)
  | block (body : List Statement)
  | branch (condition : Expression) (success : Statement) (failure : Option Statement)
  | whileLoop (condition : Expression) (body : Statement)
  | returnFrom (line : Nat) (value : Option Expression)
  /-- Runs the body once for each character of a string. -/
  | stringLoop (name : Ident) (iterable : Expression) (body : Statement)
deriving Inhabited

/-- What a function object runs when it is called, in one of the forms that a body can have. -/
structure Code (Body : Type) where
  name : Ident
  parameters : List Ident
  body : Body
deriving Inhabited

end Lox
