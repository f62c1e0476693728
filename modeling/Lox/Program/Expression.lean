import Lox.Program.Operator
import Lox.Text.Span

/-!
Expressions. The nodes of an expression lie in one array, and a node refers to its operands by their
places in it. A node that has been read is pushed after its operands.
-/

namespace Lox

/-- A name with the place where it is written. -/
structure Ident where
  name : String
  span : Span
  line : Nat
deriving DecidableEq, Inhabited

/-- The place of a node in the array. -/
abbrev NodeRef := Nat

/-- Expressions without operands that are written out. -/
inductive Atom
  | number (x : Float)
  | bool (b : Bool)
  | nil
  | identifier (name : Ident)
  | string (s : String)
deriving DecidableEq, Inhabited

/-- One node. Its line is that of its literal, operator or keyword, and for a call that of the closing
parenthesis. -/
inductive Node
  | atom (atom : Atom) (line : Nat)
  | group (inner : NodeRef)
  | unary (op : UnaryOp) (rhs : NodeRef) (line : Nat)
  | binary (op : BinaryOp) (lhs rhs : NodeRef) (line : Nat)
  | assign (target : Ident) (rhs : NodeRef)
  | logical (op : LogicalOp) (lhs rhs : NodeRef) (line : Nat)
  | call (callee : NodeRef) (arguments : List NodeRef) (line : Nat)
  | read (line : Nat)
  | rand (line : Nat)
  | floor (argument : NodeRef) (line : Nat)
  | substring (subject start stop : NodeRef) (line : Nat)
  /-- A value that was put into the tree, not read from a text. -/
  | value (value : Value) (line : Nat)
deriving DecidableEq, Inhabited

structure Expression where
  nodes : Array Node
  root : NodeRef
deriving DecidableEq, Inhabited

namespace Node

/-- The name that an assignment to this node would set. -/
def target? : Node → Option Ident
  | .atom (.identifier name) _ => some name
  | _ => none

/-- The places of the operands, in the order in which they are written. -/
def operands : Node → List NodeRef
  | .atom _ _ | .read _ | .rand _ | .value _ _ => []
  | .group inner => [inner]
  | .unary _ rhs _ | .assign _ rhs => [rhs]
  | .binary _ lhs rhs _ | .logical _ lhs rhs _ => [lhs, rhs]
  | .call callee arguments _ => callee :: arguments
  | .floor argument _ => [argument]
  | .substring subject start stop _ => [subject, start, stop]

end Node

namespace Expression

/-- An expression from its nodes, if the root is one of them. -/
def of? (nodes : Array Node) (root : NodeRef) : Option Expression :=
  if root < nodes.size then some ⟨nodes, root⟩ else none

/-- An expression of one node. -/
def single (node : Node) : Expression :=
  ⟨#[node], 0⟩

/-- The line of a node; a group has that of the node it groups, found within `depth` groups. -/
def lineWithin (nodes : Array Node) : Nat → NodeRef → Option Nat
  | 0, _ => none
  | depth + 1, ref =>
    match nodes[ref]? with
    | none => none
    | some (.group inner) => lineWithin nodes depth inner
    | some (.assign target _) => some target.line
    | some (.atom _ line) | some (.unary _ _ line) | some (.binary _ _ _ line)
    | some (.logical _ _ _ line) | some (.call _ _ line) | some (.read line) | some (.rand line)
    | some (.floor _ line) | some (.substring _ _ _ line) | some (.value _ line) => some line

/-- The line of a node. -/
def lineOf? (e : Expression) (ref : NodeRef) : Option Nat :=
  lineWithin e.nodes e.nodes.size ref

end Expression

end Lox
