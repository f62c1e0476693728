import Lox.Program.Statement
import Lox.Value.Printer

/-!
The dumps of programs.
-/

namespace Lox

namespace Ident

def dump (i : Ident) : String :=
  Dump.record "Ident"
    [("name", Quoted.string i.name), ("span", Dump.span i.span), ("line", Dump.nat i.line)]

end Ident

namespace Atom

def dump : Atom → String
  | .number x => Dump.applied "Number" [Dump.number x]
  | .bool b => Dump.applied "Bool" [Dump.bool b]
  | .nil => "Nil"
  | .identifier name => Dump.applied "Identifier" [name.dump]
  | .string s => Dump.applied "StringLiteral" [Quoted.string s]

end Atom

namespace Node

def refDump (ref : NodeRef) : String :=
  Dump.applied "ExpressionNodeRef" [Dump.nat ref]

def dump : Node → String
  | .atom content line =>
    Dump.applied "Atom"
      [Dump.record "ExpressionAtom" [("kind", content.dump), ("line", Dump.nat line)]]
  | .group inner => Dump.record "Group" [("inner", refDump inner)]
  | .unary op rhs line =>
    Dump.record "Prefix" [("operator", op.dump), ("rhs", refDump rhs), ("line", Dump.nat line)]
  | .binary op lhs rhs line =>
    Dump.record "Infix"
      [("operator", op.dump), ("lhs", refDump lhs), ("rhs", refDump rhs), ("line", Dump.nat line)]
  | .assign target rhs =>
    Dump.record "InfixAssignment" [("lhs", target.dump), ("rhs", refDump rhs)]
  | .logical op lhs rhs line =>
    Dump.record "InfixShortCircuit"
      [("operator", op.dump), ("lhs", refDump lhs), ("rhs", refDump rhs), ("line", Dump.nat line)]
  | .call callee arguments line =>
    Dump.record "Call"
      [("callee", refDump callee), ("arguments", Dump.list (arguments.map refDump)),
        ("line", Dump.nat line)]
  | .read line => Dump.record "Read" [("line", Dump.nat line)]
  | .rand line => Dump.record "Rand" [("line", Dump.nat line)]
  | .floor argument line =>
    Dump.record "Floor" [("argument", refDump argument), ("line", Dump.nat line)]
  | .substring subject start stop line =>
    Dump.record "Substring"
      [("subject", refDump subject), ("start", refDump start), ("end", refDump stop),
        ("line", Dump.nat line)]
  | .value content line =>
    Dump.record "Dynamic" [("value", content.dump), ("line", Dump.nat line)]

end Node

namespace Expression

def dump (e : Expression) : String :=
  Dump.record "Expression"
    [("nodes", Dump.list (e.nodes.toList.map Node.dump)), ("root", Node.refDump e.root)]

end Expression

namespace Statement

mutual

def dump : Statement → String
  | .declareVar name initial =>
    Dump.applied "VariableDecl"
      [Dump.record "VariableDecl"
        [("name", name.dump), ("initial", Dump.option (initial.map Expression.dump))]]
  | .declareFun name parameters body =>
    Dump.applied "FunctionDecl"
      [Dump.record "FunctionDecl"
        [("name", name.dump), ("parameters", Dump.list (parameters.map Ident.dump)),
          ("body", Dump.list (dumps body))]]
  | .expression value => Dump.applied "Expression" [value.dump]
  | .print value => Dump.applied "Print" [value.dump]
  | .block body => Dump.applied "Block" [Dump.list (dumps body)]
  | .branch condition success none =>
    Dump.record "If"
      [("condition", condition.dump), ("success", dump success), ("failure", Dump.option none)]
  | .branch condition success (some failure) =>
    Dump.record "If"
      [("condition", condition.dump), ("success", dump success),
        ("failure", Dump.option (some (dump failure)))]
  | .whileLoop condition body =>
    Dump.record "While" [("condition", condition.dump), ("body", dump body)]
  | .returnFrom line value =>
    Dump.record "Return"
      [("line", Dump.nat line), ("value", Dump.option (value.map Expression.dump))]
  | .stringLoop name iterable body =>
    Dump.record "StringLoop"
      [("name", name.dump), ("iterable", iterable.dump), ("body", dump body)]

def dumps : List Statement → List String
  | [] => []
  | s :: rest => dump s :: dumps rest

end

end Statement

end Lox
