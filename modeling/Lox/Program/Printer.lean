import Lox.Program.Statement
import Lox.Value.Printer

/-!
Programs as nested lists in parentheses, each headed by its operator or keyword.
-/

namespace Lox

namespace Atom

def listing : Atom → String
  | .number x => Layout.literal.text x
  | .bool b => Dump.bool b
  | .nil => "nil"
  | .identifier name => name.name
  | .string s => "\"" ++ s ++ "\""

end Atom

namespace Listing

/-- The parts in parentheses, with a space between them. -/
def form (parts : List String) : String :=
  "(" ++ " ".intercalate parts ++ ")"

end Listing

namespace Expression

/-- The listing of a node, down to a depth. What is deeper, or no node, has an empty listing. -/
def listingWithin (nodes : Array Node) : Nat → NodeRef → String
  | 0, _ => ""
  | depth + 1, ref =>
    let sub := listingWithin nodes depth
    match nodes[ref]? with
    | none => ""
    | some (.atom atom _) => atom.listing
    | some (.group inner) => Listing.form ["group", sub inner]
    | some (.unary op rhs _) => Listing.form [op.symbol, sub rhs]
    | some (.binary op lhs rhs _) => Listing.form [op.symbol, sub lhs, sub rhs]
    | some (.assign target rhs) => Listing.form ["=", target.name, sub rhs]
    | some (.logical op lhs rhs _) => Listing.form [op.symbol, sub lhs, sub rhs]
    | some (.call callee arguments _) => Listing.form ("call" :: sub callee :: arguments.map sub)
    | some (.read _) => "(read)"
    | some (.rand _) => "(rand)"
    | some (.floor argument _) => Listing.form ["floor", sub argument]
    | some (.substring subject start stop _) =>
      Listing.form ["substring", sub subject, sub start, sub stop]
    | some (.value value _) => Listing.form ["dynamic", value.text]

/-- The listing of an expression. No branch of a tree is longer than the number of its nodes. -/
def listing (e : Expression) : String :=
  listingWithin e.nodes e.nodes.size e.root

end Expression

namespace Statement

mutual

def listing : Statement → String
  | .declareVar name none => Listing.form ["var", name.name]
  | .declareVar name (some initial) => Listing.form ["var", name.name, initial.listing]
  | .declareFun name parameters body =>
    Listing.form ("fun" :: name.name :: Listing.form (parameters.map (·.name)) :: listings body)
  | .expression value => Listing.form [";", value.listing]
  | .print value => Listing.form ["print", value.listing]
  | .block body => Listing.form ("block" :: listings body)
  | .branch condition success none => Listing.form ["if", condition.listing, listing success]
  | .branch condition success (some failure) =>
    Listing.form ["if", condition.listing, listing success, listing failure]
  | .whileLoop condition body => Listing.form ["while", condition.listing, listing body]
  | .returnFrom _ none => "(return)"
  | .returnFrom _ (some value) => Listing.form ["return", value.listing]
  | .stringLoop name iterable body =>
    Listing.form ["loop", name.name, iterable.listing, listing body]

def listings : List Statement → List String
  | [] => []
  | s :: rest => listing s :: listings rest

end

end Statement

end Lox
