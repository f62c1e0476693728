import Lox.Value.Basic

/-!
Scopes. A scope binds names and lies inside an older one, its parent; scopes are numbered in the
order in which they are opened and are never removed, since a function may come back to its own. A
name means its nearest binding, from a scope outward.
-/

namespace Lox

/-- The bindings of one scope, each name once. -/
abbrev Bindings := List (String × Value)

namespace Bindings

/-- Binds a name anew, or changes its binding. -/
def set (name : String) (value : Value) : Bindings → Bindings
  | [] => [(name, value)]
  | (other, old) :: rest =>
    if other = name then (other, value) :: rest else (other, old) :: set name value rest

/-- The names bound. -/
def names (bs : Bindings) : List String :=
  bs.map (·.1)

/-- Binds names to values one after the other. -/
def ofLists : List String → List Value → Bindings → Bindings
  | name :: names, value :: values, bs => ofLists names values (set name value bs)
  | _, _, bs => bs

end Bindings

/-- One scope. Only the outermost ones have no parent. -/
structure Scope where
  parent : Option Nat
  bindings : Bindings
deriving DecidableEq, Inhabited

/-- All scopes opened so far, each at its number. -/
abbrev Scopes := Array Scope

namespace Scopes

/-- Looks outward from a scope, through at most `depth` scopes, for one that binds the name. -/
def findWithin (scopes : Scopes) (name : String) : Nat → Nat → Option (Nat × Value)
  | 0, _ => none
  | depth + 1, scope =>
    match scopes[scope]? with
    | none => none
    | some cell =>
      match cell.bindings.lookup name with
      | some value => some (scope, value)
      | none =>
        match cell.parent with
        | some parent => findWithin scopes name depth parent
        | none => none

/-- The nearest scope that binds a name, with its value. A parent has a smaller number, so the
number of a scope bounds the way outward. -/
def find? (scopes : Scopes) (scope : Nat) (name : String) : Option (Nat × Value) :=
  findWithin scopes name (scope + 1) scope

/-- The value that a name means in a scope. -/
def get? (scopes : Scopes) (scope : Nat) (name : String) : Option Value :=
  (find? scopes scope name).map (·.2)

/-- Binds a name in a scope. -/
def declare (scopes : Scopes) (scope : Nat) (name : String) (value : Value) : Scopes :=
  scopes.modify scope fun cell => { cell with bindings := Bindings.set name value cell.bindings }

/-- Changes the nearest binding of a name, if there is one. -/
def assign? (scopes : Scopes) (scope : Nat) (name : String) (value : Value) : Option Scopes :=
  match find? scopes scope name with
  | some (holder, _) => some (declare scopes holder name value)
  | none => none

/-- Opens a scope, which gets the next number. -/
def opened (scopes : Scopes) (parent : Option Nat) (bindings : Bindings) : Nat × Scopes :=
  (scopes.size, scopes.push ⟨parent, bindings⟩)

end Scopes

end Lox
