import Lox.Evaluation.Clock
import Lox.Evaluation.Console
import Lox.Evaluation.Rand
import Lox.Evaluation.Scope
import Lox.Program.Statement
import Lox.Value.Fault

/-!
The state of a running program, and its steps. A step that stops keeps the state it reached: what
was written stays written, and what was assigned stays assigned.
-/

namespace Lox

/-- The state of a running program whose functions have bodies of the given form. -/
structure Machine (Body : Type) where
  scopes : Scopes
  /-- The code of each function object, at its number. -/
  codes : Array (Code Body)
  /-- How many calls of functions are under way. -/
  calls : Nat
  rand : Fin 12
  console : Console
  /-- The clock, which knows how often it has been read. -/
  now : Clock
deriving Inhabited

/-- The state of a running program. -/
abbrev State :=
  Machine (List Statement)

/-- The number of the outermost scope. -/
def globalScope : Nat :=
  0

/-- The most calls that can be under way at once. -/
def maxCalls : Nat :=
  4096

namespace State

/-- The state before the first program: the globals hold the clock. -/
def fresh (now : Clock) (console : Console) : State :=
  ⟨#[⟨none, [(Native.clock.name, .native ⟨.clock, 0⟩)]⟩], #[], 0, Rand.first, console, now⟩

end State

/-- What no program that was read from a text can run into. -/
inductive Defect
  | missingNode (ref : NodeRef)
  | missingCode (number : Nat)
  | strayReturn
deriving DecidableEq, Inhabited

/-- Why a run stops early. -/
inductive Stop
  | error (e : RuntimeError)
  | outOfFuel
  | defect (d : Defect)
deriving DecidableEq, Inhabited

/-- A step of a run of a program whose functions have bodies of the given form. -/
abbrev ExecOf (Body : Type) := EStateM Stop (Machine Body)

/-- A step of a run. -/
abbrev Exec := ExecOf (List Statement)

namespace Exec

variable {Body : Type}

/-- Stops with a fault on a line. -/
def fault {α : Type} (line : Nat) (f : Fault) : ExecOf Body α :=
  throw (.error ⟨f, line⟩)

/-- The result of an operation, whose fault is on the given line. -/
def ofExcept {α : Type} (line : Nat) : Except Fault α → ExecOf Body α
  | .ok a => pure a
  | .error f => fault line f

/-- What a name means in a scope. -/
def lookup (scope : Nat) (name : String) (line : Nat) : ExecOf Body Value := fun s =>
  match s.scopes.get? scope name with
  | some value => .ok value s
  | none => .error (.error ⟨.undefined name, line⟩) s

/-- Binds a name in a scope. -/
def declare (scope : Nat) (name : String) (value : Value) : ExecOf Body Unit :=
  modify fun s => { s with scopes := s.scopes.declare scope name value }

/-- Changes the nearest binding of a name. -/
def assign (scope : Nat) (name : String) (value : Value) (line : Nat) : ExecOf Body Unit := fun s =>
  match s.scopes.find? scope name with
  | some (holder, _) => .ok () { s with scopes := s.scopes.declare holder name value }
  | none => .error (.error ⟨.undefined name, line⟩) s

/-- Opens a scope inside another one and yields its number. -/
def openScope (parent : Nat) (bindings : Bindings) : ExecOf Body Nat :=
  modifyGet fun s =>
    let (scope, scopes) := s.scopes.opened (some parent) bindings
    (scope, { s with scopes })

/-- Makes a function object. -/
def makeFunction (code : Code Body) (scope : Nat) : ExecOf Body Value :=
  modifyGet fun s =>
    (.function ⟨code.name.name, code.parameters.length, s.codes.size, scope⟩,
      { s with codes := s.codes.push code })

def print (text : String) : ExecOf Body Unit :=
  modify fun s => { s with console := s.console.writeLine text }

def read : ExecOf Body Value :=
  modifyGet fun s =>
    let (line, console) := s.console.read
    (.string line, { s with console })

def rand : ExecOf Body Value :=
  modifyGet fun s => (.number (Rand.number s.rand), { s with rand := Rand.next s.rand })

/-- The time at which a built-in function is applied. Only one of them reads the clock. -/
def time : Native → ExecOf Body Float
  | .clock => modifyGet fun s => (s.now.time, { s with now := s.now.next })
  | _ => return (← get).now.time

/-- Runs the body of a function as one more call. The count goes back on both ways out. -/
def nested {α : Type} (body : ExecOf Body α) : ExecOf Body α := fun s =>
  match body { s with calls := s.calls + 1 } with
  | .ok a t => .ok a { t with calls := t.calls - 1 }
  | .error e t => .error e { t with calls := t.calls - 1 }

end Exec

end Lox
