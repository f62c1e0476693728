/-!
What a running program writes and reads. Input comes in lines, which keep their newline until they
are read; a line of bytes that are no text is passed like any other and reads as empty.
-/

namespace Lox

/-- A line of input with its newline, if it has one. -/
inductive InputLine
  | text (line : String)
  | unreadable
deriving DecidableEq, Inhabited

namespace InputLine

/-- Takes a newline off the end, and a carriage return before it. -/
def stripped (line : List Char) : List Char :=
  match line.reverse with
  | '\n' :: '\r' :: rest => rest.reverse
  | '\n' :: rest => rest.reverse
  | _ => line

/-- What reading the line yields. -/
def content : InputLine → String
  | .text line => String.ofList (stripped line.toList)
  | .unreadable => ""

/-- Cuts bytes after each newline; `line` holds the bytes since the last one, in reverse. -/
def cutBytes (line : List UInt8) : List UInt8 → List (List UInt8)
  | [] => if line.isEmpty then [] else [line.reverse]
  | b :: rest =>
    if b = 10 then (b :: line).reverse :: cutBytes [] rest else cutBytes (b :: line) rest

/-- The text of a line of bytes, if they are UTF-8. -/
def ofLine (bytes : List UInt8) : InputLine :=
  match String.fromUTF8? (ByteArray.mk bytes.toArray) with
  | some line => .text line
  | none => .unreadable

/-- The lines of a stream of bytes. -/
def ofBytes (bytes : List UInt8) : List InputLine :=
  (cutBytes [] bytes).map ofLine

end InputLine

/-- Everything written so far, the lines not read yet, and what is written before each reading. -/
structure Console where
  written : String
  unread : List InputLine
  prompt : String
deriving DecidableEq, Inhabited

namespace Console

/-- What the command line shows before it reads a line for the program. -/
def inputPrompt : String :=
  "input required > "

/-- Writes a text as it is. -/
def write (c : Console) (text : String) : Console :=
  { c with written := c.written ++ text }

/-- Writes a line. -/
def writeLine (c : Console) (text : String) : Console :=
  { c with written := c.written ++ text ++ "\n" }

/-- Takes the next line of input, if there is one. -/
def next (c : Console) : Option InputLine × Console :=
  match c.unread with
  | [] => (none, c)
  | line :: rest => (some line, { c with unread := rest })

/-- Shows the prompt and reads a line; at the end of the input every line is empty. -/
def read (c : Console) : String × Console :=
  let (line, c) := (c.write c.prompt).next
  (((line.map InputLine.content).getD ""), c)

end Console

end Lox
