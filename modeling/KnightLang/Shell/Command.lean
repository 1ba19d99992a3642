import KnightLang.Bytes

/-!
The commands of shell scripts and the words they are made of.
-/

namespace KnightLang.Shell

/-- How a file is opened for a channel. -/
inductive Access where
  | read
  | write
  /-- Writes over a file even if files are to be kept. -/
  | replace
  | append
  | readWrite
  deriving DecidableEq, Repr

/-- What happens with the other word of a parameter, for one that is not set or is set. -/
inductive Alternative where
  /-- Takes the place of a parameter that is not set. -/
  | default
  /-- Becomes the value of a parameter that is not set. -/
  | assign
  /-- Ends the script if the parameter is not set. -/
  | complain
  /-- Takes the place of a parameter that is set. -/
  | instead
  deriving DecidableEq, Repr

mutual

/-- A part of a word. -/
inductive Part where
  /-- Text that stands without quotes. -/
  | text (bytes : Bytes)
  | quoted (bytes : Bytes)
  | parameter (name : Bytes) (form : Form) (inQuotes : Bool)
  /-- The output of a command. -/
  | output (body : Command) (inQuotes : Bool)
  /-- The value of an arithmetic expression. -/
  | arithmetic (expression : List Part) (inQuotes : Bool)

/-- What is made of the value of a parameter. -/
inductive Form where
  | plain
  | length
  /-- Depends on whether the parameter is set, or also on whether it is empty. -/
  | alternative (alsoEmpty : Bool) (kind : Alternative) (word : List Part)
  /-- The value without what a pattern matches at its front or end, as little or as much of it as
  possible. -/
  | trimmed (atEnd longest : Bool) (pattern : List Part)
  | malformed

/-- Connects a channel to something else while a command runs. -/
inductive Redirection where
  | file (channel : Nat) (access : Access) (path : List Part)
  /-- Makes a channel the same as another one. -/
  | copy (channel : Nat) (source : List Part)
  /-- Lets a channel read the document with the given number. -/
  | document (channel : Nat) (number : Nat)

/-- A command, with the line where it starts if that shows in its messages. -/
inductive Command where
  | nothing
  | simple (line : Nat) (assignments : List (Bytes × List Part)) (words : List (List Part))
      (redirections : List Redirection)
  | redirected (line : Nat) (body : Command) (redirections : List Redirection)
  /-- Runs with a copy of the state. -/
  | separate (body : Command)
  | background (body : Command)
  | pipeline (stages : List Command)
  | inverted (body : Command)
  | sequence (first second : Command)
  | both (first second : Command)
  | either (first second : Command)
  | choice (condition yes no : Command)
  /-- Repeats a body as long as its condition succeeds, or as long as it fails. -/
  | loop (whileFailing : Bool) (condition body : Command)
  | each (line : Nat) (name : Bytes) (words : List (List Part)) (body : Command)
  | select (line : Nat) (word : List Part) (arms : List (List (List Part) × Command))
  | define (name : Bytes) (body : Command)

end

abbrev Word := List Part

/-- The text of a word without quotes and parameters. -/
def bareText? : Word → Option Bytes
  | [.text bytes] => some bytes
  | _ => none

def isQuotedWord (word : Word) : Bool := word.any (· matches .quoted _)

end KnightLang.Shell
