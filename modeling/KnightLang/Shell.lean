import KnightLang.Shell.Script
import KnightLang.Text.Quoted

/-!
Shells. A prepared shell answers from a table; the system's shell is found by its name and runs
scripts. What happens in the system's shell is a stand-in for a program outside, as far as its
language is needed: nothing is promised about it but that it gives an output or a failure.
-/

namespace KnightLang

/-- A runner of commands. -/
inductive Shell where
  /-- Answers commands from two tables, failures first, and repeats a command in neither. -/
  | prepared (outputs failures : List (Bytes × Bytes))
  /-- A stand-in for the system's shell with the given name; an empty name means `sh`. -/
  | system (name : Bytes)
  deriving DecidableEq, Repr

namespace Shell

/-- Why a program cannot be started. -/
inductive StartProblem where
  | unknown
  | isDirectory
  /-- A problem with the path of the program, or with what it is to run. -/
  | path (place : Bytes) (problem : FileProblem)
  | commandTooLong (place : Bytes)
  deriving DecidableEq, Repr

def StartProblem.message (name : Bytes) : StartProblem → Bytes
  | .unknown => "exec: " ++ Quoted.text name ++ ": executable file not found in $PATH"
  | .isDirectory => "exec: " ++ Quoted.text name ++ ": is a directory"
  | .path place problem => "fork/exec " ++ place ++ ": " ++ problem.message
  | .commandTooLong place => "fork/exec " ++ place ++ ": argument list too long"

/-- The length that a command has to stay below. -/
def commandLimit : Nat := 131072

/-- Finds the program with a name. A name with a slash is a path; the root directory is looked for
like a name without one. -/
def find (files : FileTree) (name command : Bytes) : Except StartProblem Program :=
  let checked := fun (path : Bytes) (program : Program) =>
    if command.contains 0 then .error (.path path .invalid)
    else if commandLimit ≤ command.length then .error (.commandTooLong path)
    else .ok program
  if name == ([47] : Bytes) then .error .isDirectory
  else if name.contains 47 then
    match files.locate name with
    | .error problem => .error (.path name problem)
    | .ok found =>
      match Program.at? found, files.entry? found with
      | some program, _ => checked name program
      | none, some _ => .error (.path name .denied)
      | none, none => .error (.path name .missing)
  else
    match Program.all.lookup name with
    | some program => checked (Program.foundPath name) program
    | none => .error .unknown

/-- What a program does that is asked to run a command. -/
def Program.answer (program : Program) (command : Bytes) : Script Unit :=
  let arguments : List Bytes := ["-c", command]
  match program with
  | .shell _ => Script.runToEnd arguments
  | program => program.run arguments

def Program.dialect : Program → Dialect
  | .shell dialect => dialect
  | _ => .minimal

/-- The answer to a command: its output or the failure to run it, whether the run is put on
record, what it wrote to its standard error, and the files after it. -/
structure Answer where
  result : Except Bytes Bytes
  isRecorded : Bool := false
  errors : Bytes := []
  files : FileTree

def answer (shell : Shell) (home : Option Bytes) (files : FileTree) (command : Bytes) : Answer :=
  match shell with
  | .prepared outputs failures =>
    match failures.lookup command with
    | some text => { result := .error text, isRecorded := true, files }
    | none =>
      { result := .ok ((outputs.lookup command).getD command), isRecorded := true, files }
  | .system given =>
    let name : Bytes := if given.isEmpty then "sh" else given
    match find files name command with
    | .error problem => { result := .error (problem.message name), files }
    | .ok program =>
      let state := Script.start name program.dialect home files
      let ending := Script.ending state (program.answer command)
      { result := .ok ending.output, errors := ending.errors, files := ending.files }

end Shell

end KnightLang
