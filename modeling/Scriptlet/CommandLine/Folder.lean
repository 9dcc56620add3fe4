import Scriptlet.Bindings

/-! # Folders

A folder that holds nothing but files, and the paths that start in it. A path is a sequence of
steps. Empty steps and steps to the folder itself lead nowhere else; nothing is known of what lies
outside the folder except that it is made of folders.
-/

namespace Scriptlet.CommandLine

/-- Why a path does not lead to a script. -/
inductive Unreadable where
  | missing
  | folder
  /-- The path goes on behind a file. -/
  | throughFile
  | notText

/-- The files of a folder by their names. -/
abbrev Folder := Bindings ByteArray

namespace Folder

/-- The parts of a path between its slashes. -/
def steps : List Char → List (List Char)
  | [] => [[]]
  | '/' :: cs => [] :: steps cs
  | c :: cs =>
    match steps cs with
    | [] => [[c]]
    | step :: later => (c :: step) :: later

/-- Whether a step of a path stays where it is. -/
def isIdle (step : List Char) : Bool := step = [] || step = ['.']

/-- The content of the file that steps from a folder lead to. A step to the parent leaves all files
behind. -/
def follow (f : Folder) : List (List Char) → Except Unreadable ByteArray
  | [] => .error .folder
  | step :: later =>
    if isIdle step then follow f later
    else if step = ['.', '.'] then follow [] later
    else
      match f.get? (.ofList step), later with
      | none, _ => .error .missing
      | some content, [] => .ok content
      | some _, _ => .error .throughFile

/-- The content of the file that a path leads to. A path that starts with a slash starts outside
the folder, and the empty path leads nowhere. -/
def read (f : Folder) (path : String) : Except Unreadable ByteArray :=
  match path.toList with
  | [] => .error .missing
  | '/' :: cs => follow [] (steps cs)
  | cs => follow f (steps cs)

end Folder

end Scriptlet.CommandLine
