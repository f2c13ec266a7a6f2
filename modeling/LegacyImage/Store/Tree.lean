import LegacyImage.Store.Path
import LegacyImage.Table
import LegacyImage.Text.Quoted

/-!
A tree of files and directories, and what happens to it. Every operation takes the names on the way
from the top; one that fails leaves the tree as it was.
-/

namespace LegacyImage

/-- A file with its content, or a directory with its entries. -/
inductive Tree
  | file (content : Bytes)
  | directory (entries : List (Text × Tree))

namespace Tree

/-- What stands in the way. -/
inductive Obstacle
  | missing
  | exists
  | notADirectory
  | isADirectory
  | nameTooLong
deriving DecidableEq, Repr

/-- The number by which an obstacle is known, and its wording. -/
def Obstacle.describe : Obstacle → Nat × String
  | .missing => (2, "No such file or directory")
  | .exists => (17, "File exists")
  | .notADirectory => (20, "Not a directory")
  | .isADirectory => (21, "Is a directory")
  | .nameTooLong => (36, "File name too long")

def Obstacle.message (o : Obstacle) (path : Path) : Text :=
  Text.ofString "[Errno " ++ Text.ofNat o.describe.1 ++ Text.ofString "] " ++
    Text.ofString o.describe.2 ++ Text.ofString ": " ++ path.toText.quoted

/-- No file and no directory but the top itself. -/
def empty : Tree := .directory []

def find : List Text → Tree → Except Obstacle Tree
  | [], t => .ok t
  | _ :: _, .file _ => .error .notADirectory
  | name :: rest, .directory entries =>
    match Table.get? entries name with
    | none => .error .missing
    | some t => find rest t

def content (names : List Text) (t : Tree) : Except Obstacle Bytes :=
  match find names t with
  | .error o => .error o
  | .ok (.file content) => .ok content
  | .ok (.directory _) => .error .isADirectory

/-- Makes one directory, in a directory that is there. -/
def makeDirectory : List Text → Tree → Except Obstacle Tree
  | [], _ => .error .exists
  | _ :: _, .file _ => .error .notADirectory
  | [name], .directory entries =>
    match Table.get? entries name with
    | none => .ok (.directory (Table.set name empty entries))
    | some _ => .error .exists
  | name :: next :: rest, .directory entries =>
    match Table.get? entries name with
    | none => .error .missing
    | some t =>
      match makeDirectory (next :: rest) t with
      | .error o => .error o
      | .ok t => .ok (.directory (Table.set name t entries))

/-- Writes a file into a directory that is there. -/
def writeFile (content : Bytes) : List Text → Tree → Except Obstacle Tree
  | [], .directory _ => .error .isADirectory
  | [], .file _ => .ok (.file content)
  | _ :: _, .file _ => .error .notADirectory
  | [name], .directory entries =>
    match Table.get? entries name with
    | some (.directory _) => .error .isADirectory
    | _ => .ok (.directory (Table.set name (.file content) entries))
  | name :: next :: rest, .directory entries =>
    match Table.get? entries name with
    | none => .error .missing
    | some t =>
      match writeFile content (next :: rest) t with
      | .error o => .error o
      | .ok t => .ok (.directory (Table.set name t entries))

mutual

def files (above : List Text) : Tree → List (List Text × Nat)
  | .file content => [(above, content.length)]
  | .directory entries => filesOf above entries

def filesOf (above : List Text) : List (Text × Tree) → List (List Text × Nat)
  | [] => []
  | (name, t) :: rest => files (above ++ [name]) t ++ filesOf above rest

end

/-- The files in writing, in the order of their paths. -/
def listing (t : Tree) : List (Text × Nat) :=
  ((files [] t).map fun f => ((⟨.here, f.1⟩ : Path).toText, f.2)).mergeSort fun a b => a.1.le b.1

end Tree

end LegacyImage
