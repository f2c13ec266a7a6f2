import LegacyImage.Error

/-!
Calls to the file system, each about a path as it is written. A step up leads from wherever one has
come to, so that all that is on the way must be there. A path that cannot be handed over, or is too
long, is refused as a whole, and a name that is too long where it is met. The working directory is the
top of the tree, so that all paths start there, and what is above the top is the top.

A directory is made with all that are missing around it by one call after the other, and those that
were made stay when a later call fails.
-/

namespace LegacyImage

namespace Path

/-- The name that stands for a step up. -/
def up : Text := [↑ '.', ↑ '.']

def maxNameLength : Nat := 255

def maxLength : Nat := 4095

/-- The most directories that are missing around each other and still made: what the recursion limit
leaves for that in a fresh call stack. -/
def maxMissing : Nat := 992

/-- Whether a code point stands for a byte that is no text by itself. -/
def standsForByte (c : CodePoint) : Bool := 0xDC80 ≤ c.val && c.val < 0xDD00

def byteCount : Text → Nat
  | [] => 0
  | c :: rest => (if standsForByte c then 1 else (Utf8.encodeOne c).length) + byteCount rest

def isTooLong (name : Text) : Bool := maxNameLength < byteCount name

/-- The first surrogates that stand for no bytes, if there are any. -/
def encodeError? (t : Text) : Option Utf8.EncodeError :=
  match t.dropWhile fun c => !c.isSurrogate || standsForByte c with
  | [] => none
  | rest => some ⟨t.length - rest.length, rest.takeWhile (·.isSurrogate)⟩

/-- Why a path is refused before it is followed. -/
def fault? (path : Path) : Option Error :=
  match encodeError? path.toText with
  | some cause => some (.notEncodable cause)
  | none =>
    if path.toText.any (·.val = 0) then some .zeroInPath
    else if maxLength < byteCount path.toText then some (.obstacle .nameTooLong path)
    else none

end Path

namespace Tree

/-- The place that some names lead to from the directory `here`, in names without steps up. All but
the last must lead to a directory that is there. -/
def locate (here : List Text) (t : Tree) : List Text → Except Obstacle (List Text)
  | [] => .ok here
  | name :: rest =>
    if name = Path.up then locate here.dropLast t rest
    else if Path.isTooLong name then .error .nameTooLong
    else if rest = [] then .ok (here ++ [name])
    else match find (here ++ [name]) t with
      | .error o => .error o
      | .ok (.file _) => .error .notADirectory
      | .ok (.directory _) => locate (here ++ [name]) t rest

/-- A call about a path, by what it does at the place: what stands in the way is told of the path. -/
def call {α : Type} (path : Path) (act : List Text → Tree → Except Obstacle α) (t : Tree) :
    Except Error α :=
  match path.fault? with
  | some e => .error e
  | none =>
    match locate [] t path.names with
    | .error o => .error (.obstacle o path)
    | .ok place =>
      match act place t with
      | .error o => .error (.obstacle o path)
      | .ok result => .ok result

/-- The place of a file that can be read. -/
def openAt (path : Path) : Tree → Except Error (List Text) :=
  call path fun place t =>
    match content place t with
    | .error o => .error o
    | .ok _ => .ok place

def isDirectoryAt (path : Path) (t : Tree) : Bool :=
  match call path find t with
  | .ok (.directory _) => true
  | _ => false

/-- What making a directory comes to if it may be there already. -/
def unlessThere (path : Path) (t : Tree) : Except Error Tree → Except Error Unit × Tree
  | .ok made => (.ok (), made)
  | .error e => if isDirectoryAt path t then (.ok (), t) else (.error e, t)

/-- Makes the directory to which some names lead, the last name first. If something is missing on the
way, the directory around it is made first, in the same manner, as long as there is room to recur, and
then there is one more try. -/
def makeInTurn (start : PathStart) (room : Nat) : List Text → Tree → Except Error Unit × Tree
  | [], t => unlessThere ⟨start, []⟩ t (call ⟨start, []⟩ makeDirectory t)
  | name :: around, t =>
    let path : Path := ⟨start, (name :: around).reverse⟩
    match call path makeDirectory t with
    | .error (.obstacle .missing _) =>
      match room with
      | 0 => (.error .tooDeep, t)
      | room + 1 =>
        match makeInTurn start room around t with
        | (.error e, t) => (.error e, t)
        | (.ok (), t) => unlessThere path t (call path makeDirectory t)
    | made => unlessThere path t made
termination_by structural names => names

/-- Makes the directory at a path, and those around it as far as they are missing. -/
def makeWay (path : Path) (t : Tree) : Except Error Unit × Tree :=
  makeInTurn path.start Path.maxMissing path.names.reverse t

/-- Writes the file at a path, in a directory that is made if it is missing. -/
def writeAt (path : Path) (content : Bytes) (t : Tree) : Except Error Unit × Tree :=
  match makeWay path.parent t with
  | (.error e, t) => (.error e, t)
  | (.ok (), t) =>
    match call path (writeFile content) t with
    | .error e => (.error e, t)
    | .ok t => (.ok (), t)

end Tree

end LegacyImage
