import CommandShell.Text.Cut

/-! Paths as text. Joining and normalising never look at the files. -/
namespace CommandShell.Path

def isAbsolute (path : String) : Bool :=
  path.toList.head? == some '/'

def pieces (path : String) : List String :=
  Text.cutText '/' path

def components (path : String) : List String :=
  (pieces path).filter (· ≠ "")

def join (base path : String) : String :=
  if isAbsolute path then path
  else if base = "" || base.toList.getLast? == some '/' then base ++ path
  else base ++ "/" ++ path

/-- Exactly two leading slashes are kept, more count as one. -/
def leadingSlashes (path : String) : Nat :=
  match path.toList with
  | '/' :: '/' :: '/' :: _ => 1
  | '/' :: '/' :: _ => 2
  | '/' :: _ => 1
  | _ => 0

/-- One piece on the stack of names, newest first: the parent piece takes the name on
top away, unless there is none to take. -/
def pushPiece (rooted : Bool) (stack : List String) (piece : String) : List String :=
  if piece = "" || piece = "." then stack
  else if piece = ".." then
    match stack with
    | [] => if rooted then [] else [piece]
    | top :: below => if top = ".." then piece :: stack else below
  else piece :: stack

def slashes (count : Nat) : String :=
  String.ofList (List.replicate count '/')

def ofNames (leading : Nat) (names : List String) : String :=
  let text := slashes leading ++ "/".intercalate names
  if text = "" then "." else text

@[irreducible] def normalize (path : String) : String :=
  let leading := leadingSlashes path
  ofNames leading ((pieces path).foldl (pushPiece (0 < leading)) []).reverse

@[irreducible] def splitLast (path : String) : String × String :=
  let reversed := path.toList.reverse
  let tail := (reversed.takeWhile (· ≠ '/')).reverse
  let head := reversed.dropWhile (· ≠ '/')
  let trimmed := head.dropWhile (· = '/')
  let kept := if trimmed = [] then head else trimmed
  (String.ofList kept.reverse, String.ofList tail)

def parent (path : String) : String :=
  (splitLast path).1

def hasNul (path : String) : Bool :=
  path.toList.contains '\x00'

end CommandShell.Path
