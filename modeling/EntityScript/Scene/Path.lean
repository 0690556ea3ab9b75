/-!
Paths of files, with slashes between their parts.
-/

namespace EntityScript.Scene

/-- The parts of a path. Empty parts, and those that stay where they are, do not count. -/
def pathParts (path : String) : List String :=
  (path.splitOn "/").filter fun part => part ≠ "" && part ≠ "."

/-- Whether a path begins at the root. -/
def isAbsolute (path : String) : Bool := path.toList.head? = some '/'

/-- The path of a file that is given relative to a directory. -/
def joinPath (base path : String) : String :=
  if isAbsolute path || base = "" then path else base ++ "/" ++ path

/-- The directory of a file. -/
def parentPath (path : String) : String :=
  (if isAbsolute path then "/" else "") ++ "/".intercalate (pathParts path).dropLast

/-- The name of a file without its last extension; a point in front begins no extension. -/
def fileStem (path : String) : String :=
  let name := ((pathParts path).getLast?.getD "").toList
  let stem := (name.reverse.dropWhile (· ≠ '.')).drop 1
  if stem.isEmpty then String.ofList name else String.ofList stem.reverse

end EntityScript.Scene
