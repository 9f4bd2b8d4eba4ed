import Literate.Text.Lines
import Literate.Text.Utf8

/-!
# A directory of files

The files below one directory, each with its path from there. A path names a file, a directory, which
is one because files stand below it, or a place where there is nothing yet (`Files.resolve`). Reading
and writing fail with the words of the system (`FileError.message`).
-/

namespace Literate

/-- Why a file cannot be read or written. -/
inductive FileError where
  | notFound
  /-- Something on the way is a file. -/
  | notDirectory
  | isDirectory
  /-- The bytes are no text. -/
  | notText
deriving DecidableEq

def FileError.message : FileError → String
  | .notFound => "No such file or directory (os error 2)"
  | .notDirectory => "Not a directory (os error 20)"
  | .isDirectory => "Is a directory (os error 21)"
  | .notText => "stream did not contain valid UTF-8"

/-- The names on the way to a file. -/
abbrev Route := List String

/-- The files below a directory, by their routes. -/
structure Files where
  entries : List (Route × List UInt8)

/-- What a path names. -/
inductive Place where
  | file (route : Route) (bytes : List UInt8)
  | directory (route : Route)
  /-- Nothing, in a directory that is there. -/
  | vacant (route : Route)

namespace Files

def empty : Files := ⟨[]⟩

def bytes? (files : Files) (route : Route) : Option (List UInt8) :=
  files.entries.lookup route

/-- Whether a route is that of a directory: the top one, or one with files below it. -/
def isDirectory (files : Files) (route : Route) : Bool :=
  route.isEmpty || files.entries.any fun entry => route.isPrefixOf entry.1 && entry.1 != route

/-- What stands at a route whose last step led out of a directory. -/
def placeAt (files : Files) (route : Route) : Place :=
  match files.bytes? route with
  | some bytes => .file route bytes
  | none => if files.isDirectory route then .directory route else .vacant route

/-- Follows names from a directory. A dot stays where it is, two go up. -/
def follow (files : Files) (at_ : Route) : List String → Except FileError Place
  | [] => .ok (.directory at_)
  | name :: names =>
    if name = "." || name = "" then follow files at_ names
    else if name = ".." then follow files at_.dropLast names
    else
      match files.placeAt (at_ ++ [name]) with
      | .directory route => follow files route names
      | .file route bytes =>
        if names.isEmpty then .ok (.file route bytes) else .error .notDirectory
      | .vacant route => if names.isEmpty then .ok (.vacant route) else .error .notFound

def namesOf (path : String) : List String :=
  (Text.splitAt '/' path.toList).map String.ofList

/-- What a path names. Nothing stands outside of the directory. -/
def resolve (files : Files) (path : String) : Except FileError Place :=
  if path.isEmpty || path.startsWith "/" then .error .notFound else files.follow [] (namesOf path)

def readBytes (files : Files) (path : String) : Except FileError (List UInt8) := do
  match ← files.resolve path with
  | .file _ bytes => return bytes
  | .directory _ => throw .isDirectory
  | .vacant _ => throw .notFound

def read (files : Files) (path : String) : Except FileError String := do
  match Text.Utf8.decode? (← files.readBytes path) with
  | some cs => return String.ofList cs
  | none => throw .notText

/-- The files with other bytes at a route. -/
def put (files : Files) (route : Route) (bytes : List UInt8) : Files :=
  ⟨files.entries.filter (·.1 ≠ route) ++ [(route, bytes)]⟩

/-- The files that are new or have other bytes than before. -/
def changedSince (files before : Files) : List (Route × List UInt8) :=
  files.entries.filter fun entry => before.bytes? entry.1 != some entry.2

/-- The files with another text at a path. -/
def write (files : Files) (path : String) (text : String) : Except FileError Files := do
  match ← files.resolve path with
  | .file route _ | .vacant route => return files.put route (Text.Utf8.encode text.toList)
  | .directory _ => throw .isDirectory

def isFile (files : Files) (path : String) : Bool :=
  match files.resolve path with
  | .ok (.file ..) => true
  | _ => false

/-- The routes of the files below a directory, from there. A path that names no directory has none. -/
def below (files : Files) (path : String) : List Route :=
  match files.resolve path with
  | .ok (.directory route) =>
    files.entries.filterMap fun entry =>
      if route.isPrefixOf entry.1 then some (entry.1.drop route.length) else none
  | _ => []

end Files

/-- A path with a route behind it. -/
def joinPath (path : String) (route : Route) : String :=
  route.foldl (fun path name => if path.endsWith "/" then path ++ name else path ++ "/" ++ name) path

end Literate
