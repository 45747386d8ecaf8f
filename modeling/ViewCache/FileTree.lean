import ViewCache.Failure
import ViewCache.Probe
import ViewCache.Text.Split

/-!
A tree of directories, files and symbolic links, with the rules by which a path is walked from a working
directory. Paths are bytes and need not be text; links are followed, and names and paths are limited in
length.
-/
namespace ViewCache

inductive FileObject
  | file (content : ByteArray) (modifiedNanos : Int)
  | directory
  | link (target : ByteArray)
  | device

namespace FileTree

abbrev Name := List UInt8

abbrev Place := List Name

def nameOf (text : String) : Name := text.toUTF8.toList

/-- Relative paths start here. Its own names are empty, so that no path can spell them. -/
def workingDirectory : Place := [[], []]

/-- What every machine has, as far as a lookup can tell: directories at the root, and an empty device. -/
def common : List (Place × FileObject) :=
  (["bin", "dev", "etc", "home", "lib", "media", "mnt", "opt", "proc", "root", "run", "sbin", "srv", "sys",
    "tmp", "usr", "var"].map fun name => ([nameOf name], .directory)) ++
  [([nameOf "dev", nameOf "null"], .device)]

end FileTree

/-- Objects by their places. The root and the working directory are always there and are not listed. -/
structure FileTree where
  objects : List (FileTree.Place × FileObject) := FileTree.common

namespace FileTree

def maxLinks : Nat := 40

def maxNameBytes : Nat := 255

def maxPathBytes : Nat := 4095

def slash : UInt8 := 0x2F

def dot : Name := [0x2E]

def dotDot : Name := [0x2E, 0x2E]

def names (path : ByteArray) : List Name := (Text.splitOn slash path.toList).filter (· ≠ [])

def endsInSlash (path : ByteArray) : Bool := path.toList.getLast? == some slash

/-- The names that are walked. A trailing slash asks for a directory, as a final dot does. -/
def steps (path : ByteArray) : List Name := if endsInSlash path then names path ++ [dot] else names path

def start (place : Place) (path : ByteArray) : Place :=
  if path.toList.head? = some slash then [] else place

def object? (tree : FileTree) (place : Place) : Option FileObject := tree.objects.lookup place

structure Found where
  object : FileObject
  place : Place

def walk (tree : FileTree) (links : Nat) (place : Place) : List Name → Except FileFault Found
  | [] => .ok ⟨.directory, place⟩
  | name :: rest =>
    if name = dot then walk tree links place rest
    else if name = dotDot then walk tree links place.dropLast rest
    else if maxNameBytes < name.length then .error .nameTooLong
    else
      match tree.object? (place ++ [name]) with
      | none => .error .notFound
      | some .directory => walk tree links (place ++ [name]) rest
      | some (.link target) =>
        match links with
        | 0 => .error .tooManyLinks
        | links + 1 => walk tree links (start place target) (steps target ++ rest)
      | some object => if rest = [] then .ok ⟨object, place ++ [name]⟩ else .error .notDirectory
  termination_by todo => (links, todo.length)

def find (tree : FileTree) (path : ByteArray) : Except FileFault Found :=
  if path.toList.contains 0 then .error .nulInName
  else if path.isEmpty then .error .notFound
  else if maxPathBytes < path.size then .error .nameTooLong
  else tree.walk maxLinks (start workingDirectory path) (steps path)

/-- Modification times are cut to milliseconds, towards the past. -/
def probe (tree : FileTree) (path : String) : Probe :=
  match tree.find path.toUTF8 with
  | .ok ⟨.file _ nanos, _⟩ => .file (Int.fdiv nanos 1000000)
  | .ok _ => .other
  | .error fault => .fault fault

def readText (tree : FileTree) (path : ByteArray) : Except FileFault String :=
  match tree.find path with
  | .ok ⟨.file content _, _⟩ =>
    match String.fromUTF8? content with
    | some text => .ok text
    | none => .error .notUtf8
  | .ok ⟨.device, _⟩ => .ok ""
  | .ok _ => .error .isDirectory
  | .error fault => .error fault

def put (tree : FileTree) (place : Place) (object : FileObject) : FileTree :=
  ⟨(place, object) :: tree.objects.filter (·.1 != place)⟩

def without (tree : FileTree) (place : Place) : FileTree :=
  ⟨tree.objects.filter fun (other, _) => !place.isPrefixOf other⟩

def emptied (tree : FileTree) (place : Place) : FileTree :=
  ⟨tree.objects.filter fun (other, _) => other == place || !place.isPrefixOf other⟩

def makeDirectories (tree : FileTree) (place : Place) : List Name → FileTree × Option Place
  | [] => (tree, some place)
  | name :: rest =>
    match tree.walk maxLinks place [name], tree.object? (place ++ [name]) with
    | .ok ⟨.directory, next⟩, _ => makeDirectories tree next rest
    | .error .notFound, none =>
      makeDirectories (tree.put (place ++ [name]) .directory) (place ++ [name]) rest
    | _, _ => (tree, none)

def isFree (name : Name) : Bool := name ≠ dot && name ≠ dotDot && name.length ≤ maxNameBytes

def fileName? (path : ByteArray) : Option (List Name × Name) :=
  match (names path).getLast? with
  | some name => if isFree name && !endsInSlash path then some ((names path).dropLast, name) else none
  | none => none

/-- Where a file that is written to a name comes to stand: at the end of the links that start there. -/
def writePlace (tree : FileTree) (links : Nat) (dir : Place) (name : Name) : Option Place :=
  match tree.object? (dir ++ [name]), links with
  | none, _ | some (.file ..), _ => some (dir ++ [name])
  | some (.link target), links + 1 =>
    match fileName? target with
    | some (above, name) =>
      match tree.walk links (start dir target) above with
      | .ok ⟨.directory, dir⟩ => writePlace tree links dir name
      | _ => none
    | none => none
  | some _, _ => none

inductive Change
  | write (path : ByteArray) (content : ByteArray) (modifiedNanos : Int)
  | makeDirectory (path : ByteArray)
  | link (path target : ByteArray)
  | remove (path : ByteArray)

def withParent (tree : FileTree) (path : ByteArray) (go : FileTree → Place → Name → FileTree) : FileTree :=
  match fileName? path with
  | none => tree
  | some (above, name) =>
    match tree.makeDirectories (start workingDirectory path) above with
    | (made, some dir) => go made dir name
    | (made, none) => made

/-- A directory goes with all that is below it; one that is named by a dot, or through a link, is only
emptied. -/
def remove (tree : FileTree) (path : ByteArray) : FileTree :=
  match (names path).getLast?, tree.walk maxLinks (start workingDirectory path) (names path).dropLast with
  | some name, .ok ⟨.directory, dir⟩ =>
    match tree.object? (dir ++ [name]), endsInSlash path with
    | some .directory, _ | some _, false => tree.without (dir ++ [name])
    | _, _ =>
      match tree.find path with
      | .ok ⟨.directory, place⟩ => tree.emptied place
      | _ => tree
  | _, _ => tree

/-- Missing parents are made. What cannot be done changes nothing. -/
def apply (tree : FileTree) : Change → FileTree
  | .write path content nanos => tree.withParent path fun made dir name =>
    match made.writePlace maxLinks dir name with
    | some place => made.put place (.file content nanos)
    | none => made
  | .makeDirectory path => (tree.makeDirectories (start workingDirectory path) (names path)).1
  | .link path target => tree.withParent path fun made dir name =>
    match made.object? (dir ++ [name]) with
    | some _ => made
    | none => made.put (dir ++ [name]) (.link target)
  | .remove path => tree.remove path

end FileTree

end ViewCache
