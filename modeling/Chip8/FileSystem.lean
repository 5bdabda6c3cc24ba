/-! # File systems

Whatever reads files is a function of the path. A tree of folders, with a working folder in it from
where the paths lead that do not begin at its root, is one. -/
namespace Chip8

/-- Reads the file at a path, or tells the reason why that cannot be done. -/
abbrev Reader := String → Except String (List UInt8)

inductive ReadFault
  | notFound
  | notDirectory
  | isDirectory
  | nameTooLong
  deriving DecidableEq

namespace ReadFault

def code : ReadFault → Nat
  | notFound => 2
  | notDirectory => 20
  | isDirectory => 21
  | nameTooLong => 36

def text : ReadFault → String
  | notFound => "No such file or directory"
  | notDirectory => "Not a directory"
  | isDirectory => "Is a directory"
  | nameTooLong => "File name too long"

def ofCode? (n : Nat) : Option ReadFault :=
  [notFound, notDirectory, isDirectory, nameTooLong].find? fun fault => fault.code = n

def reason (fault : ReadFault) : String := s!"{fault.text} (os error {fault.code})"

end ReadFault

inductive FileTree
  | file (content : List UInt8)
  | folder (entries : List (String × FileTree))

namespace FileTree

instance : Inhabited FileTree := ⟨folder []⟩

/-- The greatest number of bytes in one name of a path. -/
def nameLimit : Nat := 255

/-- Follows names from a tree whose surrounding folders are `above`, the nearest first. The root is
its own surrounding folder. -/
def follow (t : FileTree) (above : List FileTree) : List String → Except ReadFault FileTree
  | [] => .ok t
  | name :: names =>
    match t with
    | file _ => .error .notDirectory
    | folder entries =>
      if name = "" ∨ name = "." then follow t above names
      else if name = ".." then
        match above with
        | [] => follow t [] names
        | parent :: above => follow parent above names
      else if nameLimit < name.utf8ByteSize then .error .nameTooLong
      else match entries.lookup name with
        | some u => follow u (t :: above) names
        | none => .error .notFound

end FileTree

structure FileSystem where
  root : FileTree
  /-- The names of the folders from the root to the working folder. -/
  workingFolder : List String

namespace FileSystem

/-- The greatest number of bytes in a whole path. -/
def pathLimit : Nat := 4095

def splitPath : List Char → List (List Char)
  | [] => [[]]
  | c :: cs =>
    if c = '/' then [] :: splitPath cs
    else match splitPath cs with
      | [] => [[c]]
      | name :: names => (c :: name) :: names

def names (path : String) : List String := (splitPath path.toList).map String.ofList

/-- A path over the limit is refused before any of its names is looked up. -/
def find (s : FileSystem) (path : String) : Except ReadFault FileTree :=
  if pathLimit < path.utf8ByteSize then .error .nameTooLong
  else match path.toList with
    | '/' :: _ => s.root.follow [] (names path)
    | _ => s.root.follow [] (s.workingFolder ++ names path)

def read (s : FileSystem) : Reader := fun path =>
  match s.find path with
  | .ok (.file content) => .ok content
  | .ok (.folder _) => .error ReadFault.isDirectory.reason
  | .error fault => .error fault.reason

/-- A file system that holds nothing but the working folder. -/
def around (t : FileTree) : FileSystem := ⟨.folder [("work", t)], ["work"]⟩

instance : Coe FileTree Reader := ⟨fun t => (around t).read⟩

end FileSystem
end Chip8
