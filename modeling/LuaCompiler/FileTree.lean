import LuaCompiler.Path

/-!
# Trees of files

A tree holds files and directories under the parts of their paths. `FileTree.resolve` follows a path
as it is written: each part but the last must lead to a directory, and so must the last if a slash
or a single dot comes behind it. `FileTree.read` gives the text of a file, `FileTree.luaFiles` the
Lua files below a directory in the order of their paths.
-/

namespace LuaCompiler

/-- Why a file has no text. -/
inductive ReadError where
  | notFound
  | notDirectory
  | isDirectory
  | notText
deriving DecidableEq

/-- What is said of a file that has no text. -/
def ReadError.message : ReadError → String
  | notFound => "No such file or directory (os error 2)"
  | notDirectory => "Not a directory (os error 20)"
  | isDirectory => "Is a directory (os error 21)"
  | notText => "stream did not contain valid UTF-8"

/-- What stands under a path. -/
inductive FileNode where
  | file (content : ByteArray)
  | directory

/-- Files and directories, each under the parts of its path. A directory with something in it need
not be listed. -/
structure FileTree where
  entries : List (List String × FileNode)

namespace FileTree

/-- The tree with nothing in it. -/
def empty : FileTree := ⟨[]⟩

/-- Puts something under a path, in place of what was there. -/
def put (tree : FileTree) (path : String) (node : FileNode) : FileTree :=
  ⟨(Path.parts path, node) :: tree.entries.filter (·.1 != Path.parts path)⟩

/-- What stands under some parts. The root is a directory, and so is whatever something stands
below. -/
def node? (tree : FileTree) (parts : List String) : Option FileNode :=
  match tree.entries.lookup parts with
  | some node => some node
  | none =>
    if parts.isEmpty || tree.entries.any (parts.isPrefixOf ·.1) then some .directory else none

/-- The place that a part of a path leads to from a place. -/
def stepTo (place : List String) (part : String) : List String :=
  if part == "" || part == "." then place else place ++ [part]

/-- Follows the parts of a path from a place in the tree, and gives the place they lead to. -/
def walk (tree : FileTree) (place : List String) :
    List String → Except ReadError (List String × FileNode)
  | [] =>
    match tree.node? place with
    | none => .error .notFound
    | some node => .ok (place, node)
  | part :: rest =>
    match tree.node? place with
    | none => .error .notFound
    | some (.file _) => .error .notDirectory
    | some .directory => walk tree (stepTo place part) rest

/-- The place that a path leads to and what stands there. Only relative paths lead anywhere. -/
def resolve (tree : FileTree) (path : String) : Except ReadError (List String × FileNode) :=
  if path == "" || path.startsWith "/" then .error .notFound else tree.walk [] (Path.segments path)

/-- The text of the file that a path leads to. -/
def read (tree : FileTree) (path : String) : Except ReadError String :=
  match tree.resolve path with
  | .error error => .error error
  | .ok (_, .directory) => .error .isDirectory
  | .ok (_, .file content) =>
    match String.fromUTF8? content with
    | some text => .ok text
    | none => .error .notText

/-- The path of a file from a directory, given what its own path has below that directory. -/
def pathBelow (directory : String) (below : List String) : String :=
  below.foldl Path.join directory

/-- The paths of the files below a place, which a path leads to. -/
def filesBelow (tree : FileTree) (place : List String) (path : String) : List String :=
  tree.entries.filterMap fun (parts, node) =>
    match node with
    | .directory => none
    | .file _ =>
      if place.isPrefixOf parts then some (pathBelow path (parts.drop place.length)) else none

/-- The paths of the files that a path leads to: the file itself, or all below the directory. -/
def files (tree : FileTree) (path : String) : List String :=
  match tree.resolve path with
  | .error _ => []
  | .ok (_, .file _) => [path]
  | .ok (place, .directory) => tree.filesBelow place path

/-- The Lua files that a path leads to, in the order of paths. -/
def luaFiles (tree : FileTree) (path : String) : List String :=
  ((tree.files path).filter (Path.extension? · == some "lua")).mergeSort Path.le

end FileTree

end LuaCompiler
