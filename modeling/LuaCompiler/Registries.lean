import LuaCompiler.NameSet

/-!
# Registries

What a run has seen so far over all of its files: the library functions that compiled code calls,
the globals that programs read, and the globals that an assignment has initialised. Compiling a file
only ever adds to them.
-/

namespace LuaCompiler

/-- The three sets that every file of a run shares. -/
structure Registries where
  systemFunctions : NameSet := .empty
  globalReads : NameSet := .empty
  initializedGlobals : NameSet := .empty

namespace Registries

/-- The registries at the start of a run. -/
def empty : Registries := {}

/-- The members of both. -/
def merge (a b : Registries) : Registries where
  systemFunctions := a.systemFunctions.union b.systemFunctions
  globalReads := a.globalReads.union b.globalReads
  initializedGlobals := a.initializedGlobals.union b.initializedGlobals

/-- Notes that code calls `name` of `library`. -/
def recordSystemFunction (r : Registries) (library name : String) : Registries :=
  { r with systemFunctions := r.systemFunctions.insert (library ++ "." ++ name) }

/-- Notes that a program reads a global. -/
def recordGlobalRead (r : Registries) (name : String) : Registries :=
  { r with globalReads := r.globalReads.insert name }

/-- Notes that an assignment initialises a global. -/
def recordInitializedGlobal (r : Registries) (name : String) : Registries :=
  { r with initializedGlobals := r.initializedGlobals.insert name }

/-- Whether some program reads a global. -/
def isGlobalRead (r : Registries) (name : String) : Bool :=
  r.globalReads.contains name

/-- Whether some assignment has initialised a global. -/
def isInitializedGlobal (r : Registries) (name : String) : Bool :=
  r.initializedGlobals.contains name

end Registries

end LuaCompiler
