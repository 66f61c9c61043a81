import LuaCompiler.Text.Search

/-!
# Options

How a run compiles: the form of the module's export, the files in operator mode, the names that
construct host values, and the callees that take their receiver through `call`.
-/

namespace LuaCompiler

/-- Which files have their arithmetic done by the support module: those with an enabling segment in
their path and no disabling one. -/
structure OperatorMode where
  enableSegments : List String := ["Battle/", "BattleView/"]
  disableSegments : List String := ["DataCenter", "battleLog"]
deriving DecidableEq

namespace OperatorMode

/-- Whether a file is in operator mode; a backslash in its path counts as a slash. -/
def isEnabledFor (mode : OperatorMode) (path : String) : Bool :=
  let path := Text.replace path "\\" "/"
  !mode.disableSegments.any (Text.contains path) && mode.enableSegments.any (Text.contains path)

end OperatorMode

/-- The options of a run. -/
structure Options where
  /-- `export default` if true, `exports.default =` if not -/
  asEsm : Bool := true
  /-- print the generated code afresh -/
  format : Bool := false
  operatorMode : OperatorMode := {}
  /-- callables that construct a host value -/
  valueTypes : List String :=
    ["Vector3", "FixQuaternion", "FixVector3", "Bounds", "Color", "LayerMask", "Plane",
      "Quaternion", "Ray", "Vector2", "Vector4"]
  /-- where the host values' constructors live -/
  valueTypeNamespace : String := "CS.UnityEngine"
  /-- pieces of a callee that force `.call(...)` -/
  addCallKeys : List String := ["listener[2]"]
deriving DecidableEq

end LuaCompiler
