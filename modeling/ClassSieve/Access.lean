/-!
# Access flags

The sixteen access and property bits of a class, a field or a method. Some bits have two names
because they mean different things on a field and on a method.
-/
namespace ClassSieve

structure AccessFlags where
  bits : UInt16
  deriving DecidableEq, Repr

inductive AccessFlag where
  | publicFlag | privateFlag | protectedFlag | staticFlag | finalFlag | synchronizedFlag
  | volatileFlag | bridgeFlag | transientFlag | varargsFlag | nativeFlag | interfaceFlag
  | abstractFlag | strictFlag | syntheticFlag | annotationFlag | enumFlag | moduleFlag
  deriving DecidableEq, Repr

namespace AccessFlag

def mask : AccessFlag → UInt16
  | publicFlag => 0x0001
  | privateFlag => 0x0002
  | protectedFlag => 0x0004
  | staticFlag => 0x0008
  | finalFlag => 0x0010
  | synchronizedFlag => 0x0020
  | volatileFlag => 0x0040
  | bridgeFlag => 0x0040
  | transientFlag => 0x0080
  | varargsFlag => 0x0080
  | nativeFlag => 0x0100
  | interfaceFlag => 0x0200
  | abstractFlag => 0x0400
  | strictFlag => 0x0800
  | syntheticFlag => 0x1000
  | annotationFlag => 0x2000
  | enumFlag => 0x4000
  | moduleFlag => 0x8000

end AccessFlag

namespace AccessFlags

def has (access : AccessFlags) (flag : AccessFlag) : Bool := access.bits &&& flag.mask != 0

def isInterface (access : AccessFlags) : Bool := access.has .interfaceFlag
def isModule (access : AccessFlags) : Bool := access.has .moduleFlag

def isPackagePrivate (access : AccessFlags) : Bool :=
  !(access.has .publicFlag || access.has .protectedFlag || access.has .privateFlag)

end AccessFlags

structure AccessCondition where
  allOf : List AccessFlag
  noneOf : List AccessFlag
  deriving DecidableEq, Repr

def AccessCondition.holds (condition : AccessCondition) (access : AccessFlags) : Bool :=
  condition.allOf.all access.has && !condition.noneOf.any access.has

end ClassSieve
