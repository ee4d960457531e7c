import ClassSieve.ClassFile.Outline
import ClassSieve.Json

/-!
# Headers and outlines as JSON

Access flags are written as their number. An outline is written as its header is, followed by its
fields, its methods and its annotations.
-/
namespace ClassSieve.ClassFile

def accessMember (access : AccessFlags) : String × Json := ("access", .natural access.bits.toNat)

namespace Header

def members (header : Header) : List (String × Json) :=
  [("minor_version", .natural header.minor.toNat), ("major_version", .natural header.major.toNat),
    accessMember header.access, ("class_name", .string header.name),
    ("super_name", Json.ofOption .string header.superName),
    ("interfaces", Json.ofStrings header.interfaces)]

def toJson (header : Header) : Json := .object header.members

end Header

def Field.toJson (field : Field) : Json :=
  .object [accessMember field.access, ("name", .string field.name),
    ("descriptor", .string field.descriptor)]

namespace Method

def members (method : Method) : List (String × Json) :=
  [accessMember method.access, ("name", .string method.name),
    ("descriptor", .string method.descriptor), ("annotations", Json.ofStrings method.annotations)]

def toJson (method : Method) : Json := .object method.members

end Method

def Outline.membersWith (method : Method → Json) (outline : Outline) : List (String × Json) :=
  outline.header.members ++ [("fields", .array (outline.fields.map Field.toJson)),
    ("methods", .array (outline.methods.map method)),
    ("annotations", Json.ofStrings outline.annotations)]

def Outline.toJson (outline : Outline) : Json := .object (outline.membersWith Method.toJson)

end ClassSieve.ClassFile
