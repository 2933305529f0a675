import CoolLang.Hierarchy.Class

/-!
# The built-in classes
-/

namespace CoolLang

namespace Builtin

def method (name : String) (formals : List Parameter) (returnType : String)
    (operation : Primitive) : Method :=
  ⟨name, returnType, formals, .primitive operation .nowhere, .nowhere⟩

def build (name : String) (parent : Option String) (methods : List Method) : ClassInfo :=
  ⟨name, parent, [], methods, .nowhere⟩

open ClassName in
def object : ClassInfo :=
  build ClassName.object none
    [method "abort" [] ClassName.object .abort,
     method "type_name" [] string .typeName,
     method "copy" [] selfType .copy]

open ClassName in
def io : ClassInfo :=
  build ClassName.io (some ClassName.object)
    [method "out_string" [⟨"x", string⟩] selfType .outString,
     method "out_int" [⟨"x", int⟩] selfType .outInt,
     method "in_string" [] string .inString,
     method "in_int" [] int .inInt]

def int : ClassInfo :=
  build ClassName.int (some ClassName.object) []

def string : ClassInfo :=
  build ClassName.string (some ClassName.object)
    [method "length" [] ClassName.int .length,
     method "concat" [⟨"s", ClassName.string⟩] ClassName.string .concat,
     method "substr" [⟨"i", ClassName.int⟩, ⟨"l", ClassName.int⟩] ClassName.string .substr]

def bool : ClassInfo :=
  build ClassName.bool (some ClassName.object) []

/-- The classes that every program starts from. -/
def classes : List ClassInfo :=
  [object, io, int, string, bool]

theorem map_name_classes : classes.map (·.name) = ClassName.builtins := rfl

end Builtin

end CoolLang
