/-!
# `Apidoc.Java.Syntax`: the declarations of a compilation unit

The tree of a unit down to the declarations of members. Names and types are kept as they are
written, inner blanks and comments included. Bodies of methods and initializers appear only with the
classes that are declared inside them.
-/

set_option autoImplicit false

namespace Apidoc.Java

/-- A half-open range of byte offsets. -/
structure Span where
  start : Nat
  stop : Nat
  deriving DecidableEq, Repr

/-- The modifier keywords, in the order in which pages list them. -/
inductive Modifier where
  | publicAccess
  | protectedAccess
  | privateAccess
  | abstract
  | default
  | static
  | final
  | sealed
  | nonSealed
  | transient
  | volatile
  | synchronized
  | native
  | strictfp
  deriving DecidableEq, Repr

namespace Modifier

/-- Every modifier, in page order. -/
def all : List Modifier :=
  [publicAccess, protectedAccess, privateAccess, abstract, default, static, final, sealed, nonSealed,
    transient, volatile, synchronized, native, strictfp]

/-- The keyword. -/
def text : Modifier → String
  | publicAccess => "public"
  | protectedAccess => "protected"
  | privateAccess => "private"
  | abstract => "abstract"
  | default => "default"
  | static => "static"
  | final => "final"
  | sealed => "sealed"
  | nonSealed => "non-sealed"
  | transient => "transient"
  | volatile => "volatile"
  | synchronized => "synchronized"
  | native => "native"
  | strictfp => "strictfp"

/-- The modifier with the given keyword. -/
def ofText? (s : String) : Option Modifier := all.find? fun m => m.text = s

/-- The members of a set of modifiers, each once and in page order. -/
def ordered (ms : List Modifier) : List Modifier := all.filter (· ∈ ms)

end Modifier

/-- An annotation among the modifiers of a declaration. -/
structure Annotation where
  /-- The name as written, with its qualifier. -/
  name : String
  span : Span

/-- What stands in front of a declaration. -/
structure Modifiers where
  keywords : List Modifier
  annotations : List Annotation

/-- The five kinds of declared types. -/
inductive TypeKind where
  | classType
  | interfaceType
  | enumType
  | recordType
  | annotationType
  deriving DecidableEq, Repr

/-- A parameter as written. -/
structure ParameterSyntax where
  name : String
  type : String
  /-- The brackets after the name. -/
  dimensions : String
  /-- The parameter takes any number of arguments. -/
  isVariadic : Bool

/-- The head of a type declaration. -/
structure TypeSyntax where
  kind : TypeKind
  span : Span
  modifiers : Modifiers
  name : String
  typeParameters : String
  /-- What follows `extends` in a class: the type, or the first comment in front of it. -/
  superclass : Option String
  /-- The entries of the list of interfaces: types, and the comments between them. -/
  interfaces : List String
  /-- The components of a record. -/
  components : List ParameterSyntax

/-- The head of a method or of an element of an annotation type. -/
structure MethodSyntax where
  span : Span
  modifiers : Modifiers
  name : String
  returnType : String
  typeParameters : String
  parameters : List ParameterSyntax
  /-- The entries after `throws`: types, and the comments in front of them. -/
  throws : List String
  hasBody : Bool
  /-- An element of an annotation type. -/
  isElement : Bool

/-- The head of a constructor. -/
structure ConstructorSyntax where
  span : Span
  modifiers : Modifiers
  name : String
  /-- A compact constructor has no parameter list of its own. -/
  parameters : Option (List ParameterSyntax)
  throws : List String

/-- A field declaration, or a constant of an interface. -/
structure FieldSyntax where
  span : Span
  modifiers : Modifiers
  type : String
  variableNames : List String

/-- A constant of an enum. -/
structure ConstantSyntax where
  span : Span
  modifiers : Modifiers
  name : String

/-- A comment between two declarations. -/
structure CommentSyntax where
  isBlock : Bool
  span : Span
  text : String

/-- What can stand in a unit or in the body of a type. A bare semicolon is nothing. -/
inductive Item where
  | comment (c : CommentSyntax)
  | package (span : Span) (name : String)
  | imported (span : Span) (name : String) (isStatic : Bool)
  | module (span : Span) (name : String)
  | type (head : TypeSyntax) (members : List Item)
  /-- The last argument holds the classes declared inside the body. -/
  | method (head : MethodSyntax) (inner : List Item)
  | constructor (head : ConstructorSyntax) (inner : List Item)
  | field (head : FieldSyntax) (inner : List Item)
  | constant (head : ConstantSyntax) (inner : List Item)
  /-- The members of an enum after the semicolon that ends its constants. -/
  | rest (span : Span) (members : List Item)
  /-- An initializer block, a statement, or the body of an anonymous class. -/
  | code (span : Span) (inner : List Item)

end Apidoc.Java
