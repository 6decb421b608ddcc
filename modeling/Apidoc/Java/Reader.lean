import Apidoc.Java.Measure

/-!
# `Apidoc.Java.Reader`: the declarations of a source

Reads token trees as declarations. Only units of the language are read, so a construct that is
recognised by its first tokens is taken to be complete. Whatever is no declaration is passed over
with the classes that are declared inside it.

The fuel of the recursive readers bounds the number of trees, so it never runs out.
-/

set_option autoImplicit false

namespace Apidoc.Java.Reader

open Apidoc.Java.Measure

/-- The byte range of a run of trees. -/
def span (run : List Tree) : Span :=
  ⟨(run.head?.map Tree.start).getD 0, (run.getLast?.map Tree.stop).getD 0⟩

/-- The comments in front of a tree, as items of their own. -/
def commentItems (t : Tree) : List Item :=
  t.comments.map fun p => .comment ⟨p.kind = .blockComment, ⟨p.start, p.stop⟩, p.string⟩

/-- Annotations and keywords from the runs that `Measure.modifier` takes. -/
def modifiers (runs : List (List Tree)) : Modifiers where
  keywords := runs.filterMap fun run => Modifier.ofText? (Tree.text run)
  annotations := runs.filterMap fun run =>
    match run with
    | t :: rest =>
      if t.is "@" then some ⟨Tree.text (rest.take (dotted rest)), span run⟩ else none
    | [] => none

/-- Cuts a list before each comma outside angle brackets, `depth` of which are open. -/
def cutBeforeCommas (depth : Nat) : List Tree → List (List Tree)
  | [] => [[]]
  | t :: rest =>
    let inner := if t.is "<" then depth + 1 else if t.is ">" then depth - 1 else depth
    let isCut := t.is "," && depth = 0
    match cutBeforeCommas inner rest with
    | [] => [[t]]
    | part :: parts => if isCut then [] :: (t :: part) :: parts else (t :: part) :: parts

/-- The parts between the commas outside angle brackets. -/
def splitAtCommas (ts : List Tree) : List (List Tree) :=
  (cutBeforeCommas 0 ts).map fun part =>
    match part with
    | t :: rest => if t.is "," then rest else part
    | [] => []

/-- A run of trees and the comments in front of it, as texts. -/
def commentedText (run : List Tree) : List String :=
  match run with
  | [] => []
  | t :: _ => t.comments.map Piece.string ++ [Tree.text run]

/-- The entries of a list of types: each type, and each comment in front of a type or a comma. -/
def typeEntries (ts : List Tree) : List String :=
  (cutBeforeCommas 0 ts).flatMap fun part =>
    match part with
    | t :: rest =>
      if t.is "," then t.comments.map Piece.string ++ commentedText rest else commentedText part
    | [] => []

/-- Splits before the first tree outside angle brackets with the given property. -/
def cutAt (p : Tree → Bool) (depth : Nat) : List Tree → List Tree × List Tree
  | [] => ([], [])
  | t :: rest =>
    if p t && depth = 0 then ([], t :: rest)
    else
      let inner := if t.is "<" then depth + 1 else if t.is ">" then depth - 1 else depth
      let (before, after) := cutAt p inner rest
      (t :: before, after)

/-- The clause of a type header that starts with a keyword, without the keyword. -/
def clause (keyword : String) (header : List Tree) : List Tree :=
  let clauses := (cutAt (·.is keyword) 0 header).2.drop 1
  (cutAt (fun t => t.is "extends" || t.is "implements" || t.is "permits") 0 clauses).1

/-- One parameter. The receiver parameter, which ends with `this`, is none. A comment between the
modifiers and the type of a variadic parameter stands for its type. -/
def parameter? (run : List Tree) : Option ParameterSyntax :=
  let front := many modifier run
  let r := run.drop front.flatten.length
  let n := type r
  let written := r.take n
  let after := r.drop n
  if run.getLast?.any (·.is "this") then none
  else if after.head?.any (·.is "...") then
    let named := (after.drop 1).drop (annotations (after.drop 1))
    let shown := if front = [] then Tree.text written else (commentedText written).headD ""
    some ⟨Tree.text (named.take 1), shown, "", true⟩
  else if after.head?.any Tree.isWord then
    let brackets := after.drop 1
    some ⟨Tree.text (after.take 1), Tree.text written,
      Tree.text (brackets.take (manyLength dimension brackets)), false⟩
  else none

/-- The parameters between two parentheses. -/
def parameters (items : List Tree) : List ParameterSyntax :=
  (splitAtCommas items).filterMap parameter?

/-- The entries of a `throws` clause in what follows a parameter list. -/
def throws (tail : List Tree) : List String :=
  typeEntries ((tail.dropWhile fun t => !t.is "throws").drop 1)

/-- The kind of type that the trees begin to declare. A name has to follow the keyword, and `record` is
a keyword only if a component list follows the name. -/
def typeKind? : List Tree → Option TypeKind
  | [] => none
  | t :: rest =>
    if !rest.head?.any Tree.isWord then none
    else if t.is "class" then some .classType
    else if t.is "interface" then some .interfaceType
    else if t.is "enum" then some .enumType
    else if t.is "@interface" then some .annotationType
    else if t.is "record" && (rest.drop 1).head?.any fun u => u.isGroup "(" || u.is "<" then
      some .recordType
    else none

/-- A type declaration whose keyword is the first tree. `start` is where its modifiers start. Gives
the head, the trees of the body, and the number of trees read. -/
def typeHead? (start : Nat) (front : List (List Tree)) (ts : List Tree) :
    Option (TypeSyntax × List Tree × Nat) := do
  let kind ← typeKind? ts
  let header := (ts.drop 2).takeWhile fun t => !t.isGroup "\x7b"
  let body ← (ts.drop (header.length + 2)).head?
  let parametersLength := angles header
  let listed := clause (if kind = .interfaceType then "extends" else "implements") header
  let superclass :=
    if kind = .classType then (commentedText (clause "extends" header)).head? else none
  let components :=
    if kind = .recordType then
      match header.drop parametersLength with
      | t :: _ => parameters t.items
      | [] => []
    else []
  let head : TypeSyntax :=
    { kind
      span := ⟨start, body.stop⟩
      modifiers := modifiers front
      name := Tree.text ((ts.drop 1).take 1)
      typeParameters := Tree.text (header.take parametersLength)
      superclass
      interfaces :=
        if kind = .annotationType then []
        else (typeEntries listed).drop ((listed.head?.map (·.comments.length)).getD 0)
      components }
  return (head, body.items, header.length + 3)

/-- What a body may hold. -/
inductive Body where
  /-- Members of a class, an interface or a record, and of an enum after its constants. -/
  | members
  /-- Members of an annotation type. -/
  | elements
  /-- The constants of an enum, then a semicolon and the members. -/
  | constants
  deriving DecidableEq

/-- What the body of a type of the given kind holds. -/
def Body.ofKind : TypeKind → Body
  | .enumType => .constants
  | .annotationType => .elements
  | _ => .members

/-- A member other than a type: its modifiers, the trees after them, and how it goes on. -/
inductive MemberShape where
  | block (body : List Tree) (length : Nat)
  | constructor (head : ConstructorSyntax) (code : List Tree) (length : Nat)
  | method (head : MethodSyntax) (code : List Tree) (length : Nat)
  | field (head : FieldSyntax) (code : List Tree) (length : Nat)
  | unknown (length : Nat)

/-- Whether a tree ends the part of a method between its parameters and its body. -/
def endsHeader (t : Tree) : Bool := t.isGroup "\x7b" || t.is ";"

/-- Reads a member that is no type. `ts` starts with the modifiers, which are `front`. -/
def memberShape (kind : Body) (front : List (List Tree)) (ts : List Tree) : MemberShape :=
  let read := front.flatten.length
  let r := ts.drop read
  let typeParametersLength := angles r
  let r₁ := r.drop typeParametersLength
  let r₂ := r₁.drop (if typeParametersLength = 0 then 0 else annotations r₁)
  let typeLength := type r₂
  let r₃ := r₂.drop typeLength
  let whole (rest : List Tree) : Nat := ts.length - rest.length
  let upTo (n : Nat) : Span := span (ts.take n)
  match r, r₁, r₃ with
  | [], _, _ => .unknown read
  | t :: _, first :: second :: tail, third =>
    if t.isGroup "\x7b" then .block t.items (read + 1)
    else if first.isWord && second.isGroup "(" then
      let n := through endsHeader tail
      let length := whole tail + n
      .constructor
        ⟨upTo length, modifiers front, Tree.text [first], some (parameters second.items),
          throws (tail.takeWhile fun u => !endsHeader u)⟩
        (tail.take n) length
    else if first.isWord && second.isGroup "\x7b" then
      let length := whole tail
      .constructor ⟨upTo length, modifiers front, Tree.text [first], none, []⟩ second.items length
    else
      match third with
      | name :: after =>
        match after with
        | group :: tail =>
          if typeLength ≠ 0 && name.isWord && group.isGroup "(" then
            let isElement := kind = .elements
            let n := if isElement then through (·.is ";") tail else through endsHeader tail
            let length := whole tail + n
            let code := tail.take n
            .method
              { span := upTo length
                modifiers := modifiers front
                name := Tree.text [name]
                returnType := Tree.text (r₂.take typeLength)
                typeParameters := Tree.text (r.take typeParametersLength)
                parameters := if isElement then [] else parameters group.items
                throws := throws (tail.takeWhile fun u => !endsHeader u)
                hasBody := !isElement && code.getLast?.any (·.isGroup "\x7b")
                isElement }
              code length
          else if typeLength ≠ 0 && name.isWord then
            let n := through (·.is ";") third
            let length := whole third + n
            let declared := third.take (n - 1)
            .field
              { span := upTo length
                modifiers := modifiers front
                type := Tree.text (r₂.take typeLength)
                variableNames := (many declarator declared).map fun run => Tree.text (run.take 1) }
              declared length
          else .unknown (read + through (·.is ";") r)
        | [] => .unknown (read + through (·.is ";") r)
      | [] => .unknown (read + through (·.is ";") r)
  | t :: _, _, _ => if t.isGroup "\x7b" then .block t.items (read + 1) else .unknown ts.length

/-- A constant of an enum: its head, arguments, body, and length. -/
def constantShape (ts : List Tree) : ConstantSyntax × List Tree × List Tree × Nat :=
  let front := many modifier ts
  let read := front.flatten.length + 1
  let r := ts.drop read
  let arguments := r.head?.any (·.isGroup "(")
  let r' := if arguments then r.drop 1 else r
  let hasBody := r'.head?.any (·.isGroup "\x7b")
  let length := read + (if arguments then 1 else 0) + (if hasBody then 1 else 0)
  (⟨span (ts.take length), modifiers front, Tree.text ((ts.drop (read - 1)).take 1)⟩,
    if arguments then (r.take 1).flatMap Tree.items else [],
    if hasBody then (r'.take 1).flatMap Tree.items else [], length)

mutual

/-- The items of a body. -/
def bodyItems : Nat → Body → List Tree → List Item
  | 0, _, _ => []
  | _ + 1, _, [] => []
  | fuel + 1, kind, t :: rest =>
    if t.is ";" then
      if kind = .constants then
        commentItems t ++ [.rest (span (t :: rest)) (bodyItems fuel .members rest)]
      else commentItems t ++ bodyItems fuel kind rest
    else if kind = .constants then
      if t.is "," then commentItems t ++ bodyItems fuel kind rest
      else
        let (head, arguments, body, n) := constantShape (t :: rest)
        commentItems t ++
          .constant head (codeItems fuel arguments ++ bodyItems fuel .members body) ::
            bodyItems fuel kind (rest.drop (n - 1))
    else
      let front := many modifier (t :: rest)
      match typeHead? t.start front ((t :: rest).drop front.flatten.length) with
      | some (head, body, n) =>
        commentItems t ++
          .type head (bodyItems fuel (Body.ofKind head.kind) body) ::
            bodyItems fuel kind (rest.drop (front.flatten.length + n - 1))
      | none =>
        let (item, n) : Item × Nat :=
          match memberShape kind front (t :: rest) with
          | .block body n => (.code (span ((t :: rest).take n)) (codeItems fuel body), n)
          | .constructor head code n => (.constructor head (codeItems fuel code), n)
          | .method head code n => (.method head (codeItems fuel code), n)
          | .field head code n => (.field head (codeItems fuel code), n)
          | .unknown n => (.code (span ((t :: rest).take n)) [], n)
        commentItems t ++ item :: bodyItems fuel kind (rest.drop (n - 1))

/-- The classes declared inside statements and expressions. -/
def codeItems : Nat → List Tree → List Item
  | 0, _ => []
  | _ + 1, [] => []
  | fuel + 1, t :: rest =>
    if t.is "." && rest.head?.any (·.is "class") then codeItems fuel (rest.drop 1)
    else if t.is "new" then
      let r := rest.drop (angles rest)
      match r.drop (type r) with
      | arguments :: body :: after =>
        if arguments.isGroup "(" && body.isGroup "\x7b" then
          codeItems fuel arguments.items ++
            .code (span [t, body]) (bodyItems fuel .members body.items) :: codeItems fuel after
        else codeItems fuel rest
      | _ => codeItems fuel rest
    else
      match typeHead? t.start [] (t :: rest) with
      | some (head, body, n) =>
        .type head (bodyItems fuel (Body.ofKind head.kind) body) ::
          codeItems fuel (rest.drop (n - 1))
      | none => codeItems fuel t.items ++ codeItems fuel rest

end

/-- Words that begin a statement and look like a type in front of a name. -/
def statementWords : List String :=
  ["return", "throw", "assert", "yield", "new", "break", "continue", "else"]

/-- The first item of a unit, and the number of trees in it. -/
def unitItem (t : Tree) (rest : List Tree) : Item × Nat :=
  let ts := t :: rest
  let size := Tree.sizeAll ts
  let r := ts.drop (annotations ts)
  let isOpen := r.head?.any (·.is "open")
  let named := r.drop (if isOpen then 2 else 1)
  let name := named.take (dotted named)
  let front := many modifier ts
  if r.head?.any (·.is "package") then
    let n := through (·.is ";") ts
    (.package (span (ts.take n)) (Tree.text name), n)
  else if t.is "import" then
    let n := through (·.is ";") ts
    let isStatic := rest.head?.any (·.is "static")
    let path := if isStatic then rest.drop 1 else rest
    let stem := path.take (dotted path)
    let suffix := if (path.drop (stem.length + 1)).head?.any (·.is "*") then ".*" else ""
    (.imported (span (ts.take n)) (Tree.text stem ++ suffix) isStatic, n)
  else if (r.drop (if isOpen then 1 else 0)).head?.any (·.is "module") &&
      (named.drop name.length).head?.any (·.isGroup "\x7b") && !name.isEmpty then
    let n := through (·.isGroup "\x7b") ts
    (.module (span (ts.take n)) (Tree.text name), n)
  else
    match typeHead? t.start front (ts.drop front.flatten.length) with
    | some (head, body, n) =>
      (.type head (bodyItems size (Body.ofKind head.kind) body), front.flatten.length + n)
    | none =>
      let n := max 1 (statement size ts)
      let other : Item × Nat := (.code (span (ts.take n)) (codeItems size (ts.take n)), n)
      if statementWords.any fun w => t.is w then other
      else
        match memberShape .members front ts with
        | .method head code n => (.method head (codeItems size code), n)
        | _ => other

/-- The items of a unit. -/
def unitItems : Nat → List Tree → List Item
  | 0, _ => []
  | _ + 1, [] => []
  | fuel + 1, t :: rest =>
    if t.is ";" then commentItems t ++ unitItems fuel rest
    else
      let (item, n) := unitItem t rest
      commentItems t ++ item :: unitItems fuel (rest.drop (n - 1))

/-- The items of a source. -/
def items (source : Text.Bytes) : List Item :=
  let ts := Tree.ofSource source
  unitItems (Tree.sizeAll ts + 1) ts

end Apidoc.Java.Reader
