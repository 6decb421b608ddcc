import Apidoc.Text.Blank
import Apidoc.Text.Quoted

/-!
# `Apidoc.CommandLine.Grammar`: options and plain words

A command line is a list of words. A word that begins with a hyphen is an option, by its full name or
by a beginning of it that only one option has; its value stands in the same word after `=`, or is the
next word. Negative numbers, words with a blank that are no option, and all words after `--` are
plain.
-/

set_option autoImplicit false

namespace Apidoc.CommandLine

open Apidoc.Text (quotedString)

/-- An option: its names, and whether it has a value. -/
structure Switch (κ : Type) where
  key : κ
  names : List String
  takesValue : Bool

namespace Switch

/-- What messages call the option. -/
def title {κ : Type} (s : Switch κ) : String := "/".intercalate s.names

end Switch

/-- What is wrong with a command line. -/
inductive Fault where
  | ambiguous (word : String) (names : List String)
  | missingValue (title : String)
  | unusedValue (title value : String)
  | notAChoice (title value : String) (choices : List String)
  | notANumber (title value : String)
  | unrecognized (words : List String)
  deriving DecidableEq, Repr

namespace Fault

/-- What is wrong, in words. -/
def message : Fault → String
  | ambiguous word names =>
    let all := ", ".intercalate names
    s!"ambiguous option: {word} could match {all}"
  | missingValue title => s!"argument {title}: expected one argument"
  | unusedValue title value =>
    s!"argument {title}: ignored explicit argument {quotedString value}"
  | notAChoice title value choices =>
    let all := ", ".intercalate (choices.map quotedString)
    s!"argument {title}: invalid choice: {quotedString value} (choose from {all})"
  | notANumber title value => s!"argument {title}: invalid float value: {quotedString value}"
  | unrecognized words => "unrecognized arguments: " ++ " ".intercalate words

end Fault

/-! ### Kinds of words -/

/-- What a word is. -/
inductive Word (κ : Type) where
  | plain
  /-- The word `--`. -/
  | separator
  /-- An option under one of its names, with the value that stands in the same word. -/
  | switch (s : Switch κ) (name : String) (value : Option String)
  /-- An option that there is not. -/
  | unknown

namespace Word

/-- Whether a word is no option. -/
def isPlain {κ : Type} : Word κ → Bool
  | plain | separator => true
  | switch .. | unknown => false

end Word

/-- The word after which all words are plain. -/
def separatorText : String := "--"

/-- Whether a text is a negative number without an exponent. -/
def isNegativeNumber (cs : List Char) : Bool :=
  match cs with
  | '-' :: unsigned =>
    let (whole, fraction) := Text.cutAt '.' unsigned
    let digits (cs : List Char) : Bool := cs.all fun c => (Text.digitValue? c).isSome
    match fraction with
    | none => whole ≠ [] && digits whole
    | some fraction => digits whole && fraction ≠ [] && digits fraction
  | _ => false

/-- The options of a command. -/
abbrev Switches (κ : Type) := List (Switch κ)

namespace Switches

variable {κ : Type}

/-- Every name with its option. -/
def named (g : Switches κ) : List (String × Switch κ) :=
  g.flatMap fun s => s.names.map fun name => (name, s)

/-- The option with a name. -/
def find? (g : Switches κ) (name : String) : Option (Switch κ) :=
  (g.named.find? (·.1 = name)).map (·.2)

/-- The options that a word with a hyphen in front may mean. A long name may be cut short. A short name
is one letter, and what follows it is its value. -/
def candidates (g : Switches κ) (word : List Char) : List (String × Word κ) :=
  match word with
  | '-' :: '-' :: _ =>
    let (name, value) := Text.cutAt '=' word
    (g.named.filter fun n => name.isPrefixOf n.1.toList).map fun n =>
      (n.1, .switch n.2 n.1 (value.map String.ofList))
  | '-' :: letter :: rest =>
    (g.named.filter fun n => n.1.toList = ['-', letter]).map fun n =>
      (n.1, .switch n.2 n.1 (some (String.ofList rest)))
  | _ => []

/-- What a word is that does not come after a separator. -/
def classify (g : Switches κ) (text : String) : Except Fault (Word κ) :=
  let word := text.toList
  let (name, value) := Text.cutAt '=' word
  if text = separatorText then .ok .separator
  else if word.head? ≠ some '-' then .ok .plain
  else
    match g.find? text, g.find? (String.ofList name), value with
    | some s, _, _ => .ok (.switch s text none)
    | none, some s, some value => .ok (.switch s (String.ofList name) (some (String.ofList value)))
    | _, _, _ =>
      if word.length = 1 then .ok .plain
      else
        match g.candidates word with
        | [(_, found)] => .ok found
        | [] => .ok (if isNegativeNumber word ∨ ' ' ∈ word then .plain else .unknown)
        | several => .error (.ambiguous text (several.map (·.1)))

/-- The words with what they are. -/
def classifyAll (g : Switches κ) : List String → Except Fault (List (String × Word κ))
  | [] => .ok []
  | text :: rest => do
    match ← g.classify text with
    | .separator => return (text, .separator) :: rest.map fun t => (t, .plain)
    | word => return (text, word) :: (← g.classifyAll rest)

/-- The flags that share a word with `s`, up to the last one. An option with a value takes what stands
after it. -/
def cluster (g : Switches κ) (s : Switch κ) :
    List Char → Except Fault (List (Switch κ) × Switch κ × Option String)
  | [] => .ok ([], s, none)
  | letter :: rest =>
    if s.takesValue then .ok ([], s, some (String.ofList (letter :: rest)))
    else
      match g.find? (String.ofList ['-', letter]) with
      | some next => do
        let (flags, last, value) ← g.cluster next rest
        return (s :: flags, last, value)
      | none => .error (.unusedValue s.title (String.ofList (letter :: rest)))

/-- The options that one word stands for: flags, and a last one with the value that stands in the
word. Only short options share a word. -/
def expand (g : Switches κ) (s : Switch κ) (name : String) :
    Option String → Except Fault (List (Switch κ) × Switch κ × Option String)
  | none => .ok ([], s, none)
  | some value =>
    let isLong := separatorText.toList.isPrefixOf name.toList
    if s.takesValue then .ok ([], s, some value)
    else if isLong ∨ value = "" then .error (.unusedValue s.title value)
    else g.cluster s value.toList

end Switches

/-! ### Reading a command line -/

/-- What a command does with plain words. -/
inductive Plain where
  /-- The first plain word takes all words after it with it, options included. -/
  | takesRest
  /-- The first run of plain words belongs together. -/
  | takesRun
  deriving DecidableEq, Repr

/-- What a command line is read as, in order. -/
inductive Event (κ : Type) where
  | flag (key : κ)
  | value (s : Switch κ) (text : String)
  /-- The plain words of the command. -/
  | plain (words : List String)
  /-- A word that the command has no use for. -/
  | extra (word : String)
  /-- Where reading ends because the command line is wrong. -/
  | fault (f : Fault)

namespace Event

variable {κ : Type}

/-- The text of the first word, if it is plain. -/
def nextPlain? : List (String × Word κ) → Option String
  | (text, .plain) :: _ => some text
  | _ => none

/-- Reads words. `isOpen` says that plain words have not come yet. -/
def ofWords (g : Switches κ) (p : Plain) (isOpen : Bool) : List (String × Word κ) → List (Event κ)
  | [] => if isOpen then [.plain []] else []
  | (text, .unknown) :: rest => .extra text :: ofWords g p isOpen rest
  | (_, .switch s name inWord) :: rest =>
    match g.expand s name inWord with
    | .error f => [.fault f]
    | .ok (flags, last, inWord) =>
      let before := flags.map fun flag => Event.flag flag.key
      match last.takesValue, inWord, nextPlain? rest with
      | false, _, _ => before ++ .flag last.key :: ofWords g p isOpen rest
      | true, some text, _ => before ++ .value last text :: ofWords g p isOpen rest
      | true, none, some text => before ++ .value last text :: ofWords g p isOpen (rest.drop 1)
      | true, none, none => [.fault (.missingValue last.title)]
  | (text, .plain) :: rest | (text, .separator) :: rest =>
    if !isOpen then .extra text :: ofWords g p isOpen rest
    else
      match p with
      | .takesRest =>
        if text = separatorText ∧ rest.isEmpty then [.extra text, .plain []]
        else [.plain (text :: rest.map (·.1))]
      | .takesRun =>
        .plain (text :: (rest.takeWhile (·.2.isPlain)).map (·.1)) ::
          ofWords g p false (rest.dropWhile (·.2.isPlain))
  termination_by words => words.length
  decreasing_by
    all_goals
      have := (List.dropWhile_sublist (fun w : String × Word κ => w.2.isPlain) (l := rest)).length_le
      simp only [List.length_cons, List.length_drop]
      omega

/-- Reads a command line. -/
def read (g : Switches κ) (p : Plain) (words : List String) : List (Event κ) :=
  match g.classifyAll words with
  | .ok words => ofWords g p true words
  | .error f => [.fault f]

end Event

end Apidoc.CommandLine
