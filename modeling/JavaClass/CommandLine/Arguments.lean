/-
The words of a command line. Words behind two hyphens are switches and settings by name, words
behind one hyphen are a row of them by letter, and every other word is an operand. A setting takes a
value: what stands behind its name and an equals sign, or behind its letter with or without one, or
else the next word, if that does not begin with a hyphen itself. A word of two hyphens alone makes
operands of all words behind it.

The first operand is the name of a command. Switches may stand before and behind it, settings only
behind it, and what is left are the command's own operands.
-/

import JavaClass.Enhancement.Plan

namespace JavaClass.CommandLine

open Enhancement (AddedField)

/-! ### Words -/

/-- What is on if it is mentioned. -/
inductive Switch
  | verbose
  | plain
  deriving DecidableEq, Repr

/-- What has a value. -/
inductive Setting
  | output
  | interface
  | addField
  | manage
  deriving DecidableEq, Repr

/-- The switch of a name. -/
def Switch.ofName? : String → Option Switch
  | "verbose" => some .verbose
  | "plain" => some .plain
  | _ => none

/-- The switch of a letter. -/
def Switch.ofLetter? : Char → Option Switch
  | 'v' => some .verbose
  | _ => none

/-- The setting of a name. -/
def Setting.ofName? : String → Option Setting
  | "output" => some .output
  | "interface" => some .interface
  | "add-field" => some .addField
  | "manage" => some .manage
  | _ => none

/-- The setting of a letter. -/
def Setting.ofLetter? : Char → Option Setting
  | 'o' => some .output
  | _ => none

/-- What a command line consists of. -/
inductive Item
  | switch (switch : Switch)
  | setting (setting : Setting) (value : String)
  | operand (text : String)
  deriving DecidableEq, Repr

/-- What a word that begins with a hyphen says: some items and, at its end, perhaps a setting whose
value is the next word. -/
structure Word where
  items : List Item
  pending : Option Setting
  deriving DecidableEq, Repr

/-- Reads what stands behind two hyphens. -/
def Word.ofName? (known : List Setting) (characters : List Char) : Option Word :=
  let name := String.ofList (characters.takeWhile (· != '='))
  let value := characters.dropWhile (· != '=')
  match Switch.ofName? name, Setting.ofName? name with
  | some switch, _ => if value.isEmpty then some ⟨[.switch switch], none⟩ else none
  | none, some setting =>
    if !known.contains setting then none
    else
      match value with
      | [] => some ⟨[], some setting⟩
      | _ :: value => some ⟨[.setting setting (String.ofList value)], none⟩
  | none, none => none

/-- Reads what stands behind one hyphen. -/
def Word.ofLetters? (known : List Setting) : List Char → Option Word
  | [] => some ⟨[], none⟩
  | letter :: rest =>
    match Switch.ofLetter? letter, Setting.ofLetter? letter with
    | some switch, _ =>
      (ofLetters? known rest).map fun word => { word with items := .switch switch :: word.items }
    | none, some setting =>
      if !known.contains setting then none
      else
        match rest with
        | [] => some ⟨[], some setting⟩
        | '=' :: value => some ⟨[.setting setting (String.ofList value)], none⟩
        | value => some ⟨[.setting setting (String.ofList value)], none⟩
    | none, none => none

/-- Whether a word is an operand or a value: it does not begin with a hyphen, or it is one. -/
def isPlainWord : List Char → Bool
  | ['-'] => true
  | '-' :: _ => false
  | _ => true

/-- Reads a word that begins with a hyphen. -/
def Word.ofCharacters? (known : List Setting) : List Char → Option Word
  | '-' :: '-' :: name => ofName? known name
  | '-' :: letters => ofLetters? known letters
  | _ => none

/-- Reads words as items, of which only the `known` settings may be mentioned. A `pending` setting
takes the next word. -/
def readItems (known : List Setting) : Option Setting → List String → Option (List Item)
  | none, [] => some []
  | some _, [] => none
  | pending, word :: rest =>
    let characters := word.toList
    match pending, isPlainWord characters with
    | some setting, true => (readItems known none rest).map (.setting setting word :: ·)
    | none, true => (readItems known none rest).map (.operand word :: ·)
    | some _, false => none
    | none, false =>
      if characters = ['-', '-'] then some (rest.map .operand)
      else do
        let read ← Word.ofCharacters? known characters
        return read.items ++ (← readItems known read.pending rest)

/-- Splits a command line into the switches before the name of a command, that name, and what
stands behind it. -/
def splitCommand : List String → Option (List Item × String × List String)
  | [] => none
  | word :: rest =>
    let characters := word.toList
    if isPlainWord characters then some ([], word, rest)
    else if characters = ['-', '-'] then none
    else do
      let read ← Word.ofCharacters? [] characters
      let (items, command, rest) ← splitCommand rest
      return (read.items ++ items, command, rest)

/-! ### Commands -/

/-- What is to be done. -/
inductive Command
  /-- Shows the listing of a class file. -/
  | print (file : String)
  /-- Checks that class files are written the way they were read. -/
  | verify (files : List String)
  /-- Carries out a plan on a class file and writes the result to another. -/
  | enhance (file output : String) (interfaces : List String) (fields : List AddedField)
      (managed : List String)
  deriving DecidableEq, Repr

/-- A command line that has been understood. -/
structure Arguments where
  command : Command
  verbose : Bool
  plain : Bool
  deriving DecidableEq, Repr

/-- The operands among items. -/
def operands (items : List Item) : List String :=
  items.filterMap fun | .operand text => some text | _ => none

/-- The values of a setting among items. -/
def valuesOf (wanted : Setting) (items : List Item) : List String :=
  items.filterMap fun
    | .setting setting value => if setting = wanted then some value else none
    | _ => none

/-- How often a switch is mentioned. -/
def countSwitch (switch : Switch) (items : List Item) : Nat := items.count (.switch switch)

/-- Whether every switch is mentioned at most once. -/
def switchesOnce (items : List Item) : Bool :=
  countSwitch .verbose items ≤ 1 && countSwitch .plain items ≤ 1

/-- The field to add that a value describes, by its name and descriptor around a colon. It is for
the class alone to use. -/
def addedField? (value : String) : Option AddedField :=
  let characters := value.toList
  let name := characters.takeWhile (· != ':')
  match characters.dropWhile (· != ':') with
  | [] => none
  | _ :: descriptor =>
    if name.isEmpty || descriptor.isEmpty then none
    else some { name := String.ofList name, descriptor := String.ofList descriptor
                flags := FieldFlags.accPrivate }

/-- The settings a command has. -/
def settingsOf : String → List Setting
  | "enhance" => [.output, .interface, .addField, .manage]
  | _ => []

/-- The command of a name, with the items that stand behind it. File names must not be empty. -/
def command? (name : String) (items : List Item) : Option Command :=
  let files := operands items
  if files.contains "" then none
  else
    match name, files with
    | "print", [file] => some (.print file)
    | "verify", _ :: _ => some (.verify files)
    | "enhance", [file] => do
      let [output] := valuesOf .output items | none
      if output = "" then none
      let fields ← (valuesOf .addField items).mapM addedField?
      return .enhance file output (valuesOf .interface items) fields (valuesOf .manage items)
    | _, _ => none

/-- What a command line says; nothing if it is not a valid one. -/
def Arguments.parse? (words : List String) : Option Arguments := do
  let (before, name, rest) ← splitCommand words
  let behind ← readItems (settingsOf name) none rest
  if !(switchesOnce before && switchesOnce behind) then none
  let command ← command? name behind
  return { command
           verbose := 0 < countSwitch .verbose (before ++ behind)
           plain := 0 < countSwitch .plain (before ++ behind) }

end JavaClass.CommandLine
