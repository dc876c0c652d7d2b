import VideoFingerprint.CommandLine.Grammar

/-!
Reading a command line under a grammar. Words are taken from left to right. An option that
takes a value, and a path without a name, are only settled when the next argument comes, so a
fault of theirs is reported after an unknown name that follows them. A command is read to its
end before the rest of the program's own arguments is settled.
-/

namespace VideoFingerprint.CommandLine

/-! ### Words -/

/-- What a word looks like: the mark after which all words are paths, an option by its long
name, letters of options, which are bytes, or anything else. -/
inductive Word
  | escape
  | long (name : FilePath) (value : Option FilePath)
  | letters (c : UInt8) (cs : List UInt8)
  | plain

def dash : UInt8 := 0x2D

def equalsSign : UInt8 := 0x3D

/-- The part of a long option after its name: the value after an equals sign,
if there is one. -/
def valueAfterName : List UInt8 → Option FilePath
  | [] => none
  | _ :: value => some ⟨value⟩

def Word.ofBytes : List UInt8 → Word
  | first :: second :: cs =>
    if first ≠ dash then .plain
    else if second ≠ dash then .letters second cs
    else if cs.isEmpty then .escape
    else .long ⟨cs.takeWhile (· ≠ equalsSign)⟩ (valueAfterName (cs.dropWhile (· ≠ equalsSign)))
  | _ => .plain

/-! ### Settling arguments -/

/-- An argument that has not been settled; its value may still be to come. -/
structure Pending where
  argument : Argument
  kind : ValueKind
  value : Option FilePath

/-- What has been read: the settled arguments in order, an argument that is pending, whether
the path without a name has been given, and whether all further words are paths. -/
structure Matches where
  given : List (Argument × Given)
  pending : Option Pending
  positionalTaken : Bool
  escaped : Bool

namespace Matches

def empty : Matches := ⟨[], none, false, false⟩

def find? (m : Matches) (a : Argument) : Option Given := m.given.lookup a

def has (m : Matches) (a : Argument) : Bool := (m.find? a).isSome

/-- Adds an argument, which must not have been given before. -/
def add (m : Matches) (a : Argument) (g : Given) : Except UsageError Matches :=
  if m.has a then .error .conflict else .ok { m with given := m.given ++ [(a, g)] }

/-- Adds an argument with a value. That it comes twice is noticed before a value that
cannot be read. -/
def addValue (m : Matches) (a : Argument) (kind : ValueKind) (word : FilePath) :
    Except UsageError Matches :=
  if m.has a then .error .conflict
  else match kind.read word with
    | .error e => .error e
    | .ok g => m.add a g

def settle (m : Matches) : Except UsageError Matches :=
  match m.pending with
  | none => .ok m
  | some ⟨_, _, none⟩ => .error .invalidValue
  | some ⟨a, kind, some word⟩ => { m with pending := none }.addValue a kind word

def awaiting? (m : Matches) : Option Pending := m.pending.filter fun p => p.value.isNone

/-- Takes an option, with a value if one is attached to it. -/
def takeOption (m : Matches) (o : OptionForm) (attached : Option FilePath) :
    Except UsageError Matches :=
  match o.kind, attached with
  | none, some _ => .error .unexpectedValue
  | none, none => do
    let m ← m.settle
    match o.argument with
    | .help => .error .helpRequested
    | .version => .error .versionRequested
    | a => m.add a .present
  | some kind, some word => do
    let m ← m.settle
    m.addValue o.argument kind word
  | some kind, none => do
    let m ← m.settle
    return { m with pending := some ⟨o.argument, kind, none⟩ }

/-- The value that is attached to the letter of an option; an equals sign may
stand between them. -/
def attachedTo : List UInt8 → Option FilePath
  | [] => none
  | c :: cs => some ⟨if c = equalsSign then cs else c :: cs⟩

/-- Takes options given by their letters. Flags may share a word; the rest of the word after an
option that takes a value is its value. -/
def takeLetters (g : Grammar) (m : Matches) : List UInt8 → Except UsageError Matches
  | [] => .ok m
  | c :: cs =>
    match g.options.find? fun o => o.letter = some (Char.ofNat c.toNat) with
    | none => .error .unknownArgument
    | some o =>
      if o.kind.isSome then m.takeOption o (attachedTo cs)
      else do
        let m ← m.takeOption o none
        takeLetters g m cs

/-- Takes a word that is no option: the value of the option before it, or the path
without a name. -/
def takePlain (g : Grammar) (m : Matches) (word : FilePath) : Except UsageError Matches :=
  match (if m.escaped then none else m.awaiting?), g.positional with
  | some p, _ => .ok { m with pending := some { p with value := some word } }
  | none, some a =>
    if m.positionalTaken then .error .unknownArgument
    else do
      let m ← m.settle
      return { m with pending := some ⟨a, .path, some word⟩, positionalTaken := true }
  | none, none =>
    .error (if m.escaped ∧ (g.command? word).isSome then .unknownArgument else .unknownCommand)

def takeWord (g : Grammar) (m : Matches) (word : FilePath) : Except UsageError Matches :=
  if m.escaped then m.takePlain g word
  else match Word.ofBytes word.bytes with
    | .escape => .ok { m with escaped := true }
    | .long name value =>
      match g.options.find? fun o => FilePath.ofText o.long = name with
      | some o => m.takeOption o value
      | none => .error .unknownArgument
    | .letters c cs => m.takeLetters g (c :: cs)
    | .plain => m.takePlain g word

/-- The command that starts with a word: words after the escape and values of options start
none. -/
def commandAt? (g : Grammar) (m : Matches) (word : FilePath) : Option String :=
  if m.escaped ∨ m.awaiting?.isSome then none else g.command? word

/-- Takes words up to a command; gives the command with the words after it. -/
def takeWords (g : Grammar) (m : Matches) :
    List FilePath → Except UsageError (Matches × Option (String × List FilePath))
  | [] => .ok (m, none)
  | word :: rest =>
    match m.commandAt? g word with
    | some name => .ok (m, some (name, rest))
    | none => do
      let m ← m.takeWord g word
      takeWords g m rest

/-! ### Checking what was given -/

/-- Checks that no two arguments exclude each other, and then that nothing is missing. -/
def check (g : Grammar) (m : Matches) : Except UsageError Matches :=
  if g.conflicts.any fun (a, b) => m.has a ∧ m.has b then .error .conflict
  else if g.required.all fun group => group.any m.has then .ok m
  else .error .missingArgument

def ofWords (g : Grammar) (words : List FilePath) : Except UsageError Matches := do
  let (m, _) ← empty.takeWords g words
  let m ← m.settle
  m.check g

end Matches

/-! ### The whole command line -/

def commandGrammar? : String → Option Grammar
  | "hash" => some .hash
  | "compare" => some .compare
  | "search" => some .search
  | _ => none

/-- What comes of asking for an explanation of commands: at most one may be named. -/
def explain : List FilePath → UsageError
  | [] => .helpRequested
  | [word] =>
      if (Grammar.program.command? word).isSome then .helpRequested else .unknownCommand
  | _ => .unknownCommand

/-- A command line: the arguments of the program, and the command with its own arguments. -/
structure Invocation where
  program : Matches
  command : String
  arguments : Matches

def Invocation.ofWords (words : List FilePath) : Except UsageError Invocation := do
  match ← Matches.empty.takeWords .program words with
  | (m, none) =>
    let m ← m.settle
    throw (if m.given.isEmpty then .nothingGiven else .missingCommand)
  | (m, some (name, rest)) =>
    match commandGrammar? name with
    | none => throw (explain rest)
    | some g =>
      let arguments ← Matches.ofWords g rest
      let m ← m.settle
      return ⟨← m.check .program, name, arguments⟩

/-- The value of an argument: what stands after the command counts before what stands
in front of it. -/
def Invocation.find? (i : Invocation) (a : Argument) : Option Given :=
  (i.arguments.find? a).or (i.program.find? a)

end VideoFingerprint.CommandLine
