import OthelloBook.Text.Numeral

/-!
# Flags

How the arguments of a program are read. A subcommand comes first, then flags, each with a value
that follows it or is attached by an equals sign. A value is looked at when the next flag comes or
the arguments end, and whatever cannot be a flag or a value is refused at once.
-/
namespace OthelloBook

/-- Why arguments are not accepted, or ask for a text instead of work. -/
inductive UsageError where
  | displayHelp
  | displayVersion
  | missingSubcommand
  | invalidSubcommand
  | missingRequiredArgument
  | unknownArgument
  | argumentConflict
  | invalidValue
  | valueValidation
  | tooManyValues
  deriving DecidableEq, Repr

namespace UsageError

/-- Only a text that was asked for is no failure. -/
def exitCode : UsageError → Nat
  | .displayHelp => 0
  | .displayVersion => 0
  | _ => 2

end UsageError

/-- A flag, what values it takes, and whether it has to be given. -/
structure Flag where
  name : String
  check : String → Except UsageError Unit := fun _ => .ok ()
  required : Bool := false

abbrev Flags := List (String × String)

namespace Flag

/-- A flag whose value is a number within bounds. A number may have a sign. -/
def number (name : String) (low high : Nat) : Flag where
  name := name
  check v :=
    match Text.intUpTo? (1 <<< 63 - 1) v.toList with
    | some n => if (low : Int) ≤ n ∧ n ≤ high then .ok () else .error .valueValidation
    | none => .error .valueValidation

/-- A flag whose value is a number of 64 bits without a minus sign. -/
def large (name : String) : Flag where
  name := name
  check v := if (Text.natUpTo? (1 <<< 64 - 1) v.toList).isSome then .ok () else .error .valueValidation

def path (name : String) : Flag where
  name := name
  check v := if v.isEmpty then .error .invalidValue else .ok ()

end Flag

inductive ArgumentShape where
  | escape
  | long (name : String) (value : Option String)
  | short (first : Char)
  | plain
  deriving DecidableEq, Repr

def ArgumentShape.of (s : String) : ArgumentShape :=
  match s.toList with
  | ['-', '-'] => .escape
  | '-' :: '-' :: rest =>
    let (name, value) := Text.cutAt '=' rest
    .long (String.ofList name) (value.map String.ofList)
  | '-' :: c :: _ => .short c
  | _ => .plain

namespace Flags

/-- A flag whose value has not been looked at. -/
abbrev Pending := Option (Flag × Option String)

/-- Takes a flag with its value, if it has one that suits and has not been given before. -/
def settle (given : Flags) : Pending → Except UsageError Flags
  | none => .ok given
  | some (_, none) => .error .invalidValue
  | some (f, some v) =>
    if given.any fun g => g.1 = f.name then .error .argumentConflict
    else
      match f.check v with
      | .error e => .error e
      | .ok () => .ok (given ++ [(f.name, v)])

def readFrom (flags : List Flag) (given : Flags) (pending : Pending) :
    List String → Except UsageError Flags
  | [] => settle given pending
  | arg :: rest =>
    match ArgumentShape.of arg with
    | .escape => if rest.isEmpty then settle given pending else .error .unknownArgument
    | .short c =>
      if c = 'h' then (settle given pending).bind fun _ => .error .displayHelp
      else .error .unknownArgument
    | .plain =>
      match pending with
      | some (f, none) => readFrom flags given (some (f, some arg)) rest
      | _ => .error .unknownArgument
    | .long name value =>
      if name = "help" then
        if value.isSome then .error .tooManyValues
        else (settle given pending).bind fun _ => .error .displayHelp
      else
        match flags.find? fun f => f.name = name with
        | none => .error .unknownArgument
        | some f =>
          match settle given pending with
          | .error e => .error e
          | .ok given =>
            match value with
            | none => readFrom flags given (some (f, none)) rest
            | some v =>
              match settle given (some (f, some v)) with
              | .error e => .error e
              | .ok given => readFrom flags given none rest

/-- Reads the arguments of a subcommand; all required flags have to be given. -/
def read (flags : List Flag) (args : List String) : Except UsageError Flags :=
  match readFrom flags [] none args with
  | .error e => .error e
  | .ok given =>
    if flags.all fun f => !f.required || given.any fun g => g.1 = f.name then .ok given
    else .error .missingRequiredArgument

def value? (given : Flags) (name : String) : Option String :=
  (given.find? fun g => g.1 = name).map Prod.snd

def text (given : Flags) (name default : String) : String := (given.value? name).getD default

def number? (given : Flags) (name : String) : Option Nat :=
  (given.value? name).bind fun v => (Text.intUpTo? (1 <<< 64 - 1) v.toList).map Int.toNat

def number (given : Flags) (name : String) (default : Nat) : Nat :=
  (given.number? name).getD default

end Flags

def subcommand (names : List String) : List String → Except UsageError (String × List String)
  | [] => .error .missingSubcommand
  | arg :: rest =>
    if arg ∈ names then .ok (arg, rest)
    else if arg = "help" then
      match rest with
      | [] => .error .displayHelp
      | [name] => .error (if name ∈ "help" :: names then .displayHelp else .invalidSubcommand)
      | _ => .error .invalidSubcommand
    else
      match ArgumentShape.of arg with
      | .escape =>
        match rest with
        | [] => .error .missingSubcommand
        | name :: _ =>
          .error (if name ∈ "help" :: names then .unknownArgument else .invalidSubcommand)
      | .short c =>
        .error (if c = 'h' then .displayHelp else if c = 'V' then .displayVersion
          else .unknownArgument)
      | .long name value =>
        if name = "help" ∨ name = "version" then
          .error (if value.isSome then .tooManyValues
            else if name = "help" then .displayHelp else .displayVersion)
        else .error .unknownArgument
      | .plain => .error .invalidSubcommand

end OthelloBook
