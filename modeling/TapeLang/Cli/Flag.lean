import TapeLang.Text.Numeral
import TapeLang.Text.Quoted

/-!
# Flags

A flag starts with one or two dashes. Its value comes after an equals sign or, unless the flag is a
switch, as the next argument. The flags end at the first other argument or after two dashes alone.

* `parseFlags`: the values of the flags that are given, and the arguments after them.
* `flagHelp`: a list of the flags, one entry for each.
-/

namespace TapeLang.Cli

/-- What a flag takes, and what it is if it is not given. -/
inductive FlagKind where
  /-- A switch. -/
  | bool (default : Bool)
  | string (default : String)
  | uint (default : Nat)
  deriving DecidableEq, Repr

structure Flag where
  name : String
  kind : FlagKind
  usage : String
  deriving DecidableEq, Repr

inductive FlagValue where
  | bool (value : Bool)
  | string (value : String)
  | uint (value : Nat)
  deriving DecidableEq, Repr

/-- Why arguments make no sense as flags. -/
inductive FlagError where
  | malformed (arg : String)
  | undefined (name : String)
  | needsValue (name : String)
  | badBool (value name : String)
  | badValue (value name : String) (error : Text.Numeral.Error)
  deriving DecidableEq, Repr

def FlagError.message : FlagError → String
  | malformed arg => "bad flag syntax: " ++ arg
  | undefined name => "flag provided but not defined: -" ++ name
  | needsValue name => "flag needs an argument: -" ++ name
  | badBool value name =>
    "invalid boolean value " ++ Text.quoted value ++ " for -" ++ name ++ ": parse error"
  | badValue value name error =>
    let reason := match error with
      | .malformed => "parse error"
      | .outOfRange => "value out of range"
    "invalid value " ++ Text.quoted value ++ " for flag -" ++ name ++ ": " ++ reason

/-- Why a command does not go on after its flags. -/
inductive FlagStop where
  /-- Help was asked for by a flag that is not one of the command. -/
  | help
  | error (error : FlagError)
  deriving DecidableEq, Repr

/-- What an argument is as far as its form goes. -/
inductive Argument where
  | operand
  /-- Two dashes alone. -/
  | endOfFlags
  | malformed
  | flag (name : String) (value : Option String)
  deriving DecidableEq, Repr

namespace Argument

/-- The part of a flag after its dashes. The name has at least one character. -/
def ofBody : List Char → Argument
  | [] => malformed
  | c :: cs =>
    if c = '-' ∨ c = '=' then malformed
    else
      let name := String.ofList (c :: cs.takeWhile (· ≠ '='))
      match cs.dropWhile (· ≠ '=') with
      | [] => flag name none
      | _ :: value => flag name (some (String.ofList value))

def ofString (arg : String) : Argument :=
  match arg.toList with
  | ['-', '-'] => endOfFlags
  | '-' :: '-' :: body => ofBody body
  | '-' :: c :: body => ofBody (c :: body)
  | _ => operand

end Argument

def parseBool? (s : String) : Option Bool :=
  if ["1", "t", "T", "TRUE", "true", "True"].contains s then some true
  else if ["0", "f", "F", "FALSE", "false", "False"].contains s then some false
  else none

namespace Flag

def isSwitch (f : Flag) : Bool :=
  match f.kind with
  | .bool _ => true
  | _ => false

/-- The value of a flag that is given as a text. -/
def valueOf (f : Flag) (s : String) : Except FlagError FlagValue :=
  match f.kind with
  | .bool _ =>
    match parseBool? s with
    | some b => .ok (.bool b)
    | none => .error (.badBool s f.name)
  | .string _ => .ok (.string s)
  | .uint _ =>
    match Text.Numeral.parse s.toList with
    | .ok n => .ok (.uint n)
    | .error e => .error (.badValue s f.name e)

end Flag

/-- The flags that are given, the last one first, and the arguments after them. -/
structure Flags where
  values : List (String × FlagValue) := []
  operands : List String := []
  deriving DecidableEq, Repr

namespace Flags

def bool? (f : Flags) (name : String) : Option Bool :=
  match f.values.lookup name with
  | some (.bool b) => some b
  | _ => none

def string? (f : Flags) (name : String) : Option String :=
  match f.values.lookup name with
  | some (.string s) => some s
  | _ => none

def uint? (f : Flags) (name : String) : Option Nat :=
  match f.values.lookup name with
  | some (.uint n) => some n
  | _ => none

end Flags

/-- Reads arguments after the flags with `values`. -/
def parseFlagsFrom (flags : List Flag) (values : List (String × FlagValue)) :
    List String → Except FlagStop Flags
  | [] => .ok { values }
  | arg :: rest =>
    match Argument.ofString arg with
    | .operand => .ok { values, operands := arg :: rest }
    | .endOfFlags => .ok { values, operands := rest }
    | .malformed => .error (.error (.malformed arg))
    | .flag name value =>
      match flags.find? fun f => f.name = name with
      | none =>
        if name = "help" ∨ name = "h" then .error .help else .error (.error (.undefined name))
      | some f =>
        match value <|> (if f.isSwitch then some "true" else none) with
        | some s =>
          match f.valueOf s with
          | .error e => .error (.error e)
          | .ok v => parseFlagsFrom flags ((name, v) :: values) rest
        | none =>
          match rest with
          | [] => .error (.error (.needsValue name))
          | s :: rest =>
            match f.valueOf s with
            | .error e => .error (.error e)
            | .ok v => parseFlagsFrom flags ((name, v) :: values) rest

/-- The flags at the start of some arguments. -/
def parseFlags (flags : List Flag) (args : List String) : Except FlagStop Flags :=
  parseFlagsFrom flags [] args

/-! ## Help -/

/-- What stands after the name of a flag that takes a value. -/
def FlagKind.placeholder : FlagKind → String
  | bool _ => ""
  | string _ => " string"
  | uint _ => " uint"

/-- What is said about the default, nothing if it is empty or zero. -/
def FlagKind.defaultNote : FlagKind → String
  | bool b => if b then " (default true)" else ""
  | string s => if s = "" then "" else " (default " ++ Text.quoted s ++ ")"
  | uint n => if n = 0 then "" else " (default " ++ toString n ++ ")"

/-- The entry for a flag. The usage of a switch of one letter is on the same line. -/
def Flag.help (f : Flag) : String :=
  let head := "  -" ++ f.name ++ f.kind.placeholder
  head ++ (if head.utf8ByteSize ≤ 4 then "\t" else "\n    \t") ++ f.usage ++ f.kind.defaultNote ++ "\n"

/-- The entries for some flags. -/
def flagHelp (flags : List Flag) : String :=
  String.join (flags.map Flag.help)

end TapeLang.Cli
