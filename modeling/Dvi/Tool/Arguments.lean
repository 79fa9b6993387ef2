/-!
# Command lines

A command line is a list of arguments: options, their values, and operands. What is understood is laid down
by a `Usage`, which says for each option what it does to the settings of a tool.

* `Usage.items`: what the arguments spell, one after the other. An option is written with two hyphens and a
  name, or with one hyphen and a letter; letters may stand together. A value follows an equals sign, or a
  letter directly, or is the next argument, which then **may not look like an option**. After two hyphens
  alone there are operands only;
* `Usage.read`: the settings that the items bring about, from left to right. **The first thing that is wrong
  or that asks for help or for the version decides.**
-/

namespace Dvi.Tool

/-- What an option does to settings, and how often it may stand. -/
inductive Action (σ : Type) where
  /-- no value, at most once -/
  | flag (set : σ → σ)
  /-- a value, at most once; not every value is taken -/
  | single (set : String → σ → Option σ)
  /-- a value, any number of times -/
  | repeated (add : String → σ → Option σ)
  | help
  | version

/-- An option: its name, its letter, its meaning, and words for the help. -/
structure OptionForm (σ : Type) where
  name : String
  letter : Option Char := none
  action : Action σ
  /-- what its value is called -/
  value : String := ""
  purpose : String

/-- All that a tool understands. -/
structure Usage (σ : Type) where
  tool : String
  version : String
  purpose : String
  /-- how the operands are called -/
  operands : String
  options : List (OptionForm σ)
  /-- takes an operand, if it is welcome -/
  takeOperand : String → σ → Option σ
  /-- nothing that has to be given is missing -/
  isComplete : σ → Bool

/-- What one or two arguments spell. -/
inductive Item (σ : Type) where
  | plain (o : OptionForm σ)
  | valued (o : OptionForm σ) (value : String)
  | operand (text : String)
  | invalid

/-- What a command line asks for. -/
inductive Request (σ : Type) where
  | run (settings : σ)
  | help
  | version
  | invalid

/-- No value follows the option. -/
def Action.isPlain {σ : Type} : Action σ → Bool
  | .flag _ | .help | .version => true
  | .single _ | .repeated _ => false

namespace Usage

variable {σ : Type}

/-- What is spelled, and the option whose value is the next argument. -/
abbrev Spelled (σ : Type) := List (Item σ) × Option (OptionForm σ)

/-- Letters behind one hyphen. -/
def letters (u : Usage σ) : List Char → Spelled σ
  | [] => ([], none)
  | c :: rest =>
    match u.options.find? (·.letter == some c) with
    | none => ([.invalid], none)
    | some o =>
      if o.action.isPlain then
        let (items, pending) := u.letters rest
        (.plain o :: items, pending)
      else
        match rest with
        | [] => ([], some o)
        | '=' :: value => ([.valued o (String.ofList value)], none)
        | value => ([.valued o (String.ofList value)], none)

/-- A name behind two hyphens, and a value behind an equals sign. -/
def name (u : Usage σ) (cs : List Char) : Spelled σ :=
  let wanted := String.ofList (cs.takeWhile (· != '='))
  match u.options.find? (·.name == wanted), cs.dropWhile (· != '=') with
  | none, _ => ([.invalid], none)
  | some o, [] => if o.action.isPlain then ([.plain o], none) else ([], some o)
  | some o, _ :: value =>
    if o.action.isPlain then ([.invalid], none) else ([.valued o (String.ofList value)], none)

/-- An argument that is not the value of an option before it. One hyphen alone is an operand. -/
def argument (u : Usage σ) (a : String) : Spelled σ :=
  match a.toList with
  | '-' :: '-' :: cs => u.name cs
  | '-' :: c :: cs => u.letters (c :: cs)
  | _ => ([.operand a], none)

/-- The argument can be the value of an option. -/
def isValue (a : String) : Bool :=
  match a.toList with
  | '-' :: _ :: _ => false
  | _ => true

/-- What arguments spell, where an option may be waiting for its value. -/
def itemsFrom (u : Usage σ) : Option (OptionForm σ) → List String → List (Item σ)
  | none, [] => []
  | some _, [] => [.invalid]
  | some o, a :: rest => if isValue a then .valued o a :: u.itemsFrom none rest else [.invalid]
  | none, a :: rest =>
    if a = "--" then rest.map .operand
    else
      let (items, pending) := u.argument a
      items ++ u.itemsFrom pending rest

/-- The items of a command line. -/
def items (u : Usage σ) (arguments : List String) : List (Item σ) := u.itemsFrom none arguments

/-- The settings after items, where `seen` are the options that may not stand again. -/
def readFrom (u : Usage σ) (seen : List String) (s : σ) : List (Item σ) → Request σ
  | [] => if u.isComplete s then .run s else .invalid
  | .invalid :: _ => .invalid
  | .operand text :: rest =>
    match u.takeOperand text s with
    | some s => u.readFrom seen s rest
    | none => .invalid
  | .plain o :: rest =>
    match o.action with
    | .help => .help
    | .version => .version
    | .flag set => if seen.contains o.name then .invalid else u.readFrom (o.name :: seen) (set s) rest
    | _ => .invalid
  | .valued o value :: rest =>
    match o.action with
    | .single set =>
      if seen.contains o.name then .invalid
      else
        match set value s with
        | some s => u.readFrom (o.name :: seen) s rest
        | none => .invalid
    | .repeated add =>
      match add value s with
      | some s => u.readFrom seen s rest
      | none => .invalid
    | _ => .invalid

/-- What a command line asks for, given the settings that hold without options. -/
def read (u : Usage σ) (s : σ) (arguments : List String) : Request σ := u.readFrom [] s (u.items arguments)

/-! ## Texts -/

/-- The answer to a question for the version. -/
def versionText (u : Usage σ) : String := u.tool ++ " " ++ u.version ++ "\n"

/-- The text that shows how the tool is called. -/
def callText (u : Usage σ) : String := "Usage: " ++ u.tool ++ " [OPTIONS] " ++ u.operands ++ "\n"

/-- How an option is written. Options without a letter leave its place free. -/
def spelling (o : OptionForm σ) : String :=
  let front := match o.letter with
    | some c => "-" ++ c.toString ++ ", "
    | none => "    "
  let value := if o.value.isEmpty then "" else " <" ++ o.value ++ ">"
  "  " ++ front ++ "--" ++ o.name ++ value

/-- The answer to a question for help. -/
def helpText (u : Usage σ) : String :=
  u.purpose ++ "\n\n" ++ u.callText ++ "\nOptions:\n" ++
    String.join (u.options.map fun o => spelling o ++ "\n          " ++ o.purpose ++ "\n")

/-- The text for a command line that is not understood. -/
def invalidText (u : Usage σ) : String :=
  "error: invalid arguments\n\n" ++ u.callText ++ "\nFor more information, try '--help'.\n"

end Usage

end Dvi.Tool
