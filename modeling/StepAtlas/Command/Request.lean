import StepAtlas.Command.Options

/-
What a command line asks for.
-/

namespace StepAtlas

inductive Command where
  /-- Write a settings file for the project. -/
  | init
  /-- Report undefined, ambiguous and unused steps. -/
  | check (mode : Option Text) (strict : Bool)
  /-- List the definitions. -/
  | definitions
deriving DecidableEq, Repr

inductive Request where
  | help
  | version
  /-- Something that makes no sense. -/
  | unclear
  | command (c : Command)
deriving DecidableEq, Repr

namespace Request

def helpOption : CommandOption := { name := "--help", short := none, takesValue := false }

def versionOption : CommandOption := { name := "--version", short := none, takesValue := false }

def modeOption : CommandOption :=
  { name := "--mode", short := some (.scalar 'm'), takesValue := true }

def strictOption : CommandOption := { name := "--strict", short := none, takesValue := false }

/-- The options of the program itself that are answered before anything else; the first one
counts. -/
def answered? (given : List (Text × Text)) : Option Request :=
  given.findSome? fun (name, _) =>
    if name = helpOption.name then some .help
    else if name = versionOption.name then some .version
    else none

def commandOf? (name : Text) : Option (List CommandOption × (List (Text × Text) → Command)) :=
  if name = "init" then some ([helpOption], fun _ => .init)
  else if name = "check" then
    some ([modeOption, strictOption, helpOption], fun given =>
      .check (given.reverse.lookup modeOption.name)
        (given.any fun (name, _) => name = strictOption.name))
  else if name = "definitions" then some ([helpOption], fun _ => .definitions)
  else none

/-- Read the arguments of a command.  Asking for help counts before a superfluous argument. -/
def ofCommand (known : List CommandOption) (make : List (Text × Text) → Command)
    (args : List Text) : Request :=
  match CommandOption.split known true args with
  | none => .unclear
  | some { given, others } =>
    match answered? given with
    | some r => r
    | none => if others = [] then .command (make given) else .unclear

def options (args : List Text) : Option (Option Request × List Text) :=
  (CommandOption.split [versionOption, helpOption] false args).map fun a =>
    (answered? a.given, a.others)

/-- Read a command line.  In the place of the command, something that looks like an option is read
as one. -/
def ofArguments (args : List Text) : Request :=
  match options args with
  | none => .unclear
  | some (some r, _) => r
  | some (none, []) => .unclear
  | some (none, name :: rest) =>
    match commandOf? name with
    | some (known, make) => ofCommand known make rest
    | none =>
      if name.head? = some (.scalar '-') then
        match options (name :: rest) with
        | some (some r, _) => r
        | _ => .unclear
      else .unclear

end Request
end StepAtlas
