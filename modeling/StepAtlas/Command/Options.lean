import StepAtlas.Text.Basic

/-
Options on a command line.  An option has a long name after two dashes and may have a short one, a
single code point after one dash.  A value follows a long name after an equals sign or as the next
argument, and a short name directly or as the next argument.  Two dashes alone end the options.
-/

namespace StepAtlas

structure CommandOption where
  name : Text
  short : Option CodePoint
  takesValue : Bool
deriving DecidableEq, Repr

namespace CommandOption

/-- What an argument says: the options that it gives, by their names and with their values, and the
option whose value is the next argument. -/
structure Reading where
  given : List (Text × Text)
  open? : Option Text
deriving DecidableEq, Repr

def readShort (known : List CommandOption) : Text → Option Reading
  | [] => some { given := [], open? := none }
  | p :: rest =>
    match known.find? (·.short = some p) with
    | none => none
    | some o =>
      if !o.takesValue then (readShort known rest).map fun r =>
        { r with given := (o.name, []) :: r.given }
      else if rest = [] then some { given := [], open? := some o.name }
      else some { given := [(o.name, rest)], open? := none }

def read (known : List CommandOption) (arg : Text) : Option Reading :=
  let name := arg.takeWhile (· ≠ .scalar '=')
  let value? := match arg.drop name.length with
    | [] => none
    | _ :: value => some value
  match known.find? (·.name = name), value? with
  | some o, some value =>
    if o.takesValue then some { given := [(o.name, value)], open? := none } else none
  | some o, none =>
    if o.takesValue then some { given := [], open? := some o.name }
    else some { given := [(o.name, [])], open? := none }
  | none, _ => if Text.startsWith arg "--" then none else readShort known (arg.drop 1)

def isOption (arg : Text) : Bool := arg.head? = some (.scalar '-') && 1 < arg.length

structure Arguments where
  given : List (Text × Text)
  others : List Text
deriving DecidableEq, Repr

/-- Split a command line.  If options may stand only in front, the first other argument ends them.
There is no result if an option is not known, lacks its value or has one that it does not take. -/
def split (known : List CommandOption) (anywhere : Bool) : List Text → Option Arguments
  | [] => some { given := [], others := [] }
  | arg :: rest =>
    if arg = "--" then some { given := [], others := rest }
    else if isOption arg then
      match read known arg with
      | none => none
      | some { given, open? := none } =>
        (split known anywhere rest).map fun a => { a with given := given ++ a.given }
      | some { given, open? := some name } =>
        match rest with
        | [] => none
        | value :: rest =>
          (split known anywhere rest).map fun a =>
            { a with given := given ++ (name, value) :: a.given }
    else if anywhere then (split known anywhere rest).map fun a =>
      { a with others := arg :: a.others }
    else some { given := [], others := arg :: rest }

end CommandOption
end StepAtlas
