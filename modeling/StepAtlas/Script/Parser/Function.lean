import StepAtlas.Script.Parser.Type

/-
Functions, arrow functions, parameters, object literals and classes.
-/

namespace StepAtlas
namespace Script
namespace Parser

def propertyName : Parser Tree := do
  let start := (← get).place
  let n ← name
  return (← node .property start [] (.ofChars n)).inRole .property

/-- What follows an at sign: a dotted name with or without arguments, or an expression in
parentheses. -/
def decorator (call : Place → Tree → Parser (List Tree)) (self : Reading) : Parser (List Tree) := do
  token "@"
  let start := (← get).place
  if ← looking "(" then
    token "("
    let inner ← self .expression
    token ")"
    return inner
  else
    let first ← name
    let head ← node .identifier start [] (.ofChars first)
    let rest ← many do
      token "."
      propertyName
    let callee ← match rest.getLast? with
      | none => pure head
      | some last => node .member start [head, last]
    call start callee

/-- What a value is bound to: a name, or a pattern written like a literal. -/
def target (self : Reading) : Parser (List Tree) := do
  if ← looking "\x7b" then self .object
  else if ← looking "[" then self .array
  else
    let _ ← name
    return []

def parameterModifiers : List String := ["public", "private", "protected", "readonly", "override"]

def parameter (types : Bool) (decorators : Parser (List Tree)) (self : Reading) :
    Parser (List Tree) := do
  let decorated ← decorators
  if types then
    let _ ← many do
      guard (← atAnyWord parameterModifiers)
      guard (← canRead (do let _ ← name; let _ ← target self))
      let _ ← name
  let _ ← accept "..."
  let bound ← target self
  if types then
    let _ ← accept "?"
    annotation self
  let initial ← if ← accept "=" then self .assignment else pure []
  return decorated ++ bound ++ initial

def parameters (types : Bool) (decorators : Parser (List Tree)) (self : Reading) :
    Parser (List Tree) := do
  token "("
  let found ← many do
    let found ← parameter types decorators self
    if !(← looking ")") then token ","
    return found
  token ")"
  return found.flatten

/-- Type parameters, parameters, the result type and the body of a function; a declaration has no
body. -/
def functionTail (types : Bool) (self : Reading) : Parser (List Tree) := do
  if types && (← looking "<") then typeParameters self
  let bound ← self .parameters
  if types then annotation self
  let body ← if ← looking "\x7b" then self .block else pure []
  return bound ++ body

def functionRest (types : Bool) (self : Reading) : Parser (List Tree) := do
  let _ ← accept "*"
  let _ ← optional name
  functionTail types self

def arrowBody (self : Reading) : Parser (List Tree) := do
  sameLine
  token "=>"
  if ← looking "\x7b" then self .block else self .assignment

def arrowRest (types : Bool) (self : Reading) : Parser (List Tree) := do
  if ← looking "(" then
    let bound ← self .parameters
    if types then annotation self
    return bound ++ (← arrowBody self)
  else if types && (← looking "<") then
    typeParameters self
    let bound ← self .parameters
    annotation self
    return bound ++ (← arrowBody self)
  else
    let _ ← name
    arrowBody self

def arrow (types : Bool) (self : Reading) : Parser (List Tree) := do
  let start := (← get).place
  let found ← (do
    word "async"
    sameLine
    arrowRest types self) <|> arrowRest types self
  group start found

def memberName (self : Reading) : Parser (List Tree) := do
  if ← accept "[" then
    let inner ← self .expression
    token "]"
    return inner
  else if ← accept "#" then
    let _ ← name
    return []
  else
    (do let _ ← name) <|> (do let _ ← stringLiteral) <|> number
    return []

def isModifier (self : Reading) : Parser Bool := canRead do
  let _ ← name
  let _ ← accept "*"
  let _ ← memberName self

def objectMember (types : Bool) (self : Reading) : Parser (List Tree) := do
  if ← accept "..." then self .assignment
  else
    let _ ← many do
      guard (← atAnyWord ["async", "get", "set"])
      guard (← isModifier self)
      let _ ← name
    let _ ← accept "*"
    let named ← memberName self
    if (← looking "(") || (types && (← looking "<")) then
      return named ++ (← functionTail types self)
    else if ← accept ":" then return named ++ (← self .assignment)
    else if ← accept "=" then return named ++ (← self .assignment)
    else return named

def objectLiteral (types : Bool) (self : Reading) : Parser (List Tree) := do
  let start := (← get).place
  token "\x7b"
  let found ← many do
    let found ← objectMember types self
    if !((← looking "\x7d") || (← atEnd)) then token ","
    return found
  let _ ← closing "\x7d"
  group start found.flatten

def arrayElement (self : Reading) : Parser (List Tree) := do
  if ← accept "," then return []
  else
    let _ ← accept "..."
    let found ← self .assignment
    if !((← looking "]") || (← atEnd)) then token ","
    return found

def arrayLiteral (self : Reading) : Parser (List Tree) := do
  let start := (← get).place
  token "["
  let found ← many (arrayElement self)
  let _ ← closing "]"
  group start found.flatten

def memberModifiers : List String :=
  ["static", "public", "private", "protected", "readonly", "abstract", "override", "declare",
    "accessor", "async",
   "get", "set"]

def indexSignature (self : Reading) : Parser Unit := do
  token "["
  let _ ← name
  token ":"
  let _ ← self .type
  token "]"
  annotation self

def classMember (types : Bool) (decorators : Parser (List Tree)) (self : Reading) :
    Parser (List Tree) := do
  if ← accept ";" then return []
  else
    let decorated ← decorators
    if ← canRead (do word "static"; token "\x7b") then
      word "static"
      return decorated ++ (← self .block)
    else
      let _ ← many do
        guard (← atAnyWord memberModifiers)
        guard (← isModifier self)
        let _ ← name
      let _ ← accept "*"
      if types && (← canRead (indexSignature self)) then
        indexSignature self
        let _ ← accept ";"
        return decorated
      else
        let named ← memberName self
        if types then
          if !(← accept "?") then
            let _ ← accept "!"
        let rest ← if (← looking "(") || (types && (← looking "<")) then functionTail types self
          else do
            if types then annotation self
            if ← accept "=" then self .assignment else pure []
        let _ ← accept ";"
        return decorated ++ named ++ rest

def classTail (types : Bool) (decorators : Parser (List Tree)) (heritage : Parser (List Tree))
    (self : Reading) :
    Parser (List Tree) := do
  if !(← atAnyWord ["extends", "implements"]) then
    let _ ← optional name
  if types && (← looking "<") then typeParameters self
  let base ← if ← acceptWord "extends" then do
      let base ← heritage
      if types then
        let _ ← optional (typeArguments self)
      pure base
    else pure []
  if types then
    if ← acceptWord "implements" then
      let _ ← self .type
      let _ ← many do
        token ","
        let _ ← self .type
  token "\x7b"
  let found ← many do
    guard !(← looking "\x7d")
    classMember types decorators self
  let _ ← closing "\x7d"
  return base ++ found.flatten

end Parser
end Script
end StepAtlas
