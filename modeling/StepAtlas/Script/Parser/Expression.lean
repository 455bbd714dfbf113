import StepAtlas.Script.Parser.Function

/-
Expressions.  The order of operators does not matter for finding calls, so operands and operators
are read as one flat row; what matters is where an operand starts and ends, for that is where a call
starts and ends.
-/

namespace StepAtlas
namespace Script
namespace Parser

/-- Pass a sign of a call: the node of the sign, and those of the comments between it and the next
token. -/
def sign (s : String) : Parser (Tree × List Tree) := do
  let c ← get
  let stop := c.place.afterAll s.toList
  let (_, comments, _) := skipGap false [] stop .blank (c.rest.drop s.length)
  token s
  return (.node { kind := .sign } (c.place.to stop) [],
    comments.map fun span => .node { kind := .comment } span [])

/-- One argument, with the comma behind it unless it is the last one. -/
def argument (self : Reading) : Parser (List Tree) := do
  guard !(← looking ")")
  let start := (← get).place
  let found ← if ← accept "..." then do
      let spread ← self .assignment
      group start spread
    else self .assignment
  if (← looking ")") || (← atEnd) then return found
  else
    let (comma, comments) ← sign ","
    return found ++ comma :: comments

/-- Arguments in parentheses; whether they are closed, and what stands there.  At the end of the
script the closing parenthesis may be missing. -/
def argumentList (self : Reading) : Parser (Bool × List Tree) := do
  let (opening, comments) ← sign "("
  let found ← many (argument self)
  if ← looking ")" then
    let (closing, _) ← sign ")"
    return (true, opening :: comments ++ found.flatten ++ [closing])
  else
    guard (← atEnd)
    damage
    return (false, opening :: comments ++ found.flatten)

/-- A call of `callee`, which starts at `start`.  Arguments that are never closed make no call. -/
def callOf (self : Reading) (start : Place) (callee : Tree) : Parser Tree := do
  let opened := (← get).place
  let (closed, found) ← argumentList self
  let arguments ← node .arguments opened found
  node (if closed then .call else .other) start
    [callee.inRole .function, arguments.inRole .arguments]

def decoratorCall (types : Bool) (self : Reading) (start : Place) (callee : Tree) :
    Parser (List Tree) := do
  if types then
    let _ ← optional (do typeArguments self; guard (← looking "("))
  if ← looking "(" then return [← callOf self start callee] else return [callee]

def decorators (types : Bool) (self : Reading) : Parser (List Tree) := do
  let found ← many (decorator (decoratorCall types self) self)
  return found.flatten

/-- A template with its substitutions.  One that is never closed is no template. -/
def template (self : Reading) : Parser Tree := do
  let c ← get
  guard (← looking "`")
  modify (Cursor.passRaw 1)
  let found ← many do
    match templateText? (← get).rest with
    | some (body, .substitution, _) =>
      modify (Cursor.passRaw body.length)
      let start := (← get).place
      modify (Cursor.pass 2)
      let found ← self .expression
      guard (← looking "\x7d")
      modify (Cursor.passRaw 1)
      node .substitution start found
    | _ => failure
  match templateText? (← get).rest with
  | some (body, .quote, _) =>
    let length := c.rest.length - (← get).rest.length + body.length + 1
    modify (Cursor.pass (body.length + 1))
    node .template c.place found (.ofChars (c.rest.take length))
  | _ =>
    guard (← atEnd)
    node .other c.place found

/-- A template behind a function is a call of it. -/
def taggedTemplate (self : Reading) (start : Place) (function : Tree) : Parser Tree := do
  let arguments ← template self
  node .call start [function.inRole .function, arguments.inRole .arguments]

def regexLiteral : Parser Tree := do
  let start := (← get).place
  match (← get).rest with
  | '/' :: r =>
    match regexBody? false r with
    | some (body, after) =>
      let flags := after.takeWhile fun c => 'a' ≤ c && c ≤ 'z'
      let part (role : Role) (p : Place) (t : List Char) : Tree :=
        .node { kind := .other, role := some role, text := .ofChars t } (p.to (p.afterAll t)) []
      let behind := ((start.after '/').afterAll body).after '/'
      modify (Cursor.pass (body.length + 2 + flags.length))
      node .regex start (part .pattern (start.after '/') body ::
        if flags.isEmpty then [] else [part .flags behind flags])
    | none => failure
  | _ => failure

def startsOperand : Parser Bool := do
  match (← get).rest with
  | [] => return false
  | c :: r =>
    if isNameStart c then return !(← atAnyWord ["in", "instanceof", "of", "as", "satisfies"])
    else if c = '.' then return r.head?.any Char.isDigit
    else return c.isDigit || "\"'`([\x7b/+-!~<@#".contains c

/-- What follows `new`: the constructor with its properties, and its arguments if it has some. -/
def newRest (types : Bool) (primary : Parser Tree) (self : Reading) : Parser (List Tree) := do
  if ← accept "." then
    let _ ← name
    return []
  else
    let start := (← get).place
    let constructor ← primary
    let subscripts ← many do
      if ← accept "[" then
        let inner ← self .expression
        token "]"
        return inner
      else
        guard !(← looking "...")
        token "."
        let _ ← accept "#"
        let _ ← name
        return []
    if types then
      let _ ← optional (do typeArguments self; guard (← looking "("))
    let arguments ← if ← looking "(" then argumentList self else pure (true, [])
    return (← group start (constructor :: subscripts.flatten)) ++ arguments.2

def wordOperand (d : Dialect) (primary : Parser Tree) (self : Reading) : Parser Tree := do
  let start := (← get).place
  let types := d.hasTypes
  if ← atWord "function" then
    word "function"
    node .other start (← functionRest types self)
  else if ← canRead (do word "async"; sameLine; word "function") then
    word "async"
    word "function"
    node .other start (← functionRest types self)
  else if ← atWord "class" then
    word "class"
    node .other start (← self .classTail)
  else if ← atWord "new" then
    word "new"
    node .other start (← newRest types primary self)
  else if ← atAnyWord ["this", "super", "null", "true", "false", "import"] then
    let _ ← name
    node .other start []
  else
    let n ← name
    node .identifier start [] (.ofChars n)

/-- An operand without what may follow it.  The fuel bounds the words `new` in a row. -/
def primaryFrom (d : Dialect) (self : Reading) : (fuel : Nat) → Parser Tree
  | 0 => failure
  | fuel + 1 => do
    let start := (← get).place
    match (← get).rest with
    | [] => failure
    | c :: _ =>
      if c = '(' then
        token "("
        let inner ← self .expression
        let _ ← closing ")"
        node .other start inner
      else if c = '[' then node .other start (← self .array)
      else if c = '\x7b' then node .other start (← self .object)
      else if c = '"' || c = '\'' then
        let body ← stringLiteral
        node .string start [] (.ofChars (c :: body ++ [c]))
      else if c = '`' then template self
      else if c = '/' then regexLiteral
      else if c = '<' then
        guard d.hasElements
        let found ← self .element
        modify Cursor.settle
        node .other start found
      else if c = '@' then
        let decorated ← decorators d.hasTypes self
        word "class"
        node .other start (decorated ++ (← self .classTail))
      else if c = '#' then
        token "#"
        let _ ← name
        node .other start []
      else if isNameStart c || c = '\\' then wordOperand d (primaryFrom d self fuel) self
      else
        number
        node .other start []

def primary (d : Dialect) (self : Reading) :
    Parser Tree := do primaryFrom d self ((← get).rest.length + 1)

/-- The property of an operand behind its dot. -/
def memberOf (start : Place) (t : Tree) : Parser Tree := do
  if ← looking "#" then
    let opened := (← get).place
    token "#"
    let _ ← name
    node .member start [t, (← node .other opened []).inRole .property]
  else node .member start [t, ← propertyName]

/-- One thing that may follow an operand, here the operand `t` that starts at `start`. -/
def suffix (d : Dialect) (self : Reading) (start : Place) (t : Tree) : Parser Tree := do
  let types := d.hasTypes
  let isChain := match (← get).rest with
    | '?' :: '.' :: c :: _ => !c.isDigit
    | _ => false
  if isChain then
    token "?."
    if ← looking "(" then callOf self start t
    else if ← accept "[" then
      let inner ← self .expression
      let _ ← closing "]"
      node .other start (t :: inner)
    else if types && (← looking "<") then
      typeArguments self
      callOf self start t
    else memberOf start t
  else if ← looking "." then
    guard !(← looking "..")
    token "."
    memberOf start t
  else if ← looking "(" then callOf self start t
  else if ← accept "[" then
    let inner ← self .expression
    let _ ← closing "]"
    node .other start (t :: inner)
  else if ← looking "`" then taggedTemplate self start t
  else if (← looking "++") || (← looking "--") then
    sameLine
    modify (Cursor.pass 2)
    node .other start [t]
  else if types && (← looking "!") then
    guard !(← looking "!=")
    sameLine
    token "!"
    node .other start [t]
  else
    guard (types && (← looking "<"))
    typeArguments self
    if ← looking "(" then callOf self start t
    else if ← looking "`" then taggedTemplate self start t
    else
      guard !(← startsOperand)
      node .other start [t]

def suffixes (d : Dialect) (self : Reading) (start : Place) : (fuel : Nat) → Tree → Parser Tree
  | 0, t => return t
  | fuel + 1, t => do
    match ← optional (suffix d self start t) with
    | some t => suffixes d self start fuel t
    | none => return t

def operand (d : Dialect) (self : Reading) : Parser Tree := do
  let start := (← get).place
  let t ← primary d self
  suffixes d self start ((← get).rest.length) t

/-- An operand with the signs and words before it. -/
def unaryRule (d : Dialect) (self : Reading) : Parser (List Tree) := do
  let start := (← get).place
  if ← atAnyWord ["typeof", "void", "delete"] then
    let _ ← name
    group start (← self .unary)
  else if ← canRead (do word "await"; guard (← startsOperand)) then
    word "await"
    group start (← self .unary)
  else if (← looking "++") || (← looking "--") then
    modify (Cursor.pass 2)
    group start (← self .unary)
  else if (← looking "!") || (← looking "~") || (← looking "+") || (← looking "-") then
    modify (Cursor.pass 1)
    group start (← self .unary)
  else if d = .typescript && (← looking "<") then
    token "<"
    let _ ← self .type
    token ">"
    group start (← self .unary)
  else return [← operand d self]

def operators : List String :=
  [">>>=", "===", "!==", "**=", "<<=", ">>=", "&&=", "||=", "??=", ">>>", "==", "!=", "<=", ">=",
    "&&", "||", "??",
   "+=", "-=", "*=", "/=", "%=", "&=", "|=", "^=", "<<", ">>", "**", "+", "-", "*", "/", "%", "&",
     "|", "^", "<",
   ">", "="]

def assigns (operator : String) : Bool :=
  operator.endsWith "=" && !(["===", "!==", "==", "!=", "<=", ">="].contains operator)

def peekOperator : Parser (Option String) := do
  let rest := (← get).rest
  let starts (s : String) : Bool := s.toList.isPrefixOf rest
  if starts "++" || starts "--" || starts "=>" then return none
  else return operators.find? starts

def operation (d : Dialect) (self : Reading) : Parser (List Tree) := do
  if (← looking "?") && !(← looking "??") then
    token "?"
    let yes ← self .assignment
    token ":"
    let no ← self .assignment
    return yes ++ no
  else if ← atAnyWord ["in", "instanceof"] then
    let _ ← name
    self .unary
  else if d.hasTypes && (← atAnyWord ["as", "satisfies"]) then
    sameLine
    let _ ← name
    self .type
  else
    match ← peekOperator with
    | some operator =>
      modify (Cursor.pass operator.length)
      if assigns operator then self .assignment else self .unary
    | none => failure

/-- An expression without commas.  One operand alone keeps its label. -/
def assignmentRule (d : Dialect) (self : Reading) : Parser (List Tree) :=
  arrow d.hasTypes self <|> do
    let start := (← get).place
    if ← atWord "yield" then
      word "yield"
      let _ ← accept "*"
      if !(← get).broke && (← startsOperand) then group start (← self .assignment)
      else group start []
    else
      let first ← self .unary
      let before := (← get).rest.length
      let rest ← many (operation d self)
      if (← get).rest.length < before then group start (first ++ rest.flatten) else return first

def expressionRule (self : Reading) : Parser (List Tree) := do
  let first ← self .assignment
  let rest ← many do
    token ","
    self .assignment
  return first ++ rest.flatten

end Parser
end Script
end StepAtlas
