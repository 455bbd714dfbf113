import StepAtlas.Script.Parser.Element

/-
Statements and declarations.  A statement gives the expressions in it, in order; it needs no node of
its own.
-/

namespace StepAtlas
namespace Script
namespace Parser

/-- The end of a statement: a semicolon, or a place where it may be left out. -/
def terminator : Parser Unit := do
  if !(← accept ";") then
    if !((← get).broke || (← looking "\x7d") || (← atEnd)) then damage

def condition (self : Reading) : Parser (List Tree) := do
  token "("
  let found ← self .expression
  let _ ← closing ")"
  return found

def declarator (types : Bool) (self : Reading) : Parser (List Tree) := do
  let bound ← target self
  if types then
    let _ ← accept "!"
    annotation self
  let initial ← if ← accept "=" then self .assignment else pure []
  return bound ++ initial

def declarators (types : Bool) (self : Reading) : Parser (List Tree) := do
  guard (← atAnyWord ["var", "let", "const"])
  let _ ← name
  let first ← declarator types self
  let rest ← many do
    token ","
    declarator types self
  return first ++ rest.flatten

def skipToken : Parser (List Tree) := do
  guard !(← atEnd)
  (do let _ ← name) <|> (do let _ ← stringLiteral) <|> number <|> modify (Cursor.pass 1)
  damage
  return []

/-- Statements up to a closing brace.  What is no statement is passed token by token. -/
def statementsUntilBrace (self : Reading) : Parser (List Tree) := do
  let found ← many do
    guard !(← looking "\x7d")
    self .statement <|> skipToken
  return found.flatten

def blockRule (self : Reading) : Parser (List Tree) := do
  token "\x7b"
  let found ← statementsUntilBrace self
  let _ ← closing "\x7d"
  return found

def loopHead (types : Bool) (self : Reading) : Parser (List Tree) := do
  token "("
  let first ← if ← looking ";" then pure []
    else declarators types self <|> self .expression
  let rest ← if ← atAnyWord ["of", "in"] then do
      let _ ← name
      self .expression
    else do
      token ";"
      let test ← if ← looking ";" then pure [] else self .expression
      token ";"
      let advance ← if ← looking ")" then pure [] else self .expression
      pure (test ++ advance)
  token ")"
  return first ++ rest

def switchCase (self : Reading) : Parser (List Tree) := do
  let test ← if ← acceptWord "case" then self .expression
    else do
      word "default"
      pure []
  token ":"
  let body ← many do
    guard !((← looking "\x7d") || (← atAnyWord ["case", "default"]))
    self .statement <|> skipToken
  return test ++ body.flatten

def tryRest (types : Bool) (self : Reading) : Parser (List Tree) := do
  let caught ← if ← acceptWord "catch" then do
      let bound ← if ← accept "(" then do
          let bound ← target self
          if types then annotation self
          token ")"
          pure bound
        else pure []
      pure (bound ++ (← self .block))
    else pure []
  let last ← if ← acceptWord "finally" then self .block else pure []
  return caught ++ last

def moduleName : Parser Unit := do
  let _ ← stringLiteral
  let _ ← optional do
    guard (← atAnyWord ["with", "assert"])
    let _ ← name
    balanced "\x7b"

/-- An import declaration; no code stands in it. -/
def importDeclaration : Parser Unit := do
  word "import"
  guard !((← looking "(") || (← looking "."))
  let _ ← many do
    (do let _ ← name) <|> token "*" <|> token "," <|> balanced "\x7b"
  if ← accept "=" then
    let _ ← name
    let _ ← many do
      token "."
      let _ ← name
    let _ ← optional (balanced "(")
  else moduleName
  terminator

def exportDeclaration (self : Reading) : Parser (List Tree) := do
  word "export"
  if ← acceptWord "default" then
    if ← looking "\x7b" then
      let found ← self .expression
      terminator
      return found
    else self .statement
  else if ← accept "=" then
    let found ← self .expression
    terminator
    return found
  else if ← canRead (do word "as"; word "namespace") then
    word "as"
    word "namespace"
    let _ ← name
    terminator
    return []
  else
    let names ← canRead
      (do let _ ← acceptWord "type"; guard ((← looking "\x7b") || (← looking "*")))
    if names then
      let _ ← acceptWord "type"
      if ← accept "*" then
        if ← acceptWord "as" then
          (do let _ ← name) <|> (do let _ ← stringLiteral)
      else balanced "\x7b"
      if ← acceptWord "from" then moduleName
      terminator
      return []
    else self .statement

/-- The members of an enumeration; their values are code. -/
def enumeration (self : Reading) : Parser (List Tree) := do
  let _ ← acceptWord "const"
  word "enum"
  let _ ← name
  token "\x7b"
  let found ← many do
    let named ← memberName self
    let value ← if ← accept "=" then self .assignment else pure []
    if !(← looking "\x7d") then token ","
    return named ++ value
  let _ ← closing "\x7d"
  return found.flatten

def interfaceDeclaration (self : Reading) : Parser Unit := do
  word "interface"
  let _ ← name
  let _ ← optional (typeParameters self)
  if ← acceptWord "extends" then
    let _ ← self .type
    let _ ← many do
      token ","
      let _ ← self .type
  balanced "\x7b"

def typeDeclaration (self : Reading) : Parser Unit := do
  word "type"
  sameLine
  let _ ← name
  let _ ← optional (typeParameters self)
  token "="
  let _ ← self .type
  terminator

def namespaceDeclaration (self : Reading) : Parser (List Tree) := do
  guard (← atAnyWord ["namespace", "module"])
  let _ ← name
  sameLine
  (do let _ ← stringLiteral) <|> do
    let _ ← name
    let _ ← many do
      token "."
      let _ ← name
  if ← looking "\x7b" then self .block
  else
    terminator
    return []

/-- The declarations that only scripts with types have. -/
def typedDeclaration (self : Reading) : Parser (List Tree) := do
  if ← canRead (do let _ ← acceptWord "const"; word "enum"; let _ ← name) then enumeration self
  else if ← canRead (interfaceDeclaration self) then
    interfaceDeclaration self
    return []
  else if ← canRead (typeDeclaration self) then
    typeDeclaration self
    return []
  else if ← canRead (do word "abstract"; word "class") then
    word "abstract"
    word "class"
    self .classTail
  else if ← canRead (do word "global"; guard (← looking "\x7b")) then
    word "global"
    self .block
  else if ← canRead (do word "declare"; sameLine; let _ ← name) then
    word "declare"
    self .statement
  else namespaceDeclaration self

def decorated (types : Bool) (self : Reading) : Parser (List Tree) := do
  let found ← decorators types self
  let _ ← many do
    guard (← atAnyWord ["export", "default", "abstract", "declare"])
    let _ ← name
  word "class"
  return found ++ (← self .classTail)

def announced (types : Bool) (self : Reading) : Parser (List Tree) := do
  if ← acceptWord "function" then
    let found ← functionRest types self
    let _ ← accept ";"
    return found
  else if ← canRead (do word "async"; sameLine; word "function") then
    word "async"
    word "function"
    functionRest types self
  else if ← acceptWord "class" then self .classTail
  else if ← acceptWord "if" then
    let test ← condition self
    let yes ← self .statement
    let no ← if ← acceptWord "else" then self .statement else pure []
    return test ++ yes ++ no
  else if ← acceptWord "for" then
    let _ ← acceptWord "await"
    let head ← loopHead types self
    return head ++ (← self .statement)
  else if ← atAnyWord ["while", "with"] then
    let _ ← name
    let test ← condition self
    return test ++ (← self .statement)
  else if ← acceptWord "do" then
    let body ← self .statement
    word "while"
    let test ← condition self
    let _ ← accept ";"
    return body ++ test
  else if ← acceptWord "switch" then
    let value ← condition self
    token "\x7b"
    let cases ← many (switchCase self)
    let _ ← closing "\x7d"
    return value ++ cases.flatten
  else if ← acceptWord "try" then
    let body ← self .block
    return body ++ (← tryRest types self)
  else if ← atAnyWord ["return", "throw"] then
    let _ ← name
    let found ← if !(← get).broke && (← startsOperand) then self .expression else pure []
    terminator
    return found
  else if ← atAnyWord ["break", "continue", "debugger"] then
    let _ ← name
    let _ ← optional (do sameLine; let _ ← name)
    terminator
    return []
  else if ← canRead importDeclaration then
    importDeclaration
    return []
  else if ← atWord "export" then exportDeclaration self
  else failure

/-- A comment with the marks that hide a script in a page: either mark takes the rest of its
line. -/
def hiddenLine : Parser Unit := do
  guard ((← looking "<!--") || (← looking "-->"))
  modify fun c => c.pass (c.rest.takeWhile fun p => !isLineBreak p).length

def statementRule (d : Dialect) (self : Reading) : Parser (List Tree) := do
  let types := d.hasTypes
  if ← accept ";" then return []
  else if (← optional hiddenLine).isSome then return []
  else if ← looking "\x7b" then self .block
  else if ← looking "@" then decorated types self
  else if ← canRead (do let _ ← name; token ":") then
    let _ ← name
    token ":"
    self .statement
  else
    (do guard types; typedDeclaration self) <|>
    (do
      let found ← declarators types self
      terminator
      return found) <|>
    announced types self <|>
    (do
      let found ← self .expression
      terminator
      return found)

end Parser
end Script
end StepAtlas
