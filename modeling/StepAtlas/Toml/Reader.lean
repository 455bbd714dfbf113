import StepAtlas.Machine
import StepAtlas.Toml.Document
import StepAtlas.Toml.Literal

/-
Settings files: entries, headers of tables and headers of lists of tables, one on each line.
-/

namespace StepAtlas
namespace Toml

def isBareKeyPoint : CodePoint → Bool := CodePoint.test fun c => c.isAlphanum || c = '-' || c = '_'

def keyPart : Reader Text := do
  match ← get with
  | p :: r =>
    if isBareKeyPoint p then
      let part := (p :: r).takeWhile isBareKeyPoint
      modify (·.drop part.length)
      return part
    else if p = .scalar '\'' then singleQuoted
    else if p = .scalar '"' then doubleQuoted
    else fail "Invalid initial character for a key part"
  | [] => fail "Invalid initial character for a key part"

def keyRest : (fuel : Nat) → Reader Key
  | 0 => return []
  | fuel + 1 => do
    skipBlanks
    if ← accept "." then
      skipBlanks
      let part ← keyPart
      return part :: (← keyRest fuel)
    else return []

def dottedKey : Reader Key := do
  let first ← keyPart
  return first :: (← keyRest ((← get).length + 1))

def pair (value : Reader Value) : Reader (Key × Value) := do
  let key ← dottedKey
  if !(← accept "=") then fail "Expected '=' after a key in a key/value pair"
  skipBlanks
  return (key, ← value)

def arrayItems (value : Reader Value) : (fuel : Nat) → Reader (List Value)
  | 0 => fail "Unclosed array"
  | fuel + 1 => do
    skipGaps ((← get).length + 1)
    if ← accept "]" then return []
    else
      let v ← value
      skipGaps ((← get).length + 1)
      if ← accept "]" then return [v]
      else if ← accept "," then return v :: (← arrayItems value fuel)
      else fail "Unclosed array"

def inlineEntries (value : Reader Value) (entries : Entries) (marks : Marks) :
    (fuel : Nat) → Reader Entries
  | 0 => fail "Unclosed inline table"
  | fuel + 1 => do
    let (key, v) ← pair value
    let stem := key.getLast?.getD []
    if marks.isFrozen key then fail ("Cannot mutate immutable namespace " ++ shownKey key)
    match changeAt false some key.dropLast entries with
    | none => fail "Cannot overwrite a value"
    | some _ =>
      match changeAt false (addEntry stem v) key.dropLast entries with
      | none => fail ("Duplicate inline table key " ++ Text.quoted stem)
      | some entries =>
        skipBlanks
        if ← accept "\x7d" then return entries
        else if ← accept "," then
          skipBlanks
          inlineEntries value entries (if v.isNested then marks.freeze key else marks) fuel
        else fail "Unclosed inline table"

def inlineTable (value : Reader Value) : Reader Entries := do
  skipBlanks
  if ← accept "\x7d" then return [] else inlineEntries value [] .none ((← get).length + 1)

def scalar : Reader Value := do
  let t ← get
  match moment? t, time? t, number? t, special? t with
  | some (date, v, rest), _, _, _ =>
    if date.exists? then
      set rest
      return v
    else fail "Invalid date or datetime"
  | none, some (time, rest), _, _ =>
    set rest
    return .time time
  | none, none, some (.ok v, rest), _ =>
    set rest
    return v
  | none, none, some (.error digits, _), _ => throw (.numberTooLong digits)
  | none, none, none, some (v, rest) =>
    set rest
    return v
  | none, none, none, none => fail "Invalid value"

/-- A value, with at most `depth` levels of arrays and tables in it. -/
def value : (depth : Nat) → Reader Value
  | 0 => fail "Invalid value"
  | depth + 1 => do
    if ← looking "\"\"\"" then return .text (← multilineString "\"")
    else if ← looking "\"" then return .text (← doubleQuoted)
    else if ← looking "'''" then return .text (← multilineString "'")
    else if ← looking "'" then return .text (← singleQuoted)
    else if ← accept "true" then return .bool true
    else if ← accept "false" then return .bool false
    else if ← accept "[" then return .list (← arrayItems (value depth) ((← get).length + 1))
    else if ← accept "\x7b" then return .table (← inlineTable (value depth))
    else scalar

/-- Settle the tables on the way to an entry: a dotted key may not go on where a declared table
is. -/
def settleWay (header : Key) (marks : Marks) : List Key → Except Key Marks
  | [] => .ok marks
  | way :: ways =>
    if marks.isDeclared (header ++ way) then .error (header ++ way)
    else settleWay header (marks.postpone (header ++ way)) ways

def beginnings (key : Key) : List Key := (List.range (key.length - 1)).map fun i => key.take (i + 1)

def entry (doc : Document) : Reader Document := do
  let (key, v) ← pair (value ((← get).length + 1))
  let parent := doc.header ++ key.dropLast
  match settleWay doc.header doc.marks (beginnings key) with
  | .error way => fail ("Cannot redefine namespace " ++ shownKey way)
  | .ok marks =>
    if marks.isFrozen parent then fail ("Cannot mutate immutable namespace " ++ shownKey parent)
    match changeAt true (addEntry (key.getLast?.getD []) v) parent doc.entries with
    | none => fail "Cannot overwrite a value"
    | some entries =>
      let marks := if v.isNested then marks.freeze (doc.header ++ key) else marks
      return { doc with entries, marks }

def tableHeader (doc : Document) : Reader Document := do
  skipBlanks
  let key ← dottedKey
  let marks := doc.marks.settle
  if marks.isDeclared key || marks.isFrozen key then
    fail ("Cannot declare " ++ shownKey key ++ " twice")
  match changeAt true some key doc.entries with
  | none => fail "Cannot overwrite a value"
  | some entries =>
    if !(← accept "]") then fail "Expected ']' at the end of a table declaration"
    return { entries, marks := marks.declare key, header := key }

def listHeader (doc : Document) : Reader Document := do
  skipBlanks
  let key ← dottedKey
  let marks := doc.marks.settle
  if marks.isFrozen key then fail ("Cannot mutate immutable namespace " ++ shownKey key)
  let marks := (marks.forget key).declare key
  match changeAt true (addTable (key.getLast?.getD [])) key.dropLast doc.entries with
  | none => fail "Cannot overwrite a value"
  | some entries =>
    if !(← accept "]]") then fail "Expected ']]' at the end of an array declaration"
    return { entries, marks, header := key }

/-- What stands on a line that is neither empty nor a comment. -/
def statement (doc : Document) : Reader Document := do
  match ← get with
  | p :: _ =>
    if isBareKeyPoint p || p = .scalar '"' || p = .scalar '\'' then entry doc
    else if ← accept "[[" then listHeader doc
    else if ← accept "[" then tableHeader doc
    else if p = .scalar '#' then return doc
    else fail "Invalid statement"
  | [] => return doc

def statements (doc : Document) : (fuel : Nat) → Reader Document
  | 0 => return doc
  | fuel + 1 => do
    skipBlanks
    if (← get) = [] then return doc
    else if ← accept "\n" then statements doc fuel
    else
      let doc ← statement doc
      skipBlanks
      skipComment
      if (← get) = [] then return doc
      else if ← accept "\n" then statements doc fuel
      else fail "Expected newline or end of document after a statement"

def parse (m : Machine) (file : Text) : Except Fault (Except Text Entries) :=
  match m.exhausted? (.parse file) with
  | some words => .error (.stackExhausted words)
  | none =>
    let file := file.replace "\r\n" "\n"
    match (statements .empty (file.length + 1)).run file with
    | .ok (doc, _) => .ok (.ok doc.entries)
    | .error (.trouble trouble) => .ok (.error (trouble.message file))
    | .error (.numberTooLong digits) => .error (.numberTooLong digits)

end Toml
end StepAtlas
