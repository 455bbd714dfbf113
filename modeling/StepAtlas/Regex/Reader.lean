import StepAtlas.Regex.Complaint
import StepAtlas.Regex.Syntax
import StepAtlas.Text.Identifier
import StepAtlas.Text.Letter
import StepAtlas.Text.Blank

/-
Reading a regular expression.  The pattern is read token by token, a token being one code point or a
backslash with the code point after it.  A backslash that ends the pattern is noticed as soon as it
comes up for reading, before anything else is said about the token in front of it.
-/

namespace StepAtlas
namespace Regex

structure ReadState where
  /-- The characters by name. -/
  named? : String → Option Char
  rest : Text
  /-- The position of `rest` in the pattern. -/
  pos : Nat
  /-- The flags given for the whole pattern. -/
  flags : List Flag
  names : List (Text × Nat)
  /-- The widths of the closed groups by number.  Place zero stands for the whole pattern, which
  never closes. -/
  widths : Array (Option (Nat × Nat))
  /-- Inside a lookbehind, the number of groups opened before it. -/
  lookbehind : Option Nat
  /-- The groups that conditions name by number, with the place of the first such condition. -/
  conditions : List (Nat × Nat)

abbrev Reader := StateT ReadState (Except Failure)

namespace Reader

/-- Complain about the place `back` code points before the next token. -/
def complain {α : Type} (c : Complaint) (back : Nat) : Reader α := do
  throw (.complaint c (some ((← get).pos - back)))

/-- Check that the pattern does not go on with a lone backslash. -/
def checkNext : Reader Unit := do
  let s ← get
  if s.rest = [.scalar '\\'] then throw (.complaint .endsInBackslash (some s.pos))

/-- The next token, still unread; none at the end. -/
def peek : Reader (Option Text) := do
  match (← get).rest with
  | [] => return none
  | .scalar '\\' :: c :: _ => return some [.scalar '\\', c]
  | c :: _ => return some [c]

def next : Reader (Option Text) := do
  let token ← peek
  let n := (token.getD []).length
  modify fun s => { s with rest := s.rest.drop n, pos := s.pos + n }
  checkNext
  return token

def accept (c : Char) : Reader Bool := do
  if (← peek) = some [.scalar c] then
    let _ ← next
    return true
  else
    return false

/-- Whether a token is a single code point that passes a test. -/
def isOne (p : Char → Bool) : Option Text → Bool
  | some [.scalar c] => p c
  | _ => false

def isOctal (c : Char) : Bool := '0' ≤ c && c ≤ '7'

def isHex (c : Char) : Bool := c.isDigit || ('a' ≤ c && c ≤ 'f') || ('A' ≤ c && c ≤ 'F')

def takeUpTo (p : Char → Bool) : (n : Nat) → Reader Text
  | 0 => return []
  | n + 1 => do
    if isOne p (← peek) then
      let token ← next
      return token.getD [] ++ (← takeUpTo p n)
    else
      return []

def takeAll (p : Char → Bool) : Reader Text := do takeUpTo p (← get).rest.length

def nameUntil (terminator : Char) (what : Text) : (fuel : Nat) → (sofar : Text) → Reader Text
  | 0, sofar => return sofar
  | fuel + 1, sofar => do
    match ← next with
    | none =>
      if sofar.isEmpty then complain (.missing what) 0
      else complain (.unterminatedName terminator) sofar.length
    | some token =>
      if token = [.scalar terminator] then
        if sofar.isEmpty then complain (.missing what) 1 else return sofar
      else nameUntil terminator what fuel (sofar ++ token)

def readName (terminator : Char) (what : Text) : Reader Text := do
  nameUntil terminator what ((← get).rest.length + 1) []

def value (base : Nat) (t : Text) : Nat :=
  t.foldl (fun n p => n * base + (match p with
    | .scalar c =>
      if c.isDigit then c.toNat - '0'.toNat
      else if 'a' ≤ c then c.toNat - 'a'.toNat + 10
      else c.toNat - 'A'.toNat + 10
    | .surrogate _ => 0)) 0

/-- A hexadecimal escape with exactly `n` digits. -/
def hexEscape (escape : Text) (n : Nat) : Reader Nat := do
  let digits ← takeUpTo isHex n
  let escape := escape ++ digits
  if digits.length ≠ n then complain (.incompleteEscape escape) escape.length
  else
    let v := value 16 digits
    if v < 0x110000 then return v else complain (.badEscape escape) escape.length

/-- A character called by its name in braces.  A name that is no proper text is not even looked
up. -/
def namedEscape : Reader Nat := do
  if !(← accept '\x7b') then complain (.missing "\x7b") 0
  else
    let name ← readName '\x7d' "character name"
    match Text.chars? name with
    | none => complain (.badEscape "\\N") 2
    | some cs =>
      match (← get).named? (.ofList cs) with
      | some c => return c.toNat
      | none => complain (.unknownCharacterName name) (name.length + 4)

def controlEscape? : Char → Option Nat
  | 'a' => some 7
  | 'b' => some 8
  | 'f' => some 12
  | 'n' => some 10
  | 'r' => some 13
  | 't' => some 9
  | 'v' => some 11
  | '\\' => some 92
  | _ => none

def categoryEscape? : Char → Option SetItem
  | 'd' => some (.category .digit false)
  | 'D' => some (.category .digit true)
  | 's' => some (.category .space false)
  | 'S' => some (.category .space true)
  | 'w' => some (.category .word false)
  | 'W' => some (.category .word true)
  | _ => none

def anchorEscape? : Char → Option Anchor
  | 'A' => some .textStart
  | 'b' => some .boundary
  | 'B' => some .notBoundary
  | 'Z' => some .textEnd
  | _ => none

def setEscape (p : CodePoint) : Reader SetItem := do
  let escape : Text := [.scalar '\\', p]
  match p with
  | .surrogate _ => return .single p.toNat
  | .scalar c =>
    match controlEscape? c, categoryEscape? c with
    | some n, _ => return .single n
    | none, some item => return item
    | none, none =>
      if c = 'x' then return .single (← hexEscape escape 2)
      else if c = 'u' then return .single (← hexEscape escape 4)
      else if c = 'U' then return .single (← hexEscape escape 8)
      else if c = 'N' then return .single (← namedEscape)
      else if isOctal c then
        let escape := escape ++ (← takeUpTo isOctal 2)
        let v := value 8 (escape.drop 1)
        if v > 0o377 then complain (.octalTooLarge escape) escape.length else return .single v
      else if c.isDigit || c.isAlpha then complain (.badEscape escape) 2
      else return .single c.toNat

def checkLookbehind (group : Nat) : Reader Unit := do
  let s ← get
  if let some opened := s.lookbehind then
    if (s.widths.getD group none).isNone then complain .openGroup 0
    else if opened ≤ group then complain .groupOfSameLookbehind 0

/-- A reference to an earlier group, or an octal escape of three digits. -/
def numberedEscape (c : Char) : Reader Node := do
  let mut escape : Text := [.scalar '\\', .scalar c]
  if isOne Char.isDigit (← peek) then
    let second := (← next).getD []
    escape := escape ++ second
    if isOctal c && isOne isOctal (some second) && isOne isOctal (← peek) then
      escape := escape ++ (← next).getD []
      let v := value 8 (escape.drop 1)
      if v > 0o377 then return ← complain (.octalTooLarge escape) escape.length
      return .atom (.literal v)
  let group := value 10 (escape.drop 1)
  if group < (← get).widths.size then
    if ((← get).widths.getD group none).isNone then return ← complain .openGroup escape.length
    checkLookbehind group
    return .backreference group
  else complain (.noSuchGroup group) (escape.length - 1)

def escape (p : CodePoint) : Reader Node := do
  let escape : Text := [.scalar '\\', p]
  match p with
  | .surrogate _ => return .atom (.literal p.toNat)
  | .scalar c =>
    match anchorEscape? c, categoryEscape? c, controlEscape? c with
    | some a, _, _ => return .anchor a
    | _, some item, _ => return .atom (.set false [item])
    | _, _, some n => return .atom (.literal n)
    | none, none, none =>
      if c = 'x' then return .atom (.literal (← hexEscape escape 2))
      else if c = 'u' then return .atom (.literal (← hexEscape escape 4))
      else if c = 'U' then return .atom (.literal (← hexEscape escape 8))
      else if c = 'N' then return .atom (.literal (← namedEscape))
      else if c = '0' then return .atom (.literal (value 8 (← takeUpTo isOctal 2)))
      else if c.isDigit then numberedEscape c
      else if c.isAlpha then complain (.badEscape escape) 2
      else return .atom (.literal c.toNat)

def setMember (token : Text) : Reader SetItem :=
  match token with
  | [.scalar '\\', p] => setEscape p
  | p :: _ => return .single p.toNat
  | [] => return .single 0

/-- The members of a character set up to its closing bracket, which stands for itself in the first
place.  `here` is the position of the opening bracket. -/
def setMembers (here : Nat) : (fuel : Nat) → (items : List SetItem) → Reader (List SetItem)
  | 0, items => return items
  | fuel + 1, items => do
    let unterminated : Reader (List SetItem) := do complain .unterminatedSet ((← get).pos - here)
    match ← next with
    | none => unterminated
    | some this =>
      if this = [.scalar ']'] && !items.isEmpty then return items
      else
        let lo ← setMember this
        if ← accept '-' then
          match ← next with
          | none => unterminated
          | some that =>
            if that = [.scalar ']'] then return items ++ [lo, .single '-'.toNat]
            else
              match lo, ← setMember that with
              | .single l, .single h =>
                if h < l then complain (.badRange this that) (this.length + 1 + that.length)
                else setMembers here fuel (items ++ [.range l h])
              | _, _ => complain (.badRange this that) (this.length + 1 + that.length)
        else setMembers here fuel (items ++ [lo])

def characterSet : Reader Node := do
  let here := (← get).pos - 1
  let negated ← accept '^'
  let items := (← setMembers here ((← get).rest.length + 1) []).eraseDups
  match items, negated with
  | [.single n], false => return .atom (.literal n)
  | [.single n], true => return .atom (.notLiteral n)
  | _, _ => return .atom (.set negated items)

/-- The counts between braces, the opening brace already read, or none when it is no repetition. -/
def counts : Reader (Option (Nat × Option Nat)) := do
  let start ← get
  if (← peek) = some "\x7d" then return none
  let lo ← takeAll Char.isDigit
  let hi ← if ← accept ',' then takeAll Char.isDigit else pure lo
  if !(← accept '\x7d') then
    set start
    return none
  if lo.length > Text.digitLimit then throw (.numberTooLong lo.length)
  let least := value 10 lo
  if least ≥ 4294967295 then throw .repetitionTooLarge
  if hi.isEmpty then return some (least, none)
  if hi.length > Text.digitLimit then throw (.numberTooLong hi.length)
  let most := value 10 hi
  if most ≥ 4294967295 then throw .repetitionTooLarge
  if most < least then return ← complain .countsReversed ((← get).pos - start.pos)
  return some (least, some most)

/-- Put a repetition around the item read last.  `here` is the position after the repetition's first
sign. -/
def repetition (here lo : Nat) (hi : Option Nat) (items : List Node) : Reader (List Node) := do
  let back := (← get).pos - here + 1
  match items with
  | [] => complain .nothingToRepeat back
  | item :: before =>
    match item with
    | .anchor _ => complain .nothingToRepeat back
    | .repeatAtom .. | .loop .. => complain .multipleRepeat back
    | _ =>
      if ← accept '?' then return Node.repeated .lazy lo hi item :: before
      else if ← accept '+' then return Node.repeated .possessive lo hi item :: before
      else return Node.repeated .greedy lo hi item :: before

/-- The integer that a condition's group name spells: digits with a sign, blanks around them, or
single underscores between them, and no more digits than are read. -/
def groupNumber? (name : Text) : Option Nat :=
  let t := Text.trim name
  let (negative, t) := match t with
    | .scalar '+' :: r => (false, r)
    | .scalar '-' :: r => (true, r)
    | r => (false, r)
  let rec digits : Text → Bool → Nat → Option Nat
    | [], afterDigit, n => if afterDigit then some n else none
    | .scalar '_' :: r, true, n => digits r false n
    | p :: r, _, n => match p.digitValue? with
      | some d => digits r true (n * 10 + d)
      | none => none
  if t.countP (· ≠ .scalar '_') > Text.digitLimit then none
  else match digits t false 0 with
    | some n => if negative && n ≠ 0 then none else some n
    | none => none

def flagsOn : (fuel : Nat) → (token : Text) → (on : List Flag) → Reader (Text × List Flag)
  | 0, token, on => return (token, on)
  | fuel + 1, token, on => do
    let flag? := match token with
      | [.scalar c] => Flag.ofLetter? c
      | _ => none
    match flag? with
    | none => complain .unknownFlag token.length
    | some flag =>
      if flag = .locale then complain .localeFlag 0
      else
        let on := on ++ [flag]
        if flag.isRepertoire && on.any (fun f => f.isRepertoire && f ≠ flag) then
          complain .clashingFlags 0
        else
          match ← next with
          | none => complain (.missing "-, : or )") 0
          | some token =>
            if token = ")" ∨ token = "-" ∨ token = ":" then return (token, on)
            else match token with
              | [.scalar c] =>
                if (Flag.ofLetter? c).isSome then flagsOn fuel token on
                else if (CodePoint.scalar c).isLetter then complain .unknownFlag 1
                else complain (.missing "-, : or )") 1
              | _ => complain (.missing "-, : or )") token.length

def flagsOff : (fuel : Nat) → (what : Text) → (off : List Flag) → Reader (List Flag)
  | 0, _, off => return off
  | fuel + 1, what, off => do
    match ← next with
    | none => complain (.missing what) 0
    | some token =>
      if token = ":" ∧ off ≠ [] then return off
      else
        let flag? := match token with
          | [.scalar c] => Flag.ofLetter? c
          | _ => none
        match flag? with
        | some flag =>
          if flag.isRepertoire then complain .repertoireOff 0
          else flagsOff fuel ":" (off ++ [flag])
        | none =>
          match token with
          | [p] => if p.isLetter then complain .unknownFlag 1 else complain (.missing what) 1
          | _ => complain (.missing what) token.length

/-- Read inline flags, the first sign after the question mark being `token`.  Flags that hold for
the whole pattern give none; flags of a group give what it turns on and off. -/
def inlineFlags (token : Text) : Reader (Option (List Flag × List Flag)) := do
  let fuel := (← get).rest.length + 1
  let (token, on) ← if token = "-" then pure (token, []) else flagsOn fuel token []
  if token = ")" then
    modify fun s => { s with flags := s.flags ++ on }
    return none
  if on.contains .template then return ← complain .globalFlagOn 1
  let off ← if token = "-" then flagsOff fuel "flag" [] else pure []
  if off.contains .template then return ← complain .globalFlagOff 1
  if on.any off.contains then return ← complain .flagOnAndOff 1
  return some (on, off)

def skipComment (start : Nat) : (fuel : Nat) → Reader Unit
  | 0 => return
  | fuel + 1 => do
    if (← peek).isNone then complain .unterminatedComment ((← get).pos - start)
    else if (← next) = some ")" then return
    else skipComment start fuel

def skipLine : (fuel : Nat) → Reader Unit
  | 0 => return
  | fuel + 1 => do
    let token ← next
    if token.isNone || token = some "\n" then return else skipLine fuel

inductive Opening where
  /-- Nothing is left to read of it, and it adds the given items. -/
  | done (items : List Node)
  | capture (name : Option Text)
  | plain (on off : List Flag)
  | atomic
  | look (behind negated : Bool)
  | condition (group : Nat)

def checkGroupName (name : Text) : Reader Unit := do
  if !name.isIdentifier then complain (.badGroupName name) (name.length + 1)

/-- Read the opening of a group after its parenthesis, whose position is `start`.  `early` says that
flags for the whole pattern are still in place here. -/
def opening (start : Nat) (early : Bool) : Reader Opening := do
  if !(← accept '?') then return .capture none
  match ← next with
  | none => complain .unexpectedEnd 0
  | some sign =>
    if sign = "P" then
      if ← accept '<' then
        let name ← readName '>' "group name"
        checkGroupName name
        return .capture (some name)
      else if ← accept '=' then
        let name ← readName ')' "group name"
        checkGroupName name
        match (← get).names.lookup name with
        | none => complain (.unknownGroup name) (name.length + 1)
        | some group =>
          if ((← get).widths.getD group none).isNone then
            return ← complain .openGroup (name.length + 1)
          checkLookbehind group
          return .done [.backreference group]
      else
        match ← next with
        | none => complain .unexpectedEnd 0
        | some sign => complain (.unknownExtension ("P" ++ sign)) (sign.length + 2)
    else if sign = ":" then return .plain [] []
    else if sign = "#" then
      skipComment start ((← get).rest.length + 1)
      return .done []
    else if sign = "=" then return .look false false
    else if sign = "!" then return .look false true
    else if sign = "<" then
      match ← next with
      | none => complain .unexpectedEnd 0
      | some sign =>
        if sign = "=" then return .look true false
        else if sign = "!" then return .look true true
        else complain (.unknownExtension ("<" ++ sign)) (sign.length + 2)
    else if sign = "(" then
      let name ← readName ')' "group name"
      let group ← if name.isIdentifier then
          match (← get).names.lookup name with
          | none => complain (.unknownGroup name) (name.length + 1)
          | some group => pure group
        else
          match groupNumber? name with
          | none => complain (.badGroupName name) (name.length + 1)
          | some 0 => complain .groupZero (name.length + 1)
          | some group =>
            if group ≥ 1073741823 then complain (.noSuchGroup group) (name.length + 1)
            else
              let s ← get
              if (s.conditions.lookup group).isNone then
                set { s with conditions := s.conditions ++ [(group, s.pos - name.length - 1)] }
              pure group
      checkLookbehind group
      return .condition group
    else if sign = ">" then return .atomic
    else
      let isFlag := match sign with
        | [.scalar c] => c = '-' || (Flag.ofLetter? c).isSome
        | _ => false
      if isFlag then
        match ← inlineFlags sign with
        | some (on, off) => return .plain on off
        | none =>
          if early then return .done [] else complain .lateFlags ((← get).pos - start)
      else complain (.unknownExtension sign) (sign.length + 1)

def openGroup (name : Option Text) : Reader Nat := do
  let s ← get
  let number := s.widths.size
  if let some name := name then
    if let some earlier := s.names.lookup name then
      return ← complain (.nameTaken name number earlier) (name.length + 1)
  set { s with
    widths := s.widths.push none
    names := match name with
      | some name => s.names ++ [(name, number)]
      | none => s.names }
  return number

def groupWidths : Reader (Nat → Nat × Nat) := do
  let widths := (← get).widths
  return fun n => (widths.getD n none).getD (0, 0)

/-- Check that a group ends here.  `start` is the position of its opening parenthesis. -/
def closeParenthesis (start : Nat) : Reader Unit := do
  if !(← accept ')') then complain .unterminatedGroup ((← get).pos - start)

/-- The items after a single character that opens no group.  `here` is the position after it. -/
def itemsAfterSign (here : Nat) (c : Char) (items : List Node) : Reader (List Node) := do
  if c = '[' then return (← characterSet) :: items
  else if c = '.' then return .atom .any :: items
  else if c = '^' then return .anchor .lineStart :: items
  else if c = '$' then return .anchor .lineEnd :: items
  else if c = '?' then repetition here 0 (some 1) items
  else if c = '*' then repetition here 0 none items
  else if c = '+' then repetition here 1 none items
  else if c = '\x7b' then
    match ← counts with
    | none => return .atom (.literal c.toNat) :: items
    | some (lo, hi) => repetition here lo hi items
  else return .atom (.literal c.toNat) :: items

/-- The items after a token that opens no group.  A verbose pattern may have blanks and comments
between them. -/
def itemsAfter (verbose : Bool) (here : Nat) (token : Text) (items : List Node) :
    Reader (List Node) := do
  match token with
  | [.scalar c] =>
    if verbose && (c = ' ' || ('\t' ≤ c && c ≤ '\r')) then return items
    else if verbose && c = '#' then
      skipLine ((← get).rest.length + 1)
      return items
    else itemsAfterSign here c items
  | [.scalar '\\', p] => return (← escape p) :: items
  | p :: _ => return .atom (.literal p.toNat) :: items
  | [] => return items

mutual

/-- Alternatives up to a closing parenthesis or the end.  `top` says that no group is open. -/
def alternatives (verbose top : Bool) : (fuel : Nat) → (done : List Node) → Reader Node
  | 0, done => return Node.ofAlternatives done
  | fuel + 1, done => do
    let item ← sequence verbose (top && done.isEmpty) fuel []
    let done := done ++ [item]
    if ← accept '|' then
      let flags := (← get).flags
      let verbose := if top then flags.contains .verbose else verbose
      alternatives verbose top fuel done
    else return Node.ofAlternatives done

/-- Items up to a bar, a closing parenthesis or the end, kept in reverse.  `first` says that they
are the first of the pattern, where flags for the whole pattern may stand. -/
def sequence (verbose first : Bool) : (fuel : Nat) → (items : List Node) → Reader Node
  | 0, items => return Node.ofList items.reverse
  | fuel + 1, items => do
    let token? ← peek
    match token? with
    | none => return Node.ofList items.reverse
    | some token =>
      if token = "|" ∨ token = ")" then return Node.ofList items.reverse
      else
        let _ ← next
        let here := (← get).pos
        if token = "(" then
          let start := here - 1
          match ← opening start (first && items.isEmpty) with
          | .done [] =>
            let flags := (← get).flags
            let verbose := verbose || (first && items.isEmpty && flags.contains .verbose)
            sequence verbose first fuel items
          | .done added => sequence verbose first fuel (added ++ items)
          | .capture name =>
            let number ← openGroup name
            let body ← alternatives verbose false fuel []
            closeParenthesis start
            let width := body.width (← groupWidths)
            modify fun s => { s with widths := s.widths.setIfInBounds number (some width) }
            sequence verbose first fuel (.group number body :: items)
          | .plain on off =>
            let inner := (verbose || on.contains .verbose) && !off.contains .verbose
            let body ← alternatives inner false fuel []
            closeParenthesis start
            sequence verbose first fuel (.scoped on off body :: items)
          | .atomic =>
            let body ← alternatives verbose false fuel []
            closeParenthesis start
            sequence verbose first fuel (.atomic body :: items)
          | .look false negated =>
            let body ← alternatives verbose false fuel []
            closeParenthesis start
            sequence verbose first fuel (.lookahead negated body :: items)
          | .look true negated =>
            let outer := (← get).lookbehind
            if outer.isNone then modify fun s => { s with lookbehind := some s.widths.size }
            let body ← alternatives verbose false fuel []
            if outer.isNone then modify fun s => { s with lookbehind := none }
            closeParenthesis start
            let width := body.width (← groupWidths)
            sequence verbose first fuel (.lookbehind negated width body :: items)
          | .condition group =>
            let yes ← sequence verbose false fuel []
            let no ← if ← accept '|' then
                let no ← sequence verbose false fuel []
                if (← peek) = some "|" then complain .threeBranches 0 else pure no
              else pure .empty
            closeParenthesis start
            sequence verbose first fuel (.conditional group yes no :: items)
        else sequence verbose first fuel (← itemsAfter verbose here token items)

end

def whole : Reader Node := do
  checkNext
  let start ← get
  let root ← alternatives (start.flags.contains .verbose) true (2 * start.rest.length + 3) []
  let s ← get
  if s.flags.contains .ascii && s.flags.contains .unicode then throw .repertoiresClash
  else if (← peek).isSome then complain .unbalanced 0
  else return root

end Reader

/-- The first complaint about a tree that reading alone does not raise. -/
def Node.complaint? (template : Bool) : Node → Option Complaint
  | .empty | .atom _ | .anchor _ | .backreference _ => none
  | .seq a b | .alt a b | .conditional _ a b => a.complaint? template <|> b.complaint? template
  | .repeatAtom .. => if template then some .repeatInTemplate else none
  | .loop _ _ _ body => if template then some .repeatInTemplate else body.complaint? template
  | .group _ body | .scoped _ _ body | .atomic body | .lookahead _ body => body.complaint? template
  | .lookbehind _ (lo, hi) body =>
    if lo > 4294967295 then some .farLookbehind
    else if lo ≠ hi then some .variableLookbehind
    else body.complaint? template

def ReadState.start (named? : String → Option Char) (pattern : Text) (flags : List Flag) :
    ReadState :=
  { named?, rest := pattern, pos := 0, flags, names := [], widths := #[none], lookbehind := none,
    conditions := [] }

def Pattern.parse (named? : String → Option Char) (pattern : Text) (flags : List Flag) :
    Except Failure Pattern := do
  let (root, s) ← Reader.whole.run (.start named? pattern flags)
  if let some (group, pos) := s.conditions.find? (fun (group, _) => s.widths.size ≤ group) then
    throw (.complaint (.noSuchGroup group) (some pos))
  if let some c := root.complaint? (s.flags.contains .template) then throw (.complaint c none)
  return { root, options := Options.adjust {} s.flags [], groups := s.widths.size - 1 }

end Regex
end StepAtlas
