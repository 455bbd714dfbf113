import StepAtlas.Text.Blank
import StepAtlas.Text.Case
import StepAtlas.Text.Letter
import StepAtlas.Text.Quoted

/-
Style tags in log lines.  A line is written in a markup where `[bold]` opens a style and `[/bold]`
closes it, and the text that a line quotes is not escaped, so that a quoted `[/x]` counts as a tag
too.  A line can be shown exactly when every closing tag finds a tag to close.
-/

namespace StepAtlas
namespace Markup

/-- A tag between brackets: its name, and what stands after an equals sign. -/
structure Tag where
  name : Text
  argument : Option Text
deriving DecidableEq, Repr

namespace Tag

def isOpener : CodePoint → Bool
  | .scalar c => ('a' ≤ c && c ≤ 'z') || c = '#' || c = '/' || c = '@'
  | .surrogate _ => false

/-- The body of a tag at the start of a text, after its opening bracket: everything before the first
closing bracket, with no other opening bracket in it. -/
def body? : Text → Option Text
  | [] => none
  | .scalar ']' :: _ => some []
  | .scalar '[' :: _ => none
  | p :: r => (body? r).map (p :: ·)

def read? (t : Text) : Option Tag :=
  match t with
  | [] => none
  | p :: _ =>
    if isOpener p then
      (body? t).map fun body =>
        let name := body.takeWhile (· ≠ .scalar '=')
        match body.drop name.length with
        | [] => { name, argument := none }
        | _ :: argument => { name, argument := some argument }
    else none

end Tag

/-- The tags of a line in order, each with its position.  `backslashes` counts the backslashes just
before `position`; an odd number of them makes a bracket literal. -/
def tagsFrom (position backslashes : Nat) : Text → List (Nat × Tag)
  | [] => []
  | .scalar '\\' :: r => tagsFrom (position + 1) (backslashes + 1) r
  | .scalar '[' :: r =>
    match Tag.read? r with
    | some tag =>
      if backslashes % 2 = 1 then tagsFrom (position + 1) 0 r
      else (position, tag) :: tagsFrom (position + 1) 0 r
    | none => tagsFrom (position + 1) 0 r
  | _ :: r => tagsFrom (position + 1) 0 r

def tags (line : Text) : List (Nat × Tag) := tagsFrom 0 0 line

def lower (t : Text) : Text :=
  t.flatMap fun p =>
    match CodePoint.ofNat? (lowerCase p.toNat) with
    | some q => if p = .scalar 'İ' then [q, .scalar '̇'] else [q]
    | none => [p]

/-- The attributes of a style with their short names, in the order in which a style lists them. -/
def attributes : List (Text × List Text) :=
  [("bold", ["b"]), ("dim", ["d"]), ("italic", ["i"]), ("underline", ["u"]), ("blink", []),
    ("blink2", []),
   ("reverse", ["r"]), ("conceal", ["c"]), ("strike", ["s"]), ("underline2", ["uu"]), ("frame", []),
   ("encircle", []), ("overline", ["o"])]

def attribute? (word : Text) : Option Text :=
  (attributes.find? fun (name, short) => name = word || short.contains word).map (·.1)

def colorNames : List Text :=
  ["default", "black", "red", "green", "yellow", "blue", "magenta", "cyan", "white", "bright_black",
    "bright_red",
   "bright_green", "bright_yellow", "bright_blue", "bright_magenta", "bright_cyan", "bright_white"]

def isHexDigit : CodePoint → Bool :=
  CodePoint.test fun c => c.isDigit || ('a' ≤ c && c ≤ 'f')

def decimal? (t : Text) : Option Nat :=
  if t.isEmpty then none
  else t.foldl (fun n p => match n, p.digitValue? with
    | some n, some d => some (n * 10 + d)
    | _, _ => none) (some 0)

/-- Whether a word in lower case names a color: by name, by six hexadecimal digits, by number or by
components. -/
def isColor (word : Text) : Bool :=
  colorNames.contains word ||
    (match word with
      | .scalar '#' :: digits => digits.length = 6 && digits.all isHexDigit
      | _ => false) ||
    (match Text.after? "color(" word with
      | some r =>
        r.getLast? = some (.scalar ')') && r.length ≤ 4 && (decimal? r.dropLast).any (· ≤ 255)
      | none => false) ||
    (match Text.after? "rgb(" word with
      | some r =>
        let parts := Text.splitAt (.scalar ',') r.dropLast
        r.getLast? = some (.scalar ')') && parts.length = 3 && parts.all fun part =>
          (decimal? part).any (· ≤ 255)
      | none => false)

structure Style where
  on : List (Text × Bool) := []
  color : Option Text := none
  background : Option Text := none
  link : Option Text := none

/-- Read the words of a style; none if one of them says nothing. -/
def styleOf? : List Text → Style → Option Style
  | [], s => some s
  | word :: rest, s =>
    let low := lower word
    if low = "on" then
      match rest with
      | [] => none
      | color :: rest =>
        if isColor (lower color) then styleOf? rest { s with background := some (lower color) }
          else none
    else if low = "not" then
      match rest with
      | [] => none
      | name :: rest => match attribute? name with
        | some a => styleOf? rest { s with on := (a, false) :: s.on.filter (·.1 ≠ a) }
        | none => none
    else if low = "link" then
      match rest with
      | [] => none
      | url :: rest => styleOf? rest { s with link := some url }
    else match attribute? low with
      | some a => styleOf? rest { s with on := (a, true) :: s.on.filter (·.1 ≠ a) }
      | none => if isColor low then styleOf? rest { s with color := some low } else none

/-- The name by which a style is known, whatever the order and the spelling of its words. -/
def styleName (name : Text) : Text :=
  match styleOf? (Text.words name) {} with
  | none => lower (Text.trim name)
  | some s =>
    let attributes := attributes.filterMap fun (a, _) =>
      (s.on.lookup a).map fun on => if on then a else "not " ++ a
    let color := s.color.toList
    let background := match s.background with
      | some c => [("on" : Text), c]
      | none => []
    let link := match s.link with
      | some url => [("link" : Text), url]
      | none => []
    match attributes ++ color ++ background ++ link with
    | [] => "none"
    | words => Text.join " " words

/-- Whether the argument of an action tag can be read: a dotted name, with or without literals in
parentheses. -/
def isAction (argument : Text) : Bool :=
  let t := Text.trim argument
  let name := t.takeWhile fun p => p.isAlphanumeric || p = .scalar '_' || p = .scalar '.'
  match t.drop name.length with
  | [] => true
  | .scalar '(' :: r =>
    r.getLast? = some (.scalar ')') &&
      (r.dropLast.isEmpty || (Text.splitAt (.scalar ',') r.dropLast).all fun part =>
        let part := Text.trim part
        (decimal? part).isSome ||
          (part.length ≥ 2 && part.head? = part.getLast? &&
            (part.head? = some (.scalar '\'') || part.head? = some (.scalar '"'))))
  | _ => false

def Tag.closes (tag : Tag) : Bool :=
  match tag.name, tag.argument with
  | .scalar '@' :: _, some argument => argument.isEmpty || isAction argument
  | _, _ => true

def close? (name : Text) : List Tag → Option (Tag × List Tag)
  | [] => none
  | tag :: rest =>
    if tag.name = name then some (tag, rest)
    else (close? name rest).map fun (found, rest) => (found, tag :: rest)

def Tag.text (tag : Tag) : Text :=
  match tag.argument with
  | none => "[" ++ tag.name ++ "]"
  | some argument => "[" ++ tag.name ++ "=" ++ argument ++ "]"

def Tag.complaint (tag : Tag) (position : Nat) : Text :=
  if Text.trim (tag.name.drop 1) = [] then
    "closing tag '[/]' at position " ++ Text.ofNat position ++ " has nothing to close"
  else "closing tag '" ++ tag.text ++ "' at position " ++ Text.ofNat position ++
    " doesn't match any open tag"

/-- What is wrong with the tags of a line, `opened` being open, latest first. -/
def complaintFrom? : (opened : List Tag) → List (Nat × Tag) → Option Text
  | _, [] => none
  | opened, (position, tag) :: rest =>
    match tag.name with
    | .scalar '/' :: name =>
      let name := Text.trim name
      let closed := if name.isEmpty then (match opened with
          | [] => none
          | last :: before => some (last, before))
        else close? (styleName name) opened
      match closed with
      | some (found, opened) =>
        if found.closes then complaintFrom? opened rest
        else some ("error parsing " ++ Text.quoted (found.argument.getD []))
      | none => some (tag.complaint position)
    | name => complaintFrom? ({ tag with name := styleName name } :: opened) rest

def complaint? (line : Text) : Option Text := complaintFrom? [] (tags line)

def shows (line : Text) : Bool := (complaint? line).isNone

/-- A text without its tags.  `skip` counts the code points of a tag that are still to be left out,
and `backslashes` the backslashes just before. -/
def plainFrom (skip backslashes : Nat) : Text → Text
  | [] => []
  | p :: r =>
    match skip with
    | skip + 1 => plainFrom skip 0 r
    | 0 =>
      if p = .scalar '\\' then p :: plainFrom 0 (backslashes + 1) r
      else if p = .scalar '[' && backslashes % 2 = 0 then
        match Tag.read? r with
        | some tag => plainFrom (tag.text.length - 1) 0 r
        | none => p :: plainFrom 0 0 r
      else p :: plainFrom 0 0 r

def plain (t : Text) : Text := plainFrom 0 0 t

end Markup
end StepAtlas
