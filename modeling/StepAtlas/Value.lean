import StepAtlas.Number.Calendar
import StepAtlas.Number.Shortest
import StepAtlas.Path
import StepAtlas.Text.Quoted

/-
Values of settings, as they are given before it is known whether they make sense.
-/

namespace StepAtlas

inductive Value where
  | null
  | bool (b : Bool)
  | int (n : Int)
  | float (x : Binary64)
  | text (t : Text)
  | date (d : Date)
  | time (t : Time)
  | moment (m : Moment)
  | path (p : Path)
  | list (items : List Value)
  | table (entries : List (Text × Value))
deriving Repr, Inhabited

namespace Value

def form (name : Text) (parts : List Text) : Text := name ++ "(" ++ Text.join ", " parts ++ ")"

def numbers (ns : List Nat) : List Text := ns.map Text.ofNat

def dateForm (d : Date) : Text := form "datetime.date" (numbers [d.year, d.month, d.day])

/-- The parts of a time; seconds that are zero are left out at the end. -/
def timeParts (t : Time) : List Nat :=
  if t.microsecond ≠ 0 then [t.hour, t.minute, t.second, t.microsecond]
  else if t.second ≠ 0 then [t.hour, t.minute, t.second]
  else [t.hour, t.minute]

def offsetForm (minutes : Int) : Text :=
  if minutes = 0 then "datetime.timezone.utc"
  else
    let parts : List Text := if minutes < 0 then
        ["days=-1", "seconds=" ++ Text.ofInt (86400 + minutes * 60)]
      else ["seconds=" ++ Text.ofInt (minutes * 60)]
    form "datetime.timezone" [form "datetime.timedelta" parts]

def momentForm (m : Moment) : Text :=
  let zone := m.offset.toList.map fun minutes => "tzinfo=" ++ offsetForm minutes
  form "datetime.datetime" (numbers ([m.date.year, m.date.month, m.date.day] ++ timeParts m.time) ++
    zone)

mutual

def shown : Value → Text
  | .null => "None"
  | .bool b => if b then "True" else "False"
  | .int n => Text.ofInt n
  | .float x => x.text
  | .text t => Text.quoted t
  | .date d => dateForm d
  | .time t => form "datetime.time" (numbers (timeParts t))
  | .moment m => momentForm m
  | .path p => form "PosixPath" [Text.quoted p.toText]
  | .list items => "[" ++ Text.join ", " (shownAll items) ++ "]"
  | .table entries => "\x7b" ++ Text.join ", " (shownEntries entries) ++ "\x7d"

def shownAll : List Value → List Text
  | [] => []
  | v :: vs => shown v :: shownAll vs

def shownEntries : List (Text × Value) → List Text
  | [] => []
  | (key, v) :: entries => (Text.quoted key ++ ": " ++ shown v) :: shownEntries entries

end

/-- A value as plain text: a text or a path itself, a date or a time as it is usually written, all
else as it is shown. -/
def plain : Value → Text
  | .text t => t
  | .date d => d.text
  | .time t => t.text
  | .moment m => m.text
  | .path p => p.toText
  | v => v.shown

mutual

def integers : Value → List Int
  | .int n => [n]
  | .list items => integersAll items
  | .table entries => integersEntries entries
  | _ => []

def integersAll : List Value → List Int
  | [] => []
  | v :: vs => integers v ++ integersAll vs

def integersEntries : List (Text × Value) → List Int
  | [] => []
  | (_, v) :: entries => integers v ++ integersEntries entries

end

def isNested : Value → Bool
  | .list _ | .table _ => true
  | _ => false

/-- Whether a value counts as yes.  Zero, nothing and empty collections do not. -/
def isTrue : Value → Bool
  | .null => false
  | .bool b => b
  | .int n => n ≠ 0
  | .float x => !x.isZero
  | .text t => !t.isEmpty
  | .list items => !items.isEmpty
  | .table entries => !entries.isEmpty
  | .date _ | .time _ | .moment _ | .path _ => true

/-- A number as values are told apart by: an integer is written in one way only. -/
def numberName (x : Binary64) : Text :=
  match x.int? with
  | some n => Text.ofInt n
  | none => x.text

mutual

/-- The name that a value shares with all values that are equal to it.  Numbers go by their size
whatever their kind, and the truth values count as one and zero; moments go by what they are in
universal time if that is known, and the entries of a table by no order. -/
def name : Value → Text
  | .bool b => if b then "1" else "0"
  | .float x => numberName x
  | .moment m => (m.instant?.map fun n => form "instant" [Text.ofInt n]).getD (momentForm m)
  | .list items => "[" ++ Text.join ", " (nameAll items) ++ "]"
  | .table entries =>
    let names := (nameEntries entries).mergeSort fun a b => !Text.before b a
    "\x7b" ++ Text.join ", " names ++ "\x7d"
  | v => v.shown

def nameAll : List Value → List Text
  | [] => []
  | v :: vs => name v :: nameAll vs

def nameEntries : List (Text × Value) → List Text
  | [] => []
  | (key, v) :: entries => (Text.quoted key ++ ": " ++ name v) :: nameEntries entries

end

def same (v w : Value) : Bool := v.name = w.name

theorem same_iff {v w : Value} : v.same w = true ↔ v.name = w.name := decide_eq_true_iff

@[simp] theorem same_self (v : Value) : v.same v = true := same_iff.mpr rfl

theorem same_trans {u v w : Value} (huv : u.same v = true) (hvw : v.same w = true) :
    u.same w = true :=
  same_iff.mpr ((same_iff.mp huv).trans (same_iff.mp hvw))

end Value
end StepAtlas
