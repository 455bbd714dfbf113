import StepAtlas.Disk.Basic
import StepAtlas.Fault

/-
Reading files.
-/

namespace StepAtlas

/-- The text of a file and its size in bytes, as whoever read it tells it. -/
structure FileContent where
  text : Text
  size : Int
deriving DecidableEq, Repr

namespace Disk

def systemMessage (number : Nat) (words : Text) (p : Path) : Text :=
  "[Errno " ++ Text.ofNat number ++ "] " ++ words ++ ": " ++ Text.quoted p.toText

def bytes (d : Disk) (p : Path) : Except Text Bytes :=
  match d.find p with
  | .ok (.file content) => .ok content
  | .ok (.folder _) => .error (systemMessage 21 "Is a directory" p)
  | .error .absent => .error (systemMessage 2 "No such file or directory" p)
  | .error .notFolder => .error (systemMessage 20 "Not a directory" p)

/-- Read a text file.  A byte order mark counts for the size and not for the text. -/
def read (d : Disk) (p : Path) : Except Fault FileContent :=
  let result : Except Text FileContent := do
    let content ← d.bytes p
    let text ← Utf8.decode (Utf8.withoutMark content)
    return { text, size := content.length }
  result.mapError fun words => .indexing ("Cannot read " ++ p.toText ++ ": " ++ words)

end Disk
end StepAtlas
