
namespace SteppedLogo

/-- A path of parts below a root; one with an empty root is relative. -/
structure Path where
  root : String := ""
  parts : List String := []
  deriving DecidableEq

namespace Path

/-- Exactly two slashes at the start are a root of their own, any other number of them is one. -/
def rootOf (s : String) : String :=
  match (s.toList.takeWhile (· == '/')).length with
  | 0 => ""
  | 2 => "//"
  | _ => "/"

def ofText (s : String) : Path :=
  { root := rootOf s, parts := (s.splitOn "/").filter fun part => part != "" && part != "." }

/-- The text of a path; the place itself is a point. -/
def text (p : Path) : String :=
  if p.root = "" && p.parts.isEmpty then "." else p.root ++ "/".intercalate p.parts

def join (p : Path) (part : String) : Path := { p with parts := p.parts ++ [part] }

def parent (p : Path) : Path := { p with parts := p.parts.dropLast }

/-- The path with a leading tilde replaced by the home directory; the homes of others are not
    known. -/
def expandHome (home : String) (p : Path) : Option Path :=
  match p.root, p.parts with
  | "", "~" :: rest =>
    let h := ofText home
    some { h with parts := h.parts ++ rest }
  | "", first :: _ => if first.startsWith "~" then none else some p
  | _, _ => some p

end Path

end SteppedLogo
