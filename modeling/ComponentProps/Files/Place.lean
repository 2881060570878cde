import ComponentProps.Files.Path

/-!
# Places

A place is where a path leads to, whatever detours it takes: the names of the
folders on the way from the root, and of the entry itself.

The root is the working folder.  There are folders around it, whose names are not
known.  A place out there starts with a `..` for every step up from the root, or
with `/` for the outermost folder.

* `Place.up`, `Place.down`: the folder around a place, and the place one segment
  further on.
* `Place.ofPath`: the place of a path, if every name on it is that of a folder.
-/

namespace ComponentProps

namespace Files

/-- The names that lead to an entry, the innermost first. -/
abbrev Place := List String

namespace Place

/-- Is a place the root, or a folder around it? -/
def isAround (place : Place) : Bool := place.all (· == "..") || place == ["/"]

/-- Is a place below the root? -/
def isBelowRoot (place : Place) : Bool := !place.contains ".." && !place.contains "/"

/-- The folder around the one at a place; the outermost one stays itself. -/
def up (place : Place) : Place :=
  if place == ["/"] then place
  else if place.isAround then ".." :: place
  else place.tail

/-- The place that a segment leads to from a folder. -/
def down (place : Place) (segment : String) : Place :=
  if Path.staysPut segment then place
  else if segment = ".." then place.up
  else segment :: place

/-- Where a path starts. -/
def start (path : String) : Place := if Path.isAbsolute path then ["/"] else []

/-- The place of a path on which every name is that of a folder. -/
def ofPath (path : String) : Place := (Path.segments path).foldl down (start path)

/-- The path of a place below the root. -/
def path (place : Place) : String := "/".intercalate place.reverse

end Place

end Files

end ComponentProps
