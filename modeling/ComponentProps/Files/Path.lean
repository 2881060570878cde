import ComponentProps.Text.Split

/-!
# Paths

A path is a text whose segments are divided by `/`.  Empty segments and `.`
stay where they are, and `..` goes up.  A path that starts with `/` is absolute.

* `Path.join`: a path one segment further down.
* `Path.parent?`: the path of the folder that a path stands in.  Segments at the
  end that name nothing do not count, so the parent of `a/b/` and of `a/b/.` is
  `a`.
* `Path.isHere`: the path of the working folder itself.
-/

namespace ComponentProps

namespace Path

/-- The segments of a path. -/
def segments (path : String) : List String := Text.split '/' path

/-- Does a path start at the outermost folder? -/
def isAbsolute (path : String) : Bool := path.toList.head? == some '/'

/-- Does a segment stay in the folder it is read in? -/
def staysPut (segment : String) : Bool := segment.isEmpty || segment == "."

/-- A path with one more segment. -/
def join (path segment : String) : String :=
  if path.isEmpty then segment
  else if path.toList.getLast? == some '/' then path ++ segment
  else path ++ "/" ++ segment

/-- Is a path `.`, up to segments that stay put? -/
def isHere (path : String) : Bool :=
  path.toList.head? == some '.' && (segments path).all staysPut

/-! ## Parents -/

/-- Segments without those at the end that stay put.  The first one is kept: it
marks an absolute path, or it is `.` and names the working folder. -/
def withoutIdleEnd : List String → List String
  | [] => []
  | first :: rest => first :: (rest.reverse.dropWhile staysPut).reverse

/-- The path with the given segments. -/
def ofSegments : List String → String
  | [""] => "/"
  | segments => "/".intercalate segments

/-- The path of the folder that a path stands in; empty for a path of one
segment, and nothing for the outermost folder. -/
def parent? (path : String) : Option String :=
  match withoutIdleEnd (segments path) with
  | [] => none
  | [first] => if first.isEmpty then none else some ""
  | first :: rest => some (ofSegments (withoutIdleEnd (first :: rest.dropLast)))

end Path

end ComponentProps
