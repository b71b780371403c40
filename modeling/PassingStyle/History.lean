import PassingStyle.Text

/-!
# The history file

Lines are remembered in a file in the home directory of the user. Its name is the
cleaned path: no empty or self-referring parts, and a step up cancels the part
before it.
-/

namespace PassingStyle

namespace Path

/-- The parts of a path between its slashes, without the empty ones. -/
def parts (path : Text) : List Text :=
  (path.splitOn (Text.byte '/')).filter fun p => !p.isEmpty

/-- The parts of the cleaned path, the last one first. Above the root there is
nothing, so a step up from there is dropped. -/
def resolve (rooted : Bool) (done : List Text) : List Text → List Text
  | [] => done
  | p :: ps =>
    if p = "." then resolve rooted done ps
    else if p = ".." then
      match done with
      | [] => resolve rooted (if rooted then [] else [p]) ps
      | q :: rest =>
        if q = ".." then resolve rooted (p :: done) ps else resolve rooted rest ps
    else resolve rooted (p :: done) ps

/-- **The shortest path** that leads to the same place by spelling alone. -/
def clean (path : Text) : Text :=
  let rooted := path.startsWith "/"
  let cleaned := Text.join "/" (resolve rooted [] (parts path)).reverse
  if rooted then Text.byte '/' :: cleaned
  else if cleaned.isEmpty then "." else cleaned

end Path

/-- **The name of the history file**; nothing, without a home directory. -/
def historyFile (home : Option Text) : Text :=
  match home with
  | none => []
  | some dir => if dir.isEmpty then [] else Path.clean (dir ++ "/.cpsc_history")

end PassingStyle
