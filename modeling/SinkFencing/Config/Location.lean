namespace SinkFencing.Location

def isAbsolute (path : String) : Bool := path.startsWith "/"

/-- The steps of a path. Empty steps and single points lead nowhere. -/
def steps (path : String) : List String :=
  (path.splitOn "/").filter fun step => step ≠ "" ∧ step ≠ "."

def absolute (steps : List String) : String := "/" ++ "/".intercalate steps

def joinTo (directory path : String) : String :=
  if directory.endsWith "/" then directory ++ path else directory ++ "/" ++ path

def ancestors (steps : List String) : List (List String) :=
  (List.range (steps.length + 1)).reverse.map steps.take

/-- The places where a file may be, in the order in which they are tried. -/
def places (directory path : String) : List String :=
  if isAbsolute path then [path]
  else (ancestors (steps directory)).map fun above => joinTo (absolute above) path

/-- The steps from one directory to a place, up to where both agree and down again. -/
def between : List String → List String → List String
  | a :: place, b :: directory =>
    if a = b then between place directory
    else ".." :: directory.map (fun _ => "..") ++ a :: place
  | place, directory => directory.map (fun _ => "..") ++ place

def shown (directory place : String) : String :=
  let relative := between (steps place) (steps directory)
  if relative.length < (steps place).length + 1 then "/".intercalate relative else place

/-- The first place that can be read, with what was read there. -/
def findFirst {m : Type → Type} {α : Type} [Monad m] (read : String → m (Option α)) :
    List String → m (Option (String × α))
  | [] => return none
  | place :: rest => do
    match ← read place with
    | some found => return some (place, found)
    | none => findFirst read rest

end SinkFencing.Location
