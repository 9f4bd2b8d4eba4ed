import Literate.Files
import Literate.Fixture.Basic

/-!
# Suites of fixtures

The fixtures below a directory are the files whose names end in `.test.md`. They are sorted into
categories by the directory they stand in (`Suite.ofDirectory`), and run category by category. Asking
for a category asks for those below it too (`Suite.select`). `Suite.run` reports each fixture as it
runs, then the failures with their reasons, then the count.
-/

namespace Literate

/-- The fixtures of one category, by their paths. -/
structure Category where
  name : String
  paths : List String

/-- Categories by increasing name. -/
abbrev Suite := List Category

/-- How a category is shown; the top directory has no name of its own. -/
def Category.label (category : Category) : String :=
  if category.name.isEmpty then "(root)" else category.name

namespace Suite

def isFixtureName (name : String) : Bool :=
  name.endsWith ".test.md"

/-- The category of a file by its route: the names of the directories it stands in. -/
def categoryOf (route : Route) : String :=
  String.ofList (("/".intercalate route.dropLast).toList.map fun c => if c = '\\' then '/' else c)

/-- Whether a route comes before another or is the same, name by name. -/
def routeLe : Route → Route → Bool
  | [], _ => true
  | _ :: _, [] => false
  | a :: as, b :: bs => if a = b then routeLe as bs else a < b

/-- Runs of routes in one category, of routes by increasing category. -/
def grouped (path : String) : List (String × Route) → Suite
  | [] => []
  | (name, route) :: rest =>
    match grouped path rest with
    | [] => [⟨name, [joinPath path route]⟩]
    | category :: categories =>
      if category.name = name then ⟨name, joinPath path route :: category.paths⟩ :: categories
      else ⟨name, [joinPath path route]⟩ :: category :: categories

/-- The fixtures below the directory that a path names. -/
def ofDirectory (files : Files) (path : String) : Suite :=
  let routes := (files.below path).filter fun route => isFixtureName (route.getLastD "")
  let sorted := (routes.mergeSort routeLe).map fun route => (categoryOf route, route)
  grouped path (sorted.mergeSort fun a b => a.1 ≤ b.1)

/-- A name without slashes at either end. -/
def trimSlashes (name : String) : List Char :=
  Text.dropEndWhile (· = '/') (name.toList.dropWhile (· = '/'))

/-- Whether a request names a category or one that it is below. -/
def isAskedFor (category : Category) (request : String) : Bool :=
  let wanted := trimSlashes request
  category.name.toList = wanted || (wanted ++ ['/']).isPrefixOf category.name.toList

/-- The categories that are asked for; all of them if no request is made. -/
def select (suite : Suite) (requests : List String) : Suite :=
  if requests.isEmpty then suite
  else suite.filter fun category => requests.any (isAskedFor category)

/-- A warning for each request that names no category. -/
def warnings (suite : Suite) (requests : List String) : List String :=
  requests.filterMap fun request =>
    if suite.any fun category => isAskedFor category request then none
    else
      let wanted := String.ofList (trimSlashes request)
      let available := ", ".intercalate (suite.map Category.label)
      some s!"warning: category '{wanted}' not found (available: {available})"

/-- The lines that show the categories of a suite. -/
def listing (path : String) (suite : Suite) : List String :=
  if suite.isEmpty then [s!"no .test.md files found in {path}"]
  else "available categories:" :: suite.map fun category =>
    let label := category.label
    let count := category.paths.length
    s!"  {label} ({count} tests)"

-- ---------------------------------------------------------------------------
-- Running
-- ---------------------------------------------------------------------------

/-- What became of one fixture. -/
structure Verdict where
  path : String
  description : Option String
  failure : Option Fixture.Failure

/-- The name of a file without what follows its last dot, unless that is all of the name. -/
def stem (path : String) : String :=
  let name := ((Text.splitAt '/' path.toList).filter fun name => !name.isEmpty).getLastD []
  let front := (name.reverse.dropWhile (· ≠ '.')).drop 1
  if front.isEmpty then String.ofList name else String.ofList front.reverse

def Verdict.label (verdict : Verdict) : String :=
  verdict.description.getD (stem verdict.path)

def runFile (files : Files) (programs : Programs) (base : Config) (path : String) : Verdict :=
  match files.read path with
  | .error e => ⟨path, none, some (.unreadable e.message)⟩
  | .ok content =>
    match Fixture.read content with
    | .error e => ⟨path, none, some (.malformed e)⟩
    | .ok (fixture, document) =>
      ⟨path, fixture.description, fixture.check programs base document⟩

def paint (colored : Bool) (code text : String) : String :=
  if colored then s!"\x1b[{code}m{text}\x1b[0m" else text

def reportLine (colored : Bool) (verdict : Verdict) : String :=
  let word :=
    if verdict.failure.isNone then paint colored "32" "PASS" else paint colored "31" "FAIL"
  let label := verdict.label
  s!"  {word}  {label}"

/-- The lines that explain a failure. -/
def failureLines (path : String) (failure : Fixture.Failure) : List String :=
  ["", s!"  --- {path} ---"] ++ (Text.lines failure.message).map ("  " ++ ·)

/-- The lines behind the report on each fixture. -/
def closingLines (colored : Bool) (verdicts : List Verdict) : List String :=
  let failures := verdicts.filterMap fun v => v.failure.map fun failure => (v.path, failure)
  let total := verdicts.length
  let failed := failures.length
  let passed := total - failed
  if failed = 0 then
    let word := paint colored "32" "ok"
    ["", s!"test result: {word}. {passed} passed, 0 failed"]
  else
    let word := paint colored "31" "FAILED"
    ["", "failures:"] ++ (failures.flatMap fun (path, failure) => failureLines path failure) ++
      ["", s!"test result: {word}. {passed} passed, {failed} failed (of {total})"]

/-- The exit code and the report of a suite that runs; the names of its categories are left out for a
single file. -/
def run (files : Files) (programs : Programs) (base : Config) (colored headed : Bool) (suite : Suite) :
    Nat × List String :=
  let groups := suite.map fun category =>
    (category.label, category.paths.map (runFile files programs base))
  let report := groups.flatMap fun (label, verdicts) =>
    (if headed then ["", paint colored "1" label] else []) ++ verdicts.map (reportLine colored)
  let verdicts := groups.flatMap (·.2)
  (if verdicts.all fun v => v.failure.isNone then 0 else 1, report ++ closingLines colored verdicts)

end Suite

end Literate
