import Peaks.Arguments
import Peaks.Version.Line

/-!
# Bumping a version

The version of a project stands in two files, each on a version line with a key of its own. The
files are written one after the other.

- `Version.targets` : the two files and their keys
- `Version.stamp`   : one file
- `Version.bump`    : the program, from its arguments and the files there are
-/

namespace Peaks
namespace Version

/-! ## Files -/

inductive FileEntry
  | file (text : String)
  | directory
  deriving DecidableEq, Repr

/-- Files by name. -/
abbrev Files := List (String × FileEntry)

namespace Files

/-- What stands under a name; a name that others lie below is a directory. -/
def find? (files : Files) (name : String) : Option FileEntry :=
  match files.lookup name with
  | some found => some found
  | none =>
      if files.any fun f => (name ++ "/").toList.isPrefixOf f.1.toList then some .directory
      else none

/-- Replaces the text of a file. -/
def write (files : Files) (name text : String) : Files :=
  files.map fun f => if f.1 = name then (name, .file text) else f

end Files

/-- Every line break becomes a single newline when a text is read. -/
def readLines : List Char → List Char
  | '\r' :: '\n' :: rest => '\n' :: readLines rest
  | '\r' :: rest => '\n' :: readLines rest
  | c :: rest => c :: readLines rest
  | [] => []

/-! ## Writing the version -/

/-- A file that declares the version, and the key it does so under. -/
structure Target where
  path : String
  key : String
  deriving DecidableEq, Repr

def targets : List Target :=
  [{ path := "pyproject.toml", key := "version" },
   { path := "fnmaxima/__init__.py", key := "__version__" }]

/-- Why a version could not be written. -/
inductive Problem
  | badFormat (version : String)
  | notFound (path : String)
  | noVersionLine (path : String)
  | isDirectory (path : String)
  deriving DecidableEq, Repr

def Problem.message : Problem → String
  | .badFormat version => "Invalid version format '" ++ version ++ "'. Expected format: x.y.z"
  | .notFound path => path ++ " not found"
  | .noVersionLine path => "Could not find version pattern in " ++ path
  | .isDirectory path => "[Errno 21] Is a directory: " ++ Text.quoted path

/-- The files with the version written into one of them. -/
def stamp (target : Target) (version : String) (files : Files) : Except Problem Files :=
  match files.find? target.path with
  | none => .error (.notFound target.path)
  | some .directory => .error (.isDirectory target.path)
  | some (.file text) =>
      match replace? target.key.toList version.toList (readLines text.toList) with
      | none => .error (.noVersionLine target.path)
      | some text => .ok (files.write target.path (String.ofList text))

/-- How far the program came: the files, the lines it printed, and the problem that stopped it. -/
structure Progress where
  files : Files
  lines : List String
  problem : Option Problem
  deriving DecidableEq, Repr

/-- Writes the version into one target after another, up to the first problem. -/
def stampAll (version : String) : List Target → Files → Progress
  | [], files =>
      { files := files
        lines := ["", "Version successfully bumped to " ++ version]
        problem := none }
  | target :: rest, files =>
      match stamp target version files with
      | .error problem => { files := files, lines := [], problem := some problem }
      | .ok files =>
          let progress := stampAll version rest files
          { progress with
            lines := ("Updated version in " ++ target.path ++ " to " ++ version)
              :: progress.lines }

/-- Checks the version and writes it into all targets. -/
def apply (version : String) (files : Files) : Progress :=
  if isValid version then stampAll version targets files
  else { files := files, lines := [], problem := some (.badFormat version) }

/-! ## The program -/

def Progress.outcome (p : Progress) : Outcome :=
  match p.problem with
  | none => { exitCode := 0, output := printedLines p.lines }
  | some problem =>
      { exitCode := 1, output := printedLines (p.lines ++ ["Error: " ++ problem.message]) }

def commandLine : CommandLine where
  numbers := []
  words := 1

def helpText : String :=
  printedLines [
    "usage: bump_version.py [-h] version",
    "",
    "Bump version in FnMaxima project",
    "",
    "positional arguments:",
    "  version     New version number (format: x.y.z)",
    "",
    "options:",
    "  -h, --help  show this help message and exit"]

/-- The program: how it ends and the files it leaves. -/
def bump (args : List String) (files : Files) : Outcome × Files :=
  match commandLine.parse args with
  | .help => ({ exitCode := 0, output := helpText }, files)
  | .run _ [version] =>
      let progress := apply version files
      (progress.outcome, progress.files)
  | _ => ({ exitCode := 2, output := "" }, files)

end Version
end Peaks
