/-
  GitCommitsPush.Publication.Host — what the publication code calls outside itself.

  A `Host` gives the subprocesses their effect on a world `σ` of repositories and
  remotes, any effect, failure included, and the two library functions whose code is
  not here: SHA-256 and `String.prototype.localeCompare`. The model runs over every
  host; a claim about Git takes one that behaves as Git does.

  The trace of a run is ghost: it records what the code did at the points no subprocess
  shows.
-/

import GitCommitsPush.Lib.JsText
import GitCommitsPush.Lib.Trace

namespace GitCommitsPush.Publication

open GitCommitsPush.Lib.Effect
open GitCommitsPush.Lib.JsText
open GitCommitsPush.Lib

/-- An `Error`; of a subprocess, with its output and exit status. -/
structure ExecError where
  message : String
  stdout : String := ""
  stderr : String := ""
  status : Option Int := none
  deriving DecidableEq, Repr

/-- `new Error(message)`. -/
def plainError (message : String) : ExecError := { message }

/-- What a run did, at the points the claims speak of. -/
inductive Event where
  /-- `validateDiffForSecrets` passed the diff. -/
  | scanned (repository diff : String)
  /-- `executeMultiCommitAndPush` was called. -/
  | executing (repository expectedDiffHash : String)
  /-- A commit was created and its id read. -/
  | committed (repository sha : String)
  /-- `executePush` returned. -/
  | pushed (repository : String)
  deriving DecidableEq, Repr

structure Host (σ : Type) where
  sha256 : String → String
  localeCompare : String → String → Int
  /-- `execSync`: the command line goes to a shell. -/
  execSync : (cwd command : String) → Action σ ExecError String
  /-- `execFileSync("git", args)`, with the process configuration `git-exec.ts` adds. -/
  execFileGit : (cwd : String) → (args : List String) → (processConfig : List (String × String)) →
    Action σ ExecError String
  /-- `fs.writeFileSync` of the temporary commit message of plan `i`; its path. -/
  writeMessage : (i : Nat) → (message : String) → Action σ ExecError String
  /-- `pathExists` of a planned file: `lstatSync`, a missing path told from other errors. -/
  pathExists : (cwd file : String) → Action σ ExecError Bool
  randomUUID : Action σ ExecError String
  /-- `runTestCascade`: the repository's own tests. -/
  runTestCascade : (repository : String) → Action σ ExecError Unit

namespace Host

variable {σ : Type} (host : Host σ)

/-- `gitExec(args)`. -/
def gitExec (args cwd : String) : Action σ ExecError String := do
  let stdout ← host.execSync cwd ("git " ++ args)
  return trimString stdout

/-- `gitExecArgs(args, cwd, processConfig)`. -/
def gitExecArgsWith (processConfig : List (String × String)) (args : List String) (cwd : String) :
    Action σ ExecError String := do
  let stdout ← host.execFileGit cwd args processConfig
  return trimString stdout

def gitExecArgs : List String → String → Action σ ExecError String := host.gitExecArgsWith []

/-- `gitExecArgsRaw(args, cwd)`. -/
def gitExecArgsRaw (args : List String) (cwd : String) : Action σ ExecError String := host.execFileGit cwd args []

end Host

/-- A world with the trace of the run so far. -/
abbrev Traced (σ : Type) := Trace.Traced σ Event

end GitCommitsPush.Publication
