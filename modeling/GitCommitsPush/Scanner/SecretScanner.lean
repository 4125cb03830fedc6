/-
  GitCommitsPush.Scanner.SecretScanner — `scanDiff` (`core/secret-scanner.ts`): the secrets
  in the added lines of a unified diff.

  The scan goes line by line and carries the path of the last header it saw: a line that
  starts with `diff --git ` or `+++ ` is a header, any other line that starts with `+`
  is an added line of that path. A line is reported once, for the first pattern that
  fits, as a finding or, below a non-production directory, as a warning.
-/

import GitCommitsPush.Lib.Regex
import GitCommitsPush.Scanner.UnifiedDiff

namespace GitCommitsPush.Scanner

open GitCommitsPush.Lib.JsText
open GitCommitsPush.Lib.Regex

structure Finding where
  name : String
  line : Text
  lineNumber : Nat
  filePath : Option Text
  reason : Option String
  deriving DecidableEq, Repr

structure ScanResult where
  findings : List Finding
  warnings : List Finding
  deriving DecidableEq, Repr

def ScanResult.clean (r : ScanResult) : Bool := r.findings.isEmpty

def unitsOf (s : Text) : List Nat := s.flatMap codeUnits

def isPrefix (p : String) (s : Text) : Bool := p.toList.isPrefixOf s

/-! ## Patterns -/

def PASSWORD_PLACEHOLDERS : List String :=
  ["changeme", "password", "placeholder", "example", "xxx", "xxxxxxxx", "todo", "fixme"]

def space : Re := star isSpaceCode

def quote : Nat → Bool := among "'\""

/-- `[:=]\s*['"]?(.*?)['"]?\s*$`. -/
def assignment : Re :=
  seqAll [.one (among ":="), space, optional (.one quote), .group 1 (.rep anyChar 0 none false),
    optional (.one quote), space, .atEnd]

/-- `^['"]|['"]$`. -/
def outerQuote : Re := .alt (.seq .atStart (.one quote)) (.seq (.one quote) .atEnd)

def extractAssignedValue (content : Text) : Text :=
  match exec assignment (unitsOf content) with
  | none => []
  | some (_, t) => match capture 1 t with
    | none => []
    | some value => ofUnits (replaceAll outerQuote (fun _ => []) value)

structure SecretPattern where
  name : String
  pattern : Re
  confirm : Text → Bool := fun _ => true

def notSpace (c : Nat) : Bool := !isSpaceCode c

def isUpperOrDigit (c : Nat) : Bool := inRange 'A' 'Z' c || isDigit c

def isAlphanumeric (c : Nat) : Bool := inRange 'a' 'z' c || isUpperOrDigit c

def confirmPassword (content : Text) : Bool :=
  let value := extractAssignedValue content
  if (unitsOf value).length < 8 then false
  else !PASSWORD_PLACEHOLDERS.any fun placeholder => lowerChars value == placeholder.toList

def SECRET_PATTERNS : List SecretPattern := [
  { name := "AWS Access Key", pattern := .seq (lit "AKIA") (exactly 16 isUpperOrDigit) },
  { name := "AWS Secret Key"
    pattern := seqAll [altAll [litI "aws_secret_access_key", litI "aws_secret_key"], space, lit "=", space,
      atLeast 20 notSpace] },
  { name := "Private Key"
    pattern := seqAll [lit "-----BEGIN ", optional (altAll [lit "RSA ", lit "EC ", lit "DSA "]), lit "PRIVATE KEY-----"] },
  { name := "GitHub Token"
    pattern := seqAll [lit "gh", .one (among "pousr"), lit "_", atLeast 36 fun c => isAlphanumeric c || c == '_'.toNat] },
  { name := "Slack Token"
    pattern := seqAll [lit "xox", .one (among "baprs"), lit "-", atLeast 10 isDigit, lit "-",
      plus fun c => isAlphanumeric c || c == '-'.toNat] },
  { name := "Connection String"
    pattern := seqAll [altAll [lit "mongodb", lit "postgres", lit "postgresql", lit "mysql", lit "redis"], lit "://",
      plus fun c => notSpace c && c != ':'.toNat, lit ":", plus fun c => notSpace c && c != '@'.toNat, lit "@",
      plus notSpace] },
  { name := "Generic API Key"
    pattern := seqAll [altAll [seqAll [litI "api", optional (.one (among "_-")), litI "key"], litI "apikey"], space,
      .one (among ":="), space, optional (.one quote), atLeast 20 notSpace] },
  { name := "Generic Token"
    pattern := seqAll [altAll [litI "auth_token", litI "access_token", litI "refresh_token"], space, .one (among ":="),
      space, optional (.one quote), atLeast 20 notSpace] },
  { name := "Env Secret"
    pattern := seqAll [altAll [lit "SECRET_KEY", lit "PRIVATE_KEY", lit "STRIPE_API_KEY", lit "STRIPE_SECRET",
      lit "OPENAI_API_KEY", lit "ANTHROPIC_API_KEY", lit "SENDGRID_API_KEY"], space, lit "=", space,
      atLeast 16 notSpace] },
  { name := "Password / Secret"
    pattern := seqAll [altAll [litI "password", litI "passwd", litI "pwd", litI "db_password", litI "mysql_password",
      litI "postgres_password"], space, lit "=", .ahead false (lit "="), space]
    confirm := confirmPassword }]

def FALSE_POSITIVE_PATTERNS : List Re := [
  seqAll [lit "process.env", .one (among ".["), plus isWord],
  lit "os.environ[",
  seqAll [lit "$", optional (lit "\x7b"), plus isWord, optional (lit "\x7d")],
  lit "getenv(",
  lit "requireEnv(",
  lit "getApiKey("]

def ALLOW_SECRET_ANNOTATION : String := "git-commits-push: allow-secret"

def MOCK_KEYWORD_PATTERN : Re :=
  seqAll [.wordBoundary isWord, altAll [litI "mock", litI "dummy", litI "test", litI "example", litI "fake"],
    .wordBoundary isWord]

def NON_PRODUCTION_PATH_SEGMENTS : List String := ["test", "tests", "__tests__", "specs", "fixtures"]

def ENV_EXAMPLE_FILENAMES : List String := [".env.example", ".env.template", ".env.sample"]

/-! ## Paths -/

/-- `^diff --git a\/.+ b\/(.+)$`. -/
def diffGitHeader : Re :=
  seqAll [.atStart, lit "diff --git a/", .rep anyChar 1 none true, lit " b/", .group 1 (.rep anyChar 1 none true), .atEnd]

def parseDiffGitPath (line : Text) : Option Text :=
  (exec diffGitHeader (unitsOf line)).bind fun m => (capture 1 m.2).map ofUnits

def parseAddedFilePath (line : Text) : Option Text :=
  if isPrefix "+++ " line then
    let rawPath := trim (line.drop 4)
    if rawPath = "/dev/null".toList then none
    else if isPrefix "b/" rawPath then some (rawPath.drop 2) else some rawPath
  else none

/-- `toLowerCase().split(/[\\/]/)`. -/
def segments (filePath : Text) : List Text :=
  splitOn '/' ((lowerChars filePath).map fun c => if c = '\\' then '/' else c)

def isNonProductionPath : Option Text → Bool
  | none | some [] => false
  | some filePath => (segments filePath).any fun s => NON_PRODUCTION_PATH_SEGMENTS.any (·.toList == s)

def isEnvExamplePath : Option Text → Bool
  | none | some [] => false
  | some filePath => match (segments filePath).getLast? with
    | some filename => ENV_EXAMPLE_FILENAMES.any (·.toList == filename)
    | none => false

/-! ## The scan -/

def hasInlineAllowSecretAnnotation (content : Text) : Bool := includesChars ALLOW_SECRET_ANNOTATION.toList content

def hasMockKeyword (content : Text) : Bool := test MOCK_KEYWORD_PATTERN (unitsOf content)

/-- The content exempts its line. -/
def exempt (content : Text) : Bool :=
  hasInlineAllowSecretAnnotation content || hasMockKeyword content ||
    FALSE_POSITIVE_PATTERNS.any fun pattern => test pattern (unitsOf content)

/-- The name of the first pattern that fits and is confirmed. -/
def firstPattern (content : Text) : Option String :=
  (SECRET_PATTERNS.find? fun p => test p.pattern (unitsOf content) && p.confirm content).map (·.name)

def buildFinding (name : String) (content : Text) (lineNumber : Nat) (filePath : Option Text) (reason : Option String) :
    Finding :=
  ⟨name, trim content, lineNumber, filePath.filter (!·.isEmpty), reason⟩

/-- What an added line of a path is reported as. -/
def scanAdded (filePath : Option Text) (lineNumber : Nat) (content : Text) : Option Finding :=
  if isEnvExamplePath filePath then none
  else if exempt content then none
  else (firstPattern content).map fun name =>
    buildFinding name content lineNumber filePath
      (if isNonProductionPath filePath then some "non-production path" else none)

/-- A finding goes to the findings or, with the reason, to the warnings. -/
def report (found : Option Finding) (rest : ScanResult) : ScanResult :=
  match found with
  | none => rest
  | some f =>
    if f.reason = some "non-production path" then { rest with warnings := f :: rest.warnings }
    else { rest with findings := f :: rest.findings }

/-- The lines from number `i` on, the path of the last header being `currentFilePath`. -/
def scanLines (currentFilePath : Option Text) (i : Nat) : List Text → ScanResult
  | [] => ⟨[], []⟩
  | line :: lines =>
    if isPrefix "diff --git " line then scanLines (parseDiffGitPath line) (i + 1) lines
    else if isPrefix "+++ " line then scanLines (parseAddedFilePath line) (i + 1) lines
    else if isPrefix "+" line then
      report (scanAdded currentFilePath i (line.drop 1)) (scanLines currentFilePath (i + 1) lines)
    else scanLines currentFilePath (i + 1) lines

def scanDiff (diff : Text) : ScanResult :=
  if trim diff = [] then ⟨[], []⟩ else scanLines none 1 (splitOn '\n' diff)

example : scanDiff "diff --git a/tests/k.ts b/tests/k.ts\n+++ b/tests/k.ts\n@@ -0,0 +1 @@\n+AKIA1234567890ABCDEF".toList =
    ⟨[], [⟨"AWS Access Key", "AKIA1234567890ABCDEF".toList, 4, some "tests/k.ts".toList,
      some "non-production path"⟩]⟩ := by decide +kernel

end GitCommitsPush.Scanner
