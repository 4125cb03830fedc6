/-
  GitCommitsPush.Publication.Diagnostics — what is read out of error texts:
  `sanitizeSensitiveDiagnostic` (`core/sensitive-diagnostic-sanitizer.ts`, re-exported as
  `sanitizePushDiagnostic`) and `classifyTransient` (`git/push.ts`).
-/

import GitCommitsPush.Lib.Regex

namespace GitCommitsPush.Publication

open GitCommitsPush.Lib.JsText
open GitCommitsPush.Lib.Regex

/-! ## `sanitizeSensitiveDiagnostic` -/

/-- `_|-`, optional. -/
def separator : Re := optional (.alt (lit "_") (lit "-"))

def SENSITIVE_QUERY_KEY : Re :=
  altAll [seqAll [litFolded "access", separator, litFolded "token"], seqAll [litFolded "oauth", separator, litFolded "token"],
    seqAll [litFolded "client", separator, litFolded "secret"], seqAll [litFolded "private", separator, litFolded "token"],
    seqAll [litFolded "api", separator, litFolded "key"], litFolded "x-api-key", litFolded "x-amz-credential",
    litFolded "x-amz-signature", litFolded "x-amz-security-token", litFolded "auth", litFolded "key",
    litFolded "password", litFolded "passwd", litFolded "token"]

def isFoldedLetter (c : Nat) : Bool := inRange 'a' 'z' (foldAscii c)

/-- `\b([a-z][a-z0-9+.-]*:\/\/)[^\s/@]+@`. -/
def URL_CREDENTIALS : Re :=
  seqAll [.wordBoundary isWordFolded,
    .group 1 (seqAll [.one isFoldedLetter, star fun c => isFoldedLetter c || isDigit c || among "+.-" c, lit "://"]),
    plus fun c => !isSpaceCode c && !among "/@" c, lit "@"]

def SENSITIVE_QUERY_VALUE : Re :=
  seqAll [.group 1 (seqAll [.one (among "?&#"), SENSITIVE_QUERY_KEY, lit "="]),
    plus fun c => !among "&#" c && !isSpaceCode c]

def AUTHORIZATION_HEADER : Re :=
  seqAll [.group 1 (seqAll [litFolded "authorization", star isSpaceCode, lit ":", star isSpaceCode]),
    star fun c => !among "\r\n" c]

def TOKEN_HEADER : Re :=
  seqAll [.group 1 (seqAll [altAll [litFolded "private-token", litFolded "job-token", litFolded "x-api-key",
      litFolded "api-key", litFolded "api_key"], star isSpaceCode, lit ":", star isSpaceCode]),
    plus fun c => !isSpaceCode c && !among ",;" c]

/-- `replace(pattern, "$1" + text)`. -/
def redact (pattern : Re) (text : String) : List Nat → List Nat :=
  replaceAll pattern fun t => (capture 1 t).getD [] ++ points text

def sanitizeSensitiveDiagnostic (message : String) : String :=
  stringOfPoints (redact TOKEN_HEADER "<redacted>" (redact AUTHORIZATION_HEADER "<redacted>"
    (redact SENSITIVE_QUERY_VALUE "<redacted>" (redact URL_CREDENTIALS "<redacted>@" (points message)))))

example : sanitizeSensitiveDiagnostic "fatal: https://me:pw@host/r?token=x failed" =
    "fatal: https://<redacted>@host/r?token=<redacted> failed" := by decide +kernel

/-! ## `classifyTransient` -/

def PERMANENT_PUSH_SIGNATURES : List String :=
  ["Permission denied", "Authentication failed", "could not read Username", "repository not found", "access denied",
    "does not appear to be a git repository", "not authorized", "without 'workflow' scope", "GH006", "protected branch",
    "protected branch hook declined"]

/-- `40[13]\b`. -/
def httpDenied : Re := seqAll [lit "40", .one (among "13"), .wordBoundary isWord]

def spaces : Re := plus isSpaceCode

def PERMANENT_HTTP_STATUS_PATTERNS : List Re := [
  seqAll [.wordBoundary isWord, litI "http",
    optional (seqAll [lit "/", plus isDigit, .rep (.seq (lit ".") (plus isDigit)) 0 none true]), spaces, httpDenied],
  seqAll [.wordBoundary isWord, litI "returned error:", star isSpaceCode, httpDenied],
  seqAll [.wordBoundary isWord, litI "status", optional (.seq spaces (litI "code")),
    altAll [.seq spaces (litI "is"), .seq (star isSpaceCode) (.one (among ":=")), spaces], star isSpaceCode, httpDenied]]

def classifyTransient (message : String) : Bool :=
  let normalizedMessage := toLowerCase message
  !(PERMANENT_PUSH_SIGNATURES.any (fun signature => includes normalizedMessage (toLowerCase signature)) ||
    PERMANENT_HTTP_STATUS_PATTERNS.any fun pattern => test pattern (units message))

example : classifyTransient "The requested URL returned error: 403" = false := by decide +kernel

end GitCommitsPush.Publication
