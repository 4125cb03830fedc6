/-
  GitCommitsPush.Publication.DiagnosticPrivacy — what `sanitizeSensitiveDiagnostic`
  (`core/sensitive-diagnostic-sanitizer.ts`) hides, and when sanitising twice is sanitising
  once.

  The three later passes leave one another's masks alone (`query_survives_header`,
  `authorization_survives_token`). They need not leave the first one's: where the text is
  `Exposed`, and nowhere else, a later pass takes away the slash at which the first one
  stopped, and a second run finds a userinfo there.
-/

import GitCommitsPush.Publication.DiagnosticExposure

namespace GitCommitsPush.Publication

open GitCommitsPush.Lib.JsText
open GitCommitsPush.Lib.Regex
open GitCommitsPush.Lib.Masking

/-! ## Where a header's value begins -/

theorem mem_redacted {c : Nat} (h : c ∈ redacted) : c = 60 ∨ c = 62 ∨ 97 ≤ c ∧ c ≤ 122 := by
  rw [redacted_eq] at h
  simp only [List.mem_cons, List.not_mem_nil, or_false] at h
  omega

/-- A header's value begins after a colon or white space. -/
theorem header_ready_head {names : List String} {body : Nat → Bool} {least : Nat} {copied value rest : List Nat}
    (h : (header names body least).Ready copied value rest) : ∃ c, copied.head? = some c ∧ (c = 58 ∨ isSpaceCode c = true) := by
  obtain ⟨key, gap, older, hcopied, ⟨run, spaces, name, hkey, _⟩, hgap, _⟩ := h
  rw [hcopied]
  cases hlast : gap.reverse with
  | nil => exact ⟨58, by rw [hkey, points_colon]; simp, .inl rfl⟩
  | cons c tail =>
    refine ⟨c, rfl, .inr (hgap c ?_)⟩
    rw [← List.mem_reverse, hlast]
    exact List.mem_cons_self

/-- Where a header's value cannot begin. -/
theorem header_not_ready {names : List String} {body : Nat → Bool} {least : Nat} {copied : List Nat}
    (h : ∀ c, copied.head? = some c → c ≠ 58 ∧ isSpaceCode c = false) (value rest : List Nat) :
    ¬(header names body least).Ready copied value rest := by
  intro hready
  obtain ⟨c, hc, hcase⟩ := header_ready_head hready
  obtain ⟨hcolon, hspace⟩ := h c hc
  rcases hcase with heq | heq
  · exact hcolon heq
  · rw [heq] at hspace
    cases hspace

theorem redacted_end {a b older : List Nat} (hmask : redacted = a ++ b) (ha : a ≠ []) :
    ∀ c, (a.reverse ++ older).head? = some c → c ∈ redacted := by
  intro c hc
  rw [List.head?_append_of_ne_nil _ (by simpa using ha), List.head?_reverse] at hc
  rw [hmask]
  exact List.mem_append_left _ (List.mem_of_getLast? hc)

theorem mem_redacted_not_header {c : Nat} (h : c ∈ redacted) : c ≠ 58 ∧ isSpaceCode c = false := by
  have hc := mem_redacted h
  refine ⟨by omega, ?_⟩
  rw [Bool.eq_false_iff, ne_eq, isSpaceCode_iff]
  omega

/-! ## The later passes among themselves -/

/-- The parameters stay masked when headers are. -/
theorem query_survives_header {names : List String} {body : Nat → Bool} {least : Nat} {input out : List Nat}
    (h : Masked sensitiveQuery redacted none input) (hscan : Scan (header names body least) redacted none input out) :
    Masked sensitiveQuery redacted none out := by
  refine h.preserved sensitiveQuery_lawful (fun _ => trivial) (fun _ => trivial) ?_ ?_ hscan
  · intro key run older value rest hkey hrun
    have hnil : run = [] := List.eq_nil_iff_forall_not_mem.mpr fun c hc => by
      have hfalse := hrun c hc
      cases hfalse
    obtain ⟨a, hkey, _⟩ := IsQueryStart.symbols hkey
    refine header_not_ready ?_ value rest
    intro c hc
    rw [hnil, hkey] at hc
    simp only [List.reverse_nil, List.nil_append, List.reverse_append, List.reverse_cons, List.cons_append, List.head?_cons,
      Option.some.injEq] at hc
    rw [← hc]
    decide
  · intro a b older value rest hmask ha
    exact header_not_ready (fun c hc => mem_redacted_not_header (redacted_end hmask ha c hc)) value rest

/-- The name before a header's colon, read backwards. -/
theorem header_name_agree {run spaces older run' spaces' older' : List Nat} (hspaces : ∀ c ∈ spaces, isSpaceCode c = true)
    (hspaces' : ∀ c ∈ spaces', isSpaceCode c = true) (hrun : Stops isSpaceCode (run.reverse ++ older))
    (hrun' : Stops isSpaceCode (run'.reverse ++ older'))
    (h : (run ++ spaces ++ [58]).reverse ++ older = (run' ++ spaces' ++ [58]).reverse ++ older') :
    run.reverse ++ older = run'.reverse ++ older' := by
  simp only [List.reverse_append, List.reverse_cons, List.reverse_nil, List.nil_append, List.cons_append,
    List.append_assoc, List.cons.injEq, true_and] at h
  exact (runs_agree h (fun c hc => hspaces c (List.mem_reverse.mp hc)) hrun
    (fun c hc => hspaces' c (List.mem_reverse.mp hc)) hrun').2

theorem LetterNames.last_stops {names : List String} (h : LetterNames names) {name : String} (hname : name ∈ names)
    {run : List Nat} (hrun : run.map foldAscii = points name) (older : List Nat) : Stops isSpaceCode (run.reverse ++ older) := by
  intro c hc
  rw [List.head?_append_of_ne_nil _ (by simpa using h.run_ne_nil hname hrun), List.head?_reverse] at hc
  have hsymbol := h.symbol hname hrun c (List.mem_of_getLast? hc)
  rw [isFoldedLetter_iff] at hsymbol
  rw [Bool.eq_false_iff, ne_eq, isSpaceCode_iff]
  omega

/-- The authorization headers stay masked when the token headers are: no token header's name
    ends `authorization` or the other way round. -/
theorem authorization_survives_token {input out : List Nat} (h : Masked authorizationHeader redacted none input)
    (hscan : Scan tokenHeader redacted none input out) : Masked authorizationHeader redacted none out := by
  refine h.preserved authorizationHeader_lawful (fun _ => trivial) (fun _ => trivial) ?_ ?_ hscan
  · intro key run older value rest hkey hrun hready
    obtain ⟨name, spaces, _, hkey, hname, hfold, hspaces⟩ := hkey
    obtain ⟨key', gap', older', hcopied, ⟨name', spaces', text, hkey', hname', hfold', hspaces'⟩, hgap', _⟩ := hready
    rw [List.mem_singleton.mp hname] at hfold
    rw [points_colon] at hkey hkey'
    have hcolon : ∀ x y : List Nat, Stops isSpaceCode ((x ++ [58]).reverse ++ y) := by
      intro x y
      rw [List.reverse_append]
      exact stops_cons.mpr (by decide)
    -- the gaps are the same, and so are the white space before the colon and the names
    have hkeys : key.reverse ++ older = key'.reverse ++ older' :=
      (runs_agree hcopied (fun c hc => hrun c (List.mem_reverse.mp hc)) (hkey ▸ hcolon _ _)
        (fun c hc => hgap' c (List.mem_reverse.mp hc)) (hkey' ▸ hcolon _ _)).2
    rw [hkey, hkey'] at hkeys
    have hnames := header_name_agree hspaces hspaces'
      (authorization_plain.last_stops (List.mem_singleton_self _) hfold older)
      (tokenHeaderNames_plain.last_stops hname' hfold' older') hkeys
    have hends : ∀ text ∈ tokenHeaderNames, ¬(points text).reverse <+: (points "authorization").reverse ∧
        ¬(points "authorization").reverse <+: (points text).reverse := by decide
    obtain ⟨hnot, hnot'⟩ := hends text hname'
    rw [← hfold, ← hfold', ← List.map_reverse, ← List.map_reverse] at hnot hnot'
    rcases List.append_eq_append_iff.mp hnames with ⟨x, hlonger, _⟩ | ⟨x, hlonger, _⟩
    · rw [hlonger, List.map_append] at hnot'
      exact hnot' (List.prefix_append _ _)
    · rw [hlonger, List.map_append] at hnot
      exact hnot (List.prefix_append _ _)
  · intro a b older value rest hmask ha
    exact header_not_ready (fun c hc => mem_redacted_not_header (redacted_end hmask ha c hc)) value rest

/-! ## The whole sanitiser -/

/-- `sanitizeSensitiveDiagnostic` over code points. -/
def sanitizePoints (message : List Nat) : List Nat :=
  redact TOKEN_HEADER "<redacted>" (redact AUTHORIZATION_HEADER "<redacted>"
    (redact SENSITIVE_QUERY_VALUE "<redacted>" (redact URL_CREDENTIALS "<redacted>@" message)))

theorem sanitizeSensitiveDiagnostic_eq (message : String) :
    sanitizeSensitiveDiagnostic message = stringOfPoints (sanitizePoints (points message)) := rfl

/-- Sanitised text is left with every userinfo masked unless the message was exposed; where it
    was, a slash is gone. -/
theorem sanitizePoints_masked (message : List Nat) :
    (Masked urlCredentials redacted none (sanitizePoints message) ↔ ¬Exposed message) ∧
      (Exposed message → (sanitizePoints message).count 47 < message.count 47) := by
  have hurl := redactUrl_scan message
  have hquery := redactQuery_scan (redact URL_CREDENTIALS "<redacted>@" message)
  have hauthorization := redactAuthorization_scan (redact SENSITIVE_QUERY_VALUE "<redacted>" (redact URL_CREDENTIALS "<redacted>@" message))
  have htoken := redactToken_scan (redact AUTHORIZATION_HEADER "<redacted>"
    (redact SENSITIVE_QUERY_VALUE "<redacted>" (redact URL_CREDENTIALS "<redacted>@" message)))
  have hunmasked : Exposed message → ¬Masked urlCredentials redacted none (sanitizePoints message) :=
    fun hexposed => hexposed.unmasked hurl hquery hauthorization htoken
  refine ⟨⟨fun hmasked hexposed => hunmasked hexposed hmasked, fun hexposed => ?_⟩, fun hexposed => ?_⟩
  · by_contra hmasked
    exact hexposed (exposed_of_unmasked hurl hquery hauthorization htoken hmasked).1
  · exact (exposed_of_unmasked hurl hquery hauthorization htoken (hunmasked hexposed)).2

/-- A second run changes what the first one left exactly where the message was exposed. -/
theorem sanitizePoints_idempotent_iff (message : List Nat) :
    sanitizePoints (sanitizePoints message) = sanitizePoints message ↔ ¬Exposed message := by
  constructor
  · intro hsame hexposed
    -- what it left would be exposed, and lose a slash
    have hagain : Exposed (sanitizePoints message) := by
      by_contra hnot
      refine absurd hexposed ((sanitizePoints_masked message).1.mp ?_)
      rw [← hsame]
      exact (sanitizePoints_masked (sanitizePoints message)).1.mpr hnot
    have hless := (sanitizePoints_masked (sanitizePoints message)).2 hagain
    rw [hsame] at hless
    exact absurd hless (Nat.lt_irrefl _)
  · intro h
    have hurl := (sanitizePoints_masked message).1.mpr h
    have hquery := redactQuery_scan (redact URL_CREDENTIALS "<redacted>@" message)
    have hauthorization := redactAuthorization_scan (redact SENSITIVE_QUERY_VALUE "<redacted>" (redact URL_CREDENTIALS "<redacted>@" message))
    have htoken := redactToken_scan (redact AUTHORIZATION_HEADER "<redacted>"
      (redact SENSITIVE_QUERY_VALUE "<redacted>" (redact URL_CREDENTIALS "<redacted>@" message)))
    -- every pass finds its values masked
    have hquery₄ : Masked sensitiveQuery redacted none (sanitizePoints message) :=
      query_survives_header (query_survives_header (hquery.masked sensitiveQuery_lawful) hauthorization) htoken
    have hauthorization₄ : Masked authorizationHeader redacted none (sanitizePoints message) :=
      authorization_survives_token (hauthorization.masked authorizationHeader_lawful) htoken
    have htoken₄ : Masked tokenHeader redacted none (sanitizePoints message) := htoken.masked tokenHeader_lawful
    generalize sanitizePoints message = m₄ at *
    unfold sanitizePoints
    rw [(redactUrl_scan m₄).eq_of_masked hurl, (redactQuery_scan m₄).eq_of_masked hquery₄,
      (redactAuthorization_scan m₄).eq_of_masked hauthorization₄, (redactToken_scan m₄).eq_of_masked htoken₄]

/-- The userinfo after a URL's start does not show. -/
theorem sanitizePoints_userinfo {pre key u₁ u₂ rest : List Nat} (hkey : IsUrlStart key)
    (hboundary : (ends none pre).any isWordFolded = false) (h₁ : u₁ ≠ [] ∧ ∀ c ∈ u₁, isUserinfo c = true)
    (h₂ : u₂ ≠ [] ∧ ∀ c ∈ u₂, isUserinfo c = true) :
    sanitizePoints (pre ++ (key ++ (u₁ ++ 64 :: rest))) = sanitizePoints (pre ++ (key ++ (u₂ ++ 64 :: rest))) := by
  have hhit : ∀ u : List Nat, u ≠ [] → (∀ c ∈ u, isUserinfo c = true) → urlCredentials.Hit (ends none pre) key [] u (64 :: rest) :=
    fun u hne hu => ⟨hboundary, hkey, by simp, fun _ _ => rfl, hu, stops_cons.mpr (by decide), List.length_pos_iff.mpr hne, rfl⟩
  have hscan := (redactUrl_scan (pre ++ (key ++ (u₁ ++ 64 :: rest)))).same_value urlCredentials_lawful urlCredentials_delimited
    (hhit u₁ h₁.1 h₁.2) (hhit u₂ h₂.1 h₂.2)
  have hsame := hscan.deterministic urlCredentials_lawful (redactUrl_scan _)
  unfold sanitizePoints
  rw [hsame]

/-! ## Over texts -/

theorem points_stringOfPoints {ps : List Nat} (h : ∀ c ∈ ps, ∃ d : Char, d.toNat = c) : points (stringOfPoints ps) = ps := by
  unfold points stringOfPoints
  rw [String.toList_ofList, List.map_map]
  refine (List.map_congr_left fun c hc => ?_).trans (List.map_id ps)
  obtain ⟨d, hd⟩ := h c hc
  show (Char.ofNat c).toNat = c
  rw [← hd, Char.ofNat_toNat]

theorem mem_points {text : String} {c : Nat} (h : c ∈ points text) : ∃ d : Char, d.toNat = c := by
  obtain ⟨d, _, hd⟩ := List.mem_map.mp h
  exact ⟨d, hd⟩

/-- The sanitiser's code points are code points. -/
theorem points_sanitized (message : String) : points (sanitizeSensitiveDiagnostic message) = sanitizePoints (points message) := by
  have hpass : ∀ {P : Pattern Nat} {input out : List Nat}, Scan P redacted none input out →
      (∀ c ∈ input, ∃ d : Char, d.toNat = c) → ∀ c ∈ out, ∃ d : Char, d.toNat = c := by
    intro P input out h hinput c hc
    rcases h.mem c hc with hin | hmask
    · exact hinput c hin
    · exact mem_points hmask
  rw [sanitizeSensitiveDiagnostic_eq]
  exact points_stringOfPoints (hpass (redactToken_scan _) (hpass (redactAuthorization_scan _) (hpass (redactQuery_scan _)
    (hpass (redactUrl_scan _) fun c hc => mem_points hc))))

/-- A non-empty userinfo without white space, slash or at-sign. -/
def IsUserinfoText (text : String) : Prop := text ≠ "" ∧ ∀ c ∈ points text, isUserinfo c = true

/-- The text ends with letters, digits, `+`, `.` and `-` among which a letter follows no word
    character: `://` after it starts a URL. -/
def EndsInScheme (text : String) : Prop :=
  ∃ pre letter run, points text = pre ++ letter :: run ∧ isFoldedLetter letter = true ∧
    (∀ c ∈ run, isSchemeSymbol c = true) ∧ (pre.getLast?).any isWordFolded = false

/-- The credentials of a URL do not show where its scheme is found, and sanitising twice is
    sanitising once if and only if no value hides a slash on the way from a URL to an at-sign. -/
theorem diagnostics_private (before scheme after userinfo₁ userinfo₂ message : String) :
    (EndsInScheme (before ++ scheme) → IsUserinfoText userinfo₁ → IsUserinfoText userinfo₂ →
      sanitizeSensitiveDiagnostic (before ++ scheme ++ "://" ++ userinfo₁ ++ "@" ++ after) =
        sanitizeSensitiveDiagnostic (before ++ scheme ++ "://" ++ userinfo₂ ++ "@" ++ after)) ∧
      (sanitizeSensitiveDiagnostic (sanitizeSensitiveDiagnostic message) = sanitizeSensitiveDiagnostic message ↔
        ¬Exposed (points message)) := by
  constructor
  · intro hscheme h₁ h₂
    obtain ⟨pre, letter, run, htext, hletter, hrun, hboundary⟩ := hscheme
    have hmessage : ∀ userinfo : String, points (before ++ scheme ++ "://" ++ userinfo ++ "@" ++ after) =
        pre ++ (((letter :: run) ++ points "://") ++ (points userinfo ++ 64 :: points after)) := by
      intro userinfo
      simp only [points_append] at htext ⊢
      rw [htext, show points "@" = [64] from rfl]
      simp
    have hne : ∀ userinfo, userinfo ≠ "" → points userinfo ≠ [] := by
      intro userinfo hne hnil
      exact hne (String.toList_eq_nil_iff.mp (List.map_eq_nil_iff.mp hnil))
    rw [sanitizeSensitiveDiagnostic_eq, sanitizeSensitiveDiagnostic_eq, hmessage, hmessage]
    refine congrArg stringOfPoints (sanitizePoints_userinfo ⟨letter, run, rfl, hletter, hrun⟩ ?_ ⟨hne _ h₁.1, h₁.2⟩ ⟨hne _ h₂.1, h₂.2⟩)
    unfold ends
    rw [Option.or_none]
    exact hboundary
  · rw [← sanitizePoints_idempotent_iff, ← points_sanitized]
    constructor
    · intro hsame
      have htwice := congrArg points hsame
      rwa [points_sanitized] at htwice
    · intro hsame
      rw [sanitizeSensitiveDiagnostic_eq (sanitizeSensitiveDiagnostic message), hsame, points_sanitized]
      rfl

theorem diagnostics_private_fatal :
    sanitizeSensitiveDiagnostic ("fatal: " ++ "https" ++ "://" ++ "me:pw" ++ "@" ++ "host/r") =
        sanitizeSensitiveDiagnostic ("fatal: " ++ "https" ++ "://" ++ "you" ++ "@" ++ "host/r") ∧
      ¬Exposed (points "https://h?token=&x/y@z") ∧ Exposed (points "https://api-key:a/b,pw@host") := by
  refine ⟨?_, ?_, ?_⟩
  · exact (diagnostics_private "fatal: " "https" "host/r" "me:pw" "you" "").1
      ⟨points "fatal: ", 104, points "ttps", by decide, by decide, by decide, by decide⟩
      ⟨by decide, by decide⟩ ⟨by decide, by decide⟩
  · exact (diagnostics_private "" "" "" "" "" "https://h?token=&x/y@z").2.mp (by decide)
  · by_contra hnot
    have hsame := (diagnostics_private "" "" "" "" "" "https://api-key:a/b,pw@host").2.mpr hnot
    revert hsame
    decide

/-- After a word character the scheme is not found, and a second run may find what the first
    has uncovered. -/
theorem diagnostics_leak :
    sanitizeSensitiveDiagnostic ("origin_" ++ "https" ++ "://" ++ "me:pw" ++ "@" ++ "host/r") ≠
        sanitizeSensitiveDiagnostic ("origin_" ++ "https" ++ "://" ++ "you" ++ "@" ++ "host/r") ∧
      sanitizeSensitiveDiagnostic (sanitizeSensitiveDiagnostic "https://api-key:a/b,pw@host") ≠
        sanitizeSensitiveDiagnostic "https://api-key:a/b,pw@host" := by
  decide

end GitCommitsPush.Publication
