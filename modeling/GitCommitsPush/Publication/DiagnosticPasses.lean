/-
  GitCommitsPush.Publication.DiagnosticPasses — the four replacements of
  `sanitizeSensitiveDiagnostic` (`core/sensitive-diagnostic-sanitizer.ts`) as passes that
  mask what follows a key.

  `urlCredentials`, `sensitiveQuery`, `authorizationHeader` and `tokenHeader` are the
  patterns of `Lib.Masking` for the four expressions; `redactUrl_scan`, `redactQuery_scan`,
  `redactAuthorization_scan` and `redactToken_scan` say that the expressions find them.
-/

import GitCommitsPush.Lib.RegexReplace
import GitCommitsPush.Publication.Diagnostics

namespace GitCommitsPush.Publication

open GitCommitsPush.Lib.JsText
open GitCommitsPush.Lib.Regex
open GitCommitsPush.Lib.Masking

/-- `<redacted>`. -/
def redacted : List Nat := points "<redacted>"

/-! ## What the expressions look for -/

/-- `[a-z0-9+.-]`. -/
def isSchemeSymbol (c : Nat) : Bool := isFoldedLetter c || isDigit c || among "+.-" c

/-- `[^\s/@]`. -/
def isUserinfo (c : Nat) : Bool := !isSpaceCode c && !among "/@" c

/-- `[a-z][a-z0-9+.-]*:\/\/`. -/
def IsUrlStart (key : List Nat) : Prop :=
  ∃ c run, key = (c :: run) ++ points "://" ∧ isFoldedLetter c = true ∧ ∀ d ∈ run, isSchemeSymbol d = true

def urlCredentials : Pattern Nat where
  boundary prev := prev.any isWordFolded = false
  key := IsUrlStart
  gap _ := false
  body := isUserinfo
  least := 1
  next c := c = some '@'.toNat

/-- Two words, with `_`, `-` or nothing between them. -/
def spellings (a b : String) : List String := ["", "_", "-"].map fun s => a ++ s ++ b

/-- The parameter names `SENSITIVE_QUERY_KEY` matches, in lower case. -/
def sensitiveQueryNames : List String :=
  [spellings "access" "token", spellings "oauth" "token", spellings "client" "secret", spellings "private" "token",
    spellings "api" "key", ["x-api-key"], ["x-amz-credential"], ["x-amz-signature"], ["x-amz-security-token"], ["auth"],
    ["key"], ["password"], ["passwd"], ["token"]].flatten

/-- `[?&#](?:…)=`. -/
def IsQueryStart (key : List Nat) : Prop :=
  ∃ c run name, key = (c :: run) ++ points "=" ∧ among "?&#" c = true ∧ name ∈ sensitiveQueryNames ∧
    run.map foldAscii = points name

def sensitiveQuery : Pattern Nat where
  boundary _ := True
  key := IsQueryStart
  gap _ := false
  body c := !among "&#" c && !isSpaceCode c
  least := 1
  next _ := True

/-- `(?:…)\s*:`. -/
def IsHeaderStart (names : List String) (key : List Nat) : Prop :=
  ∃ run spaces name, key = (run ++ spaces) ++ points ":" ∧ name ∈ names ∧ run.map foldAscii = points name ∧
    ∀ c ∈ spaces, isSpaceCode c = true

def header (names : List String) (body : Nat → Bool) (least : Nat) : Pattern Nat where
  boundary _ := True
  key := IsHeaderStart names
  gap := isSpaceCode
  body := body
  least := least
  next _ := True

def authorizationHeader : Pattern Nat := header ["authorization"] (fun c => !among "\r\n" c) 0

def tokenHeaderNames : List String := ["private-token", "job-token", "x-api-key", "api-key", "api_key"]

def tokenHeader : Pattern Nat := header tokenHeaderNames (fun c => !isSpaceCode c && !among ",;" c) 1

/-! ## Symbols -/

theorem among_iff {chars : String} {c : Nat} : among chars c = true ↔ c ∈ points chars := by
  unfold among points
  rw [List.any_eq_true, List.mem_map]
  simp only [beq_iff_eq]

theorem points_urlStop : points "/@" = [47, 64] := rfl

theorem points_scheme : points "+.-" = [43, 46, 45] := rfl

theorem points_slashes : points "://" = [58, 47, 47] := rfl

theorem points_equals : points "=" = [61] := rfl

theorem points_colon : points ":" = [58] := rfl

theorem points_queryStart : points "?&#" = [63, 38, 35] := rfl

theorem points_lineStop : points "\r\n" = [13, 10] := rfl

theorem isFoldedLetter_iff {c : Nat} :
    isFoldedLetter c = true ↔ (65 ≤ c ∧ c ≤ 90) ∨ (97 ≤ c ∧ c ≤ 122) ∨ c = 383 ∨ c = 8490 := by
  unfold isFoldedLetter foldAscii lowerAscii
  simp only [inRange, beq_iff_eq, Bool.and_eq_true, decide_eq_true_eq, show 's'.toNat = 115 from rfl,
    show 'k'.toNat = 107 from rfl, show 'a'.toNat = 97 from rfl, show 'z'.toNat = 122 from rfl,
    show 'A'.toNat = 65 from rfl, show 'Z'.toNat = 90 from rfl]
  split
  · omega
  · split
    · omega
    · split <;> omega

/-- What the letters fold to besides themselves is no letter's neighbour. -/
theorem foldAscii_eq {c : Nat} : foldAscii c = c ∨ isFoldedLetter c = true ∧ 97 ≤ foldAscii c ∧ foldAscii c ≤ 122 := by
  rw [isFoldedLetter_iff]
  unfold foldAscii lowerAscii
  simp only [inRange, beq_iff_eq, Bool.and_eq_true, decide_eq_true_eq, show 's'.toNat = 115 from rfl,
    show 'k'.toNat = 107 from rfl, show 'A'.toNat = 65 from rfl, show 'Z'.toNat = 90 from rfl]
  split
  · omega
  · split
    · omega
    · split <;> omega

theorem isSpaceCode_iff {c : Nat} : isSpaceCode c = true ↔ (9 ≤ c ∧ c ≤ 13) ∨ c = 32 ∨ c = 160 ∨ c = 5760 ∨
    (8192 ≤ c ∧ c ≤ 8202) ∨ c = 8232 ∨ c = 8233 ∨ c = 8239 ∨ c = 8287 ∨ c = 12288 ∨ c = 65279 := by
  unfold isSpaceCode
  simp only [Bool.or_eq_true, Bool.and_eq_true, decide_eq_true_eq, beq_iff_eq]
  omega

theorem isFoldedLetter_word {c : Nat} (h : isFoldedLetter c = true) : isWordFolded c = true := by
  rw [isFoldedLetter_iff] at h
  unfold isWordFolded isWord
  simp only [isDigit, inRange, beq_iff_eq, Bool.or_eq_true, Bool.and_eq_true, decide_eq_true_eq,
    show 'a'.toNat = 97 from rfl, show 'z'.toNat = 122 from rfl, show 'A'.toNat = 65 from rfl, show 'Z'.toNat = 90 from rfl,
    show '0'.toNat = 48 from rfl, show '9'.toNat = 57 from rfl, show '_'.toNat = 95 from rfl]
  omega

theorem isUserinfo_iff {c : Nat} : isUserinfo c = true ↔ isSpaceCode c = false ∧ c ≠ 47 ∧ c ≠ 64 := by
  unfold isUserinfo
  rw [Bool.and_eq_true, Bool.not_eq_true', Bool.not_eq_true', Bool.eq_false_iff (b := among "/@" c), ne_eq, among_iff,
    points_urlStop]
  simp

theorem isFoldedLetter_userinfo {c : Nat} (h : isFoldedLetter c = true) : isUserinfo c = true := by
  rw [isFoldedLetter_iff] at h
  rw [isUserinfo_iff, Bool.eq_false_iff, ne_eq, isSpaceCode_iff]
  omega

theorem isSchemeSymbol_iff {c : Nat} : isSchemeSymbol c = true ↔
    isFoldedLetter c = true ∨ (48 ≤ c ∧ c ≤ 57) ∨ c = 43 ∨ c = 45 ∨ c = 46 := by
  unfold isSchemeSymbol
  simp only [Bool.or_eq_true, among_iff, points_scheme, isDigit, inRange, Bool.and_eq_true, decide_eq_true_eq,
    show '0'.toNat = 48 from rfl, show '9'.toNat = 57 from rfl, List.mem_cons, List.not_mem_nil, or_false]
  by_cases h : isFoldedLetter c = true
  · simp [h]
  · simp only [h, Bool.false_eq_true, false_or]
    omega

/-! ## Lawful patterns -/

theorem redacted_eq : redacted = [60, 114, 101, 100, 97, 99, 116, 101, 100, 62] := rfl

theorem redacted_last : redacted.getLast? = some 62 := by
  rw [redacted_eq]
  rfl

/-- Two texts that end with the same mark, which is nowhere else in them. -/
theorem agree_of_mark {a b mark post more : List Nat} {z : Nat} {zs : List Nat} (hmark : mark = z :: zs) (ha : z ∉ a) (hb : z ∉ b)
    (h : a ++ (mark ++ post) = b ++ (mark ++ more)) : a = b := by
  have hstops : ∀ rest, Stops (· != z) (mark ++ rest) := by
    intro rest
    rw [hmark]
    exact stops_cons.mpr (by simp)
  refine (runs_agree h ?_ (hstops _) ?_ (hstops _)).1
  · intro c hc
    exact bne_iff_ne.mpr fun heq => ha (heq ▸ hc)
  · intro c hc
    exact bne_iff_ne.mpr fun heq => hb (heq ▸ hc)

/-- A tail of a text that ends with a single mark ends with it too. -/
theorem tail_of_mark {a before tail : List Nat} {z : Nat} (h : a ++ [z] = before ++ tail) (hne : tail ≠ []) :
    ∃ b, tail = b ++ [z] ∧ a = before ++ b := by
  obtain ⟨y, hy⟩ : ∃ y, tail.getLast? = some y := ⟨_, List.getLast?_eq_some_getLast hne⟩
  have hsplit := List.dropLast_append_getLast? y hy
  rw [← hsplit, ← List.append_assoc] at h
  obtain ⟨ha, hz⟩ := List.append_inj' h rfl
  cases hz
  exact ⟨tail.dropLast, hsplit.symm, ha⟩

/-- A text whose last symbol is not in the mask and that has no `>`. -/
theorem outside_redacted {key : List Nat} {z : Nat} (hlast : key.getLast? = some z) (hz : z ∉ redacted) (hkey : 62 ∉ key) :
    Outside redacted key := ⟨⟨z, hlast, hz⟩, ⟨62, redacted_last, hkey⟩⟩

theorem redacted_stops (p : Nat → Bool) (hp : p 60 = false) (rest : List Nat) : Stops p (redacted ++ rest) := by
  rw [redacted_eq]
  exact stops_cons.mpr hp

theorem IsUrlStart.symbols {key : List Nat} (h : IsUrlStart key) :
    ∃ c run, key = (c :: run) ++ [58, 47, 47] ∧ isFoldedLetter c = true ∧ ∀ d ∈ c :: run, isSchemeSymbol d = true := by
  obtain ⟨c, run, hkey, hc, hrun⟩ := h
  rw [points_slashes] at hkey
  exact ⟨c, run, hkey, hc, List.forall_mem_cons.mpr ⟨isSchemeSymbol_iff.mpr (.inl hc), hrun⟩⟩

theorem isSchemeSymbol_ne {c : Nat} (h : isSchemeSymbol c = true) : c ≠ 58 ∧ c ≠ 47 ∧ c ≠ 62 ∧ c ≠ 64 := by
  rw [isSchemeSymbol_iff, isFoldedLetter_iff] at h
  omega

theorem urlCredentials_lawful : urlCredentials.Lawful redacted where
  outside key hkey := by
    obtain ⟨c, run, hkey, _, hsymbols⟩ := IsUrlStart.symbols hkey
    rw [hkey]
    refine outside_redacted (z := 47) (by rw [List.getLast?_append]; rfl) (by rw [redacted_eq]; decide) ?_
    intro hmem
    rcases List.mem_append.mp hmem with hmem | hmem
    · exact (isSchemeSymbol_ne (hsymbols _ hmem)).2.2.1 rfl
    · revert hmem
      decide
  agree key before tail post more hkey hwhole hne heq := by
    obtain ⟨c, run, hkey, hc, hsymbols⟩ := IsUrlStart.symbols hkey
    obtain ⟨c', run', hwhole, _, hsymbols'⟩ := IsUrlStart.symbols hwhole
    -- the tail begins with the key's letter, so it begins within the scheme
    have hhead : tail.head? = some c := by
      rw [← List.head?_append_of_ne_nil tail hne, ← heq, hkey]
      rfl
    have hcolon : c ≠ 58 ∧ c ≠ 47 := ⟨(isSchemeSymbol_ne (hsymbols c List.mem_cons_self)).1,
      (isSchemeSymbol_ne (hsymbols c List.mem_cons_self)).2.1⟩
    obtain ⟨b, htail, hb⟩ : ∃ b, tail = b ++ [58, 47, 47] ∧ ∀ d ∈ b, isSchemeSymbol d = true := by
      rcases List.append_eq_append_iff.mp hwhole with ⟨b, hscheme, htail⟩ | ⟨b, _, hmark⟩
      · refine ⟨b, htail, fun d hd => hsymbols' d ?_⟩
        rw [hscheme]
        exact List.mem_append_right _ hd
      · -- not within the mark
        have hin : c ∈ [58, 47, 47] := by
          rw [hmark]
          exact List.mem_append_right _ (List.mem_of_head? hhead)
        simp only [List.mem_cons, List.not_mem_nil, or_false] at hin
        omega
    rw [hkey, htail, List.append_assoc, List.append_assoc] at heq
    have hsame : c :: run = b := agree_of_mark rfl (fun hmem => (isSchemeSymbol_ne (hsymbols _ hmem)).1 rfl)
      (fun hmem => (isSchemeSymbol_ne (hb _ hmem)).1 rfl) heq
    rw [hkey, htail, hsame]
  head_gap _ _ _ := rfl
  mask_body := by
    rw [redacted_eq]
    decide
  mask_stops rest := redacted_stops _ rfl rest
  least_le := Nat.le_refl 1
  start := .inr fun c key hkey => by
    obtain ⟨c', run, hkey, hc', _⟩ := IsUrlStart.symbols hkey
    cases hkey
    exact isFoldedLetter_userinfo hc'
  close := .inr fun key hkey => by
    obtain ⟨c, run, hkey, _, _⟩ := IsUrlStart.symbols hkey
    refine ⟨47, ?_, by decide⟩
    rw [hkey]
    exact List.mem_append_right _ (by decide)

theorem urlCredentials_delimited : urlCredentials.Delimited where
  no_gap _ := rfl
  some_value := Nat.one_pos
  last key hkey := by
    obtain ⟨c, run, hkey, _, _⟩ := IsUrlStart.symbols hkey
    exact ⟨47, by rw [hkey, List.getLast?_append]; rfl, by decide⟩
  ends_at h := by cases h
  apart c key hc hkey hmem := by
    cases hc
    obtain ⟨c, run, hkey, _, hsymbols⟩ := IsUrlStart.symbols hkey
    rw [hkey] at hmem
    rcases List.mem_append.mp hmem with hmem | hmem
    · exact (isSchemeSymbol_ne (hsymbols _ hmem)).2.2.2 rfl
    · revert hmem
      decide

/-- Names of small letters, `-` and `_`. -/
def LetterNames (names : List String) : Prop :=
  ∀ name ∈ names, points name ≠ [] ∧ ∀ c ∈ points name, 97 ≤ c ∧ c ≤ 122 ∨ c = 45 ∨ c = 95

theorem sensitiveQueryNames_plain : LetterNames sensitiveQueryNames := by
  unfold LetterNames
  decide

theorem authorization_plain : LetterNames ["authorization"] := by
  unfold LetterNames
  decide

theorem tokenHeaderNames_plain : LetterNames tokenHeaderNames := by
  unfold LetterNames
  decide

theorem LetterNames.symbol {names : List String} (h : LetterNames names) {name : String} (hname : name ∈ names) {run : List Nat}
    (hrun : run.map foldAscii = points name) : ∀ c ∈ run, isFoldedLetter c = true ∨ c = 45 ∨ c = 95 := by
  intro c hc
  have hfold : foldAscii c ∈ points name := by
    rw [← hrun]
    exact List.mem_map_of_mem hc
  have hrange := (h name hname).2 _ hfold
  rcases foldAscii_eq (c := c) with hsame | ⟨hletter, _⟩
  · rw [hsame] at hrange
    rw [isFoldedLetter_iff]
    omega
  · exact .inl hletter

theorem LetterNames.run_ne_nil {names : List String} (h : LetterNames names) {name : String} (hname : name ∈ names) {run : List Nat}
    (hrun : run.map foldAscii = points name) : run ≠ [] := by
  intro hnil
  rw [hnil] at hrun
  exact (h name hname).1 hrun.symm

theorem IsQueryStart.symbols {key : List Nat} (h : IsQueryStart key) :
    ∃ a, key = a ++ [61] ∧ a ≠ [] ∧ ∀ c ∈ a, c ≠ 61 ∧ c ≠ 62 ∧ c ≠ 47 := by
  obtain ⟨c, run, name, hkey, hc, hname, hrun⟩ := h
  rw [points_equals] at hkey
  refine ⟨c :: run, hkey, by simp, List.forall_mem_cons.mpr ⟨?_, fun d hd => ?_⟩⟩
  · rw [among_iff, points_queryStart] at hc
    simp only [List.mem_cons, List.not_mem_nil, or_false] at hc
    omega
  · have hsymbol := sensitiveQueryNames_plain.symbol hname hrun d hd
    rw [isFoldedLetter_iff] at hsymbol
    omega

theorem sensitiveQuery_lawful : sensitiveQuery.Lawful redacted where
  outside key hkey := by
    obtain ⟨a, hkey, _, ha⟩ := IsQueryStart.symbols hkey
    rw [hkey]
    refine outside_redacted (z := 61) (by rw [List.getLast?_append]; rfl) (by rw [redacted_eq]; decide) ?_
    intro hmem
    rcases List.mem_append.mp hmem with hmem | hmem
    · exact (ha _ hmem).2.1 rfl
    · revert hmem
      decide
  agree key before tail post more hkey hwhole hne heq := by
    obtain ⟨a, hkey, _, ha⟩ := IsQueryStart.symbols hkey
    obtain ⟨a', hwhole, _, ha'⟩ := IsQueryStart.symbols hwhole
    obtain ⟨b, htail, hb⟩ := tail_of_mark hwhole.symm hne
    rw [hkey, htail, List.append_assoc, List.append_assoc] at heq
    have hsame : a = b := agree_of_mark rfl (fun hmem => (ha _ hmem).1 rfl)
      (fun hmem => (ha' 61 (by rw [hb]; exact List.mem_append_right _ hmem)).1 rfl) heq
    rw [hkey, htail, hsame]
  head_gap _ _ _ := rfl
  mask_body := by
    rw [redacted_eq]
    decide
  mask_stops rest := redacted_stops _ rfl rest
  least_le := Nat.le_refl 1
  start := .inl fun _ => trivial
  close := .inl fun _ => trivial

theorem IsHeaderStart.symbols {names : List String} (hnames : LetterNames names) {key : List Nat} (h : IsHeaderStart names key) :
    ∃ c a, key = (c :: a) ++ [58] ∧ isSpaceCode c = false ∧ ∀ d ∈ c :: a, d ≠ 58 ∧ d ≠ 62 ∧ d ≠ 47 := by
  obtain ⟨run, spaces, name, hkey, hname, hrun, hspaces⟩ := h
  rw [points_colon] at hkey
  have hsymbol := hnames.symbol hname hrun
  cases run with
  | nil => exact absurd rfl (hnames.run_ne_nil hname hrun)
  | cons c run =>
    refine ⟨c, run ++ spaces, hkey, ?_, fun d hd => ?_⟩
    · have hc := hsymbol c List.mem_cons_self
      rw [isFoldedLetter_iff] at hc
      rw [Bool.eq_false_iff, ne_eq, isSpaceCode_iff]
      omega
    · rcases List.mem_append.mp (show d ∈ (c :: run) ++ spaces from hd) with hd | hd
      · have hd := hsymbol d hd
        rw [isFoldedLetter_iff] at hd
        omega
      · have hd := hspaces d hd
        rw [isSpaceCode_iff] at hd
        omega

theorem header_lawful {names : List String} {body : Nat → Bool} {least : Nat} (hnames : LetterNames names)
    (hbody : ∀ c ∈ redacted, body c = true) (hleast : least ≤ 1) : (header names body least).Lawful redacted where
  outside key hkey := by
    obtain ⟨c, a, hkey, _, ha⟩ := IsHeaderStart.symbols hnames hkey
    rw [hkey]
    refine outside_redacted (z := 58) (by rw [List.getLast?_append]; rfl) (by rw [redacted_eq]; decide) ?_
    intro hmem
    rcases List.mem_append.mp hmem with hmem | hmem
    · exact (ha _ hmem).2.1 rfl
    · revert hmem
      decide
  agree key before tail post more hkey hwhole hne heq := by
    obtain ⟨c, a, hkey, _, ha⟩ := IsHeaderStart.symbols hnames hkey
    obtain ⟨c', a', hwhole, _, ha'⟩ := IsHeaderStart.symbols hnames hwhole
    obtain ⟨b, htail, hb⟩ := tail_of_mark hwhole.symm hne
    rw [hkey, htail, List.append_assoc, List.append_assoc] at heq
    have hsame : c :: a = b := agree_of_mark rfl (fun hmem => (ha _ hmem).1 rfl)
      (fun hmem => (ha' 58 (by rw [hb]; exact List.mem_append_right _ hmem)).1 rfl) heq
    rw [hkey, htail, hsame]
  head_gap c key hkey := by
    obtain ⟨c', a, hkey, hc', _⟩ := IsHeaderStart.symbols hnames hkey
    cases hkey
    exact hc'
  mask_body := hbody
  mask_stops rest := redacted_stops _ (show isSpaceCode 60 = false by decide) rest
  least_le := hleast
  start := .inl fun _ => trivial
  close := .inl fun _ => trivial

theorem authorizationHeader_lawful : authorizationHeader.Lawful redacted :=
  header_lawful authorization_plain (by rw [redacted_eq]; decide) (Nat.zero_le 1)

theorem tokenHeader_lawful : tokenHeader.Lawful redacted :=
  header_lawful tokenHeaderNames_plain (by rw [redacted_eq]; decide) (Nat.le_refl 1)

/-! ## The expressions find them -/

variable {t t' : Thread}

/-- The group is what was read since it opened. -/
theorem capture_read (place : Place) (before run rest : List Nat) (captures : Captures) :
    capture 1 (place, (1, between ⟨before, run ++ rest⟩ ⟨run.reverse ++ before, rest⟩) :: captures.filter (·.1 != 1)) =
      some run := by
  rw [capture_group, if_pos rfl]
  exact congrArg some (show Consumes run ⟨before, run ++ rest⟩ ⟨run.reverse ++ before, rest⟩ from ⟨rfl, rfl⟩).between

theorem urlCredentials_finds : Finds URL_CREDENTIALS urlCredentials (points "@") where
  sound before after t ht := by
    obtain ⟨u₀, h₀, ht⟩ := mem_threads_seq.mp ht
    obtain ⟨hboundary, hu₀⟩ := mem_threads_wordBoundary.mp h₀
    subst hu₀
    obtain ⟨u₁, h₁, ht⟩ := mem_threads_seq.mp ht
    obtain ⟨w, hw, hu₁⟩ := mem_threads_group.mp h₁
    obtain ⟨w₁, hw₁, hw⟩ := mem_threads_seq.mp hw
    obtain ⟨c, hc, hconsumes₁, _⟩ := mem_threads_one.mp hw₁
    obtain ⟨w₂, hw₂, hw⟩ := mem_threads_seq.mp hw
    obtain ⟨run, hrun, _, hconsumes₂, _⟩ := mem_threads_rep.mp hw₂
    obtain ⟨hconsumes₃, _⟩ := mem_threads_lit.mp hw
    obtain ⟨u₂, h₂, ht⟩ := mem_threads_seq.mp ht
    obtain ⟨value, hvalue, hleast, hconsumes₄, _⟩ := mem_threads_rep.mp h₂
    obtain ⟨hconsumes₅, _⟩ := mem_threads_lit.mp ht
    have hplace : u₁.1 = w.1 := by rw [hu₁]
    rw [hplace] at hconsumes₄
    have hafter : after = (c :: run) ++ points "://" ++ ([] ++ (value ++ (points "@" ++ t.1.after))) := by
      have h := (((hconsumes₁.trans hconsumes₂).trans hconsumes₃).trans (hconsumes₄.trans hconsumes₅)).after
      rw [show after = (⟨before, after⟩ : Place).after from rfl, h]
      simp
    refine ⟨_, [], value, points "@" ++ t.1.after, ⟨?_, ⟨c, run, rfl, hc, hrun⟩, by simp, fun d _ => rfl, hvalue, ?_, hleast, ?_⟩, hafter⟩
    · have hword : after.head?.any isWordFolded = true := by
        rw [hafter]
        exact isFoldedLetter_word hc
      show before.head?.any isWordFolded = false
      rw [show (⟨before, after⟩ : Place).after.head?.any isWordFolded = true from hword] at hboundary
      simpa using hboundary
    · rw [show points "@" = [64] from rfl]
      exact stops_cons.mpr (by decide)
    · rw [show points "@" = [64] from rfl]
      rfl
  found before key gap value rest hhit := by
    obtain ⟨c, run, hkey, hc, hrun⟩ := hhit.key
    have hgap : gap = [] := urlCredentials_delimited.gap_nil hhit
    obtain ⟨rest', hrest⟩ : ∃ rest', rest = points "@" ++ rest' := by
      have hnext : rest.head? = some '@'.toNat := hhit.next
      cases rest with
      | nil => cases hnext
      | cons d rest' =>
        cases hnext
        exact ⟨rest', rfl⟩
    subst hgap hrest
    have hschemeStops : ∀ rest, Stops isSchemeSymbol (points "://" ++ rest) := by
      intro rest
      rw [points_slashes]
      exact stops_cons.mpr (by decide)
    have hgroup : (threads (seqAll [.one isFoldedLetter, star isSchemeSymbol, lit "://"])
        (⟨before, key ++ (value ++ (points "@" ++ rest'))⟩, [])).head? =
        some (⟨key.reverse ++ before, value ++ (points "@" ++ rest')⟩, []) := by
      rw [hkey, List.append_assoc]
      refine head_seq (head_one hc) (head_seq (head_rep hrun (hschemeStops _) (Nat.zero_le _)) ?_)
      have hlit := head_lit "://" (run.reverse ++ c :: before) (value ++ (points "@" ++ rest')) []
      show (threads (lit "://") _).head? = _
      simpa using hlit
    have hvalueStops : Stops isUserinfo (points "@" ++ rest') := hhit.value_stops
    have hrest := head_seq (head_group (n := 1) hgroup) (head_seq (head_rep hhit.value_run hvalueStops hhit.least)
      (head_lit "@" _ rest' _))
    refine ⟨rest', _, rfl, head_seq (head_wordBoundary ?_) hrest, by simp, ?_⟩
    · have hboundary : before.head?.any isWordFolded = false := hhit.boundary
      rw [hboundary, hkey]
      show false ≠ isWordFolded c
      rw [isFoldedLetter_word hc]
      decide
    · rw [List.append_nil]
      exact capture_read _ before key _ _

theorem mem_threads_separator : t' ∈ threads separator t ↔
    ∃ s ∈ ["", "_", "-"], Consumes (points s) t.1 t'.1 ∧ t'.2 = t.2 := by
  have hone : ∀ u u', u' ∈ threads (.alt (lit "_") (lit "-")) u ↔
      ∃ s ∈ ["_", "-"], Consumes (points s) u.1 u'.1 ∧ u'.2 = u.2 := by
    intro u u'
    rw [mem_threads_alt, mem_threads_lit, mem_threads_lit]
    simp
  unfold separator
  rw [mem_threads_optional]
  · rw [show Re.groups (.alt (lit "_") (lit "-")) = [] from rfl, forget_nil, hone]
    have hnone : t' = t ↔ Consumes (points "") t.1 t'.1 ∧ t'.2 = t.2 := by
      constructor
      · intro h
        rw [h]
        exact ⟨Consumes.refl _, rfl⟩
      · intro ⟨h, hcaptures⟩
        exact Prod.ext h.nil_eq hcaptures
    rw [hnone]
    simp [or_comm]
  · intro u u' hu
    obtain ⟨s, hs, hconsumes, _⟩ := (hone u u').mp hu
    have hlengths : ∀ s ∈ ["_", "-"], 0 < (points s).length := by decide
    have hlength := hlengths s hs
    rw [hconsumes.after, List.length_append]
    omega

theorem points_append (a b : String) : points (a ++ b) = points a ++ points b := by
  unfold points
  rw [String.toList_append, List.map_append]

theorem spells_separated (a b : String) : Spells (seqAll [litFolded a, separator, litFolded b]) (spellings a b) := by
  -- a separator folds to itself only
  have hsame : ∀ s ∈ ["", "_", "-"], ∀ run : List Nat, run.map foldAscii = points s ↔ run = points s := by
    intro s hs run
    have hsmall : ∀ s ∈ ["", "_", "-"], ∀ c ∈ points s, c < 97 ∧ foldAscii c = c := by decide
    have hsymbols := hsmall s hs
    generalize points s = text at hsymbols
    induction text generalizing run with
    | nil => simp
    | cons d text ih =>
      obtain ⟨⟨hd, hfold⟩, htext⟩ := List.forall_mem_cons.mp hsymbols
      cases run with
      | nil => simp
      | cons c run =>
        rw [List.map_cons, List.cons.injEq, List.cons.injEq]
        refine and_congr ⟨fun h => ?_, fun h => by rw [h, hfold]⟩ (ih run htext)
        rcases foldAscii_eq (c := c) with hc | ⟨_, hc⟩
        · rw [← hc, h]
        · omega
  intro t v
  constructor
  · intro hv
    obtain ⟨u₁, h₁, hv⟩ := mem_threads_seq.mp hv
    obtain ⟨u₂, h₂, hv⟩ := mem_threads_seq.mp hv
    obtain ⟨x, hx, hc₁, hcaptures₁⟩ := mem_threads_litFolded.mp h₁
    obtain ⟨s, hs, hc₂, hcaptures₂⟩ := mem_threads_separator.mp h₂
    obtain ⟨y, hy, hc₃, hcaptures₃⟩ := mem_threads_litFolded.mp hv
    refine ⟨a ++ s ++ b, List.mem_map_of_mem hs, x ++ points s ++ y, ?_, (hc₁.trans hc₂).trans hc₃,
      hcaptures₃.trans (hcaptures₂.trans hcaptures₁)⟩
    rw [List.map_append, List.map_append, hx, hy, (hsame s hs _).mpr rfl, points_append, points_append]
  · intro ⟨name, hname, run, hrun, hconsumes, hcaptures⟩
    obtain ⟨s, hs, hname⟩ := List.mem_map.mp hname
    rw [← hname, points_append, points_append] at hrun
    obtain ⟨xs, y, hrun, hxs, hy⟩ := List.map_eq_append_iff.mp hrun
    obtain ⟨x, z, hxz, hx, hz⟩ := List.map_eq_append_iff.mp hxs
    have hafter : t.1.after = x ++ (z ++ (y ++ v.1.after)) := by
      rw [hconsumes.after, hrun, hxz]
      simp
    have hz' : z = points s := (hsame s hs z).mp hz
    have hlast : v.1.before = y.reverse ++ (z.reverse ++ (x.reverse ++ t.1.before)) := by
      rw [hconsumes.before, hrun, hxz]
      simp
    have hfirst : ((⟨x.reverse ++ t.1.before, z ++ (y ++ v.1.after)⟩, t.2) : Thread) ∈ threads (litFolded a) t :=
      mem_threads_litFolded.mpr ⟨x, hx, consumes_of_after hafter, rfl⟩
    have hsecond : ((⟨z.reverse ++ (x.reverse ++ t.1.before), y ++ v.1.after⟩, t.2) : Thread) ∈
        threads separator (⟨x.reverse ++ t.1.before, z ++ (y ++ v.1.after)⟩, t.2) :=
      mem_threads_separator.mpr ⟨s, hs, hz' ▸ ⟨rfl, rfl⟩, rfl⟩
    exact mem_threads_seq.mpr ⟨_, hfirst, mem_threads_seq.mpr ⟨_, hsecond, mem_threads_litFolded.mpr
      ⟨y, hy, ⟨rfl, hlast⟩, hcaptures⟩⟩⟩

theorem spells_query : Spells SENSITIVE_QUERY_KEY sensitiveQueryNames :=
  spells_altAll (.cons (spells_separated _ _) (.cons (spells_separated _ _) (.cons (spells_separated _ _)
    (.cons (spells_separated _ _) (.cons (spells_separated _ _) (.cons (spells_litFolded _) (.cons (spells_litFolded _)
      (.cons (spells_litFolded _) (.cons (spells_litFolded _) (.cons (spells_litFolded _) (.cons (spells_litFolded _)
        (.cons (spells_litFolded _) (.cons (spells_litFolded _) (.cons (spells_litFolded _) .nil)))))))))))))) (by simp)

theorem sensitiveQueryNames_prefixFree : PrefixFree sensitiveQueryNames := by
  unfold PrefixFree
  decide

theorem spells_tokenHeader : Spells (altAll [litFolded "private-token", litFolded "job-token", litFolded "x-api-key",
    litFolded "api-key", litFolded "api_key"]) tokenHeaderNames :=
  spells_altAll (.cons (spells_litFolded _) (.cons (spells_litFolded _) (.cons (spells_litFolded _)
    (.cons (spells_litFolded _) (.cons (spells_litFolded _) .nil))))) (by simp)

theorem tokenHeaderNames_prefixFree : PrefixFree tokenHeaderNames := by
  unfold PrefixFree
  decide

theorem sensitiveQuery_finds : Finds SENSITIVE_QUERY_VALUE sensitiveQuery [] where
  sound before after t ht := by
    obtain ⟨u₁, h₁, ht⟩ := mem_threads_seq.mp ht
    obtain ⟨w, hw, hu₁⟩ := mem_threads_group.mp h₁
    obtain ⟨w₁, hw₁, hw⟩ := mem_threads_seq.mp hw
    obtain ⟨c, hc, hconsumes₁, _⟩ := mem_threads_one.mp hw₁
    obtain ⟨w₂, hw₂, hw⟩ := mem_threads_seq.mp hw
    obtain ⟨name, hname, run, hrun, hconsumes₂, _⟩ := (spells_query _ _).mp hw₂
    obtain ⟨hconsumes₃, _⟩ := mem_threads_lit.mp hw
    obtain ⟨start, hstart, hleast, hconsumes₄, _⟩ := mem_threads_rep.mp ht
    have hplace : u₁.1 = w.1 := by rw [hu₁]
    rw [hplace] at hconsumes₄
    have hafter := (((hconsumes₁.trans hconsumes₂).trans hconsumes₃).trans hconsumes₄).after
    -- the value goes on as far as it can
    obtain ⟨value, rest, hvalueRest, hvalue, hstops⟩ := exists_run sensitiveQuery.body (start ++ t.1.after)
    have hlonger : start.length ≤ value.length := run_length_le hvalueRest hstart hstops
    refine ⟨(c :: run) ++ points "=", [], value, rest, ⟨trivial, ⟨c, run, name, rfl, hc, hname, hrun⟩, by simp, fun d _ => rfl, hvalue,
      hstops, Nat.le_trans hleast hlonger, trivial⟩, ?_⟩
    rw [show after = (⟨before, after⟩ : Place).after from rfl, hafter, List.nil_append, ← hvalueRest]
    simp
  found before key gap value rest hhit := by
    obtain ⟨c, run, name, hkey, hc, hname, hrun⟩ := hhit.key
    have hgap : gap = [] := List.eq_nil_iff_forall_not_mem.mpr fun c hc => by
      have := hhit.gap_run c hc
      cases this
    subst hgap
    have hgroup : (threads (seqAll [.one (among "?&#"), SENSITIVE_QUERY_KEY, lit "="])
        (⟨before, key ++ (value ++ rest)⟩, [])).head? = some (⟨key.reverse ++ before, value ++ rest⟩, []) := by
      rw [hkey, List.append_assoc]
      refine head_seq (head_one hc) (head_seq (head_spells spells_query sensitiveQueryNames_prefixFree hname hrun) ?_)
      have hlit := head_lit "=" (run.reverse ++ c :: before) (value ++ rest) []
      show (threads (lit "=") _).head? = _
      simpa using hlit
    refine ⟨rest, _, rfl, head_seq (head_group (n := 1) hgroup) (head_rep hhit.value_run hhit.value_stops hhit.least), by simp, ?_⟩
    rw [List.append_nil]
    exact capture_read _ before key _ _

theorem header_finds {names : List String} {body : Nat → Bool} {least : Nat} {r : Re} (hr : Spells r names)
    (hfree : PrefixFree names) (hbody : 0 < least → ∀ c, isSpaceCode c = true → body c = false) :
    Finds (seqAll [.group 1 (seqAll [r, star isSpaceCode, lit ":", star isSpaceCode]), .rep (.one body) least none true])
      (header names body least) [] where
  sound before after t ht := by
    obtain ⟨u₁, h₁, ht⟩ := mem_threads_seq.mp ht
    obtain ⟨w, hw, hu₁⟩ := mem_threads_group.mp h₁
    obtain ⟨w₁, hw₁, hw⟩ := mem_threads_seq.mp hw
    obtain ⟨name, hname, run, hrun, hconsumes₁, _⟩ := (hr _ _).mp hw₁
    obtain ⟨w₂, hw₂, hw⟩ := mem_threads_seq.mp hw
    obtain ⟨spaces, hspaces, _, hconsumes₂, _⟩ := mem_threads_rep.mp hw₂
    obtain ⟨w₃, hw₃, hw⟩ := mem_threads_seq.mp hw
    obtain ⟨hconsumes₃, _⟩ := mem_threads_lit.mp hw₃
    obtain ⟨start, hstart, _, hconsumes₄, _⟩ := mem_threads_rep.mp hw
    obtain ⟨first, hfirst, hle, hconsumes₅, _⟩ := mem_threads_rep.mp ht
    have hplace : u₁.1 = w.1 := by rw [hu₁]
    rw [hplace] at hconsumes₅
    have hafter := ((((hconsumes₁.trans hconsumes₂).trans hconsumes₃).trans hconsumes₄).trans hconsumes₅).after
    -- gap and value go on as far as they can
    obtain ⟨gap, later, hgapLater, hgap, hgapStops⟩ := exists_run isSpaceCode (start ++ (first ++ t.1.after))
    obtain ⟨value, rest, hlater, hvalue, hstops⟩ := exists_run body later
    rw [hlater] at hgapLater hgapStops
    have hlong : least ≤ value.length := by
      by_cases hzero : least = 0
      · rw [hzero]
        exact Nat.zero_le _
      · -- the first symbol of the value is no white space, so the gap ends before it
        have hnospace := hbody (by omega)
        cases first with
        | nil => exact absurd hle (by rw [List.length_nil]; omega)
        | cons c first =>
          have hc : isSpaceCode c = false := by
            cases hspace : isSpaceCode c with
            | false => rfl
            | true =>
              have hcbody := hfirst c List.mem_cons_self
              rw [hnospace c hspace] at hcbody
              cases hcbody
          obtain ⟨_, hvalues⟩ := runs_agree hgapLater hstart (stops_cons.mpr hc) hgap hgapStops
          have hlonger := run_length_le hvalues hfirst hstops
          exact Nat.le_trans hle hlonger
    refine ⟨(run ++ spaces) ++ points ":", gap, value, rest, ⟨trivial, ⟨run, spaces, name, rfl, hname, hrun, hspaces⟩, hgap,
      hgapStops, hvalue, hstops, hlong, trivial⟩, ?_⟩
    rw [show after = (⟨before, after⟩ : Place).after from rfl, hafter, ← hgapLater]
    simp
  found before key gap value rest hhit := by
    obtain ⟨run, spaces, name, hkey, hname, hrun, hspaces⟩ := hhit.key
    have hcolonStops : ∀ rest, Stops isSpaceCode (points ":" ++ rest) := by
      intro rest
      rw [points_colon]
      exact stops_cons.mpr (by decide)
    have hgroup : (threads (seqAll [r, star isSpaceCode, lit ":", star isSpaceCode])
        (⟨before, (key ++ gap) ++ (value ++ rest)⟩, [])).head? = some (⟨(key ++ gap).reverse ++ before, value ++ rest⟩, []) := by
      rw [hkey, List.append_assoc, List.append_assoc, List.append_assoc]
      refine head_seq (head_spells hr hfree hname hrun) (head_seq (head_rep hspaces (hcolonStops _) (Nat.zero_le _))
        (head_seq (head_lit ":" _ (gap ++ (value ++ rest)) []) ?_))
      have hgapRun : ∀ c ∈ gap, isSpaceCode c = true := hhit.gap_run
      have hgapStops : Stops isSpaceCode (value ++ rest) := hhit.gap_stops
      show (threads (.rep (.one isSpaceCode) 0 none true) _).head? = _
      rw [head_rep hgapRun hgapStops (Nat.zero_le _)]
      simp
    have hwhole := head_seq (head_group (n := 1) hgroup) (head_rep hhit.value_run hhit.value_stops hhit.least)
    rw [← List.append_assoc key gap]
    exact ⟨rest, _, rfl, hwhole, by simp, capture_read _ before (key ++ gap) (value ++ rest) []⟩

/-! ## The passes -/

theorem redactUrl_scan (input : List Nat) : Scan urlCredentials redacted none input (redact URL_CREDENTIALS "<redacted>@" input) := by
  have hscan := replaceAll_scan urlCredentials_lawful urlCredentials_finds ?_ input
  · have hmask : points "<redacted>@" = redacted ++ points "@" := rfl
    unfold redact
    rw [hmask]
    exact hscan
  · intro c hc key hkey hhead
    obtain ⟨d, run, hkey, hd, _⟩ := hkey
    rw [hkey] at hhead
    cases hhead
    rw [show points "@" = [64] from rfl, List.mem_singleton] at hc
    rw [isFoldedLetter_iff] at hd
    omega

theorem redactQuery_scan (input : List Nat) :
    Scan sensitiveQuery redacted none input (redact SENSITIVE_QUERY_VALUE "<redacted>" input) := by
  have hscan := replaceAll_scan sensitiveQuery_lawful sensitiveQuery_finds (by simp) input
  rw [List.append_nil] at hscan
  exact hscan

theorem redactAuthorization_scan (input : List Nat) :
    Scan authorizationHeader redacted none input (redact AUTHORIZATION_HEADER "<redacted>" input) := by
  have hfree : PrefixFree ["authorization"] := by
    intro a ha b hb _
    rw [List.mem_singleton.mp ha, List.mem_singleton.mp hb]
  have hfinds : Finds AUTHORIZATION_HEADER authorizationHeader [] :=
    header_finds (spells_litFolded "authorization") hfree fun h => absurd h (Nat.lt_irrefl 0)
  have hscan := replaceAll_scan authorizationHeader_lawful hfinds (by simp) input
  rw [List.append_nil] at hscan
  exact hscan

theorem redactToken_scan (input : List Nat) :
    Scan tokenHeader redacted none input (redact TOKEN_HEADER "<redacted>" input) := by
  have hfinds : Finds TOKEN_HEADER tokenHeader [] :=
    header_finds spells_tokenHeader tokenHeaderNames_prefixFree fun _ c hc => by simp [hc]
  have hscan := replaceAll_scan tokenHeader_lawful hfinds (by simp) input
  rw [List.append_nil] at hscan
  exact hscan

end GitCommitsPush.Publication
