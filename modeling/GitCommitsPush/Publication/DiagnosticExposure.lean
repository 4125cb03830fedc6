/-
  GitCommitsPush.Publication.DiagnosticExposure — when the userinfo of a URL comes to light
  in what the last three passes leave.

  The first pass stops at a slash. A later pass that takes the slash away, as part of a
  value, leaves a userinfo that the first pass would find the next time: `Exposed`. That
  takes a URL whose start no value covers, a slash after it, and an at-sign with nothing
  between but userinfo and values (`OpenWay`). `exposed_of_unmasked` and `Exposed.unmasked` are
  that this, and nothing else, uncovers a userinfo.

  A slash and an at-sign stand in no key, so the passes are cut there: `Parts`.
-/

import GitCommitsPush.Lib.MaskingParts
import GitCommitsPush.Publication.DiagnosticPasses

namespace GitCommitsPush.Publication

open GitCommitsPush.Lib.JsText
open GitCommitsPush.Lib.Regex
open GitCommitsPush.Lib.Masking

/-- The last three passes over a text that ends where a URL starts leave that start. -/
def Uncovered (before key : List Nat) : Prop :=
  ∃ a b c, Scan sensitiveQuery redacted none (before ++ key) (a ++ key) ∧
    Scan authorizationHeader redacted none (a ++ key) (b ++ key) ∧ Scan tokenHeader redacted none (b ++ key) (c ++ key)

/-- A way to an at-sign, the values of parameters masked: what is no userinfo is in the value
    of a token header, and the at-sign is in no header's value. -/
structure OpenWay (path : List Nat) : Prop where
  symbols : ∀ a c b, path = a ++ c :: b → isUserinfo c = true ∨ tokenHeader.Holds a ∧ tokenHeader.body c = true
  token : ¬tokenHeader.Holds path
  authorization : ¬authorizationHeader.Holds path

/-- With the userinfo of every URL masked, there is a URL whose start no value covers and a
    way with a slash from it to an at-sign. -/
def Exposed (text : List Nat) : Prop :=
  ∃ veiled before key path shown rest, Scan urlCredentials redacted none text veiled ∧
    veiled = before ++ (key ++ (path ++ 64 :: rest)) ∧ IsUrlStart key ∧ (ends none before).any isWordFolded = false ∧
    Uncovered before key ∧ 47 ∈ path ∧ Scan sensitiveQuery redacted none (path ++ [64]) (shown ++ [64]) ∧ OpenWay shown

/-! ## The later passes -/

/-- A pass after the first: slashes and at-signs separate, letters go on with a value. -/
structure Later (Q : Pattern Nat) : Prop where
  lawful : Q.Lawful redacted
  anywhere : Q.Anywhere
  slash : Q.Separator redacted 47
  at_sign : Q.Separator redacted 64
  letters : ∀ c, isFoldedLetter c = true → Q.body c = true

theorem not_mem_redacted {c : Nat} (h : c = 47 ∨ c = 64) : c ∉ redacted := by
  rw [redacted_eq]
  rcases h with rfl | rfl <;> decide

theorem letters_within {c : Nat} (h : isFoldedLetter c = true) (chars : String) (hchars : ∀ d ∈ points chars, d < 65) :
    among chars c = false ∧ isSpaceCode c = false := by
  rw [isFoldedLetter_iff] at h
  refine ⟨?_, ?_⟩
  · rw [Bool.eq_false_iff, ne_eq, among_iff]
    intro hmem
    have hsmall := hchars c hmem
    omega
  · rw [Bool.eq_false_iff, ne_eq, isSpaceCode_iff]
    omega

theorem IsQueryStart.separators {key : List Nat} (h : IsQueryStart key) : ∀ c ∈ key, c ≠ 47 ∧ c ≠ 64 := by
  obtain ⟨c, run, name, rfl, hc, hname, hrun⟩ := h
  rw [points_equals]
  rw [among_iff, points_queryStart] at hc
  simp only [List.mem_cons, List.not_mem_nil, or_false] at hc
  intro d hd
  rcases List.mem_append.mp hd with hd | hd
  · rcases List.mem_cons.mp hd with rfl | hd
    · omega
    · have hsymbol := sensitiveQueryNames_plain.symbol hname hrun d hd
      rw [isFoldedLetter_iff] at hsymbol
      omega
  · rw [List.mem_singleton.mp hd]
    omega

/-- The symbols of a header's key. -/
theorem IsHeaderStart.mem {names : List String} (hnames : LetterNames names) {key : List Nat} (h : IsHeaderStart names key) :
    ∀ c ∈ key, isFoldedLetter c = true ∨ c = 45 ∨ c = 95 ∨ c = 58 ∨ isSpaceCode c = true := by
  obtain ⟨run, spaces, name, rfl, hname, hrun, hspaces⟩ := h
  rw [points_colon]
  intro c hc
  rcases List.mem_append.mp hc with hc | hc
  · rcases List.mem_append.mp hc with hc | hc
    · rcases hnames.symbol hname hrun c hc with hletter | hdash | hbar
      · exact .inl hletter
      · exact .inr (.inl hdash)
      · exact .inr (.inr (.inl hbar))
    · exact .inr (.inr (.inr (.inr (hspaces c hc))))
  · exact .inr (.inr (.inr (.inl (List.mem_singleton.mp hc))))

theorem IsHeaderStart.separators {names : List String} (hnames : LetterNames names) {key : List Nat} (h : IsHeaderStart names key) :
    ∀ c ∈ key, c ≠ 47 ∧ c ≠ 64 := by
  intro c hc
  have hsymbol := h.mem hnames c hc
  rw [isFoldedLetter_iff, isSpaceCode_iff] at hsymbol
  omega

theorem sensitiveQuery_separator {z : Nat} (hz : z = 47 ∨ z = 64) : sensitiveQuery.Separator redacted z where
  key key hkey hmem := by
    have hsymbol := IsQueryStart.separators hkey z hmem
    omega
  gap := rfl
  mask := not_mem_redacted hz

theorem header_separator {names : List String} {body : Nat → Bool} {least : Nat} (hnames : LetterNames names) {z : Nat}
    (hz : z = 47 ∨ z = 64) : (header names body least).Separator redacted z where
  key key hkey hmem := by
    have hsymbol := IsHeaderStart.separators hnames hkey z hmem
    omega
  gap := by
    show isSpaceCode z = false
    rcases hz with rfl | rfl <;> decide
  mask := not_mem_redacted hz

theorem sensitiveQuery_later : Later sensitiveQuery where
  lawful := sensitiveQuery_lawful
  anywhere := ⟨fun _ => trivial, fun _ => trivial⟩
  slash := sensitiveQuery_separator (.inl rfl)
  at_sign := sensitiveQuery_separator (.inr rfl)
  letters c hc := by
    obtain ⟨hstop, hspace⟩ := letters_within hc "&#" (by decide)
    show (!among "&#" c && !isSpaceCode c) = true
    rw [hstop, hspace]
    rfl

theorem authorizationHeader_later : Later authorizationHeader where
  lawful := authorizationHeader_lawful
  anywhere := ⟨fun _ => trivial, fun _ => trivial⟩
  slash := header_separator authorization_plain (.inl rfl)
  at_sign := header_separator authorization_plain (.inr rfl)
  letters c hc := by
    show (!among "\r\n" c) = true
    rw [(letters_within hc "\r\n" (by decide)).1]
    rfl

theorem tokenHeader_later : Later tokenHeader where
  lawful := tokenHeader_lawful
  anywhere := ⟨fun _ => trivial, fun _ => trivial⟩
  slash := header_separator tokenHeaderNames_plain (.inl rfl)
  at_sign := header_separator tokenHeaderNames_plain (.inr rfl)
  letters c hc := by
    obtain ⟨hstop, hspace⟩ := letters_within hc ",;" (by decide)
    show (!isSpaceCode c && !among ",;" c) = true
    rw [hstop, hspace]
    rfl

/-! ## A pass in parts -/

/-- A pass over a text up to a URL's start, from there to an at-sign, and after it. -/
structure Parts (Q : Pattern Nat) (key before path rest before' path' rest' : List Nat) : Prop where
  start : Scan Q redacted none (before ++ key) (before' ++ key)
  way : Scan Q redacted none (path ++ [64]) (path' ++ [64])
  later : Scan Q redacted none rest rest'

theorem IsUrlStart.slash_last {key : List Nat} (h : IsUrlStart key) : ∃ start, key = start ++ [47] := by
  obtain ⟨c, run, rfl, -⟩ := h.symbols
  exact ⟨(c :: run) ++ [58, 47], by simp⟩

theorem Masks.eq_nil {Q : Pattern Nat} {copied input out : List Nat} (h : Masks Q redacted copied input out) (hout : out = []) :
    input = [] := by
  cases h with
  | done => rfl
  | copy => cases hout
  | mask =>
    rw [redacted_eq] at hout
    cases hout

section Later

variable {Q : Pattern Nat} {key before path rest before' path' rest' : List Nat}

/-- A URL's start that comes through stood there, after the same symbol. -/
theorem Later.start_kept (hQ : Later Q) (hkey : IsUrlStart key) {text : List Nat}
    (h : Scan Q redacted none text (before' ++ key)) : ∃ before, text = before ++ key ∧ ends none before = ends none before' := by
  obtain ⟨before, post, older, htext, hmasks, -, hends⟩ :=
    (h.masks []).split (show before' ++ key = before' ++ (key ++ []) by simp) (urlCredentials_lawful.outside key hkey)
  obtain rfl := Masks.eq_nil hmasks rfl
  refine ⟨before, by rw [htext]; simp, ?_⟩
  rcases hends none with hsame | hstops
  · exact hsame
  · obtain ⟨c, run, rfl, hc, -⟩ := hkey.symbols
    have hbody := hstops c rfl
    rw [hQ.letters c hc] at hbody
    cases hbody

theorem Parts.same_end (hQ : Later Q) (hkey : IsUrlStart key) (h : Parts Q key before path rest before' path' rest') :
    ends none before = ends none before' := by
  obtain ⟨start, hstart, hends⟩ := hQ.start_kept hkey h.start
  rw [List.append_cancel_right hstart]
  exact hends

/-- A URL's start and an at-sign that come through take a pass apart. -/
theorem Later.parts (hQ : Later Q) (hkey : IsUrlStart key) {input out : List Nat} (h : Scan Q redacted none input out)
    (hout : out = before' ++ (key ++ (path' ++ 64 :: rest'))) :
    ∃ before path rest, input = before ++ (key ++ (path ++ 64 :: rest)) ∧ Parts Q key before path rest before' path' rest' := by
  obtain ⟨start, hslash⟩ := hkey.slash_last
  have hcut : out = (before' ++ start) ++ 47 :: (path' ++ 64 :: rest') := by
    rw [hout, hslash]
    simp
  obtain ⟨text, more, rfl, hstart, hmore⟩ := h.split_at hQ.anywhere hQ.slash hcut
  obtain ⟨path, rest, rfl, hway, hlater⟩ := hmore.split_at hQ.anywhere hQ.at_sign rfl
  rw [show before' ++ start ++ [47] = before' ++ key by rw [hslash]; simp] at hstart
  obtain ⟨before, hbefore, -⟩ := hQ.start_kept hkey hstart
  rw [hbefore] at hstart
  refine ⟨before, path, rest, ?_, hstart, hway.of_anywhere hQ.lawful hQ.anywhere, hlater.of_anywhere hQ.lawful hQ.anywhere⟩
  rw [← List.append_assoc, ← hbefore]
  simp

/-- …and put together they are the whole pass. -/
theorem Parts.scan (hQ : Later Q) (hkey : IsUrlStart key) (h : Parts Q key before path rest before' path' rest') :
    Scan Q redacted none (before ++ (key ++ (path ++ 64 :: rest))) (before' ++ (key ++ (path' ++ 64 :: rest'))) := by
  obtain ⟨start, rfl⟩ := hkey.slash_last
  have hrest := h.way.join_at hQ.lawful hQ.anywhere hQ.at_sign rfl rfl (h.later.of_anywhere hQ.lawful hQ.anywhere)
  have hends : ∀ text : List Nat, text ++ (start ++ [47]) = text ++ start ++ [47] := fun text => (List.append_assoc text start [47]).symm
  have hwhole := h.start.join_at hQ.lawful hQ.anywhere hQ.slash (hends before) (hends before')
    (hrest.of_anywhere hQ.lawful hQ.anywhere)
  simpa using hwhole

/-- A mask before an at-sign is left as it is. -/
theorem Later.mask_kept (hQ : Later Q) {input out : List Nat} (h : Scan Q redacted none input out)
    (hinput : input = redacted ++ 64 :: rest) : ∃ rest', out = redacted ++ 64 :: rest' := by
  rw [show input = (redacted ++ [64]) ++ rest by rw [hinput]; simp] at h
  obtain ⟨rest', rfl, -⟩ := h.copies (by
    intro a b hab hb found gap value after hhit heq
    have hparts : redacted ++ 64 :: rest = a ++ (found ++ (gap ++ (value ++ after))) := by
      rw [← heq, ← List.append_assoc, ← hab]
      simp
    obtain ⟨a', rfl, hrest⟩ := (hQ.lawful.outside found hhit.key).after_mask hparts
    rw [List.append_assoc] at hab
    have hend := List.append_cancel_left hab
    cases a' with
    | nil =>
      -- a key would begin with the at-sign
      cases hfound : found with
      | nil => exact hQ.lawful.key_ne_nil hhit.key hfound
      | cons c found' =>
        rw [hfound] at hrest
        obtain ⟨rfl, -⟩ := List.cons.inj hrest
        exact hQ.at_sign.key found hhit.key (by rw [hfound]; exact List.mem_cons_self)
    | cons c a' =>
      have hnil := (List.cons.inj hend).2
      exact hb (List.append_eq_nil_iff.mp hnil.symm).2)
  exact ⟨rest', by simp⟩

end Later

/-! ## The way to the at-sign -/

theorem isUserinfo_word {c : Nat} (h : isUserinfo c = true) : isSpaceCode c = false ∧ c ≠ 64 :=
  ⟨(isUserinfo_iff.mp h).1, (isUserinfo_iff.mp h).2.2⟩

theorem tokenHeader_unspaced {c : Nat} (h : tokenHeader.body c = true) : isSpaceCode c = false := by
  have hbody : (!isSpaceCode c && !among ",;" c) = true := h
  rw [Bool.and_eq_true, Bool.not_eq_true'] at hbody
  exact hbody.1

theorem sensitiveQuery_unspaced {c : Nat} (h : sensitiveQuery.body c = true) : isSpaceCode c = false := by
  have hbody : (!among "&#" c && !isSpaceCode c) = true := h
  rw [Bool.and_eq_true, Bool.not_eq_true' (isSpaceCode c)] at hbody
  exact hbody.2

theorem authorizationHeader_body {c : Nat} (h : isSpaceCode c = false) : authorizationHeader.body c = true := by
  show (!among "\r\n" c) = true
  rw [Bool.not_eq_true', Bool.eq_false_iff, ne_eq, among_iff, points_lineStop]
  rw [Bool.eq_false_iff, ne_eq, isSpaceCode_iff] at h
  simp only [List.mem_cons, List.not_mem_nil, or_false]
  omega

theorem redacted_unspaced : ∀ c ∈ redacted, isSpaceCode c = false := by
  rw [redacted_eq]
  decide

theorem unspaced_before_at {path : List Nat} (h : ∀ c ∈ path, isSpaceCode c = false) : ∀ c ∈ path ++ [64], isSpaceCode c = false := by
  intro c hc
  rcases List.mem_append.mp hc with hc | hc
  · exact h c hc
  · rw [List.mem_singleton.mp hc]
    decide

/-- The symbols of a token header's key, without white space, are a value's. -/
theorem tokenHeader_key_body {key : List Nat} (hkey : tokenHeader.key key) (hgap : ∀ c ∈ key, tokenHeader.gap c = false) :
    ∀ c ∈ key, tokenHeader.body c = true := by
  intro c hc
  have hspace : isSpaceCode c = false := hgap c hc
  have hsymbol := IsHeaderStart.mem tokenHeaderNames_plain hkey c hc
  show (!isSpaceCode c && !among ",;" c) = true
  rw [isFoldedLetter_iff, hspace] at hsymbol
  simp only [Bool.false_eq_true, or_false] at hsymbol
  rw [hspace, Bool.not_false, Bool.true_and, Bool.not_eq_true', Bool.eq_false_iff, ne_eq, among_iff, show points ",;" = [44, 59] from rfl]
  simp only [List.mem_cons, List.not_mem_nil, or_false]
  omega

/-- White space that a pass over a way does not show was not there. -/
theorem unspaced_of_scan {Q : Pattern Nat} (hP : Q.Lawful redacted) (hgap : ∀ c, isSpaceCode c = false → Q.gap c = false)
    (hbody : ∀ c, Q.body c = true → isSpaceCode c = false) {input out : List Nat} (h : Scan Q redacted none input out)
    (hout : ∀ c ∈ out, isSpaceCode c = false) : ∀ c ∈ input, isSpaceCode c = false := by
  intro c hc
  obtain ⟨a, b, rfl⟩ := List.append_of_mem hc
  rcases h.shows hP (fun d hd => hgap d (hout d hd)) rfl with ⟨x, y, rfl, -⟩ | ⟨-, hvalue⟩
  · exact hout c (by simp)
  · exact hbody c hvalue

/-- A way is open if the headers' passes show userinfo and the at-sign. -/
theorem open_of_scans {path path' userinfo : List Nat} (huserinfo : ∀ c ∈ userinfo, isUserinfo c = true)
    (hauthorization : Scan authorizationHeader redacted none (path ++ [64]) (path' ++ [64]))
    (htoken : Scan tokenHeader redacted none (path' ++ [64]) (userinfo ++ [64])) : path = path' ∧ OpenWay path := by
  have hshown := unspaced_before_at fun c hc => (isUserinfo_word (huserinfo c hc)).1
  have hspaces := unspaced_of_scan tokenHeader_lawful (fun c hc => hc) (fun c => tokenHeader_unspaced) htoken hshown
  have hsame : path ++ [64] = path' ++ [64] := hauthorization.eq_of_body authorizationHeader_lawful authorizationHeader_later.at_sign rfl
    fun c hc => authorizationHeader_body (hspaces c hc)
  obtain rfl := List.append_cancel_right hsame
  have hpath : ∀ c ∈ path, isSpaceCode c = false := fun c hc => hspaces c (List.mem_append_left _ hc)
  refine ⟨rfl, ⟨fun a c b hparts => ?_, ?_, ?_⟩⟩
  · rcases htoken.shows tokenHeader_lawful hshown (show path ++ [64] = a ++ c :: (b ++ [64]) by rw [hparts]; simp) with
      ⟨x, y, hout, hy⟩ | hheld
    · -- it comes before the at-sign
      left
      refine huserinfo c ?_
      have hne : y ≠ [] := fun hnil => absurd (hy hnil) (by simp)
      obtain ⟨y', hy', -⟩ := tail_of_mark (show userinfo ++ [64] = (x ++ [c]) ++ y by rw [hout]; simp) hne
      rw [hy'] at hout
      have hfirst : userinfo ++ [64] = (x ++ c :: y') ++ [64] := by
        rw [hout]
        simp
      rw [List.append_cancel_right hfirst]
      simp
    · exact .inr hheld
  · exact htoken.not_held tokenHeader_lawful tokenHeader_later.anywhere tokenHeader_later.at_sign (by decide)
      (fun key hkey => tokenHeader_key_body hkey) rfl rfl hpath
  · exact hauthorization.not_held authorizationHeader_lawful authorizationHeader_later.anywhere authorizationHeader_later.at_sign
      (by decide) (fun key _ hgap c hc => authorizationHeader_body (hgap c hc)) rfl rfl hpath

theorem OpenWay.unspaced {path : List Nat} (h : OpenWay path) : ∀ c ∈ path, isSpaceCode c = false := by
  intro c hc
  obtain ⟨a, b, hparts⟩ := List.append_of_mem hc
  rcases h.symbols a c b hparts with hc | ⟨-, hc⟩
  · exact (isUserinfo_word hc).1
  · exact tokenHeader_unspaced hc

/-- The pass for authorization headers leaves an open way as it is. -/
theorem OpenWay.authorization_kept {path out : List Nat} (h : OpenWay path) (hscan : Scan authorizationHeader redacted none (path ++ [64]) out) :
    out = path ++ [64] := by
  rcases hscan.separator_or_held authorizationHeader_lawful authorizationHeader_later.at_sign rfl h.unspaced with
    ⟨shown, hshown⟩ | hheld
  · refine (hscan.eq_of_body authorizationHeader_lawful authorizationHeader_later.at_sign hshown fun c hc => ?_).symm
    refine authorizationHeader_body ?_
    rcases hscan.mem c hc with hin | hmask
    · exact unspaced_before_at h.unspaced c hin
    · exact redacted_unspaced c hmask
  · exact absurd hheld h.authorization

/-- The pass for token headers makes userinfo of an open way. -/
theorem OpenWay.token_shown {path out : List Nat} (h : OpenWay path) (hscan : Scan tokenHeader redacted none (path ++ [64]) out) :
    ∃ userinfo, out = userinfo ++ [64] ∧ ∀ c ∈ userinfo, isUserinfo c = true := by
  rcases hscan.separator_or_held tokenHeader_lawful tokenHeader_later.at_sign rfl h.unspaced with ⟨userinfo, hout⟩ | hheld
  · refine ⟨userinfo, hout, fun c hc => ?_⟩
    have hspace : isSpaceCode c = false := by
      rcases hscan.mem c (by rw [hout]; exact List.mem_append_left _ hc) with hin | hmask
      · exact unspaced_before_at h.unspaced c hin
      · exact redacted_unspaced c hmask
    -- a slash or an at-sign would come through
    have hno : ∀ z, tokenHeader.Separator redacted z → tokenHeader.body z = true → isUserinfo z = false → c ≠ z := by
      intro z hz hbody hnot hcz
      subst hcz
      obtain ⟨x, y, hparts⟩ := List.append_of_mem hc
      obtain ⟨before, rest, hinput, hcut, hlater⟩ := hscan.split_at tokenHeader_later.anywhere hz
        (show out = x ++ c :: (y ++ [64]) by rw [hout, hparts]; simp)
      have hne : rest ≠ [] := by
        intro hnil
        subst hnil
        exact absurd (hlater.of_nil tokenHeader_lawful) (by simp)
      obtain ⟨rest', rfl, hpath⟩ := tail_of_mark (show path ++ [64] = (before ++ [c]) ++ rest by rw [hinput]; simp) hne
      rcases h.symbols before c rest' (by rw [hpath]; simp) with huserinfo | ⟨hheld, -⟩
      · rw [hnot] at huserinfo
        cases huserinfo
      · refine hcut.not_held tokenHeader_lawful tokenHeader_later.anywhere hz hbody (fun key hkey => tokenHeader_key_body hkey) rfl rfl
          (fun d hd => h.unspaced d ?_) hheld
        rw [hpath]
        simp [hd]
    rw [isUserinfo_iff]
    exact ⟨hspace, hno 47 tokenHeader_later.slash (by decide) (by decide), hno 64 tokenHeader_later.at_sign (by decide) (by decide)⟩
  · exact absurd hheld h.token

/-! ## The passes together -/

/-- The authority of a way without a slash is masked, or there is none. -/
theorem authority_masked {veiled before key path rest : List Nat} (h : Masked urlCredentials redacted none veiled)
    (hveiled : veiled = before ++ (key ++ (path ++ 64 :: rest))) (hkey : IsUrlStart key)
    (hboundary : (ends none before).any isWordFolded = false) (hspaces : ∀ c ∈ path, isSpaceCode c = false) (hslash : 47 ∉ path) :
    ∃ authority more, path ++ [64] = authority ++ 64 :: more ∧ (authority = [] ∨ authority = redacted) := by
  obtain ⟨authority, after, hparts, hauthority, hstops⟩ := exists_run isUserinfo (path ++ [64])
  cases after with
  | nil =>
    rw [List.append_nil] at hparts
    have hat := hauthority 64 (by rw [← hparts]; simp)
    exact absurd hat (by decide)
  | cons c more =>
    have hmem : c ∈ path ++ [64] := by
      rw [hparts]
      simp
    have hat : c = 64 := by
      have hc : isUserinfo c = false := hstops c rfl
      rw [Bool.eq_false_iff, ne_eq, isUserinfo_iff] at hc
      by_contra hne
      rcases List.mem_append.mp hmem with hin | hin
      · exact hc ⟨hspaces c hin, fun heq => hslash (heq ▸ hin), hne⟩
      · exact hne (List.mem_singleton.mp hin)
    subst hat
    refine ⟨authority, more, hparts, ?_⟩
    cases hnil : authority with
    | nil => exact .inl rfl
    | cons d tail =>
      right
      rw [← hnil]
      refine h before key [] authority (64 :: (more ++ rest)) ?_ ?_
      · have hwhole : path ++ 64 :: rest = (path ++ [64]) ++ rest := by simp
        rw [hveiled, hwhole, hparts]
        simp
      · exact ⟨hboundary, hkey, by simp, fun _ _ => rfl, hauthority, stops_cons.mpr (by decide),
          by rw [hnil]; exact Nat.succ_le_succ (Nat.zero_le _), rfl⟩

/-- Where a slash was masked on the way, a key shows. -/
theorem slash_shows {path shown userinfo : List Nat} (hquery : Scan sensitiveQuery redacted none (path ++ [64]) (shown ++ [64]))
    (htoken : Scan tokenHeader redacted none (shown ++ [64]) (userinfo ++ [64])) (hslash : 47 ∈ path) :
    userinfo ≠ [] ∧ userinfo ≠ redacted := by
  have hplain : (∀ c ∈ userinfo, c ∈ redacted) → False := by
    intro hmask
    have hmem : ∀ c ∈ userinfo ++ [64], c ∈ redacted ++ [64] := by
      intro c hc
      rcases List.mem_append.mp hc with hc | hc
      · exact List.mem_append_left _ (hmask c hc)
      · exact List.mem_append_right _ hc
    have hkeyless : ∀ z, z ∉ redacted ++ [64] → z ∉ userinfo ++ [64] := fun z hz hc => hz (hmem z hc)
    have hshown : shown ++ [64] = userinfo ++ [64] := htoken.eq_of_keyless fun key hkey => by
      obtain ⟨c, a, hsymbols, -⟩ := IsHeaderStart.symbols tokenHeaderNames_plain hkey
      exact ⟨58, by rw [hsymbols]; simp, hkeyless 58 (by rw [redacted_eq]; decide)⟩
    rw [hshown] at hquery
    have hpath : path ++ [64] = userinfo ++ [64] := hquery.eq_of_keyless fun key hkey => by
      obtain ⟨a, hsymbols, -⟩ := IsQueryStart.symbols hkey
      exact ⟨61, by rw [hsymbols]; simp, hkeyless 61 (by rw [redacted_eq]; decide)⟩
    rw [List.append_cancel_right hpath] at hslash
    exact not_mem_redacted (.inl rfl) (hmask 47 hslash)
  constructor
  · intro hnil
    exact hplain fun c hc => by
      rw [hnil] at hc
      cases hc
  · intro hmask
    exact hplain fun c hc => hmask ▸ hc

section Passes

variable {m m₁ m₂ m₃ m₄ : List Nat}

/-- A userinfo that the passes leave unmasked was exposed, and they took a slash away. -/
theorem exposed_of_unmasked (hurl : Scan urlCredentials redacted none m m₁) (hquery : Scan sensitiveQuery redacted none m₁ m₂)
    (hauthorization : Scan authorizationHeader redacted none m₂ m₃) (htoken : Scan tokenHeader redacted none m₃ m₄)
    (h : ¬Masked urlCredentials redacted none m₄) : Exposed m ∧ m₄.count 47 < m.count 47 := by
  simp only [Masked, not_forall] at h
  obtain ⟨pre, key, gap, userinfo, rest, hout, hhit, hunmasked⟩ := h
  obtain rfl := urlCredentials_delimited.gap_nil hhit
  obtain ⟨tail, rfl⟩ : ∃ tail, rest = 64 :: tail := by
    have hnext : rest.head? = some 64 := hhit.next
    cases rest with
    | nil => cases hnext
    | cons d tail =>
      cases hnext
      exact ⟨tail, rfl⟩
  have huserinfo : ∀ c ∈ userinfo, isUserinfo c = true := hhit.value_run
  have hkey : IsUrlStart key := hhit.key
  -- the URL's start, the way and the rest in what each pass was given
  obtain ⟨before₃, path₃, rest₃, hm₃, htokenParts⟩ := tokenHeader_later.parts hkey htoken hout
  obtain ⟨before₂, path₂, rest₂, hm₂, hauthorizationParts⟩ := authorizationHeader_later.parts hkey hauthorization hm₃
  obtain ⟨before, path, rest, hm₁, hqueryParts⟩ := sensitiveQuery_later.parts hkey hquery hm₂
  have hboundary : (ends none before).any isWordFolded = false := by
    rw [hqueryParts.same_end sensitiveQuery_later hkey, hauthorizationParts.same_end authorizationHeader_later hkey,
      htokenParts.same_end tokenHeader_later hkey]
    exact hhit.boundary
  obtain ⟨rfl, hopen⟩ := open_of_scans huserinfo hauthorizationParts.way htokenParts.way
  have hslash : 47 ∈ path := by
    by_contra hslash
    have hspaces := unspaced_of_scan sensitiveQuery_lawful (fun _ _ => rfl) (fun c => sensitiveQuery_unspaced) hqueryParts.way
      (unspaced_before_at hopen.unspaced)
    obtain ⟨authority, more, hparts, hauthority⟩ := authority_masked (hurl.masked urlCredentials_lawful) hm₁ hkey hboundary
      (fun c hc => hspaces c (List.mem_append_left _ hc)) hslash
    rcases hauthority with rfl | rfl
    · -- the at-sign comes first, and still does
      have hhead := ((htokenParts.way.head tokenHeader_lawful).trans (hqueryParts.way.head sensitiveQuery_lawful)).trans
        (congrArg List.head? hparts)
      cases huser : userinfo with
      | nil =>
        have hleast : 1 ≤ userinfo.length := hhit.least
        rw [huser] at hleast
        exact absurd hleast (by decide)
      | cons c more =>
        rw [huser] at hhead huserinfo
        cases hhead
        exact absurd (huserinfo 64 List.mem_cons_self) (by decide)
    · -- the mask comes first, and still does
      obtain ⟨more₂, hmore₂⟩ := sensitiveQuery_later.mask_kept hqueryParts.way hparts
      obtain ⟨more₄, hmore₄⟩ := tokenHeader_later.mask_kept htokenParts.way hmore₂
      exact hunmasked (runs_agree hmore₄ huserinfo (stops_cons.mpr (by decide)) urlCredentials_lawful.mask_body
        (stops_cons.mpr (by decide))).1
  refine ⟨⟨m₁, before, key, path, path₂, rest, hurl, hm₁, hkey, hboundary,
    ⟨_, _, _, hqueryParts.start, hauthorizationParts.start, htokenParts.start⟩, hslash, hqueryParts.way, hopen⟩, ?_⟩
  -- the slashes, part by part
  have hmask : 47 ∉ redacted := not_mem_redacted (.inl rfl)
  have hveiled := hurl.count_le hmask
  have hstart := Nat.le_trans (Nat.le_trans (htokenParts.start.count_le hmask) (hauthorizationParts.start.count_le hmask))
    (hqueryParts.start.count_le hmask)
  have hlater := Nat.le_trans (Nat.le_trans (htokenParts.later.count_le hmask) (hauthorizationParts.later.count_le hmask))
    (hqueryParts.later.count_le hmask)
  have hnone : userinfo.count 47 = 0 := List.count_eq_zero_of_not_mem fun hmem => absurd (huserinfo 47 hmem) (by decide)
  have hsome : 0 < path.count 47 := List.count_pos_iff.mpr hslash
  rw [hm₁] at hveiled
  rw [hout]
  simp only [List.count_append, List.count_cons, List.nil_append] at hveiled hstart ⊢
  omega

/-- Where a text was exposed the passes leave a userinfo unmasked. -/
theorem Exposed.unmasked (h : Exposed m) (hurl : Scan urlCredentials redacted none m m₁)
    (hquery : Scan sensitiveQuery redacted none m₁ m₂) (hauthorization : Scan authorizationHeader redacted none m₂ m₃)
    (htoken : Scan tokenHeader redacted none m₃ m₄) : ¬Masked urlCredentials redacted none m₄ := by
  obtain ⟨veiled, before, key, path, shown, rest, hveiled, rfl, hkey, hboundary, ⟨before₂, before₃, before₄, hquery₀, hauthorization₀,
    htoken₀⟩, hslash, hway, hopen⟩ := h
  obtain rfl := hurl.deterministic urlCredentials_lawful hveiled
  -- the parameters
  have hqueryParts : Parts sensitiveQuery key before path rest before₂ shown _ := ⟨hquery₀, hway, redactQuery_scan rest⟩
  obtain rfl := hquery.deterministic sensitiveQuery_lawful (hqueryParts.scan sensitiveQuery_later hkey)
  generalize redact SENSITIVE_QUERY_VALUE "<redacted>" rest = rest₂ at *
  -- the authorization headers
  have hkept := redactAuthorization_scan (shown ++ [64])
  rw [hopen.authorization_kept hkept] at hkept
  have hauthorizationParts : Parts authorizationHeader key before₂ shown rest₂ before₃ shown _ :=
    ⟨hauthorization₀, hkept, redactAuthorization_scan rest₂⟩
  obtain rfl := hauthorization.deterministic authorizationHeader_lawful (hauthorizationParts.scan authorizationHeader_later hkey)
  generalize redact AUTHORIZATION_HEADER "<redacted>" rest₂ = rest₃ at *
  -- the token headers
  have hopened := redactToken_scan (shown ++ [64])
  obtain ⟨userinfo, hout, huserinfo⟩ := hopen.token_shown hopened
  rw [hout] at hopened
  have htokenParts : Parts tokenHeader key before₃ shown rest₃ before₄ userinfo _ := ⟨htoken₀, hopened, redactToken_scan rest₃⟩
  obtain rfl := htoken.deterministic tokenHeader_lawful (htokenParts.scan tokenHeader_later hkey)
  have hshown := slash_shows hway hopened hslash
  intro hmasked
  refine hshown.2 (hmasked before₄ key [] userinfo (64 :: redact TOKEN_HEADER "<redacted>" rest₃) rfl ?_)
  refine ⟨?_, hkey, by simp, fun _ _ => rfl, huserinfo, stops_cons.mpr (by decide), List.length_pos_iff.mpr hshown.1, rfl⟩
  rw [hqueryParts.same_end sensitiveQuery_later hkey, hauthorizationParts.same_end authorizationHeader_later hkey,
    htokenParts.same_end tokenHeader_later hkey] at hboundary
  exact hboundary

end Passes

end GitCommitsPush.Publication
