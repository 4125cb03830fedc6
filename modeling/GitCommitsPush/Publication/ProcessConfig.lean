/-
  GitCommitsPush.Publication.ProcessConfig — configuration for one Git process
  (`appendProcessConfig` of `git/git-exec.ts`, the entries of `resolveSinglePushEndpoint`).

  Git reads `GIT_CONFIG_PARAMETERS` as quoted words (`readWords`), each a key and a value. The
  entries of an endpoint name a remote by an alias that one rewrite rule, the longest that
  fits, replaces by the push URL. `pinned_config_reads_back`: the entries are read as they
  were given, after the ambient ones, and the alias leads to the push URL and nowhere else.
-/

import GitCommitsPush.Lib.QuotedWords
import GitCommitsPush.Publication.ObjectId
import GitCommitsPush.Publication.Push

namespace GitCommitsPush.Publication

open GitCommitsPush.Lib.Effect
open GitCommitsPush.Lib.JsText
open GitCommitsPush.Lib.QuotedWords

/-! ## `git-exec.ts` -/

/-- The environment of a process. -/
abbrev ProcessEnv := String → Option String

def quoteGitConfigParameter (entry : String × String) : String :=
  String.ofList (quoteWord (entry.1 ++ "=" ++ entry.2).toList)

def appendProcessConfig (environment : ProcessEnv) (entries : List (String × String)) : ProcessEnv :=
  if entries = [] then environment
  else
    let ambientParameters := trimString ((environment "GIT_CONFIG_PARAMETERS").getD "")
    let appendedParameters := joinStrings " " (entries.map quoteGitConfigParameter)
    fun name =>
      if name = "GIT_CONFIG_PARAMETERS" then
        some (if ambientParameters ≠ "" then ambientParameters ++ " " ++ appendedParameters else appendedParameters)
      else environment name

/-! ## Git -/

/-- An entry of the configuration; one without an equals sign has no value. -/
structure ConfigEntry where
  key : String
  value : Option String
  deriving DecidableEq, Repr

/-- A word, split at its first equals sign. -/
def splitEntry (word : List Char) : ConfigEntry :=
  ⟨String.ofList (word.takeWhile (· != '=')),
    if '=' ∈ word then some (String.ofList (word.dropWhile (· != '=')).tail) else none⟩

/-- The entries Git reads from its environment; nothing is a text it refuses. -/
def decodeParameters (environment : ProcessEnv) : Option (List ConfigEntry) :=
  match environment "GIT_CONFIG_PARAMETERS" with
  | none => some []
  | some text => (readWords text.toList).map (·.map splitEntry)

/-- The subsection of a key; the section and the variable are named in any case. -/
def subsection (sectionName variableName key : String) : Option String :=
  let before := sectionName.toList ++ ['.']
  let after := '.' :: variableName.toList
  let chars := key.toList
  if before.length + after.length ≤ chars.length ∧ (chars.take before.length).map Char.toLower = before ∧
      (chars.drop (chars.length - after.length)).map Char.toLower = after
  then some (String.ofList ((chars.drop before.length).take (chars.length - before.length - after.length)))
  else none

/-- The rules `url.<base>.insteadOf = <start>`, in order. -/
def insteadOfRules (config : List ConfigEntry) : List (String × String) :=
  config.filterMap fun entry => match subsection "url" "insteadof" entry.key, entry.value with
    | some base, some start => some (base, start)
    | _, _ => none

/-- The rule with the longest start of the URL, the first of those as long. -/
def longestRule (rules : List (String × String)) (url : String) : Option (String × String) :=
  rules.foldl (fun best rule =>
    if startsWith url rule.2 && best.all (fun other => other.2.toList.length < rule.2.toList.length) then some rule else best)
    none

/-- The URL after one rewrite. -/
def aliasUrl (rules : List (String × String)) (url : String) : String :=
  match longestRule rules url with
  | some (base, start) => base ++ String.ofList (url.toList.drop start.toList.length)
  | none => url

/-- What the variable of a remote holds. -/
def remoteValues (config : List ConfigEntry) (remote name : String) : List String :=
  config.filterMap fun entry => if subsection "remote" name entry.key = some remote then entry.value else none

/-- Where the remote is read from and where it is pushed to. -/
def remoteUrls (config : List ConfigEntry) (remote : String) : List String × List String :=
  ((remoteValues config remote "url").map (aliasUrl (insteadOfRules config)),
    (remoteValues config remote "pushurl").map (aliasUrl (insteadOfRules config)))

/-! ## Entries read back -/

theorem splitEntry_entry {key value : String} (hkey : '=' ∉ key.toList) :
    splitEntry (key ++ "=" ++ value).toList = ⟨key, some value⟩ := by
  have hchars : (key ++ "=" ++ value).toList = key.toList ++ '=' :: value.toList := by
    rw [String.toList_append, String.toList_append, List.append_assoc]
    rfl
  have hbefore : ∀ c ∈ key.toList, (c != '=') = true := fun c hc => bne_iff_ne.mpr fun heq : c = '=' => hkey (heq ▸ hc)
  unfold splitEntry
  rw [hchars, List.takeWhile_append_of_pos hbefore, List.dropWhile_append_of_pos hbefore, if_pos (by simp),
    List.takeWhile_cons_of_neg (by decide), List.dropWhile_cons_of_neg (by decide), List.append_nil]
  simp

/-- The entries given are read after the ambient ones, as they were given. -/
theorem decode_append {environment : ProcessEnv} {ambient : List ConfigEntry}
    (hambient : decodeParameters environment = some ambient) {entries : List (String × String)}
    (hkeys : ∀ entry ∈ entries, '=' ∉ entry.1.toList) :
    decodeParameters (appendProcessConfig environment entries) =
      some (ambient ++ entries.map fun entry => ⟨entry.1, some entry.2⟩) := by
  by_cases hnil : entries = []
  · unfold appendProcessConfig
    rw [if_pos hnil, hambient, hnil, List.map_nil, List.append_nil]
  have hquoted : (joinStrings " " (entries.map quoteGitConfigParameter)).toList =
      joinWith [' '] ((entries.map fun entry => (entry.1 ++ "=" ++ entry.2).toList).map quoteWord) := by
    unfold joinStrings
    rw [String.toList_ofList, List.map_map, List.map_map]
    refine congrArg (joinWith [' ']) (List.map_congr_left fun entry _ => ?_)
    exact String.toList_ofList
  have hsplit : (entries.map fun entry => (entry.1 ++ "=" ++ entry.2).toList).map splitEntry =
      entries.map fun entry => ⟨entry.1, some entry.2⟩ := by
    rw [List.map_map]
    exact List.map_congr_left fun entry hentry => splitEntry_entry (hkeys entry hentry)
  have hne : (entries.map fun entry => (entry.1 ++ "=" ++ entry.2).toList) ≠ [] := by simpa using hnil
  obtain ⟨words, hwords, hread⟩ : ∃ words, words.map splitEntry = ambient ∧
      readWords (trimString ((environment "GIT_CONFIG_PARAMETERS").getD "")).toList = some words := by
    unfold decodeParameters at hambient
    cases htext : environment "GIT_CONFIG_PARAMETERS" with
    | none =>
      rw [htext] at hambient
      cases hambient
      exact ⟨[], rfl, rfl⟩
    | some text =>
      rw [htext] at hambient
      obtain ⟨words, hread, hwords⟩ := Option.map_eq_some_iff.mp hambient
      refine ⟨words, hwords, ?_⟩
      rw [Option.getD_some, trimString, String.toList_ofList]
      exact readWords_trim hread
  unfold appendProcessConfig decodeParameters
  rw [if_neg hnil, if_pos rfl]
  by_cases hempty : trimString ((environment "GIT_CONFIG_PARAMETERS").getD "") = ""
  · rw [hempty] at hread
    cases hread
    have hjoined := readFrom_join [] hne
    rw [if_neg (fun h => h hempty)]
    dsimp only
    rw [hquoted, readWords, hjoined, List.nil_append, Option.map_some, hsplit, ← hwords]
    rfl
  · rw [if_pos hempty]
    dsimp only
    have happend := readWords_append hread hne
    rw [String.toList_append, String.toList_append, hquoted, List.append_assoc]
    rw [show " ".toList = [' '] from rfl, List.singleton_append, happend, Option.map_some, List.map_append, hwords, hsplit]

/-! ## Keys and rules -/

section Keys

variable {sectionName variableName : String}

theorem subsection_eq {before middle after : List Char} (hbefore : before.map Char.toLower = sectionName.toList ++ ['.'])
    (hafter : after.map Char.toLower = '.' :: variableName.toList) :
    subsection sectionName variableName (String.ofList (before ++ (middle ++ after))) = some (String.ofList middle) := by
  have hb : (sectionName.toList ++ ['.']).length = before.length := by rw [← hbefore, List.length_map]
  have ha : ('.' :: variableName.toList).length = after.length := by rw [← hafter, List.length_map]
  have hend : (before ++ (middle ++ after)).length - after.length = (before ++ middle).length := by
    simp only [List.length_append]
    omega
  have hmiddle : (before ++ (middle ++ after)).length - before.length - after.length = middle.length := by
    simp only [List.length_append]
    omega
  unfold subsection
  dsimp only
  rw [String.toList_ofList, hb, ha, hend, hmiddle, if_pos]
  · rw [List.drop_left, List.take_left]
  · refine ⟨by simp only [List.length_append]; omega, by rw [List.take_left, hbefore], ?_⟩
    rw [← List.append_assoc, List.drop_left, hafter]

/-- The end of a key is the end of the name that it has. -/
theorem subsection_other_variable {rest last : List Char} (hlength : last.length ≤ variableName.toList.length + 1)
    (h : ¬last.map Char.toLower <:+ '.' :: variableName.toList) :
    subsection sectionName variableName (String.ofList (rest ++ last)) = none := by
  unfold subsection
  dsimp only
  rw [if_neg]
  intro hmatch
  have hend := hmatch.2.2
  have hdrop : (rest ++ last).length - ('.' :: variableName.toList).length ≤ rest.length := by
    rw [List.length_append, List.length_cons]
    omega
  rw [String.toList_ofList, List.drop_append_of_le_length hdrop, List.map_append] at hend
  exact h ⟨_, hend⟩

/-- A subsection is part of its key. -/
theorem subsection_infix {key middle : String} (h : subsection sectionName variableName key = some middle) :
    middle.toList <:+: key.toList := by
  unfold subsection at h
  dsimp only at h
  split at h
  · cases h
    rw [String.toList_ofList]
    exact (List.take_prefix _ _).isInfix.trans (List.drop_suffix _ _).isInfix
  · cases h

end Keys

/-- The rule whose start is the whole URL is the longest, if no other has that start. -/
theorem longestRule_whole {rules : List (String × String)} {base url : String} (h : ∀ rule ∈ rules, rule.2 ≠ url) :
    longestRule (rules ++ [(base, url)]) url = some (base, url) := by
  have hshort : ∀ (rules : List (String × String)) (best : Option (String × String)), (∀ rule ∈ rules, rule.2 ≠ url) →
      (∀ rule ∈ best, rule.2.toList.length < url.toList.length) →
      ∀ rule ∈ rules.foldl (fun best rule => if startsWith url rule.2 &&
          best.all (fun other => other.2.toList.length < rule.2.toList.length) then some rule else best) best,
        rule.2.toList.length < url.toList.length := by
    intro rules
    induction rules with
    | nil => exact fun best _ hbest => hbest
    | cons rule rules ih =>
      intro best hrules hbest
      rw [List.foldl_cons]
      refine ih _ (fun other hother => hrules other (List.mem_cons_of_mem rule hother)) ?_
      split
      · rename_i hchosen
        intro chosen hsome
        cases hsome
        have hstarts : rule.2.toList <+: url.toList :=
          List.isPrefixOf_iff_prefix.mp (Bool.and_eq_true_iff.mp hchosen).1
        have hdifferent : rule.2.toList.length ≠ url.toList.length := fun hlength =>
          hrules rule List.mem_cons_self (String.toList_inj.mp (hstarts.eq_of_length hlength))
        have hle := hstarts.length_le
        omega
      · exact hbest
  unfold longestRule
  rw [List.foldl_append, List.foldl_cons, List.foldl_nil, if_pos]
  rw [Bool.and_eq_true_iff]
  constructor
  · exact List.isPrefixOf_iff_prefix.mpr (List.prefix_refl _)
  · rw [Option.all_eq_true]
    intro best hbest
    have hlt := hshort rules none h (fun rule hrule => (by cases hrule)) best hbest
    exact decide_eq_true hlt

/-! ## The pinned endpoint -/

/-- What `randomUUID` returns: 36 hexadecimal digits and hyphens. -/
structure IsUuid (id : String) : Prop where
  length : id.toList.length = 36
  chars : ∀ c ∈ id.toList, isHexChar c = true ∨ c = '-'

/-- The entry does not speak of the id, which is new. -/
structure Unrelated (id : String) (entry : ConfigEntry) : Prop where
  key : ¬id.toList <:+: entry.key.toList
  value : ∀ value ∈ entry.value, ¬id.toList <:+: value.toList

/-- The remote has this one push URL. -/
def HasPushUrl {σ : Type} (host : Host σ) (repoPath remote : String) (s : σ) (pushUrl : String) : Prop :=
  ∃ out t, (host.gitExecArgs ["remote", "get-url", "--push", "--all", "--", remote] repoPath).run s = (.ok out, t) ∧
    splitNonemptyLines out = [pushUrl]

/-- The endpoint's remote is named by the id, its entries can be written, and beside any
    configuration that does not speak of the id they make that remote lead to the push URL and
    nowhere else. -/
structure PinnedTo (endpoint : ResolvedPushEndpoint) (pushUrl id : String) : Prop where
  named : endpoint.ephemeralRemote = "gcp-endpoint-" ++ id
  entries : ∀ entry ∈ endpoint.processConfig, '=' ∉ entry.1.toList ∧ '\x00' ∉ entry.1.toList ∧ '\x00' ∉ entry.2.toList
  resolves : ∀ environment ambient others, decodeParameters environment = some ambient →
    (∀ entry ∈ others ++ ambient, Unrelated id entry) →
    ∃ decoded, decodeParameters (appendProcessConfig environment endpoint.processConfig) = some decoded ∧
      remoteUrls (others ++ decoded) endpoint.ephemeralRemote = ([pushUrl], [pushUrl])

section Endpoint

variable {σ : Type} {host : Host σ} {repoPath remote : String} {s s' : σ} {endpoint : ResolvedPushEndpoint}

def endpointEntries (pushUrl id : String) : List (String × String) :=
  [("remote." ++ ("gcp-endpoint-" ++ id) ++ ".url", "gcp-pinned-" ++ id ++ "://endpoint"),
    ("remote." ++ ("gcp-endpoint-" ++ id) ++ ".pushurl", "gcp-pinned-" ++ id ++ "://endpoint"),
    ("url." ++ pushUrl ++ ".insteadOf", "gcp-pinned-" ++ id ++ "://endpoint")]

theorem resolve_entries (h : (resolveSinglePushEndpoint host repoPath remote).run s = (.ok endpoint, s')) :
    ∃ pushUrl id t t', HasPushUrl host repoPath remote s pushUrl ∧ cannotBePinned pushUrl = false ∧
      host.randomUUID.run t = (.ok id, t') ∧ endpoint.ephemeralRemote = "gcp-endpoint-" ++ id ∧
      endpoint.processConfig = endpointEntries pushUrl id := by
  unfold resolveSinglePushEndpoint at h
  obtain ⟨out, t, hout, h⟩ := Action.run_bind_eq_ok h
  dsimp only at h
  split at h
  · rename_i pushUrl hurls
    by_cases hpin : cannotBePinned pushUrl = true
    · rw [if_pos hpin] at h
      cases h
    · rw [if_neg hpin] at h
      obtain ⟨rewrites, t1, _, h⟩ := Action.run_bind_eq_ok h
      obtain ⟨id, t2, hid, h⟩ := Action.run_bind_eq_ok h
      rw [Action.run_pure, Prod.mk.injEq, Except.ok.injEq] at h
      obtain ⟨rfl, rfl⟩ := h
      exact ⟨pushUrl, id, t1, t2, ⟨out, t, hout, hurls⟩, Bool.eq_false_iff.mpr hpin, hid, rfl, rfl⟩
  · cases h

theorem endpoint_keys (pushUrl id : String) :
    "remote." ++ ("gcp-endpoint-" ++ id) ++ ".url" =
        String.ofList ("remote.".toList ++ (("gcp-endpoint-" ++ id).toList ++ ".url".toList)) ∧
      "remote." ++ ("gcp-endpoint-" ++ id) ++ ".pushurl" =
        String.ofList ("remote.".toList ++ (("gcp-endpoint-" ++ id).toList ++ ".pushurl".toList)) ∧
      "url." ++ pushUrl ++ ".insteadOf" =
        String.ofList ("url.".toList ++ (pushUrl.toList ++ ".insteadOf".toList)) := by
  refine ⟨?_, ?_, ?_⟩
  · apply String.toList_inj.mp
    simp [String.toList_append]
  · apply String.toList_inj.mp
    simp [String.toList_append]
  · apply String.toList_inj.mp
    simp [String.toList_append]

/-- What each entry says of the remote and of the rules. -/
theorem endpoint_subsections (pushUrl id : String) :
    subsection "remote" "url" ("remote." ++ ("gcp-endpoint-" ++ id) ++ ".url") = some ("gcp-endpoint-" ++ id) ∧
    subsection "remote" "url" ("remote." ++ ("gcp-endpoint-" ++ id) ++ ".pushurl") = none ∧
    subsection "remote" "url" ("url." ++ pushUrl ++ ".insteadOf") = none ∧
    subsection "remote" "pushurl" ("remote." ++ ("gcp-endpoint-" ++ id) ++ ".url") = none ∧
    subsection "remote" "pushurl" ("remote." ++ ("gcp-endpoint-" ++ id) ++ ".pushurl") = some ("gcp-endpoint-" ++ id) ∧
    subsection "remote" "pushurl" ("url." ++ pushUrl ++ ".insteadOf") = none ∧
    subsection "url" "insteadof" ("remote." ++ ("gcp-endpoint-" ++ id) ++ ".url") = none ∧
    subsection "url" "insteadof" ("remote." ++ ("gcp-endpoint-" ++ id) ++ ".pushurl") = none ∧
    subsection "url" "insteadof" ("url." ++ pushUrl ++ ".insteadOf") = some pushUrl := by
  obtain ⟨hurl, hpush, hrule⟩ := endpoint_keys pushUrl id
  have hname : String.ofList ("gcp-endpoint-" ++ id).toList = "gcp-endpoint-" ++ id := String.ofList_toList
  rw [hurl, hpush, hrule]
  have hrule' : String.ofList ("url.".toList ++ (pushUrl.toList ++ ".insteadOf".toList)) =
      String.ofList (("url.".toList ++ (pushUrl.toList ++ ".insteadO".toList)) ++ ['f']) := by simp
  have hurl' : String.ofList ("remote.".toList ++ (("gcp-endpoint-" ++ id).toList ++ ".url".toList)) =
      String.ofList (("remote.".toList ++ ("gcp-endpoint-" ++ id).toList) ++ ".url".toList) := by simp
  have hpush' : String.ofList ("remote.".toList ++ (("gcp-endpoint-" ++ id).toList ++ ".pushurl".toList)) =
      String.ofList (("remote.".toList ++ (("gcp-endpoint-" ++ id).toList ++ ".pus".toList)) ++ "hurl".toList) := by simp
  refine ⟨?_, ?_, ?_, ?_, ?_, ?_, ?_, ?_, ?_⟩
  · rw [subsection_eq (by decide) (by decide), hname]
  · rw [hpush']
    exact subsection_other_variable (by decide) (by decide)
  · rw [hrule']
    exact subsection_other_variable (by decide) (by decide)
  · rw [hurl']
    exact subsection_other_variable (by decide) (by decide)
  · rw [subsection_eq (by decide) (by decide), hname]
  · rw [hrule']
    exact subsection_other_variable (by decide) (by decide)
  · rw [hurl']
    exact subsection_other_variable (by decide) (by decide)
  · rw [hpush']
    exact subsection_other_variable (by decide) (by decide)
  · rw [subsection_eq (by decide) (by decide), String.ofList_toList]

def pinnedAlias (id : String) : String := "gcp-pinned-" ++ id ++ "://endpoint"

/-- The entries as Git reads them. -/
def endpointConfig (pushUrl id : String) : List ConfigEntry :=
  (endpointEntries pushUrl id).map fun entry => ⟨entry.1, some entry.2⟩

theorem endpointConfig_values (pushUrl id : String) :
    remoteValues (endpointConfig pushUrl id) ("gcp-endpoint-" ++ id) "url" = [pinnedAlias id] ∧
      remoteValues (endpointConfig pushUrl id) ("gcp-endpoint-" ++ id) "pushurl" = [pinnedAlias id] ∧
      insteadOfRules (endpointConfig pushUrl id) = [(pushUrl, pinnedAlias id)] := by
  obtain ⟨h1, h2, h3, h4, h5, h6, h7, h8, h9⟩ := endpoint_subsections pushUrl id
  refine ⟨?_, ?_, ?_⟩
  · simp [remoteValues, endpointConfig, endpointEntries, pinnedAlias, h1, h2, h3]
  · simp [remoteValues, endpointConfig, endpointEntries, pinnedAlias, h4, h5, h6]
  · simp [insteadOfRules, endpointConfig, endpointEntries, pinnedAlias, h7, h8, h9]

/-- Entries that do not speak of the id say nothing of the remote. -/
theorem remoteValues_unrelated {id variableName : String} {config : List ConfigEntry}
    (h : ∀ entry ∈ config, Unrelated id entry) : remoteValues config ("gcp-endpoint-" ++ id) variableName = [] := by
  unfold remoteValues
  rw [List.filterMap_eq_nil_iff]
  intro entry hentry
  rw [if_neg]
  intro hsubsection
  have hinfix := subsection_infix hsubsection
  rw [String.toList_append] at hinfix
  exact (h entry hentry).key ((List.suffix_append _ _).isInfix.trans hinfix)

/-- Nor has a rule of them the alias for its start. -/
theorem insteadOfRules_unrelated {id : String} {config : List ConfigEntry} (h : ∀ entry ∈ config, Unrelated id entry) :
    ∀ rule ∈ insteadOfRules config, rule.2 ≠ pinnedAlias id := by
  intro rule hrule heq
  obtain ⟨entry, hentry, hmatch⟩ := List.mem_filterMap.mp hrule
  split at hmatch
  · rename_i base start _ hvalue
    cases hmatch
    have hinside : id.toList <:+: (pinnedAlias id).toList := by
      unfold pinnedAlias
      rw [String.toList_append, String.toList_append]
      exact ⟨_, _, rfl⟩
    have hstart : start = pinnedAlias id := heq
    exact (h entry hentry).value start hvalue (hstart ▸ hinside)
  · cases hmatch

theorem pinnedTo {pushUrl id : String} (hurl : cannotBePinned pushUrl = false) (hid : IsUuid id)
    (hremote : endpoint.ephemeralRemote = "gcp-endpoint-" ++ id) (hentries : endpoint.processConfig = endpointEntries pushUrl id) :
    PinnedTo endpoint pushUrl id := by
  have hidPlain : ∀ c, isHexChar c = false → c ≠ '-' → c ∉ id.toList := by
    intro c hhex hhyphen hmem
    rcases hid.chars c hmem with h | h
    · rw [hhex] at h
      cases h
    · exact hhyphen h
  have hurlPlain : '=' ∉ pushUrl.toList ∧ '\x00' ∉ pushUrl.toList := by
    unfold cannotBePinned at hurl
    rw [List.any_eq_false] at hurl
    exact ⟨fun hmem => hurl _ hmem (by decide), fun hmem => hurl _ hmem (by decide)⟩
  have hequals := hidPlain '=' (by decide) (by decide)
  have hnul := hidPlain '\x00' (by decide) (by decide)
  have hwritten : ∀ entry ∈ endpoint.processConfig,
      '=' ∉ entry.1.toList ∧ '\x00' ∉ entry.1.toList ∧ '\x00' ∉ entry.2.toList := by
    intro entry hentry
    rw [hentries] at hentry
    simp only [endpointEntries, List.mem_cons, List.not_mem_nil, or_false] at hentry
    rcases hentry with rfl | rfl | rfl
    · simp [String.toList_append, hequals, hnul]
    · simp [String.toList_append, hequals, hnul]
    · simp [String.toList_append, hurlPlain.1, hurlPlain.2, hnul]
  refine ⟨hremote, hwritten, fun environment ambient others hdecode hunrelated => ?_⟩
  refine ⟨_, decode_append hdecode fun entry hentry => (hwritten entry hentry).1, ?_⟩
  have hconfig : (endpoint.processConfig.map fun entry => (⟨entry.1, some entry.2⟩ : ConfigEntry)) =
      endpointConfig pushUrl id := by rw [hentries]; rfl
  obtain ⟨hvalues, hpushValues, hrules⟩ := endpointConfig_values pushUrl id
  have hresolved : aliasUrl (insteadOfRules (others ++ ambient ++ endpointConfig pushUrl id)) (pinnedAlias id) = pushUrl := by
    have hlongest := @longestRule_whole _ pushUrl _ (insteadOfRules_unrelated hunrelated)
    have happend : insteadOfRules (others ++ ambient ++ endpointConfig pushUrl id) =
        insteadOfRules (others ++ ambient) ++ [(pushUrl, pinnedAlias id)] := by
      rw [← hrules]
      exact List.filterMap_append
    unfold aliasUrl
    rw [happend, hlongest]
    dsimp only
    rw [List.drop_length, String.ofList_nil, String.append_empty]
  have hall : ∀ variableName, remoteValues (endpointConfig pushUrl id) ("gcp-endpoint-" ++ id) variableName = [pinnedAlias id] →
      remoteValues (others ++ ambient ++ endpointConfig pushUrl id) ("gcp-endpoint-" ++ id) variableName =
        [pinnedAlias id] := by
    intro variableName hown
    have hnone := @remoteValues_unrelated id variableName _ hunrelated
    unfold remoteValues at hnone hown ⊢
    rw [List.filterMap_append, hnone, hown]
    rfl
  unfold remoteUrls
  rw [hconfig, ← List.append_assoc, hremote, hall _ hvalues, hall _ hpushValues, List.map_singleton, hresolved]

end Endpoint

/-- What the environment holds is the ambient entries and the given ones; what an endpoint
    gives makes its remote, named by a new id, lead to the push URL it was resolved to, and
    nowhere else. -/
theorem pinned_config_reads_back {σ : Type} (host : Host σ)
    (huuid : ∀ s id s', host.randomUUID.run s = (.ok id, s') → IsUuid id) :
    (∀ environment ambient entries, decodeParameters environment = some ambient →
      (∀ entry ∈ entries, '=' ∉ entry.1.toList ∧ '\x00' ∉ entry.2.toList) →
      decodeParameters (appendProcessConfig environment entries) =
        some (ambient ++ entries.map fun entry => ⟨entry.1, some entry.2⟩)) ∧
    ∀ repoPath remote s endpoint s', (resolveSinglePushEndpoint host repoPath remote).run s = (.ok endpoint, s') →
      ∃ pushUrl id t t', HasPushUrl host repoPath remote s pushUrl ∧ host.randomUUID.run t = (.ok id, t') ∧ IsUuid id ∧
        PinnedTo endpoint pushUrl id := by
  refine ⟨fun environment ambient entries hambient hentries => ?_, fun repoPath remote s endpoint s' hrun => ?_⟩
  · exact decode_append hambient fun entry hentry => (hentries entry hentry).1
  · obtain ⟨pushUrl, id, t, t', hhas, hpin, hid, hremote, hconfig⟩ := resolve_entries hrun
    have huuid := huuid t id t' hid
    exact ⟨pushUrl, id, t, t', hhas, hid, huuid, pinnedTo hpin huuid hremote hconfig⟩

/-- A host of one remote, whose push URL has a quote and a space. -/
def quotedHost : Host Unit where
  sha256 text := text
  localeCompare _ _ := 0
  execSync _ _ := pure ""
  execFileGit _ args _ :=
    pure (if args = ["remote", "get-url", "--push", "--all", "--", "origin"] then "https://host/o'neil repo.git\n" else "")
  writeMessage _ message := pure message
  pathExists _ _ := pure true
  randomUUID := pure "0b8f1b2c-11d4-4c0e-9a57-3d2f6e8a9b10"
  runTestCascade _ := pure ()

theorem pinned_config_reads_back_quoted :
    decodeParameters (appendProcessConfig (fun name => if name = "GIT_CONFIG_PARAMETERS" then some " 'a.b=it'\\''s' " else none)
      [("user.name", "x = y")]) = some [⟨"a.b", some "it's"⟩, ⟨"user.name", some "x = y"⟩] ∧
    ∃ endpoint pushUrl, ((resolveSinglePushEndpoint quotedHost "/r" "origin").run ()).1 = .ok endpoint ∧
      HasPushUrl quotedHost "/r" "origin" () pushUrl ∧
      PinnedTo endpoint pushUrl "0b8f1b2c-11d4-4c0e-9a57-3d2f6e8a9b10" := by
  have huuid : ∀ s id s', quotedHost.randomUUID.run s = (.ok id, s') → IsUuid id := by
    intro s id s' h
    cases h
    have hall : "0b8f1b2c-11d4-4c0e-9a57-3d2f6e8a9b10".toList.all (fun c => isHexChar c || c == '-') = true := by
      decide
    refine ⟨by decide, fun c hc => ?_⟩
    simpa using List.all_eq_true.mp hall c hc
  have hread := pinned_config_reads_back quotedHost huuid
  constructor
  · exact hread.1 _ [⟨"a.b", some "it's"⟩] _ (by decide) (by decide)
  · obtain ⟨pushUrl, id, t, t', hhas, hid, -, hpinned⟩ := hread.2 "/r" "origin" () _ () rfl
    cases hid
    exact ⟨_, pushUrl, rfl, hhas, hpinned⟩

end GitCommitsPush.Publication
