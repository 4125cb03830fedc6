/-
  GitCommitsPush.Lib.RegexReplace — replacing every match of a regular expression.

  `threads` lists the preferred match first; the lemmas `head_one`, `head_seq`, `head_group`,
  `head_rep`, … say which it is (a greedy quantifier takes the longest run), where
  `Lib.RegexThreads` says only what can match.

  `Finds` says that an expression looks for a pattern of `Lib.Masking`. Replacing all its
  matches by what it keeps and the mask is then a `Scan` (`replaceAll_scan`).
-/

import GitCommitsPush.Lib.RegexThreads
import GitCommitsPush.Lib.Masking

namespace GitCommitsPush.Lib.Regex

open GitCommitsPush.Lib.Masking

/-! ## The preferred thread -/

variable {t u v : Thread}

theorem head_one {p : Nat → Bool} {c : Nat} {before rest : List Nat} {captures : Captures} (hc : p c = true) :
    (threads (.one p) (⟨before, c :: rest⟩, captures)).head? = some (⟨c :: before, rest⟩, captures) := by
  show (if p c then [((⟨c :: before, rest⟩ : Place), captures)] else []).head? = _
  rw [if_pos hc]
  rfl

theorem head_seq {a b : Re} (ha : (threads a t).head? = some u) (hb : (threads b u).head? = some v) :
    (threads (.seq a b) t).head? = some v := by
  show ((threads a t).flatMap (threads b)).head? = some v
  cases hthreads : threads a t with
  | nil =>
    rw [hthreads] at ha
    cases ha
  | cons u' us =>
    rw [hthreads] at ha
    cases ha
    rw [List.flatMap_cons, List.head?_append, hb]
    rfl

theorem head_group {n : Nat} {r : Re} (h : (threads r t).head? = some u) :
    (threads (.group n r) t).head? = some (u.1, (n, between t.1 u.1) :: u.2.filter (·.1 != n)) := by
  show ((threads r t).map _).head? = _
  rw [List.head?_map, h]
  rfl

/-- An expression with one way of matching. -/
theorem head_of_unique {r : Re} (hmem : u ∈ threads r t) (hall : ∀ v ∈ threads r t, v = u) : (threads r t).head? = some u := by
  cases hthreads : threads r t with
  | nil =>
    rw [hthreads] at hmem
    cases hmem
  | cons v vs =>
    rw [hall v (by rw [hthreads]; exact List.mem_cons_self)]
    rfl

/-- A greedy class takes the longest run: the induction is on that run. -/
theorem head_repeatThreads {p : Nat → Bool} (fuel min : Nat) (before run rest : List Nat) (captures : Captures)
    (hrun : ∀ c ∈ run, p c = true) (hstops : Stops p rest) (hmin : min ≤ run.length) (hfuel : run.length < fuel) :
    (repeatThreads (fun t => threads (.one p) (forget [] t)) true fuel min none (⟨before, run ++ rest⟩, captures)).head? =
      some (⟨run.reverse ++ before, rest⟩, captures) := by
  induction run generalizing fuel min before with
  | nil =>
    obtain ⟨fuel, rfl⟩ : ∃ n, fuel = n + 1 := ⟨fuel - 1, by simp only [List.length_nil] at hfuel; omega⟩
    have hmin0 : min = 0 := by simpa using hmin
    subst hmin0
    have hnone : threads (.one p) (⟨before, rest⟩, captures) = [] := by
      cases rest with
      | nil => rfl
      | cons c rest =>
        show (if p c then _ else []) = []
        rw [if_neg (by simp [stops_cons.mp hstops])]
    unfold repeatThreads
    rw [if_neg (by simp), if_neg (by simp), if_pos rfl, forget_nil, List.nil_append, hnone]
    rfl
  | cons c run ih =>
    obtain ⟨fuel, rfl⟩ : ∃ n, fuel = n + 1 := ⟨fuel - 1, by simp only [List.length_cons] at hfuel; omega⟩
    obtain ⟨hc, hrun⟩ := List.forall_mem_cons.mp hrun
    have hone : threads (.one p) (⟨before, c :: (run ++ rest)⟩, captures) = [(⟨c :: before, run ++ rest⟩, captures)] := by
      show (if p c then _ else []) = _
      rw [if_pos hc]
    have hrest := ih fuel (min - 1) (c :: before) hrun (by simp only [List.length_cons] at hmin; omega)
      (by simp only [List.length_cons] at hfuel; omega)
    have hmoved : ¬(min = 0 ∧ ((⟨c :: before, run ++ rest⟩, captures) : Thread).1.after.length =
        ((⟨before, c :: (run ++ rest)⟩, captures) : Thread).1.after.length) := by
      show ¬(min = 0 ∧ (run ++ rest).length = (c :: (run ++ rest)).length)
      rw [List.length_cons]
      omega
    unfold repeatThreads
    rw [if_neg (by simp), forget_nil, List.cons_append, hone, List.flatMap_cons, List.flatMap_nil, List.append_nil,
      if_neg hmoved]
    rw [List.reverse_cons, List.append_assoc]
    by_cases hmin' : min > 0
    · rw [if_pos hmin']
      exact hrest
    · rw [if_neg hmin', if_pos rfl, List.head?_append]
      show Option.or (repeatThreads _ true fuel (min - 1) none _).head? _ = _
      rw [hrest]
      rfl

theorem head_rep {p : Nat → Bool} {min : Nat} {before run rest : List Nat} {captures : Captures}
    (hrun : ∀ c ∈ run, p c = true) (hstops : Stops p rest) (hmin : min ≤ run.length) :
    (threads (.rep (.one p) min none true) (⟨before, run ++ rest⟩, captures)).head? =
      some (⟨run.reverse ++ before, rest⟩, captures) := by
  show (repeatThreads (fun t => threads (.one p) (forget [] t)) true (min + (run ++ rest).length + 1) min none _).head? = _
  exact head_repeatThreads _ min before run rest captures hrun hstops hmin (by rw [List.length_append]; omega)

theorem head_text {ps : List (Nat → Bool)} {before run rest : List Nat} {captures : Captures}
    (hrun : List.Forall₂ (fun p c => p c = true) ps run) :
    (threads (seqAll (ps.map .one)) (⟨before, run ++ rest⟩, captures)).head? = some (⟨run.reverse ++ before, rest⟩, captures) := by
  induction hrun generalizing before with
  | nil => rfl
  | @cons p c ps run hc hrun ih =>
    rw [List.reverse_cons, List.append_assoc]
    cases ps with
    | nil =>
      cases hrun
      exact head_one hc
    | cons q qs => exact head_seq (head_one hc) ih

theorem head_wordBoundary {isWord : Nat → Bool} (h : t.1.before.head?.any isWord ≠ t.1.after.head?.any isWord) :
    (threads (.wordBoundary isWord) t).head? = some t := by
  show (if t.1.before.head?.any isWord != t.1.after.head?.any isWord then [t] else []).head? = _
  rw [if_pos (by simpa using h)]
  rfl

/-! ## Texts -/

theorem forall₂_text (f : Nat → Nat) (cs : List Char) (run : List Nat) :
    List.Forall₂ (fun p c => p c = true) (cs.map fun d c => f c == d.toNat) run ↔ run.map f = cs.map Char.toNat := by
  induction cs generalizing run with
  | nil => simp
  | cons d cs ih =>
    cases run with
    | nil => simp
    | cons c run =>
      rw [List.map_cons, List.forall₂_cons, ih]
      simp

theorem lit_eq (text : String) : lit text = seqAll ((text.toList.map fun d c => c == d.toNat).map .one) := by
  rw [List.map_map]
  rfl

theorem litFolded_eq (text : String) : litFolded text = seqAll ((text.toList.map fun d c => foldAscii c == d.toNat).map .one) := by
  rw [List.map_map]
  rfl

theorem mem_threads_lit {text : String} : v ∈ threads (lit text) t ↔ Consumes (points text) t.1 v.1 ∧ v.2 = t.2 := by
  rw [lit_eq, mem_threads_text]
  constructor
  · intro ⟨run, hrun, h⟩
    have hsame : run = points text := (List.map_id run).symm.trans ((forall₂_text id _ run).mp hrun)
    exact hsame ▸ h
  · intro h
    exact ⟨points text, (forall₂_text id _ _).mpr (List.map_id _), h⟩

theorem mem_threads_litFolded {text : String} : v ∈ threads (litFolded text) t ↔
    ∃ run, run.map foldAscii = points text ∧ Consumes run t.1 v.1 ∧ v.2 = t.2 := by
  rw [litFolded_eq, mem_threads_text]
  simp only [forall₂_text]
  exact Iff.rfl

theorem head_lit (text : String) (before rest : List Nat) (captures : Captures) :
    (threads (lit text) (⟨before, points text ++ rest⟩, captures)).head? =
      some (⟨(points text).reverse ++ before, rest⟩, captures) := by
  rw [lit_eq]
  exact head_text ((forall₂_text id _ _).mpr (List.map_id _))

/-- The expression matches these names, in any case. -/
def Spells (r : Re) (names : List String) : Prop := ∀ t v, v ∈ threads r t ↔
  ∃ name ∈ names, ∃ run, run.map foldAscii = points name ∧ Consumes run t.1 v.1 ∧ v.2 = t.2

theorem spells_litFolded (text : String) : Spells (litFolded text) [text] := by
  intro t v
  rw [mem_threads_litFolded]
  simp

theorem spells_altAll {rs : List Re} {groups : List (List String)} (h : List.Forall₂ Spells rs groups) (hne : rs ≠ []) :
    Spells (altAll rs) groups.flatten := by
  have hall : ∀ t v, (∃ r ∈ rs, v ∈ threads r t) ↔
      ∃ name ∈ groups.flatten, ∃ run, run.map foldAscii = points name ∧ Consumes run t.1 v.1 ∧ v.2 = t.2 := by
    intro t v
    clear hne
    induction h with
    | nil => simp
    | @cons r names rs groups hr _ ih =>
      rw [List.exists_mem_cons_iff, ih, hr t v, List.flatten_cons]
      simp only [List.mem_append, or_and_right, exists_or]
  intro t v
  rw [mem_threads_altAll hne]
  exact hall t v

/-- No name begins another one. -/
def PrefixFree (names : List String) : Prop := ∀ a ∈ names, ∀ b ∈ names, points a <+: points b → a = b

theorem head_spells {r : Re} {names : List String} (hr : Spells r names) (hfree : PrefixFree names) {name : String}
    (hname : name ∈ names) {before run rest : List Nat} {captures : Captures} (hrun : run.map foldAscii = points name) :
    (threads r (⟨before, run ++ rest⟩, captures)).head? = some (⟨run.reverse ++ before, rest⟩, captures) := by
  refine head_of_unique ((hr _ _).mpr ⟨name, hname, run, hrun, ⟨rfl, rfl⟩, rfl⟩) ?_
  intro v hv
  obtain ⟨name', hname', run', hrun', hconsumes, hcaptures⟩ := (hr _ _).mp hv
  have hafter : run ++ rest = run' ++ v.1.after := hconsumes.after
  -- one of the two runs begins the other
  have hnames : name' = name := by
    rcases List.append_eq_append_iff.mp hafter with ⟨a, hlonger, _⟩ | ⟨a, hlonger, _⟩
    · refine (hfree name hname name' hname' ?_).symm
      rw [← hrun, ← hrun', hlonger, List.map_append]
      exact List.prefix_append _ _
    · refine hfree name' hname' name hname ?_
      rw [← hrun, ← hrun', hlonger, List.map_append]
      exact List.prefix_append _ _
  have hlength : run.length = run'.length := by
    have hfolded : (run.map foldAscii).length = (run'.map foldAscii).length := by rw [hrun, hrun', hnames]
    rw [List.length_map, List.length_map] at hfolded
    exact hfolded
  obtain ⟨hruns, hrest⟩ := List.append_inj hafter hlength
  obtain ⟨⟨before', after'⟩, captures'⟩ := v
  have hbefore : before' = run'.reverse ++ before := hconsumes.before
  have hcaptures' : captures' = captures := hcaptures
  have hrest' : rest = after' := hrest
  rw [hbefore, hcaptures', ← hrest', ← hruns]

/-! ## Replacing -/

/-- What the expression finds is the pattern, and `tail` of what follows it; group 1 is key
    and gap. -/
structure Finds (r : Re) (P : Pattern Nat) (tail : List Nat) : Prop where
  sound : ∀ before after t, t ∈ threads r (⟨before, after⟩, []) →
    ∃ key gap value rest, P.Hit before.head? key gap value rest ∧ after = key ++ (gap ++ (value ++ rest))
  found : ∀ before key gap value rest, P.Hit before.head? key gap value rest → ∃ rest' t, rest = tail ++ rest' ∧
    (threads r (⟨before, key ++ (gap ++ (value ++ rest))⟩, [])).head? = some t ∧
    t.1 = ⟨(key ++ (gap ++ (value ++ tail))).reverse ++ before, rest'⟩ ∧ capture 1 t = some (key ++ gap)

theorem head?_reverse_append (run before : List Nat) : (run.reverse ++ before).head? = ends before.head? run := by
  rw [List.head?_append, List.head?_reverse]
  rfl

theorem mem_placesFrom_length (before after : List Nat) : ∀ p ∈ placesFrom before after, p.after.length ≤ after.length := by
  induction after generalizing before with
  | nil =>
    intro p hp
    cases List.mem_singleton.mp hp
    exact Nat.le_refl _
  | cons c rest ih =>
    intro p hp
    rcases List.mem_cons.mp hp with hhere | hlater
    · exact hhere ▸ Nat.le_refl _
    · have hle := ih (c :: before) p hlater
      rw [List.length_cons]
      omega

/-- Where nothing matches the search moves on. -/
theorem replaceFrom_cons {r : Re} {replacement : Thread → List Nat} {fuel c : Nat} {before rest : List Nat}
    (hnone : threads r (⟨before, c :: rest⟩, []) = []) :
    replaceFrom r replacement (fuel + 1) ⟨before, c :: rest⟩ =
      c :: replaceFrom r replacement (fuel + 1) ⟨c :: before, rest⟩ := by
  have hexec : execFrom r ⟨before, c :: rest⟩ = execFrom r ⟨c :: before, rest⟩ := by
    show List.findSome? _ ((⟨before, c :: rest⟩ : Place) :: placesFrom (c :: before) rest) = _
    rw [List.findSome?_cons, hnone]
    rfl
  simp only [replaceFrom, hexec]
  cases hfound : execFrom r ⟨c :: before, rest⟩ with
  | none => rfl
  | some m =>
    obtain ⟨start, t⟩ := m
    -- the start is one of the later places
    have hle : start.after.length ≤ rest.length := by
      obtain ⟨p, hp, hpm⟩ := List.exists_of_findSome?_eq_some hfound
      obtain ⟨_, _, heq⟩ := Option.map_eq_some_iff.mp hpm
      rw [← (Prod.mk.inj heq).1]
      exact mem_placesFrom_length (c :: before) rest p hp
    have hbetween : between ⟨before, c :: rest⟩ start = c :: between ⟨c :: before, rest⟩ start := by
      show (c :: rest).take ((c :: rest).length - start.after.length) = c :: rest.take (rest.length - start.after.length)
      rw [List.length_cons, Nat.succ_sub hle, List.take_succ_cons]
    dsimp only
    rw [hbetween]
    rfl

theorem replaceFrom_found {r : Re} {replacement : Thread → List Nat} {fuel : Nat} {place : Place} {t : Thread}
    (hhead : (threads r (place, [])).head? = some t) (hmoved : t.1.after.length < place.after.length) :
    replaceFrom r replacement (fuel + 1) place = replacement t ++ replaceFrom r replacement fuel t.1 := by
  have hexec : execFrom r place = some (place, t) := by
    obtain ⟨before, after⟩ := place
    cases after with
    | nil => exact absurd hmoved (Nat.not_lt_zero _)
    | cons c rest =>
      show List.findSome? _ ((⟨before, c :: rest⟩ : Place) :: placesFrom (c :: before) rest) = _
      rw [List.findSome?_cons, hhead]
      rfl
  have hbetween : between place place = [] := by
    unfold between
    rw [Nat.sub_self, List.take_zero]
  simp only [replaceFrom, hexec]
  rw [hbetween, List.nil_append, if_pos hmoved]

variable {r : Re} {P : Pattern Nat} {mask tail : List Nat}

/-- The induction is on what is left of the input. -/
theorem replaceFrom_scan (hP : P.Lawful mask) (hF : Finds r P tail) (htail : ∀ c ∈ tail, ∀ key, P.key key → key.head? ≠ some c)
    (fuel : Nat) (before after : List Nat) (hfuel : after.length < fuel) :
    Scan P mask before.head? after (replaceFrom r (fun t => (capture 1 t).getD [] ++ (mask ++ tail)) fuel ⟨before, after⟩) := by
  induction hn : after.length using Nat.strongRecOn generalizing fuel before after with
  | ind n ih =>
  obtain ⟨fuel, rfl⟩ : ∃ m, fuel = m + 1 := ⟨fuel - 1, by omega⟩
  by_cases hnone : threads r (⟨before, after⟩, []) = []
  · cases after with
    | nil =>
      have hexec : execFrom r ⟨before, []⟩ = none := by
        show List.findSome? _ [(⟨before, []⟩ : Place)] = none
        rw [List.findSome?_cons, hnone]
        rfl
      have hreplace : ∀ replacement, replaceFrom r replacement (fuel + 1) ⟨before, []⟩ = [] := by
        intro replacement
        simp only [replaceFrom, hexec]
      rw [hreplace]
      exact .done _
    | cons c rest =>
      rw [replaceFrom_cons hnone]
      refine .copy ?_ (ih rest.length (by rw [← hn]; exact Nat.lt_succ_self _) (fuel + 1) (c :: before) rest
        (by simp only [List.length_cons] at hfuel; omega) rfl)
      intro key gap value after hhit heq
      obtain ⟨_, t, _, hhead, _⟩ := hF.found before key gap value after hhit
      rw [← heq, hnone] at hhead
      cases hhead
  · obtain ⟨t₀, ht₀⟩ := List.exists_mem_of_ne_nil _ hnone
    obtain ⟨key, gap, value, rest, hhit, hafter⟩ := hF.sound before after t₀ ht₀
    obtain ⟨rest', t, hrest, hhead, hplace, hcapture⟩ := hF.found before key gap value rest hhit
    rw [← hafter] at hhead
    have hlen : t.1.after.length < after.length := by
      have hpos := List.length_pos_iff.mpr (hP.key_ne_nil hhit.key)
      rw [hplace, hafter, hrest]
      simp only [List.length_append]
      omega
    rw [replaceFrom_found hhead hlen, hcapture, hplace]
    have hshorter : rest'.length < after.length := by
      rw [hplace] at hlen
      exact hlen
    have hlater := ih rest'.length (by omega) fuel ((key ++ (gap ++ (value ++ tail))).reverse ++ before) rest' (by omega) rfl
    rw [head?_reverse_append] at hlater
    have hends : ends before.head? (key ++ (gap ++ (value ++ tail))) =
        ends (ends before.head? (key ++ (gap ++ value))) tail := by
      rw [← ends_append]
      simp
    rw [hends] at hlater
    have hscan := Scan.copy_all hP htail hlater
    rw [← hrest] at hscan
    have hout := Scan.hit hafter hhit hscan
    simpa [List.append_assoc] using hout

/-- Replacing every match is a pass over the text. -/
theorem replaceAll_scan (hP : P.Lawful mask) (hF : Finds r P tail) (htail : ∀ c ∈ tail, ∀ key, P.key key → key.head? ≠ some c)
    (input : List Nat) :
    Scan P mask none input (replaceAll r (fun t => (capture 1 t).getD [] ++ (mask ++ tail)) input) :=
  replaceFrom_scan hP hF htail (input.length + 1) [] input (Nat.lt_succ_self _)

end GitCommitsPush.Lib.Regex
