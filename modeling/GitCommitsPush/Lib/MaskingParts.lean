/-
  GitCommitsPush.Lib.MaskingParts — a pass read in parts.

  A separator is a symbol of no key, no gap and not of the mask. One that comes through a
  pass cuts it: `Scan.split_at` takes the pass apart there and `Scan.join_at` puts two
  passes together. Whether it comes through is told by the text before it, where that has
  no symbol of a gap: `Scan.not_held` and `Scan.separator_or_held`, by whether the text
  ends within the value of a key (`Pattern.Holds`).

  `Scan.shows` is the same for the symbols of the input, `Scan.count_le` and `Scan.eq_of_body`
  say what a pass leaves of a symbol and when it leaves everything.
-/

import GitCommitsPush.Lib.Masking

namespace GitCommitsPush.Lib.Masking

variable {α : Type} {P : Pattern α} {mask : List α}

/-! ## Separators -/

/-- A symbol that no key, no gap and not the mask has. -/
structure Pattern.Separator (P : Pattern α) (mask : List α) (z : α) : Prop where
  key : ∀ key, P.key key → z ∉ key
  gap : P.gap z = false
  mask : z ∉ mask

/-- A pattern that is found wherever its key and value are. -/
structure Pattern.Anywhere (P : Pattern α) : Prop where
  boundary : ∀ prev, P.boundary prev
  next : ∀ c, P.next c

/-- A symbol that is not in the first part stands in the second. -/
theorem split_after {a x before rest : List α} {z : α} (h : a ++ x = before ++ z :: rest) (hz : z ∉ a) :
    ∃ before', before = a ++ before' ∧ x = before' ++ z :: rest := by
  rcases List.append_eq_append_iff.mp h with ⟨b, hbefore, hx⟩ | ⟨b, ha, hrest⟩
  · exact ⟨b, hbefore, hx⟩
  · cases b with
    | nil => exact ⟨[], by simpa using ha.symm, hrest.symm⟩
    | cons d b =>
      obtain ⟨rfl, -⟩ := List.cons.inj hrest
      refine absurd ?_ hz
      rw [ha]
      simp

variable {z : α} {prev : Option α}

/-- A separator comes after the key and the gap of what is found at the start. -/
theorem Pattern.Hit.separator_after {p : Option α} {key gap value after before rest text : List α} (hz : P.Separator mask z)
    (hhit : P.Hit p key gap value after) (h : key ++ (gap ++ text) = before ++ z :: rest) :
    ∃ start, before = key ++ (gap ++ start) ∧ text = start ++ z :: rest := by
  obtain ⟨b, hbefore, hkey⟩ := split_after h (hz.key key hhit.key)
  obtain ⟨start, hb, htext⟩ := split_after hkey fun hmem => by
    have hgap := hhit.gap_run z hmem
    rw [hz.gap] at hgap
    cases hgap
  exact ⟨start, by rw [hbefore, hb], htext⟩

/-- It stands in the value, or after it. -/
theorem Pattern.Hit.separator {p : Option α} {key gap value after before rest : List α} (hz : P.Separator mask z)
    (hhit : P.Hit p key gap value after) (h : key ++ (gap ++ (value ++ after)) = before ++ z :: rest) :
    (∃ start more, before = key ++ (gap ++ start) ∧ value = start ++ z :: more ∧ rest = more ++ after) ∨
      ∃ between, before = key ++ (gap ++ (value ++ between)) ∧ after = between ++ z :: rest := by
  obtain ⟨start, rfl, hparts⟩ := hhit.separator_after hz h
  rcases List.append_eq_append_iff.mp hparts with ⟨between, rfl, hafter⟩ | ⟨more, hvalue, hrest⟩
  · exact .inr ⟨between, by simp, hafter⟩
  · cases more with
    | nil => exact .inr ⟨[], by rw [hvalue]; simp, hrest.symm⟩
    | cons d more =>
      obtain ⟨rfl, htail⟩ := List.cons.inj hrest
      exact .inl ⟨start, more, rfl, hvalue, htail⟩

/-- A hit looks no further than the first symbol after the value. -/
theorem Pattern.Hit.of_head {p : Option α} {key gap value after after' : List α} (h : P.Hit p key gap value after)
    (hhead : after'.head? = after.head?) : P.Hit p key gap value after' :=
  { h with
    gap_stops := h.gap_stops.of_head (by
      cases value with
      | nil => exact hhead
      | cons => rfl)
    value_stops := h.value_stops.of_head hhead
    next := hhead ▸ h.next }

theorem head_separator (between rest rest' : List α) : (between ++ z :: rest).head? = (between ++ z :: rest').head? := by
  cases between <;> rfl

/-- What is found in a text that goes on after a separator is found in the text up to it. -/
theorem Pattern.Hit.cut {p : Option α} {key gap value after before rest : List α} (hP : P.Lawful mask) (hE : P.Anywhere)
    (hz : P.Separator mask z) (hhit : P.Hit p key gap value after)
    (h : key ++ (gap ++ (value ++ after)) = before ++ z :: rest) :
    ∃ value' after', P.Hit p key gap value' after' ∧ before ++ [z] = key ++ (gap ++ (value' ++ after')) := by
  rcases hhit.separator hz h with ⟨start, more, rfl, rfl, -⟩ | ⟨between, rfl, rfl⟩
  · refine ⟨start ++ [z], [], ?_, by simp⟩
    have hleast := hP.least_le
    exact { hhit with
      gap_stops := hhit.gap_stops.of_head (by cases start <;> rfl)
      value_run := fun c hc => hhit.value_run c (by
        rcases List.mem_append.mp hc with hc | hc
        · exact List.mem_append_left _ hc
        · rw [List.mem_singleton.mp hc]
          simp)
      value_stops := stops_nil _
      least := by
        rw [List.length_append, List.length_singleton]
        omega
      next := hE.next _ }
  · exact ⟨value, between ++ [z], hhit.of_head (head_separator between [] rest), by simp⟩

/-- What is found in a text up to a separator is found when the text goes on. -/
theorem Pattern.Hit.extend {p : Option α} {key gap value after before : List α} (hE : P.Anywhere) (hz : P.Separator mask z)
    (hhit : P.Hit p key gap value after) (h : key ++ (gap ++ (value ++ after)) = before ++ [z]) (rest : List α) :
    ∃ value' after', P.Hit p key gap value' after' ∧ before ++ z :: rest = key ++ (gap ++ (value' ++ after')) := by
  rcases hhit.separator hz h with ⟨start, more, rfl, rfl, hnil⟩ | ⟨between, rfl, rfl⟩
  · obtain ⟨rfl, rfl⟩ := List.append_eq_nil_iff.mp hnil.symm
    obtain ⟨run, after', rfl, hrun, hstops⟩ := exists_run P.body rest
    refine ⟨start ++ z :: run, after', ?_, by simp⟩
    exact { hhit with
      gap_stops := hhit.gap_stops.of_head (by cases start <;> rfl)
      value_run := fun c hc => by
        rcases List.mem_append.mp hc with hc | hc
        · exact hhit.value_run c (List.mem_append_left _ hc)
        · rcases List.mem_cons.mp hc with rfl | hc
          · exact hhit.value_run c (by simp)
          · exact hrun c hc
      value_stops := hstops
      least := by
        have hleast := hhit.least
        simp only [List.length_append, List.length_cons, List.length_nil] at hleast ⊢
        omega
      next := hE.next _ }
  · exact ⟨value, between ++ z :: rest, hhit.of_head (head_separator between rest []), by simp⟩

/-! ## Cutting a pass -/

theorem Scan.eq_nil (hP : P.Lawful mask) {input out : List α} (h : Scan P mask prev input out) (hout : out = []) : input = [] := by
  have hhead := h.head hP
  rw [hout] at hhead
  exact List.head?_eq_none_iff.mp hhead.symm

theorem Scan.of_nil (hP : P.Lawful mask) {out : List α} (h : Scan P mask prev [] out) : out = [] :=
  h.deterministic hP (.done prev)

/-- A separator that came through cuts the pass. -/
theorem Scan.split_at (hE : P.Anywhere) (hz : P.Separator mask z) {input out shown later : List α}
    (h : Scan P mask prev input out) (hout : out = shown ++ z :: later) :
    ∃ before rest, input = before ++ z :: rest ∧ Scan P mask prev (before ++ [z]) (shown ++ [z]) ∧
      Scan P mask (some z) rest later := by
  induction h generalizing shown with
  | done => exact absurd hout (by simp)
  | @copy prev c text out hno h ih =>
    cases shown with
    | nil =>
      obtain ⟨rfl, rfl⟩ := List.cons.inj hout
      refine ⟨[], text, rfl, .copy ?_ (.done _), h⟩
      intro key gap value after hhit heq
      obtain ⟨value', after', hhit', heq'⟩ :=
        hhit.extend hE hz (show key ++ (gap ++ (value ++ after)) = [] ++ [c] from heq.symm) text
      exact hno key gap value' after' hhit' heq'
    | cons d shown =>
      obtain ⟨rfl, hrest⟩ := List.cons.inj hout
      obtain ⟨before, rest, rfl, hcut, hafter⟩ := ih hrest
      refine ⟨c :: before, rest, rfl, .copy ?_ hcut, hafter⟩
      intro key gap value after hhit heq
      obtain ⟨value', after', hhit', heq'⟩ :=
        hhit.extend hE hz (show key ++ (gap ++ (value ++ after)) = c :: before ++ [z] from heq.symm) rest
      exact hno key gap value' after' hhit' heq'
  | @hit prev key gap value text input out hinput hhit h ih =>
    obtain ⟨start, rfl, hstart⟩ := hhit.separator_after hz hout
    obtain ⟨b, rfl, hb⟩ := split_after hstart hz.mask
    obtain ⟨before, rest, rfl, hcut, hafter⟩ := ih hb
    refine ⟨key ++ (gap ++ (value ++ before)), rest, by rw [hinput]; simp, ?_, hafter⟩
    have hparts : key ++ (gap ++ (mask ++ b)) ++ [z] = key ++ (gap ++ (mask ++ (b ++ [z]))) := by simp
    rw [hparts]
    exact .hit (by simp) (hhit.of_head (head_separator before [] rest)) hcut

/-- Passes over the two sides of a separator that came through are a pass over the whole. -/
theorem Scan.join_at (hP : P.Lawful mask) (hE : P.Anywhere) (hz : P.Separator mask z) {input out before shown rest later : List α}
    (h : Scan P mask prev input out) (hinput : input = before ++ [z]) (hout : out = shown ++ [z])
    (hrest : Scan P mask (some z) rest later) : Scan P mask prev (before ++ z :: rest) (shown ++ z :: later) := by
  induction h generalizing before shown with
  | done => exact absurd hinput (by simp)
  | @copy prev c text out hno h ih =>
    have hnext : ∀ key gap value after, P.Hit prev key gap value after →
        before ++ z :: rest ≠ key ++ (gap ++ (value ++ after)) := by
      intro key gap value after hhit heq
      obtain ⟨value', after', hhit', heq'⟩ := hhit.cut hP hE hz heq.symm
      exact hno key gap value' after' hhit' (hinput.trans heq')
    cases before with
    | nil =>
      obtain ⟨rfl, rfl⟩ := List.cons.inj hinput
      have hnil := h.of_nil hP
      rw [hnil] at hout
      cases shown with
      | nil => exact .copy hnext hrest
      | cons d shown => exact absurd (List.cons.inj hout).2 (by simp)
    | cons d before =>
      obtain ⟨rfl, htext⟩ := List.cons.inj hinput
      cases shown with
      | nil =>
        obtain ⟨-, hnil⟩ := List.cons.inj hout
        have hempty := h.eq_nil hP hnil
        rw [htext] at hempty
        exact absurd hempty (by simp)
      | cons d shown =>
        obtain ⟨rfl, hshown⟩ := List.cons.inj hout
        exact .copy hnext (ih htext hshown)
  | @hit prev key gap value text input out hparts hhit h ih =>
    obtain ⟨start, rfl, hstart⟩ := hhit.separator_after hz hout
    obtain ⟨b, rfl, hb⟩ := split_after hstart hz.mask
    rcases hhit.separator hz (hparts.symm.trans hinput) with ⟨start, more, -, -, hnil⟩ | ⟨between, rfl, rfl⟩
    · -- nothing would be left for it
      rw [(List.append_eq_nil_iff.mp hnil.symm).2] at h
      have hout := h.of_nil hP
      rw [hb] at hout
      exact absurd hout (by simp)
    · have hjoined := ih rfl hb
      have hsame : key ++ (gap ++ (mask ++ b)) ++ z :: later = key ++ (gap ++ (mask ++ (b ++ z :: later))) := by simp
      rw [hsame]
      exact .hit (by simp) (hhit.of_head (head_separator between rest [])) hjoined

theorem Scan.of_anywhere (hP : P.Lawful mask) (hE : P.Anywhere) {p q : Option α} {input out : List α} (h : Scan P mask p input out) :
    Scan P mask q input out := by
  cases h with
  | done => exact .done q
  | copy hno h => exact .copy (fun key gap value after hhit => hno key gap value after { hhit with boundary := hE.boundary p }) h
  | @hit _ key gap value rest _ out hinput hhit h =>
    refine .hit hinput { hhit with boundary := hE.boundary q } ?_
    have hne : key ++ (gap ++ value) ≠ [] := fun hnil => hP.key_ne_nil hhit.key (List.append_eq_nil_iff.mp hnil).1
    rw [ends_of_ne_nil hne q p]
    exact h

/-! ## What comes through -/

/-- The text ends within the value of a key: a symbol that goes on with the value is in it. -/
def Pattern.Holds (P : Pattern α) (text : List α) : Prop :=
  ∃ older key value : List α, text = older ++ (key ++ value) ∧ P.key key ∧ ∀ c ∈ value, P.body c = true

theorem Pattern.Holds.append {text : List α} (h : P.Holds text) (before : List α) : P.Holds (before ++ text) := by
  obtain ⟨older, key, value, rfl, hkey, hvalue⟩ := h
  exact ⟨before ++ older, key, value, by simp, hkey, hvalue⟩

/-- A separator at the end comes through, or the text before it ends within a value. -/
theorem Scan.separator_or_held (hP : P.Lawful mask) (hz : P.Separator mask z) {input out before : List α} (h : Scan P mask prev input out)
    (hinput : input = before ++ [z]) (hgap : ∀ c ∈ before, P.gap c = false) :
    (∃ shown, out = shown ++ [z]) ∨ P.Holds before := by
  induction h generalizing before with
  | done => exact absurd hinput (by simp)
  | @copy prev c text out hno h ih =>
    cases before with
    | nil =>
      obtain ⟨rfl, rfl⟩ := List.cons.inj hinput
      exact .inl ⟨[], by rw [h.of_nil hP]; rfl⟩
    | cons d before =>
      obtain ⟨rfl, htext⟩ := List.cons.inj hinput
      rcases ih htext (List.forall_mem_cons.mp hgap).2 with ⟨shown, rfl⟩ | hheld
      · exact .inl ⟨c :: shown, rfl⟩
      · exact .inr (hheld.append [c])
  | @hit prev key gap value text input out hparts hhit h ih =>
    have hsame : key ++ (gap ++ (value ++ text)) = before ++ [z] := hparts.symm.trans hinput
    rcases hhit.separator hz hsame with ⟨start, more, rfl, rfl, -⟩ | ⟨between, rfl, rfl⟩
    · right
      have hnil : gap = [] := List.eq_nil_iff_forall_not_mem.mpr fun c hc => by
        have hfalse := hgap c (by simp [hc])
        rw [hhit.gap_run c hc] at hfalse
        cases hfalse
      exact ⟨[], key, start, by rw [hnil]; rfl, hhit.key, fun c hc => hhit.value_run c (by simp [hc])⟩
    · rcases ih rfl (fun c hc => hgap c (by simp [hc])) with ⟨shown, rfl⟩ | hheld
      · exact .inl ⟨key ++ (gap ++ (mask ++ shown)), by simp⟩
      · refine .inr ?_
        have hheld := hheld.append (key ++ (gap ++ value))
        simpa using hheld

/-- What came through did not stand within a value. -/
theorem Scan.not_held (hP : P.Lawful mask) (hE : P.Anywhere) (hz : P.Separator mask z) (hbody : P.body z = true)
    (hwhole : ∀ key, P.key key → (∀ c ∈ key, P.gap c = false) → ∀ c ∈ key, P.body c = true) {input out before shown : List α}
    (h : Scan P mask prev input out) (hinput : input = before ++ [z]) (hout : out = shown ++ [z])
    (hgap : ∀ c ∈ before, P.gap c = false) : ¬P.Holds before := by
  intro ⟨older, key, value, hparts, hkey, hvalue⟩
  -- from the key to the separator everything is a value's
  have hrun : ∀ c ∈ key ++ (value ++ [z]), P.body c = true := by
    intro c hc
    rcases List.mem_append.mp hc with hc | hc
    · refine hwhole key hkey (fun d hd => hgap d ?_) c hc
      rw [hparts]
      simp [hd]
    · rcases List.mem_append.mp hc with hc | hc
      · exact hvalue c hc
      · rw [List.mem_singleton.mp hc]
        exact hbody
  have hwholeInput : input = older ++ (key ++ (value ++ [z])) := by
    rw [hinput, hparts]
    simp
  induction h generalizing before shown older with
  | done => exact absurd hinput (by simp)
  | @copy prev c text out hno h ih =>
    cases older with
    | nil =>
      -- the key would be found here
      have hgapNil : ∀ d ∈ value ++ [z], P.gap d = false := by
        intro d hd
        rcases List.mem_append.mp hd with hd | hd
        · exact hgap d (by rw [hparts]; simp [hd])
        · rw [List.mem_singleton.mp hd]
          exact hz.gap
      refine hno key [] (value ++ [z]) [] ?_ (by rw [hwholeInput]; simp)
      have hleast := hP.least_le
      exact ⟨hE.boundary _, hkey, by simp, fun d hd => by
          rw [List.append_nil] at hd
          exact hgapNil d (List.mem_of_head? hd),
        fun d hd => hrun d (List.mem_append_right _ hd), stops_nil _, by
          rw [List.length_append, List.length_singleton]
          omega, hE.next _⟩
    | cons d older =>
      rw [hparts] at hinput hgap
      obtain ⟨rfl, htext⟩ := List.cons.inj hinput
      obtain ⟨-, hrest⟩ := List.cons.inj hwholeInput
      cases shown with
      | nil =>
        obtain ⟨-, hnil⟩ := List.cons.inj hout
        have hempty := h.eq_nil hP hnil
        rw [hrest] at hempty
        exact absurd hempty (by simp)
      | cons e shown =>
        exact ih htext (List.cons.inj hout).2 (fun c hc => hgap c (List.mem_cons_of_mem _ hc)) older rfl hrest
  | @hit prev found gap taken text input out hinput' hhit h ih =>
    obtain ⟨start, -, hstart⟩ := hhit.separator_after hz hout
    obtain ⟨shown', -, hshown⟩ := split_after hstart hz.mask
    rcases hhit.separator hz (hinput'.symm.trans hinput) with ⟨_, more, -, -, hnil⟩ | ⟨between, hbefore, rfl⟩
    · -- nothing would be left of the separator
      rw [(List.append_eq_nil_iff.mp hnil.symm).2] at h
      rw [h.of_nil hP] at hshown
      exact absurd hshown (by simp)
    · have hsame : older ++ (key ++ (value ++ [z])) = (found ++ (gap ++ taken)) ++ (between ++ [z]) := by
        rw [← hwholeInput, hinput']
        simp
      rcases List.append_eq_append_iff.mp hsame with ⟨a, -, hrun'⟩ | ⟨a, holder, hrest⟩
      · -- the value found would go on
        obtain ⟨c, hc⟩ : ∃ c, (between ++ [z]).head? = some c := by
          cases between <;> exact ⟨_, rfl⟩
        have hstop := hhit.value_stops c hc
        rw [hrun c (by rw [hrun']; exact List.mem_append_right _ (List.mem_of_head? hc))] at hstop
        cases hstop
      · have hbetween : between = a ++ (key ++ value) := by
          have hlast : between ++ [z] = (a ++ (key ++ value)) ++ [z] := by
            rw [hrest]
            simp
          exact List.append_cancel_right hlast
        exact ih rfl hshown (fun c hc => hgap c (by rw [hbefore]; simp [hc])) a hbetween hrest

/-- A symbol of the input comes through, with what is left of the text after it, or is in a value. -/
theorem Scan.shows (hP : P.Lawful mask) {input out : List α} (h : Scan P mask prev input out) (hgap : ∀ c ∈ out, P.gap c = false)
    {a b : List α} {c : α} (hparts : input = a ++ c :: b) :
    (∃ x y, out = x ++ c :: y ∧ (y = [] → b = [])) ∨ P.Holds a ∧ P.body c = true := by
  induction h generalizing a with
  | done => exact absurd hparts (by simp)
  | @copy prev d text out hno h ih =>
    cases a with
    | nil =>
      obtain ⟨rfl, rfl⟩ := List.cons.inj hparts
      exact .inl ⟨[], out, rfl, h.eq_nil hP⟩
    | cons e a =>
      obtain ⟨rfl, htext⟩ := List.cons.inj hparts
      rcases ih (fun c hc => hgap c (List.mem_cons_of_mem _ hc)) htext with ⟨x, y, rfl, hy⟩ | ⟨hheld, hc⟩
      · exact .inl ⟨d :: x, y, rfl, hy⟩
      · exact .inr ⟨hheld.append [d], hc⟩
  | @hit prev key gap value text input out hinput hhit h ih =>
    have hnil : gap = [] := List.eq_nil_iff_forall_not_mem.mpr fun c hc => by
      have hfalse := hgap c (by simp [hc])
      rw [hhit.gap_run c hc] at hfalse
      cases hfalse
    subst hnil
    -- after the value
    have hlater : ∀ between, text = between ++ c :: b →
        (∃ x y, key ++ (mask ++ out) = x ++ c :: y ∧ (y = [] → b = [])) ∨ P.Holds (key ++ (value ++ between)) ∧ P.body c = true := by
      intro between htext
      rcases ih (fun c hc => hgap c (by simp [hc])) htext with ⟨x, y, rfl, hy⟩ | ⟨hheld, hc⟩
      · exact .inl ⟨key ++ (mask ++ x), y, by simp, hy⟩
      · have hheld := hheld.append (key ++ value)
        exact .inr ⟨by simpa using hheld, hc⟩
    -- within it
    have hwithin : ∀ start, value ++ text = start ++ c :: b →
        (∃ x y, key ++ (mask ++ out) = x ++ c :: y ∧ (y = [] → b = [])) ∨ P.Holds (key ++ start) ∧ P.body c = true := by
      intro start hstart
      rcases List.append_eq_append_iff.mp hstart with ⟨between, rfl, htext⟩ | ⟨more, hvalue, hrest⟩
      · exact hlater between htext
      · cases more with
        | nil =>
          have hheld := hlater [] (by simpa using hrest.symm)
          rw [hvalue] at hheld
          simpa using hheld
        | cons d more =>
          obtain ⟨rfl, -⟩ := List.cons.inj hrest
          exact .inr ⟨⟨[], key, start, rfl, hhit.key, fun d hd => hhit.value_run d (by rw [hvalue]; simp [hd])⟩,
            hhit.value_run c (by rw [hvalue]; simp)⟩
    have hsame : key ++ (value ++ text) = a ++ c :: b := hinput.symm.trans hparts
    rcases List.append_eq_append_iff.mp hsame with ⟨start, rfl, hstart⟩ | ⟨more, hkey, hrest⟩
    · exact hwithin start hstart
    · cases more with
      | nil =>
        have hheld := hwithin [] (by simpa using hrest.symm)
        rw [hkey] at hheld
        rw [hkey]
        simpa using hheld
      | cons d more =>
        obtain ⟨rfl, -⟩ := List.cons.inj hrest
        obtain ⟨w, hw, -⟩ := (hP.outside key hhit.key).last
        refine .inl ⟨a, more ++ (mask ++ out), by rw [hkey]; simp, fun hnil => ?_⟩
        rw [(List.append_eq_nil_iff.mp (List.append_eq_nil_iff.mp hnil).2).1] at hw
        cases hw

/-- A pass that ends with a separator and shows symbols of values only changes nothing. -/
theorem Scan.eq_of_body (hP : P.Lawful mask) (hz : P.Separator mask z) {input out shown : List α}
    (h : Scan P mask prev input out) (hout : out = shown ++ [z]) (hbody : ∀ c ∈ out, P.body c = true) : input = out := by
  induction h generalizing shown with
  | done => rfl
  | @copy prev c text out hno h ih =>
    cases shown with
    | nil =>
      obtain ⟨-, hnil⟩ := List.cons.inj hout
      rw [hnil, h.eq_nil hP hnil]
    | cons d shown =>
      rw [ih (List.cons.inj hout).2 fun c hc => hbody c (List.mem_cons_of_mem _ hc)]
  | @hit prev key gap value text input out hinput hhit h ih =>
    exfalso
    obtain ⟨start, -, hstart⟩ := hhit.separator_after hz hout
    obtain ⟨b, -, hb⟩ := split_after hstart hz.mask
    -- what stops the value comes through
    obtain ⟨c, hc⟩ : ∃ c, out.head? = some c := by
      rw [hb]
      cases b <;> exact ⟨_, rfl⟩
    have hstop := hhit.value_stops c (h.head hP ▸ hc)
    rw [hbody c (by simp [List.mem_of_head? hc])] at hstop
    cases hstop

/-- A pass that shows no whole key changes nothing. -/
theorem Scan.eq_of_keyless {input out : List α} (h : Scan P mask prev input out)
    (hkeys : ∀ key, P.key key → ∃ c ∈ key, c ∉ out) : input = out := by
  induction h with
  | done => rfl
  | @copy prev c text out hno h ih =>
    rw [ih fun key hkey => by
      obtain ⟨d, hd, hnot⟩ := hkeys key hkey
      exact ⟨d, hd, fun hmem => hnot (List.mem_cons_of_mem _ hmem)⟩]
  | hit hinput hhit h ih =>
    obtain ⟨d, hd, hnot⟩ := hkeys _ hhit.key
    exact absurd (List.mem_append_left _ hd) hnot

/-- No pass adds to the symbols outside the mask. -/
theorem Scan.count_le [BEq α] [LawfulBEq α] (hz : z ∉ mask) {input out : List α} (h : Scan P mask prev input out) :
    out.count z ≤ input.count z := by
  induction h with
  | done => exact Nat.le_refl _
  | copy hno h ih =>
    rw [List.count_cons, List.count_cons]
    omega
  | hit hinput hhit h ih =>
    rw [hinput]
    simp only [List.count_append, List.count_eq_zero_of_not_mem hz]
    omega

end GitCommitsPush.Lib.Masking
