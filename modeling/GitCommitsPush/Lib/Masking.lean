/-
  GitCommitsPush.Lib.Masking — passes over a text that replace what follows a key.

  A `Pattern` says what a pass looks for: a key, the symbols that may stand between it and
  the value, and the run of symbols that is the value. `Scan` is the pass from left to
  right: where the pattern is found (`Hit`), key and gap stay and a fixed mask takes the
  place of the value; everywhere else a symbol is copied.

  For a pattern whose keys cannot be confused with the mask or with one another
  (`Pattern.Lawful`):
  - `Scan.masked`: after a pass every value is the mask.
  - `Scan.eq_of_masked`: a pass over such a text changes nothing.
  - `Masked.preserved`: a later pass of another pattern leaves this so.
  - `Scan.same_value`: what the value was does not show in the outcome.

  `Masks` forgets where a pass looked and keeps what it did; its rules `Masks.split`,
  `Masks.copies` and `Masks.head` take a part of the outcome back to the input.
-/

import Mathlib.Data.List.Basic

namespace GitCommitsPush.Lib.Masking

variable {α : Type}

/-! ## Runs -/

/-- What comes next does not go on with a run of `p`. -/
def Stops (p : α → Bool) (rest : List α) : Prop := ∀ c, rest.head? = some c → p c = false

theorem stops_nil (p : α → Bool) : Stops p [] := by
  intro c hc
  cases hc

theorem stops_cons {p : α → Bool} {c : α} {rest : List α} : Stops p (c :: rest) ↔ p c = false := by
  constructor
  · intro h
    exact h c rfl
  · intro h d hd
    cases hd
    exact h

theorem Stops.of_head {p : α → Bool} {a b : List α} (h : Stops p a) (hhead : b.head? = a.head?) : Stops p b := by
  intro c hc
  exact h c (hhead ▸ hc)

/-- Every text begins with a longest run. -/
theorem exists_run (p : α → Bool) (text : List α) :
    ∃ run rest, text = run ++ rest ∧ (∀ c ∈ run, p c = true) ∧ Stops p rest := by
  induction text with
  | nil => exact ⟨[], [], rfl, by simp, stops_nil p⟩
  | cons c text ih =>
    by_cases hc : p c = true
    · obtain ⟨run, rest, htext, hrun, hstops⟩ := ih
      exact ⟨c :: run, rest, by rw [htext]; rfl, by simpa using ⟨hc, hrun⟩, hstops⟩
    · exact ⟨[], c :: text, rfl, by simp, stops_cons.mpr (by simpa using hc)⟩

/-- …and with one only. -/
theorem runs_agree {p : α → Bool} {a b x y : List α} (h : a ++ x = b ++ y) (ha : ∀ c ∈ a, p c = true) (hx : Stops p x)
    (hb : ∀ c ∈ b, p c = true) (hy : Stops p y) : a = b ∧ x = y := by
  induction a generalizing b with
  | nil =>
    cases b with
    | nil => exact ⟨rfl, h⟩
    | cons c b =>
      have hx' : p c = false := hx c (by rw [show x = c :: (b ++ y) from h]; rfl)
      rw [hb c List.mem_cons_self] at hx'
      cases hx'
  | cons c a ih =>
    cases b with
    | nil =>
      have hy' : p c = false := hy c (by rw [← show c :: (a ++ x) = y from h]; rfl)
      rw [ha c List.mem_cons_self] at hy'
      cases hy'
    | cons d b =>
      obtain ⟨hcd, htail⟩ := List.cons.inj (show c :: (a ++ x) = d :: (b ++ y) from h)
      obtain ⟨hab, hxy⟩ := ih htail (List.forall_mem_cons.mp ha).2 (List.forall_mem_cons.mp hb).2
      exact ⟨by rw [hcd, hab], hxy⟩

/-- A run is no longer than the longest one. -/
theorem run_length_le {p : α → Bool} {a b x y : List α} (h : a ++ x = b ++ y) (ha : ∀ c ∈ a, p c = true) (hy : Stops p y) :
    a.length ≤ b.length := by
  rcases List.append_eq_append_iff.mp h with ⟨c, hb, _⟩ | ⟨c, hlonger, hrest⟩
  · rw [hb, List.length_append]
    omega
  · cases c with
    | nil => exact Nat.le_of_eq (congrArg List.length (hlonger.trans (List.append_nil b)))
    | cons d c =>
      have hd : p d = false := hy d (by rw [hrest]; rfl)
      rw [ha d (by rw [hlonger]; simp)] at hd
      cases hd

/-- The symbol before a place: the last of what was read, or what stood before it. -/
def ends (prev : Option α) (read : List α) : Option α := read.getLast?.or prev

@[simp] theorem ends_cons (prev : Option α) (c : α) (read : List α) : ends prev (c :: read) = ends (some c) read := by
  unfold ends
  cases read with
  | nil => rfl
  | cons d read => rw [List.getLast?_cons_cons]; simp [List.getLast?_cons]

theorem ends_append (prev : Option α) (a b : List α) : ends prev (a ++ b) = ends (ends prev a) b := by
  induction a generalizing prev with
  | nil => rfl
  | cons c a ih => rw [List.cons_append, ends_cons, ends_cons, ih]

theorem ends_of_ne_nil {read : List α} (h : read ≠ []) (p q : Option α) : ends p read = ends q read := by
  cases read with
  | nil => exact absurd rfl h
  | cons c read => rw [ends_cons, ends_cons]

/-! ## Patterns -/

structure Pattern (α : Type) where
  /-- What may stand before a key. -/
  boundary : Option α → Prop
  key : List α → Prop
  /-- What may stand between key and value. -/
  gap : α → Bool
  body : α → Bool
  /-- The least length of a value. -/
  least : Nat
  /-- What may come after a value. -/
  next : Option α → Prop

/-- A pattern found: the gap and the value are as long as they can be. -/
structure Pattern.Hit (P : Pattern α) (prev : Option α) (key gap value rest : List α) : Prop where
  boundary : P.boundary prev
  key : P.key key
  gap_run : ∀ c ∈ gap, P.gap c = true
  gap_stops : Stops P.gap (value ++ rest)
  value_run : ∀ c ∈ value, P.body c = true
  value_stops : Stops P.body rest
  least : P.least ≤ value.length
  next : P.next rest.head?

/-- No part of the text can be taken for a part of the mask. -/
structure Outside (mask text : List α) : Prop where
  stranger : ∃ z, text.getLast? = some z ∧ z ∉ mask
  last : ∃ z, mask.getLast? = some z ∧ z ∉ text

theorem Outside.ne_nil {mask text : List α} (h : Outside mask text) : text ≠ [] := by
  intro hnil
  obtain ⟨z, hz, _⟩ := h.stranger
  rw [hnil] at hz
  cases hz

theorem Outside.tail {mask text : List α} {c : α} (h : Outside mask (c :: text)) (hne : text ≠ []) : Outside mask text := by
  obtain ⟨z, hz, hnot⟩ := h.stranger
  obtain ⟨y, hy, hnotin⟩ := h.last
  refine ⟨⟨z, ?_, hnot⟩, ⟨y, hy, fun hmem => hnotin (List.mem_cons_of_mem _ hmem)⟩⟩
  cases text with
  | nil => exact absurd rfl hne
  | cons d text =>
    rw [List.getLast?_cons_cons] at hz
    exact hz

/-- Such a text comes after the mask or not at all. -/
theorem Outside.after_mask {mask out pre text post : List α} (h : Outside mask text)
    (hout : mask ++ out = pre ++ (text ++ post)) : ∃ pre', pre = mask ++ pre' ∧ out = pre' ++ (text ++ post) := by
  rcases List.append_eq_append_iff.mp hout with ⟨a, hpre, hrest⟩ | ⟨a, hmask, hrest⟩
  · exact ⟨a, hpre, hrest⟩
  · cases a with
    | nil => exact ⟨[], by simpa using hmask.symm, by simpa using hrest.symm⟩
    | cons d a =>
      rcases List.append_eq_append_iff.mp hrest with ⟨b, hd, _⟩ | ⟨b, htext, _⟩
      · -- the text would be a part of the mask
        obtain ⟨z, hz, hnot⟩ := h.stranger
        refine absurd ?_ hnot
        rw [hmask, hd]
        simp [List.mem_of_getLast? hz]
      · -- the text would hold the end of the mask
        obtain ⟨z, hz, hnot⟩ := h.last
        refine absurd ?_ hnot
        rw [hmask, List.getLast?_append] at hz
        obtain ⟨y, hy⟩ : ∃ y, (d :: a).getLast? = some y := ⟨_, List.getLast?_eq_some_getLast (by simp)⟩
        rw [hy] at hz
        cases hz
        rw [htext]
        exact List.mem_append_left _ (List.mem_of_getLast? hy)

theorem Outside.not_at_mask {mask out text post : List α} (h : Outside mask text) : text ++ post ≠ mask ++ out := by
  intro heq
  have hout : mask ++ out = [] ++ (text ++ post) := heq.symm
  obtain ⟨pre, hpre, _⟩ := h.after_mask hout
  obtain ⟨z, hz, _⟩ := h.last
  rw [(List.append_eq_nil_iff.mp hpre.symm).1] at hz
  cases hz

/-- What keeps the keys apart from the mask and from one another. -/
structure Pattern.Lawful (P : Pattern α) (mask : List α) : Prop where
  outside : ∀ key, P.key key → Outside mask key
  /-- A key that begins within a key ends where that one ends. -/
  agree : ∀ key before tail post more, P.key key → P.key (before ++ tail) → tail ≠ [] → key ++ post = tail ++ more → key = tail
  head_gap : ∀ c key, P.key (c :: key) → P.gap c = false
  mask_body : ∀ c ∈ mask, P.body c = true
  mask_stops : ∀ rest, Stops P.gap (mask ++ rest)
  least_le : P.least ≤ 1
  /-- Where the boundary matters, a key cannot follow a value. -/
  start : (∀ prev, P.boundary prev) ∨ ∀ c key, P.key (c :: key) → P.body c = true
  /-- Where it matters what comes after the value, a value cannot end with a key. -/
  close : (∀ c, P.next c) ∨ ∀ key, P.key key → ∃ c ∈ key, P.body c = false

/-! ## A pass -/

inductive Scan (P : Pattern α) (mask : List α) : Option α → List α → List α → Prop
  | done (prev : Option α) : Scan P mask prev [] []
  | copy {prev : Option α} {c : α} {rest out : List α}
      (hno : ∀ key gap value after, P.Hit prev key gap value after → c :: rest ≠ key ++ (gap ++ (value ++ after)))
      (h : Scan P mask (some c) rest out) : Scan P mask prev (c :: rest) (c :: out)
  | hit {prev : Option α} {key gap value rest input out : List α} (hinput : input = key ++ (gap ++ (value ++ rest)))
      (hhit : P.Hit prev key gap value rest) (h : Scan P mask (ends prev (key ++ (gap ++ value))) rest out) :
      Scan P mask prev input (key ++ (gap ++ (mask ++ out)))

/-- Every value found is the mask. -/
def Masked (P : Pattern α) (mask : List α) (prev : Option α) (text : List α) : Prop :=
  ∀ pre key gap value rest, text = pre ++ (key ++ (gap ++ (value ++ rest))) → P.Hit (ends prev pre) key gap value rest →
    value = mask

variable {P Q : Pattern α} {mask : List α}

theorem Masked.tail {prev : Option α} {c : α} {rest : List α} (h : Masked P mask prev (c :: rest)) :
    Masked P mask (some c) rest := by
  intro pre key gap value after htext hhit
  refine h (c :: pre) key gap value after (by rw [htext]; rfl) ?_
  rw [ends_cons]
  exact hhit

theorem Masked.drop {prev : Option α} {read rest : List α} (h : Masked P mask prev (read ++ rest)) :
    Masked P mask (ends prev read) rest := by
  induction read generalizing prev with
  | nil => exact h
  | cons c read ih =>
    rw [ends_cons]
    exact ih h.tail

/-- A pass over a text whose values are all masked changes nothing. -/
theorem Scan.eq_of_masked {prev : Option α} {input out : List α} (h : Scan P mask prev input out)
    (hmasked : Masked P mask prev input) : out = input := by
  induction h with
  | done prev => rfl
  | copy hno h ih => rw [ih hmasked.tail]
  | @hit prev key gap value rest input out hinput hhit h ih =>
    have hvalue : value = mask := hmasked [] key gap value rest hinput hhit
    have hrest : Masked P mask (ends prev (key ++ (gap ++ value))) rest := by
      have hparts : input = key ++ (gap ++ value) ++ rest := by rw [hinput]; simp
      rw [hparts] at hmasked
      exact hmasked.drop
    rw [ih hrest, hinput, hvalue]

theorem Pattern.Lawful.key_ne_nil (hP : P.Lawful mask) {key : List α} (h : P.key key) : key ≠ [] := (hP.outside key h).ne_nil

/-- No key begins within a gap. -/
theorem Pattern.Lawful.not_in_gap (hP : P.Lawful mask) {key gap post more : List α} (hkey : P.key key) (hne : gap ≠ [])
    (hgap : ∀ c ∈ gap, P.gap c = true) : gap ++ post ≠ key ++ more := by
  intro heq
  cases key with
  | nil => exact hP.key_ne_nil hkey rfl
  | cons c key =>
    cases gap with
    | nil => exact hne rfl
    | cons d gap =>
      have hd : P.gap d = true := hgap d List.mem_cons_self
      rw [(List.cons.inj heq).1, hP.head_gap c key hkey] at hd
      cases hd

/-- A pass keeps the first symbol. -/
theorem Scan.head (hP : P.Lawful mask) {prev : Option α} {input out : List α} (h : Scan P mask prev input out) :
    out.head? = input.head? := by
  cases h with
  | done => rfl
  | copy => rfl
  | @hit prev key gap value rest input out hinput hhit h =>
    cases key with
    | nil => exact absurd rfl (hP.key_ne_nil hhit.key)
    | cons c key => rw [hinput]; rfl

/-- Where nothing is found the text is copied. -/
theorem Scan.copies {prev : Option α} {run rest out : List α} (h : Scan P mask prev (run ++ rest) out)
    (hno : ∀ a b, run = a ++ b → b ≠ [] → ∀ key gap value after, P.Hit (ends prev a) key gap value after →
      b ++ rest ≠ key ++ (gap ++ (value ++ after))) :
    ∃ out', out = run ++ out' ∧ Scan P mask (ends prev run) rest out' := by
  induction run generalizing prev out with
  | nil => exact ⟨out, rfl, h⟩
  | cons c run ih =>
    have hstep : ∃ out', out = c :: out' ∧ Scan P mask (some c) (run ++ rest) out' := by
      generalize hinput : c :: run ++ rest = input at h
      cases h with
      | done => cases hinput
      | copy _ h =>
        cases hinput
        exact ⟨_, rfl, h⟩
      | hit hparts hhit _ => exact absurd (hinput.trans hparts) (hno [] (c :: run) rfl (by simp) _ _ _ _ hhit)
    obtain ⟨out', hout, hrest⟩ := hstep
    obtain ⟨out'', hout', hscan⟩ := ih hrest (by
      intro a b hab hb key gap value after hhit
      refine hno (c :: a) b (by rw [hab]; rfl) hb key gap value after ?_
      rw [ends_cons]
      exact hhit)
    exact ⟨out'', by rw [hout, hout']; rfl, by rw [ends_cons]; exact hscan⟩

/-- A pass brings in no symbol but the mask's. -/
theorem Scan.mem {prev : Option α} {input out : List α} (h : Scan P mask prev input out) :
    ∀ c ∈ out, c ∈ input ∨ c ∈ mask := by
  induction h with
  | done prev =>
    intro c hc
    cases hc
  | copy hno h ih =>
    intro c hc
    rcases List.mem_cons.mp hc with heq | hmem
    · exact .inl (heq ▸ List.mem_cons_self)
    · rcases ih c hmem with hin | hmask
      · exact .inl (List.mem_cons_of_mem _ hin)
      · exact .inr hmask
  | @hit prev key gap value rest input out hinput hhit h ih =>
    intro c hc
    simp only [hinput, List.mem_append] at hc ⊢
    rcases hc with hkey | hgap | hmask | hout
    · exact .inl (.inl hkey)
    · exact .inl (.inr (.inl hgap))
    · exact .inr hmask
    · rcases ih c hout with hin | hmask
      · exact .inl (.inr (.inr (.inr hin)))
      · exact .inr hmask

/-- Symbols that begin no key are copied. -/
theorem Scan.copy_all (hP : P.Lawful mask) {prev : Option α} {run rest out : List α}
    (hrun : ∀ c ∈ run, ∀ key, P.key key → key.head? ≠ some c) (h : Scan P mask (ends prev run) rest out) :
    Scan P mask prev (run ++ rest) (run ++ out) := by
  induction run generalizing prev with
  | nil => exact h
  | cons c run ih =>
    rw [ends_cons] at h
    refine .copy ?_ (ih (List.forall_mem_cons.mp hrun).2 h)
    intro key gap value after hhit heq
    refine hrun c List.mem_cons_self key hhit.key ?_
    rw [← List.head?_append_of_ne_nil _ (hP.key_ne_nil hhit.key), ← heq]
    rfl

/-! ## What a pass has done -/

/-- The symbols copied since the last mask (nearest first) end with a key and its gap, and a
    whole value follows. -/
def Pattern.Ready (P : Pattern α) (copied value rest : List α) : Prop :=
  ∃ key gap older : List α, copied = gap.reverse ++ (key.reverse ++ older) ∧ P.key key ∧ (∀ c ∈ gap, P.gap c = true) ∧
    (∀ c ∈ value, P.body c = true) ∧ Stops P.body rest ∧ P.next rest.head? ∧ P.least ≤ value.length

inductive Masks (P : Pattern α) (mask : List α) : List α → List α → List α → Prop
  | done (copied : List α) : Masks P mask copied [] []
  | copy {copied : List α} {c : α} {rest out : List α} (h : Masks P mask (c :: copied) rest out) :
      Masks P mask copied (c :: rest) (c :: out)
  | mask {copied value rest input out : List α} (hinput : input = value ++ rest) (hready : P.Ready copied value rest)
      (h : Masks P mask [] rest out) : Masks P mask copied input (mask ++ out)

theorem Masks.copy_all {copied run rest out : List α} (h : Masks P mask (run.reverse ++ copied) rest out) :
    Masks P mask copied (run ++ rest) (run ++ out) := by
  induction run generalizing copied with
  | nil => exact h
  | cons c run ih =>
    refine Masks.copy (ih ?_)
    rw [List.reverse_cons, List.append_assoc] at h
    exact h

theorem Scan.masks {prev : Option α} {input out : List α} (h : Scan P mask prev input out) (copied : List α) :
    Masks P mask copied input out := by
  induction h generalizing copied with
  | done prev => exact .done copied
  | copy hno h ih => exact .copy (ih _)
  | @hit prev key gap value rest input out hinput hhit h ih =>
    rw [hinput]
    refine Masks.copy_all (Masks.copy_all (Masks.mask rfl ?_ (ih [])))
    exact ⟨key, gap, copied, rfl, hhit.key, hhit.gap_run, hhit.value_run, hhit.value_stops, hhit.next, hhit.least⟩

theorem Masks.read {copied input text post : List α} (htext : Outside mask text) (h : Masks P mask copied input (text ++ post)) :
    ∃ post', input = text ++ post' ∧ Masks P mask (text.reverse ++ copied) post' post := by
  induction text generalizing copied input with
  | nil => exact absurd rfl htext.ne_nil
  | cons c text ih =>
    have hstep : ∃ rest, input = c :: rest ∧ Masks P mask (c :: copied) rest (text ++ post) := by
      generalize hout : c :: text ++ post = out at h
      cases h with
      | done => cases hout
      | copy h =>
        cases hout
        exact ⟨_, rfl, h⟩
      | mask => exact absurd hout htext.not_at_mask
    obtain ⟨rest, hinput, hmasks⟩ := hstep
    rw [List.reverse_cons, List.append_assoc]
    by_cases hne : text = []
    · subst hne
      exact ⟨rest, hinput, hmasks⟩
    · obtain ⟨post', hrest, hpost⟩ := ih (htext.tail hne) hmasks
      exact ⟨post', by rw [hinput, hrest]; rfl, hpost⟩

/-- A text outside the mask that is in the outcome was in the input; what stood before it
    stood there too, or it is what stops a value. -/
theorem Masks.split {copied input out pre text post : List α} (h : Masks P mask copied input out)
    (hout : out = pre ++ (text ++ post)) (htext : Outside mask text) :
    ∃ pre' post' older, input = pre' ++ (text ++ post') ∧ Masks P mask (text.reverse ++ older) post' post ∧
      (pre = [] → pre' = []) ∧ (∀ p, ends p pre' = ends p pre ∨ Stops P.body (text ++ post')) := by
  induction h generalizing pre with
  | done copied =>
    have hnil := congrArg List.length hout
    simp only [List.length_append, List.length_nil] at hnil
    exact absurd (List.eq_nil_of_length_eq_zero (by omega)) htext.ne_nil
  | @copy copied c rest out h ih =>
    cases pre with
    | nil =>
      obtain ⟨post', hinput, hmasks⟩ := Masks.read htext (show Masks P mask copied (c :: rest) (text ++ post) from hout ▸ .copy h)
      exact ⟨[], post', copied, hinput, hmasks, fun _ => rfl, fun _ => .inl rfl⟩
    | cons d pre =>
      obtain ⟨hcd, htail⟩ := List.cons.inj hout
      obtain ⟨pre', post', older, hrest, hmasks, _, hends⟩ := ih htail
      refine ⟨c :: pre', post', older, by rw [hrest]; rfl, hmasks, fun hnil => absurd hnil (by simp), fun p => ?_⟩
      rw [ends_cons, ends_cons, ← hcd]
      exact hends (some c)
  | @mask copied value rest input out hinput hready h ih =>
    obtain ⟨pre', hpre, hrest⟩ := htext.after_mask hout
    obtain ⟨before, post', older, hbefore, hmasks, hfirst, hends⟩ := ih hrest
    refine ⟨value ++ before, post', older, by rw [hinput, hbefore, List.append_assoc], hmasks, fun hnil => ?_, fun p => ?_⟩
    · obtain ⟨z, hz, _⟩ := htext.last
      rw [hpre] at hnil
      rw [(List.append_eq_nil_iff.mp hnil).1] at hz
      cases hz
    · by_cases hnil : pre' = []
      · rw [hfirst hnil] at hbefore
        obtain ⟨_, _, _, _, _, _, _, hstops, _⟩ := hready
        rw [hbefore] at hstops
        exact .inr hstops
      · rcases hends (ends p value) with hsame | hstops
        · refine .inl ?_
          rw [hpre, ends_append, hsame, ends_append]
          exact ends_of_ne_nil hnil _ _
        · exact .inr hstops

/-- Where no value can begin the text is copied. -/
theorem Masks.copies {copied run rest out : List α} (h : Masks P mask copied (run ++ rest) out)
    (hno : ∀ a b, run = a ++ b → b ≠ [] → ∀ value after, b ++ rest = value ++ after → ¬P.Ready (a.reverse ++ copied) value after) :
    ∃ out', out = run ++ out' ∧ Masks P mask (run.reverse ++ copied) rest out' := by
  induction run generalizing copied out with
  | nil => exact ⟨out, rfl, h⟩
  | cons c run ih =>
    have hstep : ∃ out', out = c :: out' ∧ Masks P mask (c :: copied) (run ++ rest) out' := by
      generalize hinput : c :: run ++ rest = input at h
      cases h with
      | done => cases hinput
      | copy h =>
        cases hinput
        exact ⟨_, rfl, h⟩
      | mask hparts hready _ => exact absurd hready (hno [] (c :: run) rfl (by simp) _ _ (hinput.trans hparts))
    obtain ⟨out', hout, hmasks⟩ := hstep
    obtain ⟨out'', hout', hrest⟩ := ih hmasks (by
      intro a b hab hb value after heq hready
      refine hno (c :: a) b (by rw [hab]; rfl) hb value after heq ?_
      rw [List.reverse_cons, List.append_assoc]
      exact hready)
    refine ⟨out'', by rw [hout, hout']; rfl, ?_⟩
    rw [List.reverse_cons, List.append_assoc]
    exact hrest

theorem Masks.head {copied rest out : List α} (h : Masks P mask copied rest out)
    (hno : ∀ value after, rest = value ++ after → ¬P.Ready copied value after) : out.head? = rest.head? := by
  cases h with
  | done => rfl
  | copy => rfl
  | mask hinput hready => exact absurd hready (hno _ _ hinput)

/-! ## After a pass -/

/-- The values of a hit begin where its key and gap end. -/
theorem Pattern.Hit.unique {p : Option α} {key gap value rest gap' value' rest' : List α}
    (h : P.Hit p key gap value rest) (hgap : ∀ c ∈ gap', P.gap c = true) (hgapStops : Stops P.gap (value' ++ rest'))
    (hvalue : ∀ c ∈ value', P.body c = true) (hstops : Stops P.body rest')
    (heq : gap ++ (value ++ rest) = gap' ++ (value' ++ rest')) : gap = gap' ∧ value = value' ∧ rest = rest' := by
  obtain ⟨hgaps, htail⟩ := runs_agree heq h.gap_run h.gap_stops hgap hgapStops
  obtain ⟨hvalues, hrests⟩ := runs_agree htail h.value_run h.value_stops hvalue hstops
  exact ⟨hgaps, hvalues, hrests⟩

/-- A run of the value's symbols comes through, and what stops it. -/
theorem Scan.copies_body (hP : P.Lawful mask) (hclose : ∀ key, P.key key → ∃ c ∈ key, P.body c = false) {prev : Option α}
    {run rest out : List α} (hrun : ∀ c ∈ run, P.body c = true) (h : Scan P mask prev (run ++ rest) out) :
    ∃ out', out = run ++ out' ∧ out'.head? = rest.head? := by
  induction run generalizing prev out with
  | nil => exact ⟨out, rfl, h.head hP⟩
  | cons c run ih =>
    generalize hinput : c :: run ++ rest = input at h
    cases h with
    | done => cases hinput
    | copy _ h =>
      cases hinput
      obtain ⟨out', hout, hhead⟩ := ih (List.forall_mem_cons.mp hrun).2 h
      exact ⟨out', by rw [hout]; rfl, hhead⟩
    | @hit _ key gap value after _ out hparts hhit h =>
      -- the key goes beyond the run
      obtain ⟨z, hz, hzbody⟩ := hclose key hhit.key
      rcases List.append_eq_append_iff.mp (hinput.trans hparts) with ⟨a, hkey, hafter⟩ | ⟨a, hrunkey, _⟩
      · cases a with
        | nil =>
          rw [List.append_nil] at hkey
          rw [hkey] at hz
          rw [hrun z hz] at hzbody
          cases hzbody
        | cons d a =>
          refine ⟨d :: a ++ (gap ++ (mask ++ out)), by rw [hkey]; simp, ?_⟩
          rw [hafter]
          rfl
      · have hzrun : z ∈ c :: run := by
          rw [hrunkey]
          exact List.mem_append_left _ hz
        rw [hrun z hzrun] at hzbody
        cases hzbody

/-- At a key where nothing is found the key and its gap are copied, and no value follows. -/
theorem Scan.copied_key (hP : P.Lawful mask) {prev : Option α} {key post out : List α} (hkey : P.key key)
    (hboundary : P.boundary prev)
    (hno : ∀ k gap value after, P.Hit prev k gap value after → key ++ post ≠ k ++ (gap ++ (value ++ after)))
    (h : Scan P mask prev (key ++ post) out) :
    ∃ post', out = key ++ post' ∧ ∀ gap value rest, post' = gap ++ (value ++ rest) → ¬P.Hit prev key gap value rest := by
  obtain ⟨gap, after, hafter, hgap, hgapStops⟩ := exists_run P.gap post
  obtain ⟨value, rest, hvalueRest, hvalue, hstops⟩ := exists_run P.body after
  rw [hvalueRest] at hafter hgapStops
  rw [hafter] at h hno
  have hmiss : ¬(P.least ≤ value.length ∧ P.next rest.head?) := fun ⟨hleast, hnext⟩ =>
    hno key gap value rest ⟨hboundary, hkey, hgap, hgapStops, hvalue, hstops, hleast, hnext⟩ rfl
  -- no hit begins within the key or the gap
  have hcopies : ∀ a b, key ++ gap = a ++ b → b ≠ [] → ∀ k g v r, P.Hit (ends prev a) k g v r →
      b ++ (value ++ rest) ≠ k ++ (g ++ (v ++ r)) := by
    intro a b hab hb k g v r hhit heq
    rcases List.append_eq_append_iff.mp hab with ⟨b', ha, hgapb⟩ | ⟨b', hkeyb, hbgap⟩
    · exact hP.not_in_gap hhit.key hb (fun c hc => hgap c (by rw [hgapb]; exact List.mem_append_right _ hc)) heq
    · by_cases hb' : b' = []
      · subst hb'
        exact hP.not_in_gap hhit.key hb (fun c hc => hgap c (by rw [← show b = gap from hbgap]; exact hc)) heq
      · rw [hbgap, List.append_assoc] at heq
        have hk : k = b' := hP.agree k a b' (g ++ (v ++ r)) (gap ++ (value ++ rest)) hhit.key (hkeyb ▸ hkey) hb' heq.symm
        rw [hk] at heq
        obtain ⟨_, hv, hr⟩ := hhit.unique hgap hgapStops hvalue hstops (List.append_cancel_left heq).symm
        exact hmiss ⟨hv ▸ hhit.least, hr ▸ hhit.next⟩
  rw [← List.append_assoc] at h
  obtain ⟨out', hout, hscan⟩ := h.copies hcopies
  refine ⟨gap ++ out', by rw [hout, List.append_assoc], ?_⟩
  intro g v r heq hhit
  cases hvalues : value with
  | nil =>
    -- what stops the gap stops the value
    subst hvalues
    have hhead : out'.head? = rest.head? := hscan.head hP
    have hout' : g ++ (v ++ r) = gap ++ ([] ++ out') := heq.symm
    obtain ⟨_, hv, hr⟩ := hhit.unique hgap (hgapStops.of_head (by simpa using hhead)) hvalue (hstops.of_head hhead) hout'
    exact hmiss ⟨hv ▸ hhit.least, by rw [← hhead, ← hr]; exact hhit.next⟩
  | cons c value' =>
    rcases hP.close with hnext | hclose
    · have hleast := hP.least_le
      refine hmiss ⟨?_, hnext _⟩
      rw [hvalues, List.length_cons]
      omega
    · obtain ⟨out'', hout'', hhead⟩ := hscan.copies_body hP hclose hvalue
      have hout' : g ++ (v ++ r) = gap ++ (value ++ out'') := by rw [← hout'']; exact heq.symm
      have hgapStops' : Stops P.gap (value ++ out'') := hgapStops.of_head (by rw [hvalues]; rfl)
      obtain ⟨_, hv, hr⟩ := hhit.unique hgap hgapStops' hvalue (hstops.of_head hhead) hout'
      exact hmiss ⟨hv ▸ hhit.least, by rw [← hhead, ← hr]; exact hhit.next⟩

/-- Nothing that starts with a value's symbol can be right after a mask. -/
theorem Scan.stops (hP : P.Lawful mask) {p : α → Bool} {prev : Option α} {input out : List α} (h : Scan P mask prev input out)
    (hstops : Stops p input) : Stops p out := hstops.of_head (h.head hP)

/-- After a pass every value is the mask. -/
theorem Scan.masked (hP : P.Lawful mask) {prev : Option α} {input out : List α} (h : Scan P mask prev input out) :
    Masked P mask prev out := by
  induction h with
  | done prev =>
    intro pre key gap value rest hout hhit
    have hnil := (List.append_eq_nil_iff.mp (List.append_eq_nil_iff.mp hout.symm).2).1
    exact absurd hnil (hP.key_ne_nil hhit.key)
  | @copy prev c rest out hno h ih =>
    intro pre key gap value after hout hhit
    cases pre with
    | cons d pre =>
      obtain ⟨hcd, htail⟩ := List.cons.inj hout
      rw [ends_cons, ← hcd] at hhit
      exact ih pre key gap value after htail hhit
    | nil =>
      have hscan : Scan P mask prev (c :: rest) (key ++ (gap ++ (value ++ after))) := by
        rw [← show c :: out = key ++ (gap ++ (value ++ after)) from hout]
        exact .copy hno h
      obtain ⟨post, hinput, _⟩ := Masks.read (hP.outside key hhit.key) (hscan.masks [])
      rw [hinput] at hscan hno
      obtain ⟨post', hpost, hmiss⟩ := hscan.copied_key hP hhit.key hhit.boundary hno
      exact absurd hhit (hmiss gap value after (List.append_cancel_left hpost).symm)
  | @hit prev key₀ gap₀ value₀ rest₀ input out hinput hhit₀ h ih =>
    intro pre key gap value after hout hhit
    have hstops : Stops P.body out := h.stops hP hhit₀.value_stops
    rcases List.append_eq_append_iff.mp hout with ⟨a, hpre, hrest⟩ | ⟨a, hkey₀, hrest⟩
    · by_cases ha : ∃ b, gap₀ = a ++ b ∧ b ≠ []
      · -- a key cannot begin in the gap
        obtain ⟨b, hgap₀, hb⟩ := ha
        rw [hgap₀, List.append_assoc] at hrest
        refine absurd (List.append_cancel_left hrest) (hP.not_in_gap hhit.key hb ?_)
        intro c hc
        refine hhit₀.gap_run c ?_
        rw [hgap₀]
        exact List.mem_append_right _ hc
      · -- nor in the mask
        obtain ⟨a', ha', hrest'⟩ : ∃ a', a = gap₀ ++ a' ∧ mask ++ out = a' ++ (key ++ (gap ++ (value ++ after))) := by
          rcases List.append_eq_append_iff.mp hrest with ⟨a', ha', hrest'⟩ | ⟨b, hb, hrest'⟩
          · exact ⟨a', ha', hrest'⟩
          · by_cases hb' : b = []
            · subst hb'
              exact ⟨[], by simpa using hb.symm, by simpa using hrest'.symm⟩
            · exact absurd ⟨b, hb, hb'⟩ ha
        obtain ⟨pre', hpre', hout'⟩ := (hP.outside key hhit.key).after_mask hrest'
        refine ih pre' key gap value after hout' ?_
        by_cases hnil : pre' = []
        · subst hnil
          -- what comes right after the mask stops a value
          rcases hP.start with hboundary | hstart
          · exact { hhit with boundary := hboundary _ }
          · cases key with
            | nil => exact absurd rfl (hP.key_ne_nil hhit.key)
            | cons c key =>
              have hc : P.body c = false := hstops c (by rw [hout']; rfl)
              rw [hstart c key hhit.key] at hc
              cases hc
        · have hends : ends (ends prev (key₀ ++ (gap₀ ++ value₀))) pre' = ends prev pre := by
            rw [hpre, ha', hpre']
            simp only [ends_append]
            exact ends_of_ne_nil hnil _ _
          rw [hends]
          exact hhit
    · by_cases ha : a = []
      · -- right after the key: in the gap, or in the mask
        subst ha
        rw [List.append_nil] at hkey₀
        have hrest' : gap₀ ++ (mask ++ out) = key ++ (gap ++ (value ++ after)) := by simpa using hrest.symm
        by_cases hg : gap₀ = []
        · subst hg
          exact absurd hrest'.symm (hP.outside key hhit.key).not_at_mask
        · exact absurd hrest' (hP.not_in_gap hhit.key hg hhit₀.gap_run)
      · -- within the key: the two keys end together
        have hkey : key = a := hP.agree key pre a (gap ++ (value ++ after)) (gap₀ ++ (mask ++ out)) hhit.key
          (hkey₀ ▸ hhit₀.key) ha hrest
        rw [hkey] at hrest
        exact (hhit.unique hhit₀.gap_run (hP.mask_stops out) hP.mask_body hstops (List.append_cancel_left hrest)).2.1

/-- A later pass keeps the values masked: it cannot begin a value between a key of the
    earlier pattern and its mask, nor within the mask. -/
theorem Masked.preserved (hP : P.Lawful mask) (hboundary : ∀ p, P.boundary p) (hnext : ∀ c, P.next c)
    (hkey : ∀ key run older value rest : List α, P.key key → (∀ c ∈ run, P.gap c = true) →
      ¬Q.Ready (run.reverse ++ (key.reverse ++ older)) value rest)
    (hmask : ∀ a b older value rest : List α, mask = a ++ b → a ≠ [] → ¬Q.Ready (a.reverse ++ older) value rest)
    {prev : Option α} {input out : List α} (h : Masked P mask prev input) (hscan : Scan Q mask prev input out) :
    Masked P mask prev out := by
  intro pre key gap value rest hout hhit
  obtain ⟨pre', post, older, hinput, hmasks, _, _⟩ := (hscan.masks []).split hout (hP.outside key hhit.key)
  -- what follows that key in the input
  obtain ⟨gap', after, hpost, hgap, hgapStops⟩ := exists_run P.gap post
  obtain ⟨value', rest', hafter, hvalue, hstops⟩ := exists_run P.body after
  rw [hafter] at hpost hgapStops
  rw [hpost] at hinput hmasks
  have hvalue' : value' = [] ∧ 0 < P.least ∨ value' = mask := by
    by_cases hleast : P.least ≤ value'.length
    · exact .inr (h pre' key gap' value' rest' hinput
        ⟨hboundary _, hhit.key, hgap, hgapStops, hvalue, hstops, hleast, hnext _⟩)
    · have hle := hP.least_le
      exact .inl ⟨List.eq_nil_of_length_eq_zero (by omega), by omega⟩
  obtain ⟨out', hout', hmasks'⟩ := hmasks.copies fun a b hab _ value after _ =>
    hkey key a older value after hhit.key fun c hc => hgap c (by rw [hab]; exact List.mem_append_left _ hc)
  rcases hvalue' with ⟨hnil, hleast⟩ | hsame
  · -- no value there, and none now
    subst hnil
    have hhead : out'.head? = rest'.head? := hmasks'.head fun value after _ => hkey key gap' older value after hhit.key hgap
    obtain ⟨_, hv, _⟩ := hhit.unique hgap (hgapStops.of_head (by simpa using hhead)) hvalue (hstops.of_head hhead)
      (show gap ++ (value ++ rest) = gap' ++ ([] ++ out') from hout')
    have hlen := hhit.least
    rw [hv, List.length_nil] at hlen
    omega
  · -- the mask comes through
    rw [hsame] at hmasks' hvalue
    obtain ⟨out'', hout'', hmasks''⟩ := hmasks'.copies fun a b hab hb value after _ => by
      by_cases ha : a = []
      · subst ha
        exact hkey key gap' older value after hhit.key hgap
      · exact hmask a b _ value after hab ha
    have hhead : out''.head? = rest'.head? := hmasks''.head fun value after _ => by
      by_cases hm : mask = []
      · rw [hm]
        exact hkey key gap' older value after hhit.key hgap
      · exact hmask mask [] _ value after (List.append_nil mask).symm hm
    rw [hout''] at hout'
    exact (hhit.unique hgap (hP.mask_stops _) hvalue (hstops.of_head hhead) hout').2.1

/-! ## Two texts that differ in a value -/

theorem Pattern.Lawful.hit_unique (hP : P.Lawful mask) {p : Option α} {key gap value rest key' gap' value' rest' : List α}
    (h : P.Hit p key gap value rest) (h' : P.Hit p key' gap' value' rest')
    (heq : key ++ (gap ++ (value ++ rest)) = key' ++ (gap' ++ (value' ++ rest'))) :
    key = key' ∧ gap = gap' ∧ value = value' ∧ rest = rest' := by
  have hkeys : key = key' := hP.agree key [] key' _ _ h.key h'.key (hP.key_ne_nil h'.key) heq
  rw [hkeys] at heq
  exact ⟨hkeys, h.unique h'.gap_run h'.gap_stops h'.value_run h'.value_stops (List.append_cancel_left heq)⟩

theorem Scan.deterministic (hP : P.Lawful mask) {prev : Option α} {input out out' : List α} (h : Scan P mask prev input out)
    (h' : Scan P mask prev input out') : out = out' := by
  induction h generalizing out' with
  | done prev =>
    generalize hinput : ([] : List α) = input at h'
    cases h' with
    | done => rfl
    | copy => cases hinput
    | hit hparts hhit =>
      have hnil := (List.append_eq_nil_iff.mp (hinput.trans hparts).symm).1
      exact absurd hnil (hP.key_ne_nil hhit.key)
  | @copy prev c rest out hno h ih =>
    generalize hinput : c :: rest = input at h'
    cases h' with
    | done => cases hinput
    | copy _ h' =>
      cases hinput
      rw [ih h']
    | hit hparts hhit => exact absurd (hinput.trans hparts) (hno _ _ _ _ hhit)
  | @hit prev key gap value rest input out hinput hhit h ih =>
    cases h' with
    | done =>
      have hnil := (List.append_eq_nil_iff.mp hinput.symm).1
      exact absurd hnil (hP.key_ne_nil hhit.key)
    | copy hno => exact absurd hinput (hno _ _ _ _ hhit)
    | hit hparts hhit' h' =>
      obtain ⟨hkey, hgap, hvalue, hrest⟩ := hP.hit_unique hhit hhit' (hinput.symm.trans hparts)
      subst hkey hgap hvalue hrest
      rw [ih h']

/-- A pattern whose value begins right after the key and runs up to a symbol of no key. -/
structure Pattern.Delimited (P : Pattern α) : Prop where
  no_gap : ∀ c, P.gap c = false
  some_value : 0 < P.least
  last : ∀ key, P.key key → ∃ z, key.getLast? = some z ∧ P.body z = false
  ends_at : ¬P.next none
  apart : ∀ c key, P.next (some c) → P.key key → c ∉ key

theorem Pattern.Delimited.gap_nil (hD : P.Delimited) {p : Option α} {key gap value rest : List α}
    (h : P.Hit p key gap value rest) : gap = [] := by
  cases gap with
  | nil => rfl
  | cons c gap =>
    have hc := h.gap_run c List.mem_cons_self
    rw [hD.no_gap] at hc
    cases hc

/-- What is found at or before a key is found before it, or is that key's value. -/
theorem Pattern.Delimited.first_hit (hP : P.Lawful mask) (hD : P.Delimited) {prev p : Option α}
    {pre key value rest k v r : List α} (hhit : P.Hit p key [] value rest) (hfound : P.Hit prev k [] v r)
    (heq : pre ++ (key ++ (value ++ rest)) = k ++ (v ++ r)) :
    (∃ between, pre = k ++ (v ++ between) ∧ r = between ++ (key ++ (value ++ rest))) ∨
      k = pre ++ key ∧ v = value ∧ r = rest := by
  obtain ⟨z, hz, hzbody⟩ := hD.last key hhit.key
  have hzend : ∀ b a, pre ++ key = a ++ b → b ≠ [] → ∃ b', b = b' ++ [z] := by
    intro b a hab hb
    have hlast : (a ++ b).getLast? = some z := by rw [← hab, List.getLast?_append, hz]; rfl
    obtain ⟨y, hy⟩ : ∃ y, b.getLast? = some y := ⟨_, List.getLast?_eq_some_getLast hb⟩
    rw [List.getLast?_append, hy] at hlast
    cases hlast
    exact ⟨b.dropLast, (List.dropLast_append_getLast? z hy).symm⟩
  have hjoined : pre ++ key ++ (value ++ rest) = k ++ v ++ r := by
    rw [List.append_assoc, List.append_assoc]
    exact heq
  -- once the two keys end together the values are the same
  have hvalues : k = pre ++ key → v = value ∧ r = rest := by
    intro hk
    rw [hk, List.append_assoc] at heq
    obtain ⟨hv, hr⟩ := runs_agree (List.append_cancel_left (List.append_cancel_left heq)) hhit.value_run hhit.value_stops
      hfound.value_run hfound.value_stops
    exact ⟨hv.symm, hr.symm⟩
  rcases List.append_eq_append_iff.mp hjoined with ⟨a, hkv, hafter⟩ | ⟨a, hpk, hr⟩
  · -- the key found reaches the end of this one
    rcases List.append_eq_append_iff.mp hkv with ⟨b, hpk, hv⟩ | ⟨b, hk, _⟩
    · by_cases hb : b = []
      · rw [hb, List.append_nil] at hpk
        exact .inr ⟨hpk.symm, hvalues hpk.symm⟩
      · obtain ⟨b', hb'⟩ := hzend b k hpk hb
        have hzin : P.body z = true := hfound.value_run z (by rw [hv, hb']; simp)
        rw [hzin] at hzbody
        cases hzbody
    · have hkey : key = key ++ b := hP.agree key pre (key ++ b) b [] hhit.key (by
        rw [← List.append_assoc, ← hk]
        exact hfound.key) (by simp [hP.key_ne_nil hhit.key]) (by simp)
      have hb : b = [] := by simpa using hkey
      rw [hb, List.append_nil] at hk
      exact .inr ⟨hk, hvalues hk⟩
  · by_cases ha : a = []
    · -- the value found would end with the key
      rw [ha, List.append_nil] at hpk
      have hvne : v ≠ [] := by
        intro hnil
        have hlen := hfound.least
        have hpos := hD.some_value
        rw [hnil, List.length_nil] at hlen
        omega
      obtain ⟨b', hb'⟩ := hzend v k hpk hvne
      have hzin : P.body z = true := hfound.value_run z (by rw [hb']; simp)
      rw [hzin] at hzbody
      cases hzbody
    · rcases List.append_eq_append_iff.mp hpk with ⟨b, hkv, hkey⟩ | ⟨b, hpre, ha'⟩
      · by_cases hb : b = []
        · rw [hb] at hkv hkey
          refine .inl ⟨[], by simpa using hkv.symm, ?_⟩
          rw [hr, show a = key from hkey.symm]
          simp
        · -- the value found would end within the key
          cases a with
          | nil => exact absurd rfl ha
          | cons c a =>
            have hnext := hfound.next
            rw [hr] at hnext
            refine absurd ?_ (hD.apart c key hnext hhit.key)
            rw [hkey]
            simp
      · refine .inl ⟨b, by rw [hpre, List.append_assoc], ?_⟩
        rw [hr, ha']
        simp

/-- What stood before matters only where a key begins. -/
theorem Scan.of_prev {p q : Option α} {input out : List α} (hno : ∀ key, P.key key → key.head? ≠ input.head?)
    (hP : P.Lawful mask) (h : Scan P mask p input out) : Scan P mask q input out := by
  have hnohit : ∀ r key gap value after, P.Hit r key gap value after → input ≠ key ++ (gap ++ (value ++ after)) := by
    intro r key gap value after hhit heq
    refine hno key hhit.key ?_
    rw [heq, List.head?_append_of_ne_nil _ (hP.key_ne_nil hhit.key)]
  cases h with
  | done => exact .done q
  | copy _ h => exact .copy (hnohit q) h
  | hit hinput hhit _ => exact absurd hinput (hnohit _ _ _ _ _ hhit)

/-- A hit looks no further than the first symbol after the value. -/
theorem Pattern.Delimited.hit_of_head (hD : P.Delimited) {p : Option α} {key value rest rest' : List α}
    (h : P.Hit p key [] value rest) (hhead : rest'.head? = rest.head?) : P.Hit p key [] value rest' :=
  { h with
    gap_stops := fun c _ => hD.no_gap c
    value_stops := h.value_stops.of_head hhead
    next := hhead ▸ h.next }

/-- What the value of a key was does not show in the outcome. -/
theorem Scan.same_value (hP : P.Lawful mask) (hD : P.Delimited) {prev : Option α} {pre key u₁ u₂ rest out : List α}
    (h₁ : P.Hit (ends prev pre) key [] u₁ rest) (h₂ : P.Hit (ends prev pre) key [] u₂ rest)
    (h : Scan P mask prev (pre ++ (key ++ (u₁ ++ rest))) out) : Scan P mask prev (pre ++ (key ++ (u₂ ++ rest))) out := by
  induction hn : pre.length using Nat.strongRecOn generalizing pre prev out with
  | _ n ih =>
  have hkey := hP.key_ne_nil h₁.key
  have hhead : ∀ between, (between ++ (key ++ (u₁ ++ rest))).head? = (between ++ (key ++ (u₂ ++ rest))).head? := by
    intro between
    cases between with
    | nil => rw [List.nil_append, List.nil_append, List.head?_append_of_ne_nil _ hkey, List.head?_append_of_ne_nil _ hkey]
    | cons c between => rfl
  generalize hinput : pre ++ (key ++ (u₁ ++ rest)) = input at h
  cases h with
  | done =>
    have hnil := (List.append_eq_nil_iff.mp (List.append_eq_nil_iff.mp hinput).2).1
    exact absurd hnil hkey
  | @copy _ c after out hno h =>
    cases pre with
    | nil => exact absurd hinput.symm (hno key [] u₁ rest h₁)
    | cons d pre =>
      obtain ⟨hdc, hafter⟩ := List.cons.inj hinput
      subst hdc hafter
      rw [ends_cons] at h₁ h₂
      refine .copy ?_ (ih pre.length (by rw [← hn]; exact Nat.lt_succ_self _) h₁ h₂ h rfl)
      intro k g v r hfound heq
      have hg : g = [] := hD.gap_nil hfound
      subst hg
      have hsame : d :: pre ++ (key ++ (u₂ ++ rest)) = k ++ (v ++ r) := heq
      rcases hD.first_hit hP h₂ hfound hsame with ⟨between, hpre, hr⟩ | ⟨hk, hv, hr⟩
      · refine hno k [] v (between ++ (key ++ (u₁ ++ rest))) (hD.hit_of_head hfound (by rw [hr]; exact hhead between)) ?_
        show d :: pre ++ _ = _
        rw [hpre]
        simp
      · refine hno k [] u₁ rest { h₁ with boundary := hfound.boundary, key := hfound.key } ?_
        rw [hk]
        simp
  | @hit _ k g v r _ out hparts hfound h =>
    have hg : g = [] := hD.gap_nil hfound
    subst hg
    rcases hD.first_hit hP h₁ hfound (hinput.trans hparts) with ⟨between, hpre, hr⟩ | ⟨hk, hv, hr⟩
    · -- found before the key
      have hends : ends prev pre = ends (ends prev (k ++ ([] ++ v))) between := by
        rw [hpre, ← ends_append]
        simp
      have hlt : between.length < n := by
        have hlen := congrArg List.length hpre
        have hpos := List.length_pos_iff.mpr (hP.key_ne_nil hfound.key)
        simp only [List.length_append] at hlen
        omega
      rw [hr] at h
      have hrest := ih between.length hlt (hends ▸ h₁) (hends ▸ h₂) h rfl
      refine .hit ?_ (hD.hit_of_head hfound (by rw [hr]; exact (hhead between).symm)) hrest
      rw [hpre]
      simp
    · -- found at the key
      subst hk hv hr
      have hnext : ∃ c, r.head? = some c ∧ P.next (some c) := by
        have hr := h₁.next
        cases hc : r.head? with
        | none => exact absurd (hc ▸ hr) hD.ends_at
        | some c => exact ⟨c, rfl, hc ▸ hr⟩
      obtain ⟨c, hc, hnextc⟩ := hnext
      refine .hit (by simp) { h₂ with boundary := hfound.boundary, key := hfound.key } (h.of_prev ?_ hP)
      intro k hk hheads
      refine hD.apart c k hnextc hk ?_
      rw [hc] at hheads
      exact List.mem_of_head? hheads

end GitCommitsPush.Lib.Masking
