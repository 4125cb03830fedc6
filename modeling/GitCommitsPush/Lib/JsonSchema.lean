/-
  GitCommitsPush.Lib.JsonSchema — schemas: checks that give back what they accept.

  An object schema gives the fields of its shape, in its order; others are left out, or
  refused by a strict one. `Stable`: what a schema gives, it accepts as it is. `Plainly`:
  what it gives can be written and read back. `Exact`: it gives all there is, the order of
  fields apart (`Same`). Each way of building a schema has a rule for each.
-/

import GitCommitsPush.Lib.JsonDocument
import Mathlib.Data.List.Forall2

namespace GitCommitsPush.Lib.JsonSchema

open GitCommitsPush.Lib.JsonDocument (Plain)
open GitCommitsPush.Lib.JsonTree

abbrev Schema := JsonValue → Option JsonValue

/-- What a schema makes of a field, which may be absent. -/
abbrev Field := Option JsonValue → Option (Option JsonValue)

def string : Schema
  | .string value => some (.string value)
  | _ => none

def boolean : Schema
  | .bool value => some (.bool value)
  | _ => none

def literal (flag : Bool) : Schema
  | .bool value => if value = flag then some (.bool value) else none
  | _ => none

def nullable (s : Schema) : Schema
  | .null => some .null
  | value => s value

def array (s : Schema) : Schema
  | .array items => (items.mapM s).map .array
  | _ => none

def union (s t : Schema) : Schema := fun value => (s value).or (t value)

def required (s : Schema) : Field
  | some value => (s value).map some
  | none => none

def optional (s : Schema) : Field
  | some value => (s value).map some
  | none => some none

def defaulted (s : Schema) (missing : JsonValue) : Field
  | some value => (s value).map some
  | none => some (some missing)

def readShape (fields : List (String × JsonValue)) : List (String × Field) → Option (List (String × JsonValue))
  | [] => some []
  | (name, field) :: shape => do
    let found ← field (fields.lookup name)
    let others ← readShape fields shape
    return (found.map fun value => (name, value)).toList ++ others

def object (shape : List (String × Field)) : Schema
  | .object fields => (readShape fields shape).map .object
  | _ => none

/-- `z.object({…}).strict()`. -/
def strict (shape : List (String × Field)) : Schema
  | .object fields => if fields.all fun field => (shape.map (·.1)).contains field.1 then (readShape fields shape).map .object else none
  | _ => none

/-! ## Shapes -/

section Shapes

variable {fields fields' out : List (String × JsonValue)} {shape : List (String × Field)}

/-- A shape reads its own names only. -/
theorem readShape_congr (h : ∀ name ∈ shape.map (·.1), fields.lookup name = fields'.lookup name) :
    readShape fields shape = readShape fields' shape := by
  induction shape with
  | nil => rfl
  | cons first shape ih =>
    obtain ⟨name, field⟩ := first
    rw [readShape, readShape, h name List.mem_cons_self, ih fun other hother => h other (List.mem_cons_of_mem name hother)]

theorem readShape_cons {name : String} {field : Field} (h : readShape fields ((name, field) :: shape) = some out) :
    ∃ found others, field (fields.lookup name) = some found ∧ readShape fields shape = some others ∧
      out = (found.map fun value => (name, value)).toList ++ others := by
  rw [readShape] at h
  obtain ⟨found, hfound, h⟩ := Option.bind_eq_some_iff.mp h
  obtain ⟨others, hothers, h⟩ := Option.bind_eq_some_iff.mp h
  cases h
  exact ⟨found, others, hfound, hothers, rfl⟩

/-- The fields given are of the shape, none twice. -/
theorem readShape_names (h : readShape fields shape = some out) : (out.map (·.1)).Sublist (shape.map (·.1)) := by
  induction shape generalizing out with
  | nil => cases h; exact List.Sublist.refl _
  | cons first shape ih =>
    obtain ⟨found, others, -, hothers, rfl⟩ := readShape_cons h
    cases found with
    | none => exact (ih hothers).cons _
    | some value => exact (ih hothers).cons_cons _

theorem lookup_eq_none {name : String} (h : name ∉ fields.map (·.1)) : fields.lookup name = none := by
  induction fields with
  | nil => rfl
  | cons field fields ih =>
    obtain ⟨hne, hrest⟩ := not_or.mp (fun hmem => h (List.mem_cons.mpr hmem))
    rw [List.lookup_cons, beq_eq_false_iff_ne.mpr hne]
    exact ih hrest

/-- What is given under a name is what its schema makes of the field. -/
theorem readShape_lookup (hnames : (shape.map (·.1)).Nodup) (h : readShape fields shape = some out) {name : String} {field : Field}
    (hfield : (name, field) ∈ shape) : field (fields.lookup name) = some (out.lookup name) := by
  induction shape generalizing out with
  | nil => exact absurd hfield List.not_mem_nil
  | cons first shape ih =>
    obtain ⟨label, labelField⟩ := first
    obtain ⟨found, others, hfound, hothers, rfl⟩ := readShape_cons h
    rw [List.map_cons, List.nodup_cons] at hnames
    have hsub := (readShape_names hothers).subset
    rcases List.mem_cons.mp hfield with heq | hfield
    · cases heq
      rw [hfound]
      have hnone : others.lookup name = none := lookup_eq_none fun hmem => hnames.1 (hsub hmem)
      cases found with
      | none => rw [Option.map_none, Option.toList_none, List.nil_append, hnone]
      | some value => rw [Option.map_some, Option.toList_some, List.singleton_append, List.lookup_cons_self]
    · have hne : name ≠ label := fun heq => hnames.1 (List.mem_map.mpr ⟨_, hfield, heq⟩)
      rw [ih hnames.2 hothers hfield]
      cases found with
      | none => rfl
      | some value =>
        rw [Option.map_some, Option.toList_some, List.singleton_append, List.lookup_cons, beq_eq_false_iff_ne.mpr hne]

end Shapes

/-! ## What a schema gives -/

def Stable (s : Schema) : Prop := ∀ value out, s value = some out → s out = some out

def Plainly (s : Schema) : Prop := ∀ value out, s value = some out → Plain out

def FieldStable (field : Field) : Prop := ∀ found out, field found = some out → field out = some out

def FieldPlainly (field : Field) : Prop := ∀ found out, field found = some out → ∀ value ∈ out, Plain value

section Rules

variable {s t : Schema} {shape : List (String × Field)}

theorem string_stable : Stable string := by
  intro value out h
  cases value <;> cases h
  rfl

theorem boolean_stable : Stable boolean := by
  intro value out h
  cases value <;> cases h
  rfl

theorem nullable_stable (hs : Stable s) : Stable (nullable s) := by
  intro value out h
  cases value with
  | null => cases h; rfl
  | _ =>
    have hout := hs _ _ h
    cases out with
    | null => rfl
    | _ => exact hout

theorem mapM_stable (hs : Stable s) {items out : List JsonValue} (h : items.mapM s = some out) : out.mapM s = some out := by
  induction items generalizing out with
  | nil => cases h; rfl
  | cons item items ih =>
    rw [List.mapM_cons] at h
    obtain ⟨first, hfirst, h⟩ := Option.bind_eq_some_iff.mp h
    obtain ⟨rest, hrest, h⟩ := Option.bind_eq_some_iff.mp h
    cases h
    rw [List.mapM_cons, hs item first hfirst, ih hrest]
    rfl

theorem array_stable (hs : Stable s) : Stable (array s) := by
  intro value out h
  cases value with
  | array items =>
    obtain ⟨given, hgiven, rfl⟩ := Option.map_eq_some_iff.mp h
    exact Option.map_eq_some_iff.mpr ⟨given, mapM_stable hs hgiven, rfl⟩
  | _ => cases h

theorem required_stable (hs : Stable s) : FieldStable (required s) := by
  intro found out h
  cases found with
  | none => cases h
  | some value =>
    obtain ⟨given, hgiven, rfl⟩ := Option.map_eq_some_iff.mp h
    exact Option.map_eq_some_iff.mpr ⟨given, hs value given hgiven, rfl⟩

theorem optional_stable (hs : Stable s) : FieldStable (optional s) := by
  intro found out h
  cases found with
  | none => cases h; rfl
  | some value =>
    obtain ⟨given, hgiven, rfl⟩ := Option.map_eq_some_iff.mp h
    exact Option.map_eq_some_iff.mpr ⟨given, hs value given hgiven, rfl⟩

theorem defaulted_stable (hs : Stable s) {missing : JsonValue} (hmissing : s missing = some missing) :
    FieldStable (defaulted s missing) := by
  intro found out h
  cases found with
  | none => cases h; exact Option.map_eq_some_iff.mpr ⟨missing, hmissing, rfl⟩
  | some value =>
    obtain ⟨given, hgiven, rfl⟩ := Option.map_eq_some_iff.mp h
    exact Option.map_eq_some_iff.mpr ⟨given, hs value given hgiven, rfl⟩

/-- Fields that are each given as they are. -/
theorem readShape_given {given : List (String × JsonValue)} (hnames : (shape.map (·.1)).Nodup) (hsub : (given.map (·.1)).Sublist (shape.map (·.1)))
    (hgiven : ∀ name field, (name, field) ∈ shape → field (given.lookup name) = some (given.lookup name)) :
    readShape given shape = some given := by
  induction shape generalizing given with
  | nil =>
    rw [List.map_nil, List.sublist_nil, List.map_eq_nil_iff] at hsub
    rw [hsub]
    rfl
  | cons first shape ih =>
    obtain ⟨name, field⟩ := first
    have hfirst := hgiven name field List.mem_cons_self
    rw [List.map_cons, List.nodup_cons] at hnames
    rw [readShape, hfirst]
    cases given with
    | nil =>
      have hrest : readShape [] shape = some [] :=
        ih hnames.2 (List.nil_sublist _) fun other field hfield => hgiven other field (List.mem_cons_of_mem _ hfield)
      rw [hrest]
      rfl
    | cons pair rest =>
      obtain ⟨other, value⟩ := pair
      have hrestSub : ∀ {rest : List (String × JsonValue)}, (rest.map (·.1)).Sublist (shape.map (·.1)) → rest.lookup name = none :=
        fun hsub => lookup_eq_none fun hmem => hnames.1 (hsub.subset hmem)
      by_cases hsame : other = name
      · subst hsame
        rw [List.map_cons, List.map_cons, List.cons_sublist_cons] at hsub
        have hcongr : readShape ((other, value) :: rest) shape = readShape rest shape := by
          refine readShape_congr fun label hlabel => ?_
          have hne : label ≠ other := fun heq => hnames.1 (heq ▸ hlabel)
          rw [List.lookup_cons, beq_eq_false_iff_ne.mpr hne]
        rw [List.lookup_cons_self, hcongr, ih hnames.2 hsub fun label labelField hlabel => ?_]
        · rfl
        · have hne : label ≠ other := fun heq => hnames.1 (List.mem_map.mpr ⟨_, hlabel, heq⟩)
          have hwhole := hgiven label labelField (List.mem_cons_of_mem _ hlabel)
          rwa [List.lookup_cons, beq_eq_false_iff_ne.mpr hne] at hwhole
      · have hsub : (((other, value) :: rest).map (·.1)).Sublist (shape.map (·.1)) := by
          rcases List.sublist_cons_iff.mp hsub with hsub | ⟨tail, htail, _⟩
          · exact hsub
          · exact absurd (List.cons.inj htail).1 hsame
        have hnone := hrestSub hsub
        rw [hnone, ih hnames.2 hsub fun label labelField hlabel => hgiven label labelField (List.mem_cons_of_mem _ hlabel)]
        rfl

theorem object_stable (hnames : (shape.map (·.1)).Nodup) (hfields : ∀ field ∈ shape, FieldStable field.2) : Stable (object shape) := by
  intro value out h
  cases value with
  | object fields =>
    obtain ⟨given, hgiven, rfl⟩ := Option.map_eq_some_iff.mp h
    refine Option.map_eq_some_iff.mpr ⟨given, readShape_given hnames (readShape_names hgiven) fun name field hfield => ?_, rfl⟩
    exact hfields _ hfield _ _ (readShape_lookup hnames hgiven hfield)
  | _ => cases h

theorem string_plainly : Plainly string := by
  intro value out h
  cases value <;> cases h
  exact .string _

theorem boolean_plainly : Plainly boolean := by
  intro value out h
  cases value <;> cases h
  exact .bool _

theorem nullable_plainly (hs : Plainly s) : Plainly (nullable s) := by
  intro value out h
  cases value with
  | null => cases h; exact .null
  | _ => exact hs _ _ h

theorem mapM_forall {P : JsonValue → JsonValue → Prop} (hs : ∀ value out, s value = some out → P value out) {items out : List JsonValue}
    (h : items.mapM s = some out) : List.Forall₂ P items out := by
  induction items generalizing out with
  | nil => cases h; exact .nil
  | cons item items ih =>
    rw [List.mapM_cons] at h
    obtain ⟨first, hfirst, h⟩ := Option.bind_eq_some_iff.mp h
    obtain ⟨rest, hrest, h⟩ := Option.bind_eq_some_iff.mp h
    cases h
    exact .cons (hs item first hfirst) (ih hrest)

theorem mapM_member {items out : List JsonValue} (h : items.mapM s = some out) {value : JsonValue} (hvalue : value ∈ out) :
    ∃ item ∈ items, s item = some value := by
  have hall : List.Forall₂ (fun item out => s item = some out) items out := mapM_forall (fun _ _ h => h) h
  clear h
  induction hall with
  | nil => cases hvalue
  | @cons item first items out hfirst _ ih =>
    rcases List.mem_cons.mp hvalue with rfl | hvalue
    · exact ⟨item, List.mem_cons_self, hfirst⟩
    · obtain ⟨other, hother, hsome⟩ := ih hvalue
      exact ⟨other, List.mem_cons_of_mem _ hother, hsome⟩

theorem array_plainly (hs : Plainly s) : Plainly (array s) := by
  intro value out h
  cases value with
  | array items =>
    obtain ⟨given, hgiven, rfl⟩ := Option.map_eq_some_iff.mp h
    refine .array fun item hitem => ?_
    obtain ⟨i, hi, hget⟩ := List.mem_iff_getElem.mp hitem
    have hall : List.Forall₂ (fun _ out => Plain out) items given := mapM_forall hs hgiven
    have hplain := hall.get (by rw [hall.length_eq]; exact hi) hi
    rwa [List.get_eq_getElem, hget] at hplain
  | _ => cases h

theorem required_plainly (hs : Plainly s) : FieldPlainly (required s) := by
  intro found out h value hvalue
  cases found with
  | none => cases h
  | some read =>
    obtain ⟨given, hgiven, rfl⟩ := Option.map_eq_some_iff.mp h
    cases hvalue
    exact hs read _ hgiven

theorem optional_plainly (hs : Plainly s) : FieldPlainly (optional s) := by
  intro found out h value hvalue
  cases found with
  | none => cases h; cases hvalue
  | some read => exact required_plainly hs (some read) out h value hvalue

theorem defaulted_plainly (hs : Plainly s) {missing : JsonValue} (hmissing : Plain missing) : FieldPlainly (defaulted s missing) := by
  intro found out h value hvalue
  cases found with
  | none => cases h; cases hvalue; exact hmissing
  | some read => exact required_plainly hs (some read) out h value hvalue

theorem strict_eq_some {fields : List (String × JsonValue)} {out : JsonValue} (h : strict shape (.object fields) = some out) :
    (∀ field ∈ fields, field.1 ∈ shape.map (·.1)) ∧ object shape (.object fields) = some out := by
  unfold strict at h
  dsimp only at h
  by_cases hknown : (fields.all fun field => (shape.map (·.1)).contains field.1) = true
  · rw [if_pos hknown] at h
    exact ⟨fun field hfield => List.contains_iff_mem.mp (List.all_eq_true.mp hknown field hfield), h⟩
  · rw [if_neg hknown] at h
    cases h

theorem readShape_plain {fields out : List (String × JsonValue)} (hfields : ∀ field ∈ shape, FieldPlainly field.2)
    (h : readShape fields shape = some out) : ∀ pair ∈ out, Plain pair.2 := by
  induction shape generalizing out with
  | nil => cases h; exact fun _ hpair => absurd hpair List.not_mem_nil
  | cons first shape ih =>
    obtain ⟨found, others, hfound, hothers, rfl⟩ := readShape_cons h
    intro pair hpair
    rcases List.mem_append.mp hpair with hpair | hpair
    · cases found with
      | none => exact absurd hpair List.not_mem_nil
      | some value =>
        cases List.mem_singleton.mp hpair
        exact hfields _ List.mem_cons_self _ _ hfound value rfl
    · exact ih (fun field hfield => hfields field (List.mem_cons_of_mem _ hfield)) hothers pair hpair

theorem object_plainly (hnames : (shape.map (·.1)).Nodup) (hfields : ∀ field ∈ shape, FieldPlainly field.2) : Plainly (object shape) := by
  intro value out h
  cases value with
  | object fields =>
    obtain ⟨given, hgiven, rfl⟩ := Option.map_eq_some_iff.mp h
    exact .object (hnames.sublist (readShape_names hgiven)) (readShape_plain hfields hgiven)
  | _ => cases h

/-- What a shape gives, a shape that accepts as much gives too. -/
theorem readShape_weaken {fields out : List (String × JsonValue)} {shape' : List (String × Field)}
    (hshape : List.Forall₂ (fun a b => a.1 = b.1 ∧ ∀ found out, a.2 found = some out → b.2 found = some out) shape shape')
    (h : readShape fields shape = some out) : readShape fields shape' = some out := by
  induction hshape generalizing out with
  | nil => exact h
  | @cons a b shape shape' hab _ ih =>
    obtain ⟨found, others, hfound, hothers, rfl⟩ := readShape_cons h
    obtain ⟨name, field⟩ := b
    obtain ⟨rfl, hfield⟩ := hab
    have hread : field (fields.lookup a.1) = some found := hfield _ _ hfound
    rw [readShape, hread, ih hothers]
    rfl

/-- A strict schema gives what the schema that leaves fields out gives. -/
theorem object_of_strict {value out : JsonValue} (h : strict shape value = some out) : object shape value = some out := by
  cases value with
  | object fields => exact (strict_eq_some h).2
  | _ => cases h

end Rules

/-! ## The order of fields apart -/

inductive Same : JsonValue → JsonValue → Prop
  | refl (value : JsonValue) : Same value value
  | array {items items' : List JsonValue} : items.length = items'.length →
      (∀ (i : Nat) value value', items[i]? = some value → items'[i]? = some value' → Same value value') →
      Same (.array items) (.array items')
  | object {fields fields' : List (String × JsonValue)} :
      (∀ name, (fields.lookup name).isSome = (fields'.lookup name).isSome) →
      (∀ name value value', fields.lookup name = some value → fields'.lookup name = some value' → Same value value') →
      Same (.object fields) (.object fields')

theorem field_object (fields : List (String × JsonValue)) (name : String) : (JsonValue.object fields).field name = fields.lookup name := by
  unfold JsonValue.field
  dsimp only
  induction fields with
  | nil => rfl
  | cons field fields ih =>
    obtain ⟨label, value⟩ := field
    rw [List.lookup_cons]
    by_cases h : label = name
    · subst h
      simp
    · rw [List.find?_cons_of_neg (by simpa using h), beq_eq_false_iff_ne.mpr (Ne.symm h)]
      exact ih

theorem Same.of_items {items items' : List JsonValue} (h : List.Forall₂ Same items items') : Same (.array items) (.array items') := by
  refine .array h.length_eq fun i value value' hvalue hvalue' => ?_
  obtain ⟨hi, rfl⟩ := List.getElem?_eq_some_iff.mp hvalue
  obtain ⟨hi', rfl⟩ := List.getElem?_eq_some_iff.mp hvalue'
  exact h.get hi hi'

theorem Same.of_fields {fields fields' : List (String × JsonValue)}
    (h : List.Forall₂ (fun a b => a.1 = b.1 ∧ Same a.2 b.2) fields fields') : Same (.object fields) (.object fields') := by
  have hlookup : ∀ name, (fields.lookup name).isSome = (fields'.lookup name).isSome ∧ ∀ value value',
      fields.lookup name = some value → fields'.lookup name = some value' → Same value value' := by
    intro name
    induction h with
    | nil => exact ⟨rfl, fun _ _ hvalue => by cases hvalue⟩
    | @cons a b fields fields' hab _ ih =>
      obtain ⟨label, value⟩ := a
      obtain ⟨label', value'⟩ := b
      obtain ⟨rfl, hsame⟩ := hab
      by_cases hname : name = label
      · subst hname
        rw [List.lookup_cons_self, List.lookup_cons_self]
        refine ⟨rfl, fun read read' hread hread' => ?_⟩
        cases hread
        cases hread'
        exact hsame
      · rw [List.lookup_cons, List.lookup_cons, beq_eq_false_iff_ne.mpr hname]
        exact ih
  exact .object (fun name => (hlookup name).1) fun name => (hlookup name).2

/-- A field that is neither an array nor an object is read as it was written. -/
theorem Same.field {read written : JsonValue} (h : Same read written) {name : String} {value : JsonValue}
    (hscalar : ∀ other, Same other value → other = value) (hvalue : written.field name = some value) : read.field name = some value := by
  cases h with
  | refl => exact hvalue
  | array hlength hitems => cases hvalue
  | @object fields fields' hsome hsame =>
    rw [field_object] at hvalue ⊢
    have hfound := hsome name
    rw [hvalue] at hfound
    obtain ⟨other, hother⟩ := Option.isSome_iff_exists.mp hfound
    rw [hother, hscalar other (hsame name other value hother hvalue)]

theorem Same.string {read : JsonValue} {text : String} (h : Same read (.string text)) : read = .string text := by
  cases h; rfl

theorem Same.bool {read : JsonValue} {flag : Bool} (h : Same read (.bool flag)) : read = .bool flag := by
  cases h; rfl

def Exact (s : Schema) : Prop := ∀ value out, s value = some out → Same out value

def FieldExact (field : Field) : Prop := ∀ found out, field found = some out →
  out.isSome = found.isSome ∧ ∀ value given, found = some value → out = some given → Same given value

section Exact

variable {s : Schema} {shape : List (String × Field)}

theorem string_exact : Exact string := by
  intro value out h
  cases value <;> cases h
  exact .refl _

theorem boolean_exact : Exact boolean := by
  intro value out h
  cases value <;> cases h
  exact .refl _

theorem nullable_exact (hs : Exact s) : Exact (nullable s) := by
  intro value out h
  cases value with
  | null => cases h; exact .refl _
  | _ => exact hs _ _ h

theorem array_exact (hs : Exact s) : Exact (array s) := by
  intro value out h
  cases value with
  | array items =>
    obtain ⟨given, hgiven, rfl⟩ := Option.map_eq_some_iff.mp h
    have hall := mapM_forall hs hgiven
    refine .array hall.length_eq.symm fun i read read' hread hread' => ?_
    obtain ⟨hi, rfl⟩ := List.getElem?_eq_some_iff.mp hread
    obtain ⟨hi', rfl⟩ := List.getElem?_eq_some_iff.mp hread'
    exact hall.get hi' hi
  | _ => cases h

theorem required_exact (hs : Exact s) : FieldExact (required s) := by
  intro found out h
  cases found with
  | none => cases h
  | some value =>
    obtain ⟨given, hgiven, rfl⟩ := Option.map_eq_some_iff.mp h
    refine ⟨rfl, fun read read' hread hread' => ?_⟩
    cases hread
    cases hread'
    exact hs value given hgiven

theorem optional_exact (hs : Exact s) : FieldExact (optional s) := by
  intro found out h
  cases found with
  | none => cases h; exact ⟨rfl, fun _ _ hread => by cases hread⟩
  | some value => exact required_exact hs (some value) out h

/-- A strict object gives every field there is. -/
theorem strict_exact (hnames : (shape.map (·.1)).Nodup) (hfields : ∀ field ∈ shape, FieldExact field.2) : Exact (strict shape) := by
  intro value out h
  cases value with
  | object fields =>
    obtain ⟨hknown, h⟩ := strict_eq_some h
    obtain ⟨given, hgiven, rfl⟩ := Option.map_eq_some_iff.mp h
    have hother : ∀ name, name ∉ shape.map (·.1) → fields.lookup name = none ∧ given.lookup name = none := by
      intro name hname
      refine ⟨lookup_eq_none fun hmem => ?_, lookup_eq_none fun hmem => hname ((readShape_names hgiven).subset hmem)⟩
      obtain ⟨field, hfield, rfl⟩ := List.mem_map.mp hmem
      exact hname (hknown field hfield)
    have hread : ∀ name ∈ shape.map (·.1), ∃ field, FieldExact field ∧ field (fields.lookup name) = some (given.lookup name) := by
      intro name hname
      obtain ⟨pair, hpair, rfl⟩ := List.mem_map.mp hname
      exact ⟨pair.2, hfields pair hpair, readShape_lookup hnames hgiven hpair⟩
    constructor
    · intro name
      by_cases hname : name ∈ shape.map (·.1)
      · obtain ⟨field, hexact, hfield⟩ := hread name hname
        exact (hexact _ _ hfield).1
      · rw [(hother name hname).1, (hother name hname).2]
    · intro name read read' hgivenName hfieldsName
      by_cases hname : name ∈ shape.map (·.1)
      · obtain ⟨field, hexact, hfield⟩ := hread name hname
        exact (hexact _ _ hfield).2 read' read hfieldsName hgivenName
      · rw [(hother name hname).1] at hfieldsName
        cases hfieldsName
  | _ => cases h

end Exact

end GitCommitsPush.Lib.JsonSchema
