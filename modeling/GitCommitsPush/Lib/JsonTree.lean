/-
  GitCommitsPush.Lib.JsonTree — values of `JSON.parse` and the checks a schema makes of them.

  A reader answers a value or nothing. `Reads` of a kind of value is the relation a reader
  decides; each reader has one lemma that says so.
-/

namespace GitCommitsPush.Lib.JsonTree

/-- A number that is no integer carries nothing; the names of an object's fields are distinct. -/
inductive JsonValue where
  | null
  | bool (value : Bool)
  | number (integer : Option Int)
  | string (value : String)
  | array (items : List JsonValue)
  | object (fields : List (String × JsonValue))

namespace JsonValue

/-! ## Equality -/

mutual

def same : JsonValue → JsonValue → Bool
  | .null, .null => true
  | .bool a, .bool b => a == b
  | .number a, .number b => a == b
  | .string a, .string b => a == b
  | .array items, .array others => sameItems items others
  | .object fields, .object others => sameFields fields others
  | _, _ => false

def sameItems : List JsonValue → List JsonValue → Bool
  | [], [] => true
  | item :: items, other :: others => same item other && sameItems items others
  | _, _ => false

def sameFields : List (String × JsonValue) → List (String × JsonValue) → Bool
  | [], [] => true
  | (name, value) :: fields, (name', value') :: others => name == name' && same value value' && sameFields fields others
  | _, _ => false

end

mutual

theorem same_iff (a b : JsonValue) : a.same b = true ↔ a = b := by
  cases a with
  | array items =>
    cases b with
    | array others => rw [same, sameItems_iff items others, array.injEq]
    | _ => simp [same]
  | object fields =>
    cases b with
    | object others => rw [same, sameFields_iff fields others, object.injEq]
    | _ => simp [same]
  | _ => cases b <;> simp [same]

theorem sameItems_iff (items others : List JsonValue) : sameItems items others = true ↔ items = others := by
  cases items with
  | nil => cases others <;> simp [sameItems]
  | cons item items =>
    cases others with
    | nil => simp [sameItems]
    | cons other others => rw [sameItems, Bool.and_eq_true, same_iff item other, sameItems_iff items others, List.cons.injEq]

theorem sameFields_iff (fields others : List (String × JsonValue)) : sameFields fields others = true ↔ fields = others := by
  cases fields with
  | nil => cases others <;> simp [sameFields]
  | cons field fields =>
    obtain ⟨name, value⟩ := field
    cases others with
    | nil => simp [sameFields]
    | cons other others =>
      obtain ⟨name', value'⟩ := other
      rw [sameFields, Bool.and_eq_true, Bool.and_eq_true, beq_iff_eq, same_iff value value', sameFields_iff fields others,
        List.cons.injEq, Prod.mk.injEq]

end

instance : DecidableEq JsonValue := fun a b => decidable_of_iff (a.same b = true) (same_iff a b)

/-! ## Readers -/

def asString : JsonValue → Option String
  | .string value => some value
  | _ => none

def asBool : JsonValue → Option Bool
  | .bool value => some value
  | _ => none

/-- Whether a value is an object, no array and not null. -/
def isRecord : JsonValue → Bool
  | .object _ => true
  | _ => false

/-- The field of an object; `none` is `undefined`. -/
def field (value : JsonValue) (name : String) : Option JsonValue :=
  match value with
  | .object fields => (fields.find? (·.1 == name)).map (·.2)
  | _ => none

/-- `z.number().int().nonnegative()`. -/
def asNat : JsonValue → Option Nat
  | .number (some integer) => if 0 ≤ integer then some integer.toNat else none
  | _ => none

/-- The fields of an object that has no others than the named: `z.object({…}).strict()`. -/
def asStrictObject (names : List String) : JsonValue → Option (List (String × JsonValue))
  | .object fields => if fields.all fun field => names.contains field.1 then some fields else none
  | _ => none

/-- `z.string().nullable().optional()` of a field; null and absent are `none`. -/
def asOptionalString : Option JsonValue → Option (Option String)
  | none | some .null => some none
  | some (.string value) => some (some value)
  | some _ => none

theorem asString_eq_some {value : JsonValue} {s : String} : value.asString = some s ↔ value = .string s := by
  cases value <;> simp [asString]

theorem asBool_eq_some {value : JsonValue} {b : Bool} : value.asBool = some b ↔ value = .bool b := by
  cases value <;> simp [asBool]

theorem asNat_eq_some {value : JsonValue} {n : Nat} : value.asNat = some n ↔ value = .number (some n) := by
  cases value with
  | number integer =>
    cases integer with
    | none => simp [asNat]
    | some integer =>
      simp only [asNat, JsonValue.number.injEq, Option.some.injEq]
      by_cases h : 0 ≤ integer
      · rw [if_pos h, Option.some.injEq]
        omega
      · rw [if_neg h]
        refine ⟨fun hn => (by cases hn), fun hn => ?_⟩
        omega
  | _ => simp [asNat]

theorem asStrictObject_eq_some {names : List String} {value : JsonValue} {fields : List (String × JsonValue)} :
    value.asStrictObject names = some fields ↔ value = .object fields ∧ ∀ field ∈ fields, field.1 ∈ names := by
  cases value with
  | object others =>
    simp only [asStrictObject, JsonValue.object.injEq]
    by_cases h : (others.all fun field => names.contains field.1) = true
    · rw [if_pos h, Option.some.injEq]
      simp only [List.all_eq_true, List.contains_iff_mem] at h
      exact ⟨fun heq => ⟨heq, heq ▸ h⟩, fun heq => heq.1⟩
    · rw [if_neg h]
      refine ⟨fun hn => (by cases hn), fun ⟨heq, hall⟩ => absurd ?_ h⟩
      simp only [List.all_eq_true, List.contains_iff_mem]
      exact heq ▸ hall
  | _ => simp [asStrictObject]

/-- The field is absent or null and gives nothing, or is a string and gives it. -/
inductive ReadsOptional : Option JsonValue → Option String → Prop
  | absent : ReadsOptional none none
  | null : ReadsOptional (some .null) none
  | string (value : String) : ReadsOptional (some (.string value)) (some value)

theorem asOptionalString_eq_some {field : Option JsonValue} {s : Option String} :
    asOptionalString field = some s ↔ ReadsOptional field s := by
  constructor
  · intro h
    unfold asOptionalString at h
    split at h
    · cases h
      exact .absent
    · cases h
      exact .null
    · cases h
      exact .string _
    · cases h
  · intro h
    cases h <;> rfl

end JsonValue

/-- `mapM` of a reader reads every item. -/
theorem mapM_eq_some_iff {α β : Type} {read : α → Option β} {items : List α} {values : List β} :
    items.mapM read = some values ↔ items.length = values.length ∧
      ∀ (i : Nat) (a : α) (b : β), items[i]? = some a → values[i]? = some b → read a = some b := by
  induction items generalizing values with
  | nil =>
    rw [List.mapM_nil]
    cases values with
    | nil => exact ⟨fun _ => ⟨rfl, fun i a b h => (by cases h)⟩, fun _ => rfl⟩
    | cons b values => exact ⟨fun h => (by cases h), fun h => (by cases h.1)⟩
  | cons a items ih =>
    rw [List.mapM_cons]
    cases hread : read a with
    | none =>
      refine ⟨fun h => (by cases h), fun ⟨hlength, hall⟩ => ?_⟩
      cases values with
      | nil => cases hlength
      | cons b values =>
        have := hall 0 a b rfl rfl
        rw [hread] at this
        cases this
    | some b =>
      cases values with
      | nil =>
        constructor
        · intro h
          cases hrest : items.mapM read <;> simp [hrest] at h
        · intro h
          cases h.1
      | cons c values =>
        have hsplit : (do let b ← some b; let rest ← items.mapM read; pure (b :: rest)) = some (c :: values) ↔
            b = c ∧ items.mapM read = some values := by
          cases hrest : items.mapM read <;> simp
        rw [hsplit, ih]
        constructor
        · intro ⟨hbc, hlength, hall⟩
          refine ⟨by simp [hlength], fun i x y hx hy => ?_⟩
          cases i with
          | zero =>
            cases Option.some.inj hx
            cases Option.some.inj hy
            rw [hread, hbc]
          | succ i => exact hall i x y hx hy
        · intro ⟨hlength, hall⟩
          refine ⟨?_, Nat.succ.inj hlength, fun i x y hx hy => hall (i + 1) x y hx hy⟩
          have := hall 0 a c rfl rfl
          rw [hread] at this
          exact Option.some.inj this

end GitCommitsPush.Lib.JsonTree
