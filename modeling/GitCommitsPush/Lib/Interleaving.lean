/-
  GitCommitsPush.Lib.Interleaving — parties that take turns on what they share.

  A label names the party that moves and what it is told. The rules:
  - `each_member`: what a party's moves keep of itself and of every other holds of each.
  - `each_pair`: the same of two parties.
  - `each_heard`: what a party's moves keep of itself and of the answers it was given holds of each.
  - `member_later`: a party later is related to the party before as its own moves relate it.
  - `moves_bounded`: parties with a measure that every move lowers make so many moves.
  A run of computed moves is replayed (`replay_steps`).
-/

import GitCommitsPush.Lib.Runs

namespace GitCommitsPush.Lib.Interleaving

open GitCommitsPush.Lib.Runs

variable {σ α β : Type}

structure Parties (σ α : Type) where
  shared : σ
  members : List α

/-- One party moves at a time. -/
def interleaving (start : α → Prop) (move : σ → α → β → σ → α → Prop) : Machine (Parties σ α) (Nat × β) where
  init s := ∀ member ∈ s.members, start member
  step s label s' := ∃ member shared' member', s.members[label.1]? = some member ∧
    move s.shared member label.2 shared' member' ∧ s' = ⟨shared', s.members.set label.1 member'⟩

variable {start : α → Prop} {move : σ → α → β → σ → α → Prop}

theorem set_getElem? {members : List α} {i j : Nat} {member found : α} (h : (members.set i member)[j]? = some found) :
    (i = j ∧ found = member) ∨ (i ≠ j ∧ members[j]? = some found) := by
  by_cases hij : i = j
  · subst hij
    rw [List.getElem?_set] at h
    rw [if_pos rfl] at h
    split at h
    · exact .inl ⟨rfl, (Option.some.inj h).symm⟩
    · cases h
  · rw [List.getElem?_set_ne hij] at h
    exact .inr ⟨hij, h⟩

/-- A property of each party and the shared state. -/
theorem each_member {P : σ → α → Prop} (h0 : ∀ shared member, start member → P shared member)
    (hself : ∀ {shared member answer shared' member'}, P shared member → move shared member answer shared' member' → P shared' member')
    (hother : ∀ {shared member answer shared' member' other}, P shared member → move shared member answer shared' member' →
      P shared other → P shared' other)
    {labels : List (Nat × β)} {s : Parties σ α} (h : Run (interleaving start move) labels s) :
    ∀ (i : Nat) (member : α), s.members[i]? = some member → P s.shared member := by
  refine Run.invariant (I := fun s => ∀ (i : Nat) (member : α), s.members[i]? = some member → P s.shared member)
    (fun s hinit => ?_) (fun s label s' hs hstep => ?_) h
  · have hinit : ∀ member ∈ s.members, start member := hinit
    exact fun i member hget => h0 s.shared member (hinit member (List.mem_of_getElem? hget))
  obtain ⟨member, shared', member', hget, hmove, rfl⟩ := hstep
  have hmember := hs label.1 member hget
  intro i found hfound
  rcases set_getElem? hfound with ⟨-, rfl⟩ | ⟨-, hkept⟩
  · exact hself hmember hmove
  · exact hother hmember hmove (hs i found hkept)

/-- The answers a party is given, in order. -/
def heard (i : Nat) (labels : List (Nat × β)) : List β := labels.filterMap fun label => if label.1 = i then some label.2 else none

theorem heard_snoc (i : Nat) (labels : List (Nat × β)) (label : Nat × β) :
    heard i (labels ++ [label]) = if label.1 = i then heard i labels ++ [label.2] else heard i labels := by
  unfold heard
  rw [List.filterMap_append]
  by_cases hi : label.1 = i <;> simp [hi]

/-- A property of each party and the answers it was given. -/
theorem each_heard {P : List β → α → Prop} (h0 : ∀ member, start member → P [] member)
    (hself : ∀ {told shared member answer shared' member'}, P told member → move shared member answer shared' member' →
      P (told ++ [answer]) member')
    {labels : List (Nat × β)} {s : Parties σ α} (h : Run (interleaving start move) labels s) :
    ∀ (i : Nat) (member : α), s.members[i]? = some member → P (heard i labels) member := by
  refine Run.traceInvariant (P := fun labels s => ∀ (i : Nat) (member : α), s.members[i]? = some member → P (heard i labels) member)
    (fun s hinit => ?_) (fun labels s label s' _ hs hstep => ?_) h
  · have hinit : ∀ member ∈ s.members, start member := hinit
    exact fun i member hget => h0 member (hinit member (List.mem_of_getElem? hget))
  obtain ⟨member, shared', member', hget, hmove, rfl⟩ := hstep
  intro i found hfound
  rw [heard_snoc]
  rcases set_getElem? hfound with ⟨hi, rfl⟩ | ⟨hi, hkept⟩
  · rw [if_pos hi]
    exact hself (hi ▸ hs label.1 member hget) hmove
  · rw [if_neg hi]
    exact hs i found hkept

/-- A property of two parties, kept by a move of the first of them. -/
theorem each_pair {P : σ → α → Prop} {Q : α → α → Prop} (hsymm : ∀ {a b}, Q a b → Q b a) (h0 : ∀ {a b}, start a → start b → Q a b)
    (hmove : ∀ {shared member answer shared' member' other}, P shared member → P shared other → move shared member answer shared' member' →
      Q member other → Q member' other)
    (hP : ∀ {labels s}, Run (interleaving start move) labels s → ∀ (i : Nat) (member : α), s.members[i]? = some member → P s.shared member)
    {labels : List (Nat × β)} {s : Parties σ α} (h : Run (interleaving start move) labels s) :
    ∀ (i j : Nat) (a b : α), i ≠ j → s.members[i]? = some a → s.members[j]? = some b → Q a b := by
  refine Run.invariant_of (I := fun s => ∀ (i j : Nat) (a b : α), i ≠ j → s.members[i]? = some a → s.members[j]? = some b → Q a b)
    (fun _ _ hrun => hP hrun)
    (fun s hinit => ?_) (fun s label s' hmembers hs hstep => ?_) h
  · have hinit : ∀ member ∈ s.members, start member := hinit
    exact fun i j a b _ ha hb => h0 (hinit a (List.mem_of_getElem? ha)) (hinit b (List.mem_of_getElem? hb))
  obtain ⟨member, shared', member', hget, hmoved, rfl⟩ := hstep
  have hmember := hmembers label.1 member hget
  intro i j a b hij ha hb
  rcases set_getElem? ha with ⟨hi, rfl⟩ | ⟨hi, ha'⟩
  · rcases set_getElem? hb with ⟨hj, -⟩ | ⟨hj, hb'⟩
    · exact absurd (hi.symm.trans hj) hij
    · exact hmove hmember (hmembers j b hb') hmoved (hs label.1 j member b hj hget hb')
  · rcases set_getElem? hb with ⟨hj, rfl⟩ | ⟨-, hb'⟩
    · exact hsymm (hmove hmember (hmembers i a ha') hmoved (hs label.1 i member a hi hget ha'))
    · exact hs i j a b hij ha' hb'

/-- How a party stands to what it was, when each of its moves is such a change. -/
theorem member_later {I : α → α → Prop} (hrefl : ∀ a, I a a) (htrans : ∀ {a b c}, I a b → I b c → I a c)
    (hmove : ∀ {shared member answer shared' member'}, move shared member answer shared' member' → I member member')
    {labels : List (Nat × β)} {s s' : Parties σ α} (h : Steps (interleaving start move) s labels s') {i : Nat} {member : α}
    (hmember : s.members[i]? = some member) : ∃ later, s'.members[i]? = some later ∧ I member later := by
  induction h with
  | nil => exact ⟨member, hmember, hrefl member⟩
  | @snoc labels t u label _ hstep ih =>
    obtain ⟨later, hlater, hI⟩ := ih
    obtain ⟨moved, shared', moved', hget, hmoved, rfl⟩ := hstep
    by_cases hi : label.1 = i
    · subst hi
      rw [hlater] at hget
      cases hget
      refine ⟨moved', ?_, htrans hI (hmove hmoved)⟩
      exact List.getElem?_set_self (List.getElem?_eq_some_iff.mp hlater).1
    · exact ⟨later, (List.getElem?_set_ne hi).trans hlater, hI⟩

theorem members_length {labels : List (Nat × β)} {s s' : Parties σ α} (h : Steps (interleaving start move) s labels s') :
    s'.members.length = s.members.length := by
  induction h with
  | nil => rfl
  | snoc _ hstep ih =>
    obtain ⟨member, shared', member', -, -, rfl⟩ := hstep
    exact List.length_set.trans ih

/-! ## Moves that are computed -/

/-- The state after the labels, when each is a move. -/
def replay (advance : σ → α → β → Option (σ × α)) (s : Parties σ α) : List (Nat × β) → Option (Parties σ α)
  | [] => some s
  | label :: labels => s.members[label.1]?.bind fun member => (advance s.shared member label.2).bind fun moved =>
      replay advance ⟨moved.1, s.members.set label.1 moved.2⟩ labels

theorem replay_steps {advance : σ → α → β → Option (σ × α)} {labels : List (Nat × β)} {s s' : Parties σ α}
    (h : replay advance s labels = some s') :
    Steps (interleaving start fun shared member answer shared' member' => advance shared member answer = some (shared', member')) s labels s' := by
  induction labels generalizing s with
  | nil =>
    cases h
    exact .nil
  | cons label labels ih =>
    obtain ⟨member, hmember, h⟩ := Option.bind_eq_some_iff.mp h
    obtain ⟨moved, hmoved, h⟩ := Option.bind_eq_some_iff.mp h
    have hfirst : Steps (interleaving start fun shared member answer shared' member' => advance shared member answer = some (shared', member'))
        s [label] ⟨moved.1, s.members.set label.1 moved.2⟩ := .single ⟨member, moved.1, moved.2, hmember, hmoved, rfl⟩
    exact hfirst.trans (ih h)

/-! ## How many moves there are -/

def total (measure : α → Nat) (members : List α) : Nat := members.foldr (fun member n => measure member + n) 0

theorem total_le {measure : α → Nat} {n : Nat} {members : List α} (h : ∀ member ∈ members, measure member ≤ n) :
    total measure members ≤ n * members.length := by
  induction members with
  | nil => exact Nat.zero_le _
  | cons member members ih =>
    have hfirst := h member List.mem_cons_self
    have hrest := ih fun other hother => h other (List.mem_cons_of_mem _ hother)
    show measure member + total measure members ≤ n * (members.length + 1)
    rw [Nat.mul_add, Nat.mul_one]
    omega

/-- A member that is replaced by a smaller one. -/
theorem total_set {measure : α → Nat} {members : List α} {i : Nat} {member member' : α} (hget : members[i]? = some member)
    (hless : measure member' < measure member) : total measure (members.set i member') < total measure members := by
  induction members generalizing i with
  | nil => cases hget
  | cons first members ih =>
    cases i with
    | zero =>
      have hfirst : first = member := Option.some.inj hget
      rw [← hfirst] at hless
      show measure member' + total measure members < measure first + total measure members
      omega
    | succ i =>
      have hrest := ih hget
      show measure first + total measure (members.set i member') < measure first + total measure members
      omega

theorem moves_bounded (left : α → Nat)
    (hmove : ∀ {shared member answer shared' member'}, move shared member answer shared' member' → left member' < left member)
    {labels : List (Nat × β)} {s s' : Parties σ α} (h : Steps (interleaving start move) s labels s') :
    labels.length + total left s'.members ≤ total left s.members := by
  induction h with
  | nil => simp
  | @snoc labels t u label _ hstep ih =>
    obtain ⟨moved, shared', moved', hget, hmoved, rfl⟩ := hstep
    have hless := total_set hget (hmove hmoved)
    rw [List.length_append, List.length_singleton]
    show labels.length + 1 + total left (t.members.set label.1 moved') ≤ _
    omega

end GitCommitsPush.Lib.Interleaving
