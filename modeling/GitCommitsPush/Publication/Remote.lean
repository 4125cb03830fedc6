/-
  GitCommitsPush.Publication.Remote — remote refs that others move as well.

  `remoteHost` is a host whose `ls-remote` and `push` act on the refs of the remotes. Before
  each of these calls the `Environment` moves the refs as others might, and it decides how the
  call ends: a read may fail, a push under a lease that holds may be refused, or be applied
  and reported as failed. A push is applied under its lease only. `merge-base --is-ancestor`
  succeeds on ancestors only and HEAD is an object id; every other command is `other`'s.

  The log holds every Git call made, with its end. A read has the refs that the remote
  answered with: `ls-remote` prints all that end in the name asked for, and the code takes
  the first (`AdvertisedRefs.firstListed`), which may be another than the ref of that name.
-/

import GitCommitsPush.Lib.Log
import GitCommitsPush.Publication.DestinationRead
import GitCommitsPush.Publication.PushKeeps

namespace GitCommitsPush.Publication

open GitCommitsPush.Lib.Effect
open GitCommitsPush.Lib.JsText
open GitCommitsPush.Lib.Log (Logs)

/-! ## Refs that are set -/

/-- The refs with one set, in ref order. -/
def insertRef (new : RemoteRef) : List RemoteRef → List RemoteRef
  | [] => [new]
  | r :: rest =>
    if new.name < r.name then new :: r :: rest
    else if new.name = r.name then new :: rest
    else r :: insertRef new rest

theorem mem_insertRef {new r : RemoteRef} {refs : List RemoteRef} (h : r ∈ insertRef new refs) : r = new ∨ r ∈ refs := by
  induction refs with
  | nil => exact .inl (List.mem_singleton.mp h)
  | cons first rest ih =>
    unfold insertRef at h
    split at h
    · exact List.mem_cons.mp h
    split at h
    · exact (List.mem_cons.mp h).imp_right (List.mem_cons_of_mem _)
    · rcases List.mem_cons.mp h with rfl | h
      · exact .inr List.mem_cons_self
      · exact (ih h).imp_right (List.mem_cons_of_mem _)

theorem insertRef_ordered {new : RemoteRef} {refs : List RemoteRef} (h : refs.Pairwise (·.name < ·.name)) :
    (insertRef new refs).Pairwise (·.name < ·.name) := by
  induction refs with
  | nil => exact List.pairwise_singleton _ _
  | cons first rest ih =>
    obtain ⟨hfirst, hrest⟩ := List.pairwise_cons.mp h
    unfold insertRef
    split
    · rename_i hbefore
      refine List.pairwise_cons.mpr ⟨fun r hr => ?_, h⟩
      rcases List.mem_cons.mp hr with rfl | hr
      · exact hbefore
      · exact String.lt_trans hbefore (hfirst r hr)
    · rename_i hbefore
      split
      · rename_i hsame
        exact List.pairwise_cons.mpr ⟨fun r hr => hsame ▸ hfirst r hr, hrest⟩
      · rename_i hother
        refine List.pairwise_cons.mpr ⟨fun r hr => ?_, ih hrest⟩
        rcases mem_insertRef hr with rfl | hr
        · exact Std.lt_of_le_of_ne hbefore (Ne.symm hother)
        · exact hfirst r hr

def AdvertisedRefs.set (advertised : AdvertisedRefs) (name : String) (id : ObjectId) : AdvertisedRefs :=
  ⟨insertRef ⟨name, id⟩ advertised.refs, insertRef_ordered advertised.ordered⟩

/-! ## The world -/

/-- A ref of a remote repository. -/
structure Place where
  address : String
  ref : String
  deriving DecidableEq

inductive Call where
  | command (cwd : String) (args : List String) (result : Except ExecError String)
  /-- The refs that the remote had, or why they were not read. -/
  | read (place : Place) (answer : Except ExecError AdvertisedRefs)
  /-- The value the push found, and whether it replaced it by its source. -/
  | push (place : Place) (source : String) (before : Option ObjectId) (applied : Bool) (result : Except ExecError String)

def Call.isRemote : Call → Bool
  | .command .. => false
  | .read .. | .push .. => true

def Call.isPush : Call → Bool
  | .command .. | .read .. => false
  | .push .. => true

/-- The refs of each remote repository. -/
structure Remote (τ : Type) where
  refs : String → AdvertisedRefs
  log : List Call
  rest : τ

/-- How a push ends when its lease holds; one that is not applied is rejected. -/
structure PushFate where
  applies : Bool
  reported : Except ExecError String
  rejection : ExecError

structure Environment (τ : Type) where
  /-- Where a remote's name leads under a process configuration. -/
  address : List (String × String) → String → String
  isAncestor : String → String → Bool
  /-- The refs as others have moved them by the time of the call. -/
  others : Remote τ → String → AdvertisedRefs
  head : Remote τ → Except ExecError ObjectId
  mergeBase : Remote τ → Except ExecError String
  read : Remote τ → Except ExecError Unit
  push : Remote τ → PushFate

section Host

variable {τ : Type}

def Remote.logged (w : Remote τ) (call : Call) : Remote τ := { w with log := w.log ++ [call] }

def onRemoteRest {α : Type} (x : Action τ ExecError α) : Action (Remote τ) ExecError α := fun w =>
  ((x.run w.rest).1, { w with rest := (x.run w.rest).2 })

variable (env : Environment τ)

def command (cwd : String) (args : List String) (x : Action (Remote τ) ExecError String) :
    Action (Remote τ) ExecError String := fun w =>
  ((x.run w).1, (x.run w).2.logged (.command cwd args (x.run w).1))

/-- The ref of the place, as others have left it. -/
def Environment.found (w : Remote τ) (place : Place) : Option ObjectId := (env.others w place.address).lookup place.ref

def lsRemote (place : Place) : Action (Remote τ) ExecError String := fun w =>
  let answer := (env.read w).map fun _ => env.others w place.address
  (answer.map (·.lsRemote place.ref), { w with refs := env.others w }.logged (.read place answer))

def leaseArgument (ref : String) (before : Option ObjectId) : String :=
  "--force-with-lease=" ++ ref ++ ":" ++ (before.map ObjectId.text).getD ""

def ObjectId.parse (text : String) : Option ObjectId :=
  if h : gitObjectIdSchema text = true then some ⟨text, h⟩ else none

/-- The two sides of a refspec. -/
def refspecSource (refspec : String) : String := String.ofList (refspec.toList.takeWhile (· != ':'))

def refspecDestination (refspec : String) : String := String.ofList ((refspec.toList.dropWhile (· != ':')).drop 1)

/-- What a leased push sets its ref to, if it does. -/
def pushApplied (w : Remote τ) (place : Place) (source lease : String) : Option ObjectId :=
  if (env.push w).applies = true ∧ lease = leaseArgument place.ref (env.found w place) then ObjectId.parse source else none

def gitPush (place : Place) (source lease : String) : Action (Remote τ) ExecError String := fun w =>
  let before := env.found w place
  match pushApplied env w place source lease with
  | none =>
    let result := .error (env.push w).rejection
    (result, { w with refs := env.others w }.logged (.push place source before false result))
  | some id =>
    let result := (env.push w).reported
    (result, { w with refs := fun address =>
      if address = place.address then (env.others w address).set place.ref id else env.others w address }.logged
      (.push place source before true result))

def remoteHost (other : Host τ) : Host (Remote τ) where
  sha256 := other.sha256
  localeCompare := other.localeCompare
  execSync cwd command := onRemoteRest (other.execSync cwd command)
  execFileGit cwd args processConfig := match args with
    | ["ls-remote", "--", remote, ref] => lsRemote env ⟨env.address processConfig remote, ref⟩
    | ["push", lease, "--", remote, refspec] =>
      gitPush env ⟨env.address processConfig remote, refspecDestination refspec⟩ (refspecSource refspec) lease
    | ["rev-parse", "HEAD"] => command cwd args fun w => ((env.head w).map fun id => id.text ++ "\n", w)
    | ["merge-base", "--is-ancestor", possibleAncestor, possibleDescendant] => command cwd args fun w =>
      (if env.isAncestor possibleAncestor possibleDescendant = true then env.mergeBase w
        else .error (plainError "Command failed: git merge-base"), w)
    | _ => command cwd args (onRemoteRest (other.execFileGit cwd args processConfig))
  writeMessage i message := onRemoteRest (other.writeMessage i message)
  pathExists cwd file := onRemoteRest (other.pathExists cwd file)
  randomUUID := onRemoteRest other.randomUUID
  runTestCascade repository := onRemoteRest (other.runTestCascade repository)

end Host

/-! ## What a call logs -/

section Calls

variable {τ : Type} (env : Environment τ) (other : Host τ)

theorem command_logs (cwd : String) (args : List String) {x : Action (Remote τ) ExecError String}
    {P : Except ExecError String → Prop} (hkeeps : ∀ w, (x.run w).2.log = w.log ∧ P (x.run w).1) :
    Logs Remote.log (command cwd args x) fun r calls => calls = [.command cwd args r] ∧ P r := by
  intro w
  refine ⟨[.command cwd args (x.run w).1], ?_, rfl, (hkeeps w).2⟩
  show (x.run w).2.log ++ _ = _
  rw [(hkeeps w).1]

/-- A command that does not reach the remote. -/
theorem execFileGit_logs (cwd : String) {args : List String} (processConfig : List (String × String))
    (hargs : args.headD "" ≠ "ls-remote" ∧ args.headD "" ≠ "push") :
    Logs Remote.log ((remoteHost env other).execFileGit cwd args processConfig) fun r calls =>
      calls = [.command cwd args r] := by
  have hlogged : ∀ x : Action (Remote τ) ExecError String, (∀ w, (x.run w).2.log = w.log) →
      Logs Remote.log (command cwd args x) fun r calls => calls = [.command cwd args r] := by
    intro x hx
    exact (command_logs cwd args (P := fun _ => True) fun w => ⟨hx w, True.intro⟩).conseq fun r calls h => h.1
  unfold remoteHost
  dsimp only
  split
  · exact absurd rfl hargs.1
  · exact absurd rfl hargs.2
  · exact hlogged _ fun _ => rfl
  · exact hlogged _ fun _ => rfl
  · exact hlogged _ fun _ => rfl

theorem revParse_logs (cwd : String) (processConfig : List (String × String)) :
    Logs Remote.log ((remoteHost env other).execFileGit cwd ["rev-parse", "HEAD"] processConfig) fun r calls =>
      calls = [.command cwd ["rev-parse", "HEAD"] r] ∧ ∀ out, r = .ok out → ∃ id : ObjectId, out = id.text ++ "\n" := by
  refine command_logs cwd _ fun w => ⟨rfl, ?_⟩
  intro out hout
  have hhead : (env.head w).map (fun id => id.text ++ "\n") = .ok out := hout
  cases h : env.head w with
  | error e =>
    rw [h] at hhead
    cases hhead
  | ok id =>
    rw [h] at hhead
    exact ⟨id, (Except.ok.inj hhead).symm⟩

/-- `merge-base --is-ancestor` succeeds on an ancestor only. -/
theorem mergeBase_logs (cwd possibleAncestor possibleDescendant : String) (processConfig : List (String × String)) :
    Logs Remote.log ((remoteHost env other).execFileGit cwd
      ["merge-base", "--is-ancestor", possibleAncestor, possibleDescendant] processConfig) fun r calls =>
      calls = [.command cwd ["merge-base", "--is-ancestor", possibleAncestor, possibleDescendant] r] ∧
        ∀ out, r = .ok out → env.isAncestor possibleAncestor possibleDescendant = true := by
  refine command_logs cwd _ fun w => ⟨rfl, ?_⟩
  intro out hout
  by_cases h : env.isAncestor possibleAncestor possibleDescendant = true
  · exact h
  · have hfailed : (if env.isAncestor possibleAncestor possibleDescendant = true then env.mergeBase w
      else .error (plainError "Command failed: git merge-base")) = .ok out := hout
    rw [if_neg h] at hfailed
    cases hfailed

theorem lsRemote_logs (place : Place) : Logs Remote.log (lsRemote env place) fun r calls =>
    ∃ answer, calls = [.read place answer] ∧ r = answer.map (·.lsRemote place.ref) := fun _ => ⟨_, rfl, _, rfl, rfl⟩

/-- A push that is applied sets the ref from the value leased to its source. -/
theorem gitPush_logs (place : Place) (source lease : String) :
    Logs Remote.log (gitPush env place source lease) fun r calls => ∃ before applied,
      calls = [.push place source before applied r] ∧ (applied = true → lease = leaseArgument place.ref before) ∧
        (applied = false → ∃ e, r = .error e) := by
  intro w
  have hrun : (gitPush env place source lease).run w = match pushApplied env w place source lease with
    | none => (.error (env.push w).rejection, { w with refs := env.others w }.logged
        (.push place source (env.found w place) false (.error (env.push w).rejection)))
    | some id => ((env.push w).reported, { w with refs := fun address =>
        if address = place.address then (env.others w address).set place.ref id else env.others w address }.logged
        (.push place source (env.found w place) true (env.push w).reported)) := by
    unfold gitPush
    dsimp only [Action.run]
  rw [hrun]
  cases happlied : pushApplied env w place source lease with
  | none => exact ⟨_, rfl, env.found w place, false, rfl, (fun h => by cases h), fun _ => ⟨_, rfl⟩⟩
  | some id =>
    refine ⟨_, rfl, env.found w place, true, rfl, fun _ => ?_, (fun h => by cases h)⟩
    unfold pushApplied at happlied
    split at happlied
    · rename_i h
      exact h.2
    · cases happlied

end Calls

/-! ## The endpoint -/

theorem leaseArgument_inj {ref : String} {a b : Option ObjectId} (h : leaseArgument ref a = leaseArgument ref b) : a = b := by
  have htext : (a.map ObjectId.text).getD "" = (b.map ObjectId.text).getD "" := (String.append_right_inj _).mp h
  cases a with
  | none =>
    cases b with
    | none => rfl
    | some b => exact absurd htext.symm b.ne_empty
  | some a =>
    cases b with
    | none => exact absurd htext a.ne_empty
    | some b => exact congrArg some (ObjectId.text_inj htext)

theorem refspec_sides (id : ObjectId) (ref : String) :
    refspecSource (id.text ++ ":" ++ ref) = id.text ∧ refspecDestination (id.text ++ ":" ++ ref) = ref := by
  have hcolon : ∀ c ∈ id.text.toList, (c != ':') = true := by
    intro c hc
    rw [bne_iff_ne]
    intro h
    subst h
    exact absurd (id.hex _ hc) (by decide)
  have hlist : (id.text ++ ":" ++ ref).toList = id.text.toList ++ ':' :: ref.toList := by
    simp only [String.toList_append, List.append_assoc]
    rfl
  constructor
  · rw [refspecSource, hlist, List.takeWhile_append_of_pos hcolon, List.takeWhile_cons_of_neg (by decide), List.append_nil,
      String.ofList_toList]
  · rw [refspecDestination, hlist, List.dropWhile_append_of_pos hcolon, List.dropWhile_cons_of_neg (by decide)]
    exact String.ofList_toList

section Endpoint

variable {τ : Type} (env : Environment τ) (other : Host τ) (pushEndpoint : ResolvedPushEndpoint)

/-- Where an endpoint reads and pushes a ref. -/
def ResolvedPushEndpoint.place (ref : String) : Place :=
  ⟨env.address pushEndpoint.processConfig pushEndpoint.ephemeralRemote, ref⟩

/-- A read tells the first ref listed. -/
theorem readOptionalDestinationSha_logs (destinationRef : String) :
    Logs Remote.log (pushEndpoint.readOptionalDestinationSha (remoteHost env other) destinationRef) fun r calls =>
      ∃ answer, calls = [.read (pushEndpoint.place env destinationRef) answer] ∧
        r = answer.map fun advertised => (advertised.firstListed destinationRef).map ObjectId.text := by
  have hread := ((lsRemote_logs env (pushEndpoint.place env destinationRef)).map trimString).map fun result =>
    nonEmpty (String.ofList (result.toList.takeWhile fun c => !isSpace c))
  refine hread.conseq fun r calls h => ?_
  obtain ⟨_, ⟨r', ⟨answer, rfl, rfl⟩, rfl⟩, rfl⟩ := h
  refine ⟨answer, rfl, ?_⟩
  cases answer with
  | error e => rfl
  | ok advertised => exact congrArg Except.ok (lsRemote_read advertised destinationRef)

/-- One leased push: applied on the value leased only, successful only when applied. -/
theorem pushExact_logs (source : ObjectId) (destinationRef : String) (baseline : Option ObjectId) :
    Logs Remote.log (pushEndpoint.pushExact (remoteHost env other) source.text destinationRef (baseline.map ObjectId.text))
      fun r calls => ∃ before applied result,
        calls = [.push (pushEndpoint.place env destinationRef) source.text before applied result] ∧
          (applied = true → before = baseline) ∧ (applied = false → ∃ e, result = .error e) ∧ r = result.map fun _ => () := by
  have hsides := refspec_sides source destinationRef
  have hsame : (remoteHost env other).execFileGit pushEndpoint.repoPath
      ["push", leaseArgument destinationRef baseline, "--", pushEndpoint.ephemeralRemote, source.text ++ ":" ++ destinationRef]
      pushEndpoint.processConfig =
      gitPush env (pushEndpoint.place env destinationRef) source.text (leaseArgument destinationRef baseline) := by
    show gitPush env ⟨_, refspecDestination (source.text ++ ":" ++ destinationRef)⟩
      (refspecSource (source.text ++ ":" ++ destinationRef)) _ = _
    rw [hsides.1, hsides.2]
    rfl
  have hpush : Logs Remote.log ((remoteHost env other).execFileGit pushEndpoint.repoPath
      ["push", leaseArgument destinationRef baseline, "--", pushEndpoint.ephemeralRemote, source.text ++ ":" ++ destinationRef]
      pushEndpoint.processConfig) fun r calls => ∃ before applied,
        calls = [.push (pushEndpoint.place env destinationRef) source.text before applied r] ∧
          (applied = true → before = baseline) ∧ (applied = false → ∃ e, r = .error e) := by
    rw [hsame]
    refine (gitPush_logs env (pushEndpoint.place env destinationRef) source.text
      (leaseArgument destinationRef baseline)).conseq fun r calls hcalls => ?_
    obtain ⟨before, applied, hcalls, happlied, hrejected⟩ := hcalls
    exact ⟨before, applied, hcalls, fun ha => (leaseArgument_inj (happlied ha)).symm, hrejected⟩
  refine ((hpush.map trimString).map fun _ => ()).conseq fun r calls h => ?_
  obtain ⟨_, ⟨r', ⟨before, applied, rfl, happlied, hrejected⟩, rfl⟩, rfl⟩ := h
  refine ⟨before, applied, r', rfl, happlied, hrejected, ?_⟩
  cases r' <;> rfl

end Endpoint

end GitCommitsPush.Publication
