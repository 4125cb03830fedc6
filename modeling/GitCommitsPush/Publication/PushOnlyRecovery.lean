/-
  GitCommitsPush.Publication.PushOnlyRecovery — a push-only checkpoint, executed any number
  of times.

  An execution of `handlePushOnlyCheckpointResult` may be interrupted after any of its Git
  calls; between executions, and before each call to the remote, others change what they
  like. `Recovered` is what every execution keeps to: it pushes the validated HEAD over the
  persisted baseline, after every check, and it succeeds only on a read of the validated
  HEAD. Its reads tell the first ref listed, which is the destination where no other ref
  shadows it (`executions_recovered`); a shadowing ref makes it succeed with the destination
  elsewhere (`shadowed_execution`).
-/

import GitCommitsPush.Lib.Runs
import GitCommitsPush.Publication.ExactPush
import GitCommitsPush.Publication.PushOnly
import GitCommitsPush.Publication.StateSchema

namespace GitCommitsPush.Publication

open GitCommitsPush.Lib.Effect
open GitCommitsPush.Lib.JsText
open GitCommitsPush.Lib.Log (Logs EveryEntry Performed)
open GitCommitsPush.Lib.Runs
open GitCommitsPush.Lib.Trace (lifted note lifted_logs note_logs)
open GitCommitsPush.Scanner

/-! ## What an execution keeps to -/

section Checks

variable {τ : Type} (host : Host (Remote τ)) (repoPath : String) (snapshot : PersistedSnapshot)
variable (value : AdvertisedRefs → Option ObjectId)

/-- The commits to publish are the snapshot's, and their patches passed the scan. -/
structure PatchesScanned (before : List Call) : Prop where
  outgoing : ∃ out, .command repoPath ["rev-list", "--reverse",
    snapshot.destinationBaselineSha ++ ".." ++ snapshot.validatedHeadSha] (.ok out) ∈ before ∧
      splitNonemptyLines (trimString out) = snapshot.outgoingShas
  scanned : ∃ shown : List (String × String), shown.map (·.1) = snapshot.outgoingShas ∧
    (∀ p ∈ shown, .command repoPath ["show", "--format=", "--binary", "--no-ext-diff", p.1] (.ok p.2) ∈ before) ∧
    (scanDiff (joinStrings "\n" (shown.map fun p => trimString p.2)).toList).clean = true

/-- Nothing the snapshot recorded has moved. -/
structure Unmoved (place : Place) (before : List Call) : Prop where
  branch : ∃ out, .command repoPath ["symbolic-ref", "--quiet", "--short", "HEAD"] (.ok out) ∈ before ∧
    trimString out = snapshot.sourceBranch
  head : ∃ out, .command repoPath ["rev-parse", "HEAD"] (.ok out) ∈ before ∧ trimString out = snapshot.validatedHeadSha
  worktree : ∃ out, .command repoPath ["status", "--porcelain=v1", "--untracked-files=all"] (.ok out) ∈ before ∧
    trimString out = ""
  destination : Performed Remote.log (resolveTrackedPushDestination host repoPath snapshot.sourceBranch)
    (some ⟨snapshot.upstreamRef, snapshot.remote, snapshot.destinationRef⟩) before
  baseline : ∃ c ∈ before, Reading value place (.ok (some snapshot.baseline)) c

/-- The endpoint is the one the snapshot was taken of. -/
structure Pinned (pushEndpoint : ResolvedPushEndpoint) (before : List Call) : Prop where
  resolved : Performed Remote.log (resolveSinglePushEndpoint host repoPath snapshot.remote) pushEndpoint before
  fingerprint : pushEndpoint.fingerprint = snapshot.pushUrlFingerprint

/-- What holds before a call that pushes. -/
def PushAllowed (env : Environment τ) (before : List Call) (c : Call) : Prop :=
  ∀ place source found applied result, c = .push place source found applied result →
    source = snapshot.validatedHeadSha ∧ (applied = true → found = some snapshot.baseline) ∧
    ∃ pushEndpoint, place = pushEndpoint.place env snapshot.destinationRef ∧ PatchesScanned repoPath snapshot before ∧
      Pinned host repoPath snapshot pushEndpoint before ∧ Unmoved host repoPath snapshot value place before

/-- What an execution did and, unless it was interrupted, how it ended. -/
structure Execution where
  repository : String
  calls : List Call
  ended : Option (Except String RepoState)

end Checks

/-- `value` is what is made of the refs that a read is answered with. -/
structure Recovered {τ : Type} (value : AdvertisedRefs → Option ObjectId) (env : Environment τ) (host : Host (Remote τ))
    (snapshot : PersistedSnapshot) (execution : Execution) : Prop where
  pushes : EveryEntry (fun before c _ => PushAllowed host execution.repository snapshot value env before c) execution.calls
  success : ∀ repoState, execution.ended = some (.ok repoState) → repoState.status = .SUCCESS →
    repoState.pushedShas = some snapshot.outgoingShas ∧ ∃ pushEndpoint,
      Pinned host execution.repository snapshot pushEndpoint execution.calls ∧ ∃ c ∈ execution.calls,
        Reading value (pushEndpoint.place env snapshot.destinationRef) (.ok (some snapshot.head)) c

/-! ## One execution -/

section Execution

variable {τ : Type} (env : Environment τ) (other : Host τ) (repoPath : String) (snapshot : PersistedSnapshot)

theorem gitExecArgs_logs {args : List String} (hargs : args.headD "" ≠ "ls-remote" ∧ args.headD "" ≠ "push") :
    Logs Remote.log ((remoteHost env other).gitExecArgs args repoPath) fun r calls =>
      ∃ result, calls = [.command repoPath args result] ∧ r = result.map trimString := by
  refine ((execFileGit_logs env other repoPath [] hargs).map trimString).conseq fun r calls h => ?_
  obtain ⟨result, rfl, rfl⟩ := h
  exact ⟨result, rfl, rfl⟩

theorem quiet_command (cwd : String) (args : List String) (result : Except ExecError String) :
    ∀ c ∈ [Call.command cwd args result], c.isPush = false := fun c hc =>
  isPush_of_not_isRemote (local_command cwd args result c hc)

/-- A command whose output is checked. -/
theorem bind_gitExecArgs_logs {α : Type} {args : List String} (hargs : args.headD "" ≠ "ls-remote" ∧ args.headD "" ≠ "push")
    {f : String → Action (Remote τ) ExecError α} {R : Except ExecError α → List Call → Prop}
    (hok : ∀ out, Logs Remote.log (f (trimString out)) fun r more => R r (.command repoPath args (.ok out) :: more))
    (herr : ∀ e, R (.error e) [.command repoPath args (.error e)]) :
    Logs Remote.log ((remoteHost env other).gitExecArgs args repoPath >>= f) R := by
  refine Logs.bind (gitExecArgs_logs env other repoPath hargs) (fun a calls h => ?_) fun e calls h => ?_
  · obtain ⟨result, rfl, hr⟩ := h
    cases result with
    | error e => cases hr
    | ok out =>
      cases hr
      exact hok out
  · obtain ⟨result, rfl, hr⟩ := h
    cases result with
    | error e' =>
      cases hr
      exact herr e
    | ok out => cases hr

theorem assertOutgoingShasMatchSnapshot_logs :
    Logs Remote.log (assertOutgoingShasMatchSnapshot (remoteHost env other) repoPath snapshot.toTrackedPushSnapshot)
      fun r calls => (∀ c ∈ calls, c.isPush = false) ∧ (r = .ok () → ∃ out, .command repoPath ["rev-list", "--reverse",
        snapshot.destinationBaselineSha ++ ".." ++ snapshot.validatedHeadSha] (.ok out) ∈ calls ∧
          splitNonemptyLines (trimString out) = snapshot.outgoingShas) := by
  refine Logs.bind (Logs.attempt_throw (R := fun _ calls => ∀ c ∈ calls, c.isPush = false)
    (gitExecArgs_logs env other repoPath (by simp)) ?_ ?_) ?_ ?_
  · intro a calls h
    obtain ⟨result, rfl, -⟩ := h
    exact quiet_command _ _ _
  · intro e calls h
    obtain ⟨result, rfl, -⟩ := h
    exact quiet_command _ _ _
  · intro _ calls hcalls
    have hquiet : ∀ result, ∀ c ∈ calls ++ [Call.command repoPath ["rev-list", "--reverse",
        snapshot.destinationBaselineSha ++ ".." ++ snapshot.validatedHeadSha] result], c.isPush = false := by
      intro result c hc
      rcases List.mem_append.mp hc with hc | hc
      · exact hcalls c hc
      · exact quiet_command _ _ _ c hc
    refine bind_gitExecArgs_logs env other repoPath (by simp) (fun out => ?_) fun e => ?_
    · refine Logs.ite (fun _ => ?_) fun hsame => ?_
      · exact Logs.throw ⟨hquiet _, fun h => by cases h⟩
      · refine Logs.pure ⟨hquiet _, fun _ => ⟨out, ?_, Decidable.not_not.mp hsame⟩⟩
        exact List.mem_append_right _ List.mem_cons_self
    · exact ⟨hquiet _, fun h => by cases h⟩
  · intro e calls hcalls
    exact ⟨hcalls, fun h => by cases h⟩

theorem readPatches_logs (outgoingShas : List String) :
    Logs Remote.log (readPatches (remoteHost env other) repoPath outgoingShas) fun r calls =>
      (∀ c ∈ calls, c.isPush = false) ∧ ∀ patches, r = .ok patches → ∃ shown : List (String × String),
        shown.map (·.1) = outgoingShas ∧ shown.map (fun p => trimString p.2) = patches ∧
          ∀ p ∈ shown, .command repoPath ["show", "--format=", "--binary", "--no-ext-diff", p.1] (.ok p.2) ∈ calls := by
  induction outgoingShas with
  | nil =>
    refine Logs.pure ⟨(fun c hc => by cases hc), fun patches h => ?_⟩
    cases h
    exact ⟨[], rfl, rfl, fun p hp => by cases hp⟩
  | cons sha outgoingShas ih =>
    refine bind_gitExecArgs_logs env other repoPath (by simp) (fun out => ?_) fun e => ?_
    · refine (ih.map fun patches => trimString out :: patches).conseq fun r calls h => ?_
      obtain ⟨r', ⟨hquiet, hshown⟩, rfl⟩ := h
      refine ⟨fun c hc => ?_, fun patches h => ?_⟩
      · rcases List.mem_cons.mp hc with rfl | hc
        · rfl
        · exact hquiet c hc
      · cases r' with
        | error e => cases h
        | ok patches' =>
          cases h
          obtain ⟨shown, hshas, hpatches, hcalls⟩ := hshown patches' rfl
          refine ⟨(sha, out) :: shown, by rw [List.map_cons, hshas], by rw [List.map_cons, hpatches], fun p hp => ?_⟩
          rcases List.mem_cons.mp hp with rfl | hp
          · exact List.mem_cons_self
          · exact List.mem_cons_of_mem _ (hcalls p hp)
    · exact ⟨quiet_command _ _ _, fun patches h => by cases h⟩

/-- A read of the snapshot's destination that the code can use. -/
theorem readRemoteDestinationSha_logs (pushEndpoint : ResolvedPushEndpoint) :
    Logs Remote.log (readRemoteDestinationSha (remoteHost env other) pushEndpoint snapshot.toTrackedPushSnapshot)
      fun r calls => ∃ c, calls = [c] ∧ c.isPush = false ∧ ∀ sha, r = .ok sha → ∃ id, sha = id.text ∧
        Reading (told snapshot.destinationRef) (pushEndpoint.place env snapshot.destinationRef) (.ok (some id)) c := by
  refine Logs.attempt_throw (Q := fun r calls => ∃ c, calls = [c] ∧ c.isPush = false ∧ ∀ sha, r = .ok sha → ∃ id, sha = id.text ∧
    Reading (told snapshot.destinationRef) (pushEndpoint.place env snapshot.destinationRef) (.ok (some id)) c) ?_ ?_ ?_
  · refine Logs.bind (readOptionalDestinationSha_logs env other pushEndpoint snapshot.destinationRef) ?_ ?_
    · intro sha calls h
      obtain ⟨answer, rfl, hanswer⟩ := h
      cases answer with
      | error e => cases hanswer
      | ok advertised =>
        have hsha : sha = (advertised.firstListed snapshot.destinationRef).map ObjectId.text := Except.ok.inj hanswer
        cases hfirst : advertised.firstListed snapshot.destinationRef with
        | none =>
          rw [hfirst] at hsha
          subst hsha
          exact Logs.throw ⟨_, rfl, rfl, fun sha h => by cases h⟩
        | some id =>
          rw [hfirst] at hsha
          subst hsha
          refine Logs.pure ⟨_, rfl, rfl, fun sha h => ?_⟩
          cases h
          exact ⟨id, rfl, .ok advertised, rfl, congrArg Except.ok hfirst⟩
    · intro e calls h
      obtain ⟨answer, rfl, -⟩ := h
      exact ⟨_, rfl, rfl, fun sha h => by cases h⟩
  · intro sha calls h
    obtain ⟨c, rfl, hquiet, hread⟩ := h
    exact ⟨c, rfl, hquiet, fun sha' h => by cases h; exact hread sha rfl⟩
  · intro e calls h
    obtain ⟨c, rfl, hquiet, -⟩ := h
    exact ⟨c, rfl, hquiet, fun sha h => by cases h⟩

theorem resolveTrackedPushDestination_logs (sourceBranch : String) :
    Logs Remote.log (resolveTrackedPushDestination (remoteHost env other) repoPath sourceBranch) Local :=
  Logs.of_keeps fun before => resolveTrackedPushDestination_keeps (localCommand_keeps env other before) repoPath sourceBranch

/-- Before the push: a read of the validated HEAD, or every check passed on the baseline. -/
theorem revalidateTrackedPushSnapshot_logs (pushEndpoint : ResolvedPushEndpoint) :
    Logs Remote.log (revalidateTrackedPushSnapshot (remoteHost env other) repoPath snapshot.toTrackedPushSnapshot pushEndpoint)
      fun r calls => (∀ c ∈ calls, c.isPush = false) ∧
        (r = .ok .pending → Unmoved (remoteHost env other) repoPath snapshot (told snapshot.destinationRef)
          (pushEndpoint.place env snapshot.destinationRef) calls) ∧
        (r = .ok .alreadyPushed → ∃ c ∈ calls, Reading (told snapshot.destinationRef)
          (pushEndpoint.place env snapshot.destinationRef) (.ok (some snapshot.head)) c) := by
  have hstop : ∀ (calls : List Call) (e : ExecError), (∀ c ∈ calls, c.isPush = false) →
      (∀ c ∈ calls, c.isPush = false) ∧
        ((.error e : Except ExecError Revalidated) = .ok .pending → Unmoved (remoteHost env other) repoPath snapshot
          (told snapshot.destinationRef) (pushEndpoint.place env snapshot.destinationRef) calls) ∧
        ((.error e : Except ExecError Revalidated) = .ok .alreadyPushed → ∃ c ∈ calls, Reading (told snapshot.destinationRef)
          (pushEndpoint.place env snapshot.destinationRef) (.ok (some snapshot.head)) c) :=
    fun calls e h => ⟨h, (fun h => by cases h), fun h => by cases h⟩
  refine bind_gitExecArgs_logs env other repoPath (by simp) (fun branch => ?_) fun e => hstop _ e (quiet_command _ _ _)
  refine bind_gitExecArgs_logs env other repoPath (by simp) (fun head => ?_) fun e => hstop _ e (by simp [Call.isPush])
  refine bind_gitExecArgs_logs env other repoPath (by simp) (fun status => ?_) fun e => hstop _ e (by simp [Call.isPush])
  refine Logs.ite (fun _ => Logs.throw (hstop _ _ (by simp [Call.isPush]))) fun hsame => ?_
  obtain ⟨hbranch, hhead, hstatus⟩ : trimString branch = snapshot.sourceBranch ∧
      trimString head = snapshot.validatedHeadSha ∧ trimString status = "" := by
    rw [not_or, not_or] at hsame
    exact ⟨Decidable.not_not.mp hsame.1, Decidable.not_not.mp hsame.2.1, Decidable.not_not.mp hsame.2.2⟩
  refine Logs.bind (resolveTrackedPushDestination_logs env other repoPath snapshot.sourceBranch).performed
    (fun destination calls h => ?_) fun e calls h => ?_
  · have hcalls : ∀ c ∈ calls, c.isPush = false := fun c hc => isPush_of_not_isRemote (h.1 c hc)
    refine Logs.ite (fun _ => Logs.throw (hstop _ _ (by simpa [Call.isPush] using hcalls))) fun hdestination => ?_
    refine Logs.bind (readRemoteDestinationSha_logs env other snapshot pushEndpoint) (fun sha more hread => ?_)
      fun e more hread => ?_
    · obtain ⟨read, rfl, hread, htold⟩ := hread
      obtain ⟨id, rfl, hreading⟩ := htold _ rfl
      have hquiet : ∀ c ∈ Call.command repoPath ["symbolic-ref", "--quiet", "--short", "HEAD"] (.ok branch) ::
          Call.command repoPath ["rev-parse", "HEAD"] (.ok head) ::
          Call.command repoPath ["status", "--porcelain=v1", "--untracked-files=all"] (.ok status) ::
          (calls ++ ([read] ++ [])), c.isPush = false := by
        simpa [Call.isPush, or_imp, forall_and] using ⟨hcalls, hread⟩
      refine Logs.ite (fun hpushed => ?_) fun _ => Logs.ite (fun _ => Logs.throw (hstop _ _ hquiet)) fun hbaseline => ?_
      · have hid : id = snapshot.head := ObjectId.text_inj hpushed
        subst hid
        exact Logs.pure ⟨hquiet, (fun h => by cases h), fun _ => ⟨read, by simp, hreading⟩⟩
      · have hid : id = snapshot.baseline := ObjectId.text_inj (Decidable.not_not.mp hbaseline)
        subst hid
        refine Logs.pure ⟨hquiet, fun _ => ?_, fun h => by cases h⟩
        refine ⟨⟨branch, by simp, hbranch⟩, ⟨head, by simp, hhead⟩, ⟨status, by simp, hstatus⟩, ?_, read, by simp, hreading⟩
        rw [← Decidable.not_not.mp hdestination]
        exact (h.2 _ rfl).mono (List.infix_cons (List.infix_cons (List.infix_cons (List.prefix_append _ _).isInfix)))
    · obtain ⟨c, rfl, hread, -⟩ := hread
      exact hstop _ e (by simpa [Call.isPush, or_imp, forall_and] using ⟨hcalls, hread⟩)
  · have hcalls : ∀ c ∈ calls, c.isPush = false := fun c hc => isPush_of_not_isRemote (h.1 c hc)
    exact hstop _ e (by simpa [Call.isPush] using hcalls)

theorem PatchesScanned.mono {before more : List Call} (h : PatchesScanned repoPath snapshot before) (hsub : before ⊆ more) :
    PatchesScanned repoPath snapshot more := by
  obtain ⟨⟨out, hout, hlisted⟩, shown, hshas, hcalls, hclean⟩ := h
  exact ⟨⟨out, hsub hout, hlisted⟩, shown, hshas, fun p hp => hsub (hcalls p hp), hclean⟩

theorem Unmoved.mono {host : Host (Remote τ)} {value : AdvertisedRefs → Option ObjectId} {place : Place}
    {before more : List Call} (h : Unmoved host repoPath snapshot value place before) (hpart : before <:+: more) :
    Unmoved host repoPath snapshot value place more := by
  obtain ⟨⟨branch, hbranch⟩, ⟨head, hhead⟩, ⟨status, hstatus⟩, hdestination, c, hc, hbaseline⟩ := h
  have hsub := hpart.subset
  exact ⟨⟨branch, hsub hbranch.1, hbranch.2⟩, ⟨head, hsub hhead.1, hhead.2⟩, ⟨status, hsub hstatus.1, hstatus.2⟩,
    hdestination.mono hpart, c, hsub hc, hbaseline⟩

theorem Pinned.mono {host : Host (Remote τ)} {pushEndpoint : ResolvedPushEndpoint} {before more : List Call}
    (h : Pinned host repoPath snapshot pushEndpoint before) (hpart : before <:+: more) :
    Pinned host repoPath snapshot pushEndpoint more := ⟨h.resolved.mono hpart, h.fingerprint⟩

/-- What the calls of a publication keep to, `pre` made before them. -/
def Guarded (pre : List Call) (r : Except ExecError (List String)) (calls : List Call) : Prop :=
  EveryEntry (fun before c _ => PushAllowed (remoteHost env other) repoPath snapshot (told snapshot.destinationRef) env (pre ++ before) c) calls ∧
    ∀ shas, r = .ok shas → shas = snapshot.outgoingShas ∧ ∃ pushEndpoint,
      Pinned (remoteHost env other) repoPath snapshot pushEndpoint calls ∧
        ∃ c ∈ calls, Reading (told snapshot.destinationRef) (pushEndpoint.place env snapshot.destinationRef)
          (.ok (some snapshot.head)) c

theorem quiet_allowed (pre : List Call) {calls : List Call} (h : ∀ c ∈ calls, c.isPush = false) :
    EveryEntry (fun before c _ => PushAllowed (remoteHost env other) repoPath snapshot (told snapshot.destinationRef) env (pre ++ before) c) calls := by
  refine EveryEntry.of_mem fun c hc before after place source found applied result hpush => ?_
  subst hpush
  cases h _ hc

/-- The one push, between calls that push nothing. -/
theorem push_allowed (pre : List Call) {before rest : List Call} {pushEndpoint : ResolvedPushEndpoint}
    (found : Option ObjectId) (applied : Bool) (result : Except ExecError String)
    (hbefore : ∀ c ∈ before, c.isPush = false) (hrest : ∀ c ∈ rest, c.isPush = false)
    (hscanned : PatchesScanned repoPath snapshot (pre ++ before))
    (hpinned : Pinned (remoteHost env other) repoPath snapshot pushEndpoint (pre ++ before))
    (hunmoved : Unmoved (remoteHost env other) repoPath snapshot (told snapshot.destinationRef)
      (pushEndpoint.place env snapshot.destinationRef) (pre ++ before))
    (hleased : applied = true → found = some snapshot.baseline) :
    EveryEntry (fun before c _ => PushAllowed (remoteHost env other) repoPath snapshot (told snapshot.destinationRef) env (pre ++ before) c)
      (before ++ .push (pushEndpoint.place env snapshot.destinationRef) snapshot.validatedHeadSha found applied result :: rest) := by
  refine EveryEntry.append (quiet_allowed env other repoPath snapshot pre hbefore) (EveryEntry.cons ?_ ?_)
  · intro place source found' applied' result' heq
    cases heq
    rw [List.append_nil]
    exact ⟨rfl, hleased, pushEndpoint, rfl, hscanned, hpinned, hunmoved⟩
  · refine EveryEntry.of_mem fun c hc _ after place source found' applied' result' hpush => ?_
    subst hpush
    cases hrest _ hc

theorem pushTrackedSnapshot_logs {pre : List Call} (hpre : PatchesScanned repoPath snapshot pre) :
    Logs Remote.log (pushTrackedSnapshot (remoteHost env other) repoPath snapshot.toTrackedPushSnapshot)
      fun r calls => Guarded env other repoPath snapshot pre r calls := by
  have hstop : ∀ (calls : List Call) (e : ExecError), (∀ c ∈ calls, c.isPush = false) →
      Guarded env other repoPath snapshot pre (.error e) calls :=
    fun calls e h => ⟨quiet_allowed env other repoPath snapshot pre h, fun shas h => by cases h⟩
  refine Logs.bind (Logs.attempt_throw (R := fun r calls => (∀ c ∈ calls, c.isPush = false) ∧ ∀ pushEndpoint,
    r = .ok pushEndpoint → Performed Remote.log (resolveSinglePushEndpoint (remoteHost env other) repoPath snapshot.remote)
      pushEndpoint calls) (resolveSinglePushEndpoint_logs env other repoPath snapshot.remote).performed ?_ ?_) ?_ ?_
  · intro pushEndpoint calls h
    exact ⟨fun c hc => isPush_of_not_isRemote (h.1 c hc), fun pushEndpoint' heq => h.2 pushEndpoint' heq⟩
  · intro e calls h
    exact ⟨fun c hc => isPush_of_not_isRemote (h.1 c hc), fun pushEndpoint h => by cases h⟩
  · intro pushEndpoint resolved hresolved
    refine Logs.ite (fun _ => Logs.throw (hstop _ _ (by simpa using hresolved.1))) fun hfingerprint => ?_
    have hpinned : Pinned (remoteHost env other) repoPath snapshot pushEndpoint resolved :=
      ⟨hresolved.2 _ rfl, Decidable.not_not.mp hfingerprint⟩
    refine Logs.bind (revalidateTrackedPushSnapshot_logs env other repoPath snapshot pushEndpoint)
      (fun revalidated checked h => ?_) fun e checked h => ?_
    · have hquiet : ∀ c ∈ resolved ++ checked, c.isPush = false := List.forall_mem_append.mpr ⟨hresolved.1, h.1⟩
      cases revalidated with
      | alreadyPushed =>
        refine Logs.pure ⟨?_, fun shas heq => ?_⟩
        · rw [List.append_nil]
          exact quiet_allowed env other repoPath snapshot pre hquiet
        · cases heq
          refine ⟨rfl, pushEndpoint, hpinned.mono repoPath snapshot (List.prefix_append _ _).isInfix, ?_⟩
          obtain ⟨c, hc, hreading⟩ := h.2.2 rfl
          exact ⟨c, List.mem_append_right _ (List.mem_append_left _ hc), hreading⟩
      | pending =>
        have hunmoved := h.2.1 rfl
        have hpushed : ∀ found applied result, (applied = true → found = some snapshot.baseline) → ∀ rest : List Call,
            (∀ c ∈ rest, c.isPush = false) → EveryEntry (fun before c _ => PushAllowed (remoteHost env other) repoPath
              snapshot (told snapshot.destinationRef) env (pre ++ before) c) (resolved ++ (checked ++ ([.push
                (pushEndpoint.place env snapshot.destinationRef) snapshot.validatedHeadSha found applied result] ++ rest))) := by
          intro found applied result hleased rest hrest
          have hentries := push_allowed env other repoPath snapshot pre found applied result hquiet hrest
            (hpre.mono repoPath snapshot (List.subset_append_left _ _))
            (hpinned.mono repoPath snapshot (List.infix_append' pre resolved checked))
            (hunmoved.mono repoPath snapshot ⟨pre ++ resolved, [], by simp⟩) hleased
          rwa [List.append_assoc] at hentries
        refine Logs.bind (Logs.attempt_throw (R := fun r calls => ∃ before applied result, calls =
          [.push (pushEndpoint.place env snapshot.destinationRef) snapshot.validatedHeadSha before applied result] ∧
            (applied = true → before = some snapshot.baseline))
          (pushExact_logs env other pushEndpoint snapshot.head snapshot.destinationRef (some snapshot.baseline)) ?_ ?_) ?_ ?_
        · intro _ calls hpush
          obtain ⟨before, applied, result, rfl, hleased, -⟩ := hpush
          exact ⟨before, applied, result, rfl, hleased⟩
        · intro e calls hpush
          obtain ⟨before, applied, result, rfl, hleased, -⟩ := hpush
          exact ⟨before, applied, result, rfl, hleased⟩
        · intro _ pushed hpush
          obtain ⟨found, applied, result, rfl, hleased⟩ := hpush
          have hentries := hpushed found applied result hleased
          refine Logs.bind (readRemoteDestinationSha_logs env other snapshot pushEndpoint) (fun sha calls hread => ?_)
            fun e calls hread => ?_
          · obtain ⟨c, rfl, hread, htold⟩ := hread
            obtain ⟨id, rfl, hreading⟩ := htold _ rfl
            refine Logs.ite (fun _ => ?_) fun hverified => ?_
            · exact Logs.throw ⟨hentries _ (by simp [hread]), fun shas h => by cases h⟩
            · have hid : id = snapshot.head := ObjectId.text_inj (Decidable.not_not.mp hverified)
              subst hid
              refine Logs.pure ⟨hentries _ (by simp [hread]), fun shas h => ?_⟩
              cases h
              exact ⟨rfl, pushEndpoint, hpinned.mono repoPath snapshot (List.prefix_append _ _).isInfix, c, by simp, hreading⟩
          · obtain ⟨c, rfl, hread, -⟩ := hread
            exact ⟨hentries _ (by simp [hread]), fun shas h => by cases h⟩
        · intro e pushed hpush
          obtain ⟨found, applied, result, rfl, hleased⟩ := hpush
          exact ⟨hpushed found applied result hleased [] (by simp), fun shas h => by cases h⟩
    · exact hstop _ e (List.forall_mem_append.mpr ⟨hresolved.1, h.1⟩)
  · intro e calls h
    exact hstop _ e h.1

/-- The log of a traced world. -/
abbrev remoteLog (w : Traced (Remote τ)) : List Call := w.world.log

omit env other in
theorem validateDiffForSecrets_logs (diff : String) :
    Logs (remoteLog (τ := τ)) (validateDiffForSecrets repoPath diff) fun r calls =>
      calls = [] ∧ (r = .ok () → (scanDiff diff.toList).clean = true) := by
  unfold validateDiffForSecrets
  refine Logs.ite (fun _ => Logs.throw ⟨rfl, fun h => by cases h⟩) fun hclean => ?_
  exact (note_logs _).conseq fun r calls h => ⟨h, fun _ => (Bool.not_eq_false _).mp hclean⟩

theorem validateAndPushTrackedSnapshot_logs (settings : Settings) (hautoPush : settings.autoPush = true) :
    Logs remoteLog (validateAndPushTrackedSnapshot (remoteHost env other) repoPath snapshot.toTrackedPushSnapshot settings)
      fun r calls => Guarded env other repoPath snapshot [] r calls := by
  have hstop : ∀ (calls : List Call) (e : ExecError), (∀ c ∈ calls, c.isPush = false) →
      Guarded env other repoPath snapshot [] (.error e) calls :=
    fun calls e h => ⟨quiet_allowed env other repoPath snapshot [] h, fun shas h => by cases h⟩
  have hvalidate : Logs remoteLog (do
      lifted (assertOutgoingShasMatchSnapshot (remoteHost env other) repoPath snapshot.toTrackedPushSnapshot)
      let patches ← lifted (readCommitPatches (remoteHost env other) repoPath snapshot.outgoingShas)
      validateDiffForSecrets repoPath patches
      lifted (pushTrackedSnapshot (remoteHost env other) repoPath snapshot.toTrackedPushSnapshot))
      fun r calls => Guarded env other repoPath snapshot [] r calls := by
    refine Logs.bind (lifted_logs (assertOutgoingShasMatchSnapshot_logs env other repoPath snapshot))
      (fun _ listing h => ?_) fun e calls h => hstop _ e h.1
    obtain ⟨hlisting, hlisted⟩ := h
    have hpatches := (readPatches_logs env other repoPath snapshot.outgoingShas).map (joinStrings "\n")
    refine Logs.bind (lifted_logs hpatches) (fun patches showing h => ?_) fun e showing h => ?_
    · obtain ⟨r', ⟨hshowing, hshown⟩, hr⟩ := h
      cases r' with
      | error e => cases hr
      | ok outs =>
        cases hr
        obtain ⟨shown, hshas, houts, hcalls⟩ := hshown outs rfl
        refine Logs.bind (validateDiffForSecrets_logs repoPath _) (fun _ calls h => ?_) fun e calls h => ?_
        · obtain ⟨rfl, hclean⟩ := h
          have hscanned : PatchesScanned repoPath snapshot (listing ++ showing) := by
            obtain ⟨out, hout, hsame⟩ := hlisted rfl
            refine ⟨⟨out, List.mem_append_left _ hout, hsame⟩, shown, hshas, ?_, ?_⟩
            · exact fun p hp => List.mem_append_right _ (hcalls p hp)
            · rw [houts]
              exact hclean rfl
          refine (lifted_logs (pushTrackedSnapshot_logs env other repoPath snapshot hscanned)).conseq fun r calls h => ?_
          obtain ⟨hentries, hsuccess⟩ := h
          have hquiet : ∀ c ∈ listing ++ showing, c.isPush = false := List.forall_mem_append.mpr ⟨hlisting, hshowing⟩
          rw [List.nil_append, ← List.append_assoc]
          refine ⟨EveryEntry.append (quiet_allowed env other repoPath snapshot [] hquiet) hentries, fun shas h => ?_⟩
          obtain ⟨hshas, pushEndpoint, hpinned, c, hc, hread⟩ := hsuccess shas h
          exact ⟨hshas, pushEndpoint, hpinned.mono repoPath snapshot (List.suffix_append _ _).isInfix, c,
            List.mem_append_right _ hc, hread⟩
        · obtain ⟨rfl, -⟩ := h
          refine hstop _ e (List.forall_mem_append.mpr ⟨hlisting, ?_⟩)
          rwa [List.append_nil]
    · obtain ⟨r', ⟨hshowing, -⟩, hr⟩ := h
      exact hstop _ e (List.forall_mem_append.mpr ⟨hlisting, hshowing⟩)
  unfold validateAndPushTrackedSnapshot
  refine Logs.ite (fun h => ?_) fun _ => ?_
  · rw [hautoPush] at h
    cases h
  refine Logs.ite (fun _ => ?_) fun _ => hvalidate
  have hcascade : Logs Remote.log ((remoteHost env other).runTestCascade repoPath) fun _ calls => calls = [] :=
    fun w => ⟨[], (List.append_nil _).symm, rfl⟩
  refine Logs.bind (lifted_logs hcascade) (fun _ calls h => ?_) fun e calls h => ?_
  · subst h
    exact hvalidate
  · subst h
    exact hstop [] e fun c hc => by cases hc

theorem publishCheckpoint_logs (repoState : RepoState) (result : CommitJobResult) (settings : Settings) :
    Logs remoteLog (publishCheckpoint (remoteHost env other) repoState snapshot.toTrackedPushSnapshot result settings)
      fun r calls => Guarded env other repoState.repository snapshot [] r calls := by
  have hstop : ∀ (calls : List Call) (e : ExecError), (∀ c ∈ calls, c.isPush = false) →
      Guarded env other repoState.repository snapshot [] (.error e) calls :=
    fun calls e h => ⟨quiet_allowed env other repoState.repository snapshot [] h, fun shas h => by cases h⟩
  have hnone : ∀ c ∈ ([] : List Call), c.isPush = false := fun c hc => by cases hc
  cases result with
  | error _ error => exact Logs.throw (hstop [] _ hnone)
  | success _ _ =>
    unfold publishCheckpoint
    refine Logs.ite (fun _ => Logs.throw (hstop [] _ hnone)) fun hautoPush => ?_
    refine Logs.bind (validateAndPushTrackedSnapshot_logs env other repoState.repository snapshot settings
      ((Bool.not_eq_false _).mp hautoPush)) (fun shas calls h => ?_) fun e calls h => h
    refine Logs.ite (fun _ => Logs.throw ?_) fun _ => Logs.pure ?_
    · rw [List.append_nil]
      exact ⟨h.1, fun shas h => by cases h⟩
    · rw [List.append_nil]
      exact ⟨h.1, fun shas' heq => by cases heq; exact h.2 shas rfl⟩

/-- The state with the snapshot that was persisted in it. -/
def checkpointed (repoState : RepoState) : RepoState :=
  { repoState with pushSnapshot := some snapshot.toTrackedPushSnapshot }

theorem handlePushOnlyCheckpointResult_logs (repoState : RepoState) (result : CommitJobResult) (settings : Settings) :
    Logs remoteLog (handlePushOnlyCheckpointResult (remoteHost env other) (checkpointed snapshot repoState) result settings)
      fun r calls => Recovered (told snapshot.destinationRef) env (remoteHost env other) snapshot
        ⟨repoState.repository, calls, some r⟩ := by
  refine Logs.bind_outcome (publishCheckpoint_logs env other snapshot (checkpointed snapshot repoState) result settings)
    fun r calls h => ?_
  obtain ⟨hentries, hsuccess⟩ := h
  cases r with
  | ok pushedShas =>
    refine Logs.pure ?_
    rw [List.append_nil]
    refine ⟨hentries, fun repoState' hended _ => ?_⟩
    cases hended
    obtain ⟨rfl, hread⟩ := hsuccess pushedShas rfl
    exact ⟨rfl, hread⟩
  | error error =>
    refine Logs.pure ?_
    rw [List.append_nil]
    refine ⟨hentries, fun repoState' hended hstatus => ?_⟩
    cases hended
    cases hstatus

/-- What was done before an interruption. -/
theorem Recovered.interrupted {execution : Execution} {host : Host (Remote τ)} {value : AdvertisedRefs → Option ObjectId}
    (h : Recovered value env host snapshot execution) (n : Nat) :
    Recovered value env host snapshot ⟨execution.repository, execution.calls.take n, none⟩ := by
  refine ⟨fun before c after hsplit => ?_, fun repoState h => by cases h⟩
  apply h.pushes before c (after ++ execution.calls.drop n)
  rw [← List.cons_append, ← List.append_assoc, ← hsplit, List.take_append_drop]

/-! ## Any number of executions -/

structure CheckpointRun (τ : Type) where
  world : Traced (Remote τ)
  executions : List Execution

inductive CheckpointMove where
  /-- Others change the repository or its remotes. -/
  | elsewhere
  | execute (repoState : RepoState) (result : CommitJobResult) (settings : Settings)
  /-- The process dies after `n` of its calls. -/
  | interrupt (repoState : RepoState) (result : CommitJobResult) (settings : Settings) (n : Nat)

def checkpointRun (w : Traced (Remote τ)) (repoState : RepoState) (result : CommitJobResult) (settings : Settings) :
    Except String RepoState × Traced (Remote τ) :=
  (handlePushOnlyCheckpointResult (remoteHost env other) (checkpointed snapshot repoState) result settings).run w

/-- The calls that a complete execution makes. -/
def checkpointCalls (w : Traced (Remote τ)) (repoState : RepoState) (result : CommitJobResult) (settings : Settings) :
    List Call :=
  (remoteLog (checkpointRun env other snapshot w repoState result settings).2).drop (remoteLog w).length

/-- An interrupted execution leaves what its calls have done, and whatever others have done
    since. -/
inductive CheckpointStep (s : CheckpointRun τ) : CheckpointMove → CheckpointRun τ → Prop where
  | elsewhere (w : Traced (Remote τ)) (hlog : remoteLog w = remoteLog s.world) : CheckpointStep s .elsewhere ⟨w, s.executions⟩
  | execute (repoState : RepoState) (result : CommitJobResult) (settings : Settings) :
      CheckpointStep s (.execute repoState result settings)
        ⟨(checkpointRun env other snapshot s.world repoState result settings).2, s.executions ++
          [⟨repoState.repository, checkpointCalls env other snapshot s.world repoState result settings,
            some (checkpointRun env other snapshot s.world repoState result settings).1⟩]⟩
  | interrupt (repoState : RepoState) (result : CommitJobResult) (settings : Settings) (n : Nat) (w : Traced (Remote τ))
      (hlog : remoteLog w = remoteLog s.world ++ (checkpointCalls env other snapshot s.world repoState result settings).take n) :
      CheckpointStep s (.interrupt repoState result settings n)
        ⟨w, s.executions ++ [⟨repoState.repository,
          (checkpointCalls env other snapshot s.world repoState result settings).take n, none⟩]⟩

def checkpointMachine : Machine (CheckpointRun τ) CheckpointMove where
  init s := s.executions = []
  step := CheckpointStep env other snapshot

theorem checkpointRun_recovered (w : Traced (Remote τ)) (repoState : RepoState) (result : CommitJobResult)
    (settings : Settings) : Recovered (told snapshot.destinationRef) env (remoteHost env other) snapshot ⟨repoState.repository,
      checkpointCalls env other snapshot w repoState result settings,
      some (checkpointRun env other snapshot w repoState result settings).1⟩ := by
  obtain ⟨calls, hlog, hrecovered⟩ := handlePushOnlyCheckpointResult_logs env other snapshot repoState result settings w
  have hcalls : checkpointCalls env other snapshot w repoState result settings = calls := by
    unfold checkpointCalls checkpointRun
    rw [hlog, List.drop_left]
  rw [hcalls]
  exact hrecovered

/-! ## What the reads tell -/

/-- No read of the snapshot's destination finds it shadowed. -/
def ReadPlainly (calls : List Call) : Prop := ∀ place, place.ref = snapshot.destinationRef → ReadsPlainly place calls

omit env other in
theorem PushAllowed.congr {env : Environment τ} {host : Host (Remote τ)} {value value' : AdvertisedRefs → Option ObjectId}
    {before : List Call} {c : Call} (h : PushAllowed host repoPath snapshot value env before c)
    (hsame : ∀ place advertised, place.ref = snapshot.destinationRef → .read place (.ok advertised) ∈ before →
      value' advertised = value advertised) : PushAllowed host repoPath snapshot value' env before c := by
  intro place source found applied result hpush
  obtain ⟨hsource, happlied, pushEndpoint, rfl, hscanned, hpinned, hunmoved⟩ := h place source found applied result hpush
  refine ⟨hsource, happlied, pushEndpoint, rfl, hscanned, hpinned, ?_⟩
  obtain ⟨read, hread, hreading⟩ := hunmoved.baseline
  exact { hunmoved with baseline := ⟨read, hread, (Reading.congr (hsame _ · rfl) hread).mpr hreading⟩ }

omit env other in
theorem Recovered.congr {env : Environment τ} {host : Host (Remote τ)} {value value' : AdvertisedRefs → Option ObjectId}
    {execution : Execution} (h : Recovered value env host snapshot execution)
    (hsame : ∀ place advertised, place.ref = snapshot.destinationRef → .read place (.ok advertised) ∈ execution.calls →
      value' advertised = value advertised) : Recovered value' env host snapshot execution where
  pushes := by
    intro before c after hsplit
    refine (h.pushes before c after hsplit).congr execution.repository snapshot fun place advertised hplace hread => ?_
    refine hsame place advertised hplace ?_
    rw [hsplit]
    exact List.mem_append_left _ hread
  success := by
    intro repoState hended hstatus
    obtain ⟨hshas, pushEndpoint, hpinned, c, hc, hreading⟩ := h.success repoState hended hstatus
    exact ⟨hshas, pushEndpoint, hpinned, c, hc, (Reading.congr (hsame _ · rfl) hc).mpr hreading⟩

/-- What is so of an execution whatever its reads are answered, and what is so of the
    destination where it is not shadowed. -/
structure RecoversExactly (host : Host (Remote τ)) (execution : Execution) : Prop where
  /-- The reads tell the first ref listed. -/
  told : Recovered (told snapshot.destinationRef) env host snapshot execution
  plain : ReadPlainly snapshot execution.calls → Recovered (·.lookup snapshot.destinationRef) env host snapshot execution
  /-- A success is true exactly when the read it rests on was of the destination. -/
  success : ∀ repoState, execution.ended = some (.ok repoState) → repoState.status = .SUCCESS → ∃ pushEndpoint advertised,
    Pinned host execution.repository snapshot pushEndpoint execution.calls ∧
      .read (pushEndpoint.place env snapshot.destinationRef) (.ok advertised) ∈ execution.calls ∧
      (advertised.lookup snapshot.destinationRef = some snapshot.head ↔ advertised.Unshadowed snapshot.destinationRef)

theorem Recovered.exactly {env : Environment τ} {host : Host (Remote τ)} {execution : Execution}
    (h : Recovered (told snapshot.destinationRef) env host snapshot execution) :
    RecoversExactly env snapshot host execution where
  told := h
  plain := by
    intro hplain
    refine h.congr snapshot fun place advertised hplace hread => ?_
    have hunshadowed := hplain place hplace advertised hread
    rw [hplace] at hunshadowed
    exact (AdvertisedRefs.unshadowed_iff.mp hunshadowed).symm
  success := by
    intro repoState hended hstatus
    obtain ⟨-, pushEndpoint, hpinned, _, hc, answer, rfl, hanswer⟩ := h.success repoState hended hstatus
    cases answer with
    | error e => cases hanswer
    | ok advertised =>
      refine ⟨pushEndpoint, advertised, hpinned, hc, ?_⟩
      rw [AdvertisedRefs.unshadowed_iff, show advertised.firstListed _ = some snapshot.head from Except.ok.inj hanswer, eq_comm]

/-- Every execution, complete or interrupted, pushes only the validated HEAD over the
    persisted baseline, after all its checks, and succeeds only on a read of that HEAD. -/
theorem executions_recovered {moves : List CheckpointMove} {s : CheckpointRun τ}
    (h : Run (checkpointMachine env other snapshot) moves s) :
    ∀ execution ∈ s.executions, RecoversExactly env snapshot (remoteHost env other) execution := by
  refine Run.invariant (I := fun s => ∀ execution ∈ s.executions, RecoversExactly env snapshot (remoteHost env other) execution)
    ?_ ?_ h
  · intro s hs execution hexecution
    rw [show s.executions = [] from hs] at hexecution
    cases hexecution
  · intro s move t hs hstep execution hexecution
    cases hstep with
    | elsewhere w _ => exact hs execution hexecution
    | execute repoState result settings =>
      rcases List.mem_append.mp hexecution with hold | hnew
      · exact hs execution hold
      · rw [List.mem_singleton.mp hnew]
        exact (checkpointRun_recovered env other snapshot s.world repoState result settings).exactly snapshot
    | interrupt repoState result settings n w _ =>
      rcases List.mem_append.mp hexecution with hold | hnew
      · exact hs execution hold
      · rw [List.mem_singleton.mp hnew]
        exact ((checkpointRun_recovered env other snapshot s.world repoState result settings).interrupted env snapshot n).exactly
          snapshot

end Execution

/-! ## A checkpoint that is resumed -/

def oneCommitSnapshot : PersistedSnapshot where
  sourceBranch := "main"
  validatedHeadSha := ObjectId.twos.text
  upstreamRef := "origin/main"
  remote := "origin"
  destinationRef := "refs/heads/main"
  destinationBaselineSha := ObjectId.ones.text
  outgoingShas := [ObjectId.twos.text]
  pushUrlFingerprint := String.ofList (List.replicate 64 'f')
  valid := by decide +kernel

def pushingSettings : Settings where
  provider := "provider"
  model := "model"
  temperature := 0
  autoPush := true
  skipTests := true
  fallbackProvider := none
  fallbackModel := none
  thinking := none
  agent := none
  maxDiffChars := none

def clone : RepoState := { repository := "/clone", status := .RUNNING, operation := some .pushOnly }

/-- The remote at an id, with what has been logged. -/
def remoteAt (id : ObjectId) (log : List Call) : Traced (Remote Unit) :=
  ⟨⟨fun _ => ⟨[⟨"refs/heads/main", id⟩], List.pairwise_singleton _ _⟩, log, ()⟩, []⟩

def firstCalls : List Call :=
  (checkpointCalls stillEnvironment trackingHost oneCommitSnapshot (remoteAt .ones []) clone (.success "clone" [])
    pushingSettings).take 17

def Execution.succeeded (execution : Execution) : Bool :=
  execution.ended.any fun r => match r with
    | .ok repoState => repoState.status == .SUCCESS
    | .error _ => false

/-- The first execution dies after its push; the second finds the push done. -/
theorem executions_recovered_resumed : ∃ s : CheckpointRun Unit,
    s.executions.map (fun execution => ((execution.calls.filter Call.isPush).length, execution.succeeded)) =
      [(1, false), (0, true)] ∧
    ∀ execution ∈ s.executions, RecoversExactly stillEnvironment oneCommitSnapshot (remoteHost stillEnvironment trackingHost)
      execution := by
  have hinterrupted : Run (checkpointMachine stillEnvironment trackingHost oneCommitSnapshot) _ _ :=
    (Run.start (s := ⟨remoteAt .ones [], []⟩) rfl).snoc
      (.interrupt clone (.success "clone" []) pushingSettings 17 (remoteAt .twos firstCalls) rfl)
  have hresumed := hinterrupted.snoc (.execute clone (.success "clone" []) pushingSettings)
  exact ⟨_, by decide +kernel, executions_recovered stillEnvironment trackingHost oneCommitSnapshot hresumed⟩

/-- The execution of the checkpoint on a remote where a branch that ends in the destination's
    name is at the validated HEAD. -/
def shadowedExecution : Except String RepoState × Traced (Remote Unit) :=
  checkpointRun stillEnvironment trackingHost oneCommitSnapshot ⟨remoteWith shadowedMain, []⟩ clone (.success "clone" [])
    pushingSettings

/-- It succeeds with the commits listed as pushed, having pushed nothing: no read found the
    destination at the validated HEAD, and it is not there. -/
theorem shadowed_execution :
    (∃ repoState, shadowedExecution.1 = .ok repoState ∧ repoState.status = .SUCCESS ∧
      repoState.pushedShas = some oneCommitSnapshot.outgoingShas) ∧
    ((remoteLog shadowedExecution.2).filter Call.isPush).length = 0 ∧
    (shadowedExecution.2.world.refs "repository").lookup "refs/heads/main" = some oneCommitSnapshot.baseline ∧
    ∀ c ∈ remoteLog shadowedExecution.2, ∀ advertised, c.answer = some advertised →
      advertised.lookup oneCommitSnapshot.destinationRef ≠ some oneCommitSnapshot.head := by
  have hrun : shadowedExecution.1.toOption.any (fun repoState => repoState.status == .SUCCESS &&
        repoState.pushedShas == some oneCommitSnapshot.outgoingShas) = true ∧
      ((remoteLog shadowedExecution.2).filter Call.isPush).length = 0 ∧
      (shadowedExecution.2.world.refs "repository").lookup "refs/heads/main" = some oneCommitSnapshot.baseline ∧
      (remoteLog shadowedExecution.2).all (fun c => c.answer.all fun advertised =>
        advertised.lookup oneCommitSnapshot.destinationRef != some oneCommitSnapshot.head) = true := by decide +kernel
  obtain ⟨hended, hquiet, hrefs, hreads⟩ := hrun
  refine ⟨?_, hquiet, hrefs, fun c hc advertised hanswer => ?_⟩
  · cases hr : shadowedExecution.1 with
    | error e =>
      rw [hr] at hended
      cases hended
    | ok repoState =>
      rw [hr] at hended
      obtain ⟨hstatus, hshas⟩ := Bool.and_eq_true_iff.mp hended
      exact ⟨repoState, rfl, by simpa using hstatus, by simpa using hshas⟩
  · have hother := List.all_eq_true.mp hreads c hc
    rw [hanswer] at hother
    simpa using hother

end GitCommitsPush.Publication
