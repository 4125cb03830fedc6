/-
  GitCommitsPush.Publication.PushKeeps — what a push leaves alone.

  A push runs Git through `execFileSync("git", args)` only: local commands, none of which
  commits, and `ls-remote` and `push` at its endpoint. What these keep, the resolution of
  the destination and the whole push keep (`executePush_keeps`); of the pushes, those of the
  commit HEAD names suffice (`executePush_rule`).
-/

import GitCommitsPush.Publication.Push

namespace GitCommitsPush.Publication

open GitCommitsPush.Lib.Effect

/-- The commands of a push that do not reach the remote. -/
def localCommand (args : List String) : Bool :=
  ["config", "remote", "symbolic-ref", "rev-parse", "merge-base", "for-each-ref", "update-ref"].contains (args.headD "")

section Local

variable {σ : Type} {host : Host σ} {I : σ → Prop}
  (hlocal : ∀ cwd args processConfig, localCommand args = true → Action.Keeps I (host.execFileGit cwd args processConfig))

include hlocal

theorem gitExecArgs_keeps {args : List String} (repository : String) (hargs : localCommand args = true) :
    Action.Keeps I (host.gitExecArgs args repository) :=
  Action.Keeps.bind (hlocal _ _ _ hargs) fun _ => Action.Keeps.pure _

theorem readOptionalGit_keeps {ε : Type} {args : List String} (repository : String) (hargs : localCommand args = true) :
    Action.Keeps I (readOptionalGit (ε := ε) host args repository) :=
  Action.Keeps.attempt (Action.Keeps.bind (gitExecArgs_keeps hlocal repository hargs) fun _ => Action.Keeps.pure _)
    fun _ => Action.Keeps.pure _

theorem readConfiguredRemotes_keeps (repository : String) : Action.Keeps I (readConfiguredRemotes host repository) :=
  Action.Keeps.bind (readOptionalGit_keeps hlocal repository (by decide)) fun _ => Action.Keeps.pure _

theorem readConfiguredPushRemote_keeps (repository sourceBranch : String) :
    Action.Keeps I (readConfiguredPushRemote host repository sourceBranch) := by
  refine Action.Keeps.bind (readOptionalGit_keeps hlocal repository rfl) fun remote => ?_
  cases remote with
  | some remote => exact Action.Keeps.pure _
  | none => exact readOptionalGit_keeps hlocal repository rfl

omit hlocal in
theorem assertConfiguredRemote_keeps (remote : Option String) (configuredRemotes : List String) (sourceBranch : String) :
    Action.Keeps I (assertConfiguredRemote (σ := σ) remote configuredRemotes sourceBranch) := by
  unfold assertConfiguredRemote
  cases remote with
  | none => exact Action.Keeps.throw _
  | some remote =>
    apply Action.Keeps.ite
    · intro _
      exact Action.Keeps.throw _
    · intro _
      exact Action.Keeps.pure _

theorem readPushDefault_keeps (repository : String) : Action.Keeps I (readPushDefault host repository) := by
  refine Action.Keeps.bind (readOptionalGit_keeps hlocal repository (by decide)) fun configured => ?_
  dsimp only
  split
  · exact Action.Keeps.pure _
  split
  · exact Action.Keeps.pure _
  split
  · exact Action.Keeps.pure _
  · exact Action.Keeps.throw _

theorem resolveTrackedDestinationRef_keeps (repository sourceBranch upstreamRemote pushRemote upstreamDestinationRef : String) :
    Action.Keeps I (resolveTrackedDestinationRef host repository sourceBranch upstreamRemote pushRemote
      upstreamDestinationRef) := by
  refine Action.Keeps.bind (readPushDefault_keeps hlocal repository) fun pushDefault => ?_
  cases pushDefault with
  | current => exact Action.Keeps.pure _
  | upstream =>
    apply Action.Keeps.ite
    · intro _
      exact Action.Keeps.throw _
    · intro _
      exact Action.Keeps.pure _
  | simple =>
    apply Action.Keeps.ite
    · intro _
      exact Action.Keeps.pure _
    intro _
    apply Action.Keeps.ite
    · intro _
      exact Action.Keeps.throw _
    · intro _
      exact Action.Keeps.pure _

theorem resolveTrackedPushDestination_keeps (repository sourceBranch : String) :
    Action.Keeps I (resolveTrackedPushDestination host repository sourceBranch) := by
  unfold resolveTrackedPushDestination
  refine Action.Keeps.bind (readOptionalGit_keeps hlocal repository (by decide)) fun upstreamRef => ?_
  cases upstreamRef with
  | none => exact Action.Keeps.pure _
  | some upstreamRef =>
    refine Action.Keeps.bind (readOptionalGit_keeps hlocal repository rfl) fun merge => ?_
    split
    · exact Action.Keeps.throw _
    · refine Action.Keeps.bind (readConfiguredRemotes_keeps hlocal repository) fun configuredRemotes => ?_
      refine Action.Keeps.bind (readOptionalGit_keeps hlocal repository rfl) fun branchRemote => ?_
      refine Action.Keeps.bind (assertConfiguredRemote_keeps _ _ _) fun upstreamRemote => ?_
      refine Action.Keeps.bind (readConfiguredPushRemote_keeps hlocal repository sourceBranch) fun pushRemote => ?_
      refine Action.Keeps.bind (assertConfiguredRemote_keeps _ _ _) fun remote => ?_
      refine Action.Keeps.bind (resolveTrackedDestinationRef_keeps hlocal _ _ _ _ _) fun destinationRef => ?_
      exact Action.Keeps.pure _

theorem resolveCurrentPushDestination_keeps (repository : String) :
    Action.Keeps I (resolveCurrentPushDestination host repository) := by
  unfold resolveCurrentPushDestination
  refine Action.Keeps.bind (readConfiguredRemotes_keeps hlocal repository) fun configuredRemotes => ?_
  cases configuredRemotes with
  | nil => exact Action.Keeps.pure _
  | cons firstRemote otherRemotes =>
    refine Action.Keeps.bind (readOptionalGit_keeps hlocal repository (by decide)) fun sourceBranch => ?_
    cases sourceBranch with
    | none => exact Action.Keeps.throw _
    | some sourceBranch =>
      refine Action.Keeps.bind (resolveTrackedPushDestination_keeps hlocal repository sourceBranch) fun tracked => ?_
      cases tracked with
      | some tracked => exact Action.Keeps.pure _
      | none =>
        refine Action.Keeps.bind (readConfiguredPushRemote_keeps hlocal repository sourceBranch) fun remote => ?_
        cases remote with
        | some remote =>
          refine Action.Keeps.bind (Action.Keeps.pure (some remote)) fun preferredRemote => ?_
          cases preferredRemote with
          | some remote => exact Action.Keeps.bind (assertConfiguredRemote_keeps _ _ _) fun _ => Action.Keeps.pure _
          | none => exact Action.Keeps.pure _
        | none =>
          refine Action.Keeps.bind (readOptionalGit_keeps hlocal repository rfl) fun preferredRemote => ?_
          cases preferredRemote with
          | some remote => exact Action.Keeps.bind (assertConfiguredRemote_keeps _ _ _) fun _ => Action.Keeps.pure _
          | none => exact Action.Keeps.pure _

theorem resolveSinglePushEndpoint_keeps (hid : Action.Keeps I host.randomUUID) (repository remote : String) :
    Action.Keeps I (resolveSinglePushEndpoint host repository remote) := by
  refine Action.Keeps.bind (gitExecArgs_keeps hlocal repository rfl) fun pushUrls => ?_
  dsimp only
  split
  · apply Action.Keeps.ite
    · intro _
      exact Action.Keeps.throw _
    intro _
    refine Action.Keeps.bind ?_ fun rewrites => Action.Keeps.bind hid fun _ => Action.Keeps.pure _
    refine Action.Keeps.attempt (gitExecArgs_keeps hlocal repository (by decide)) fun error => ?_
    apply Action.Keeps.ite
    · intro _
      exact Action.Keeps.pure _
    · intro _
      exact Action.Keeps.throw _
  · exact Action.Keeps.throw _

theorem assertFastForwardPublication_keeps (repository : String) (destinationBaselineSha : Option String)
    (sourceSha : String) : Action.Keeps I (assertFastForwardPublication host repository destinationBaselineSha sourceSha) := by
  unfold assertFastForwardPublication
  cases destinationBaselineSha with
  | none => exact Action.Keeps.pure _
  | some baseline =>
    apply Action.Keeps.ite
    · intro _
      exact Action.Keeps.pure _
    intro _
    refine Action.Keeps.attempt ?_ fun _ => Action.Keeps.throw _
    exact Action.Keeps.bind (gitExecArgs_keeps hlocal repository rfl) fun _ => Action.Keeps.pure _

theorem establishUpstreamTracking_keeps (repository sourceBranch remote destinationRef sourceSha : String) :
    Action.Keeps I (establishUpstreamTracking host repository sourceBranch remote destinationRef sourceSha) := by
  refine Action.Keeps.attempt ?_ fun _ => Action.Keeps.throw _
  refine Action.Keeps.bind (gitExecArgs_keeps hlocal repository rfl) fun _ => ?_
  refine Action.Keeps.bind (gitExecArgs_keeps hlocal repository rfl) fun _ => ?_
  refine Action.Keeps.bind (gitExecArgs_keeps hlocal repository rfl) fun upstreamRef => ?_
  apply Action.Keeps.ite
  · intro _
    exact Action.Keeps.throw _
  · intro _
    exact Action.Keeps.bind (gitExecArgs_keeps hlocal repository rfl) fun _ => Action.Keeps.pure _

end Local

section Push

variable {σ : Type} {host : Host σ} {I : σ → Prop}

theorem pushExact_keeps (hpush : ∀ cwd args processConfig, args.headD "" = "push" →
      Action.Keeps I (host.execFileGit cwd args processConfig))
    (pushEndpoint : ResolvedPushEndpoint) (sourceSha destinationRef : String) (destinationBaselineSha : Option String) :
    Action.Keeps I (pushEndpoint.pushExact host sourceSha destinationRef destinationBaselineSha) := by
  refine Action.Keeps.bind ?_ fun _ => Action.Keeps.pure _
  exact Action.Keeps.bind (hpush _ _ _ rfl) fun _ => Action.Keeps.pure _

section Read

variable (hread : ∀ cwd args processConfig, args.headD "" = "ls-remote" → Action.Keeps I (host.execFileGit cwd args processConfig))

include hread

theorem readDestinationSha_keeps (pushEndpoint : ResolvedPushEndpoint) (destinationRef phase : String) (retryCount : Nat) :
    Action.Keeps I (readDestinationSha host pushEndpoint destinationRef phase retryCount) := by
  refine Action.Keeps.attempt ?_ fun _ => Action.Keeps.throw _
  refine Action.Keeps.bind ?_ fun _ => Action.Keeps.pure _
  exact Action.Keeps.bind (hread _ _ _ rfl) fun _ => Action.Keeps.pure _

theorem recover_keeps (pushEndpoint : ResolvedPushEndpoint) (destinationRef : String)
    (destinationBaselineSha : Option String) (sourceSha : String) :
    Action.Keeps I (recover host pushEndpoint destinationRef destinationBaselineSha sourceSha) := by
  refine Action.Keeps.bind (readDestinationSha_keeps hread _ _ _ _) fun observedSha => ?_
  unfold assertUnchangedOrPublished
  apply Action.Keeps.ite
  · intro _
    exact Action.Keeps.pure _
  intro _
  apply Action.Keeps.ite
  · intro _
    exact Action.Keeps.pure _
  · intro _
    exact Action.Keeps.throw _

theorem publishWithFrozenEndpoint_keeps {pushEndpoint : ResolvedPushEndpoint} {sourceSha destinationRef : String}
    {destinationBaselineSha : Option String}
    (hpush : Action.Keeps I (pushEndpoint.pushExact host sourceSha destinationRef destinationBaselineSha)) :
    Action.Keeps I (publishWithFrozenEndpoint host pushEndpoint destinationRef destinationBaselineSha sourceSha) := by
  have hrecover := recover_keeps hread pushEndpoint destinationRef destinationBaselineSha sourceSha
  refine Action.Keeps.bind hpush.outcome fun first => ?_
  cases first with
  | ok _ => exact Action.Keeps.pure _
  | error error =>
    dsimp only
    apply Action.Keeps.ite
    · intro _
      exact Action.Keeps.throw _
    intro _
    refine Action.Keeps.bind hrecover fun published => ?_
    apply Action.Keeps.ite
    · intro _
      exact Action.Keeps.pure _
    intro _
    refine Action.Keeps.bind hpush.outcome fun second => ?_
    cases second with
    | ok _ => exact Action.Keeps.pure _
    | error error =>
      refine Action.Keeps.bind hrecover fun published => ?_
      apply Action.Keeps.ite
      · intro _
        exact Action.Keeps.pure _
      · intro _
        exact Action.Keeps.throw _

theorem readPostflight_keeps (pushEndpoint : ResolvedPushEndpoint) (destinationRef : String) (retryCount : Nat) :
    Action.Keeps I (readPostflight host pushEndpoint destinationRef retryCount) := by
  refine Action.Keeps.bind (readDestinationSha_keeps hread _ _ _ _).outcome fun r => ?_
  cases r with
  | ok destinationSha => exact Action.Keeps.pure _
  | error error =>
    apply Action.Keeps.ite
    · intro _
      exact Action.Keeps.throw _
    · intro _
      exact Action.Keeps.bind (readDestinationSha_keeps hread _ _ _ _) fun _ => Action.Keeps.pure _

end Read

/-- What the local commands and the reads of a push keep, and its pushes of the commit that
    HEAD names, the push keeps. -/
theorem executePush_rule {repository : String}
    (hlocal : ∀ cwd args processConfig, localCommand args = true → Action.Keeps I (host.execFileGit cwd args processConfig))
    (hread : ∀ cwd args processConfig, args.headD "" = "ls-remote" → Action.Keeps I (host.execFileGit cwd args processConfig))
    (hpush : ∀ w sourceSha w', I w → (host.gitExecArgs ["rev-parse", "HEAD"] repository).run w = (.ok sourceSha, w') →
      ∀ (pushEndpoint : ResolvedPushEndpoint) destinationRef destinationBaselineSha,
        Action.Keeps I (pushEndpoint.pushExact host sourceSha destinationRef destinationBaselineSha))
    (hid : Action.Keeps I host.randomUUID) (autoPush : Bool) : Action.Keeps I (executePush host repository autoPush) := by
  unfold executePush
  apply Action.Keeps.ite
  · intro _
    exact Action.Keeps.pure _
  intro _
  refine Action.Keeps.bind (Action.Keeps.attempt (resolveCurrentPushDestination_keeps hlocal repository)
    fun _ => Action.Keeps.throw _) fun destination => ?_
  cases destination with
  | none => exact Action.Keeps.pure _
  | some destination =>
    refine Action.Keeps.bind (Action.Keeps.attempt (resolveSinglePushEndpoint_keeps hlocal hid _ _)
      fun _ => Action.Keeps.throw _) fun pushEndpoint => ?_
    unfold publishHead
    have hhead : Action.Triple I ((host.gitExecArgs ["rev-parse", "HEAD"] repository).attempt fun error =>
        .throw (permanentPushError "Cannot resolve exact source commit" error)) fun r w => I w ∧ ∀ sourceSha,
          r = .ok sourceSha → ∀ (pushEndpoint : ResolvedPushEndpoint) destinationRef destinationBaselineSha,
            Action.Keeps I (pushEndpoint.pushExact host sourceSha destinationRef destinationBaselineSha) := by
      intro w hw
      have hargs : localCommand ["rev-parse", "HEAD"] = true := by decide
      have hkept := gitExecArgs_keeps hlocal repository hargs w hw
      rw [Action.run_attempt]
      cases hrun : (host.gitExecArgs ["rev-parse", "HEAD"] repository).run w with
      | mk r w' =>
        rw [hrun] at hkept
        cases r with
        | error error => exact ⟨hkept, fun sourceSha h => by cases h⟩
        | ok sha =>
          refine ⟨hkept, fun sourceSha h => ?_⟩
          cases h
          exact hpush w sha w' hw hrun
    refine Action.Triple.bind hhead (fun sourceSha w hw => ?_) fun _ _ h => h.1
    obtain ⟨hw, hpush⟩ := hw
    have hpush := hpush sourceSha rfl
    revert w
    show Action.Keeps I _
    refine Action.Keeps.bind (readDestinationSha_keeps hread _ _ _ _) fun destinationBaselineSha => ?_
    refine Action.Keeps.bind (assertFastForwardPublication_keeps hlocal _ _ _) fun _ => ?_
    have hend : ∀ postflight : Option String × Nat, Action.Keeps I (
        if postflight.1 ≠ some sourceSha then
          .throw ⟨"Push completed without updating the destination to the exact source commit.", false, postflight.2⟩
        else do
          if destination.establishUpstream = true then
            establishUpstreamTracking host repository destination.sourceBranch destination.remote destination.destinationRef
              sourceSha
          return postflight.2) := by
      intro postflight
      apply Action.Keeps.ite
      · intro _
        exact Action.Keeps.throw _
      intro _
      apply Action.Keeps.ite
      · intro _
        exact Action.Keeps.bind (establishUpstreamTracking_keeps hlocal _ _ _ _ _) fun _ => Action.Keeps.pure _
      · intro _
        exact Action.Keeps.pure _
    apply Action.Keeps.ite
    · intro _
      refine Action.Keeps.bind (publishWithFrozenEndpoint_keeps hread (hpush _ _ _)) fun retryCount => ?_
      exact Action.Keeps.bind (readPostflight_keeps hread _ _ retryCount) hend
    · intro _
      refine Action.Keeps.bind (Action.Keeps.pure 0) fun retryCount => ?_
      exact Action.Keeps.bind (readPostflight_keeps hread _ _ retryCount) hend

/-- What every Git call of a push keeps, the push keeps. -/
theorem executePush_keeps (hgit : ∀ cwd args processConfig, args.headD "" ≠ "commit" → args.headD "" ≠ "--literal-pathspecs" →
      Action.Keeps I (host.execFileGit cwd args processConfig))
    (hid : Action.Keeps I host.randomUUID) (repository : String) (autoPush : Bool) :
    Action.Keeps I (executePush host repository autoPush) := by
  have hcommand : ∀ cwd args processConfig name, args.headD "" = name → name ≠ "commit" → name ≠ "--literal-pathspecs" →
      Action.Keeps I (host.execFileGit cwd args processConfig) := by
    intro cwd args processConfig name hname hcommit hpathspecs
    exact hgit cwd args processConfig (hname ▸ hcommit) (hname ▸ hpathspecs)
  refine executePush_rule ?_ ?_ ?_ hid autoPush
  · intro cwd args processConfig hargs
    refine hgit cwd args processConfig ?_ ?_
    · intro h
      rw [localCommand, h] at hargs
      exact absurd hargs (by decide)
    · intro h
      rw [localCommand, h] at hargs
      exact absurd hargs (by decide)
  · exact fun cwd args processConfig hargs => hcommand cwd args processConfig _ hargs (by decide) (by decide)
  · intro w sourceSha w' _ _ pushEndpoint destinationRef destinationBaselineSha
    exact pushExact_keeps (fun cwd args processConfig hargs => hcommand cwd args processConfig _ hargs (by decide) (by decide))
      pushEndpoint sourceSha destinationRef destinationBaselineSha

end Push

end GitCommitsPush.Publication
