/-
  GitCommitsPush.Publication.ExactPush — a push moves the ref as it was first read to HEAD,
  or leaves it alone.

  `Exact` says what `executePush` may do at the remote and when it may succeed, whatever
  others do to the ref, whatever calls fail and even when a push that was applied is
  reported as failed. What its reads tell is the first ref listed, which is the destination
  where no other ref shadows it (`executePush_exact`); a shadowing ref makes it succeed with
  the destination elsewhere (`shadowed_push`).
-/

import GitCommitsPush.Publication.Remote

namespace GitCommitsPush.Publication

open GitCommitsPush.Lib.Effect
open GitCommitsPush.Lib.JsText
open GitCommitsPush.Lib.Log (Logs EveryEntry Performed)

/-! ## What a push may do -/

def remoteCalls (calls : List Call) : List Call := calls.filter Call.isRemote

/-- A read of the place. `value` is what is made of the refs answered. -/
def Reading (value : AdvertisedRefs → Option ObjectId) (place : Place) (found : Except ExecError (Option ObjectId)) (c : Call) :
    Prop :=
  ∃ answer, c = .read place answer ∧ answer.map value = found

/-- The remote calls of a push that read `baseline` first and publishes `source`. -/
structure Exact {τ : Type} (env : Environment τ) (repository : String) (value : AdvertisedRefs → Option ObjectId) (place : Place)
    (baseline : Option ObjectId) (source : ObjectId) (calls : List Call) (r : Except PushError Nat) : Prop where
  head : Call.command repository ["rev-parse", "HEAD"] (.ok (source.text ++ "\n")) ∈ calls
  preflight : ∃ c, (remoteCalls calls).head? = some c ∧ Reading value place (.ok baseline) c
  updates : ∀ c ∈ calls, c.isPush = true → ∃ before applied result,
    c = .push place source.text before applied result ∧ (applied = true → before = baseline)
  fastForward : (∃ c ∈ calls, c.isPush = true) → ∀ id, baseline = some id → env.isAncestor id.text source.text = true
  attempts : (calls.filter Call.isPush).length ≤ 2
  /-- A second push comes right after a read of the baseline, and that after a transient
      failure of the first. -/
  retry : ∀ before c after, remoteCalls calls = before ++ c :: after → c.isPush = true → (∃ p ∈ before, p.isPush = true) →
    ∃ start found applied error again, before = start ++ [.push place source.text found applied (.error error), again] ∧
      Reading value place (.ok baseline) again ∧ classifyTransient error.message = true
  /-- After a push, a read of any third value ends it. -/
  third : ∀ before c after id, remoteCalls calls = before ++ c :: after → Reading value place (.ok id) c →
    (∃ p ∈ before, p.isPush = true) → id ≠ baseline → id ≠ some source → after = [] ∧ ∃ error, r = .error error
  verified : ∀ retryCount, r = .ok retryCount → ∃ first between last, remoteCalls calls = first :: between ++ [last] ∧
    Reading value place (.ok (some source)) last

/-- No read of the place finds its ref shadowed. -/
def ReadsPlainly (place : Place) (calls : List Call) : Prop :=
  ∀ advertised, Call.read place (.ok advertised) ∈ calls → advertised.Unshadowed place.ref

section Grammar

variable (value : AdvertisedRefs → Option ObjectId) (place : Place) (baseline : Option ObjectId) (source : ObjectId)

/-- One push and its result. -/
inductive LeasedPush : Except ExecError String → Call → Prop where
  | mk (before : Option ObjectId) (applied : Bool) (result : Except ExecError String)
      (leased : applied = true → before = baseline) : LeasedPush result (.push place source.text before applied result)

/-- The remote calls of `publishWithFrozenEndpoint`; it succeeds on a push that did, or on a
    read of the source. -/
inductive Tries : List Call → Except PushError Nat → Prop where
  | pushed {c : Call} {out : String} : LeasedPush place baseline source (.ok out) c → Tries [c] (.ok 0)
  | failed {c : Call} {e : ExecError} (error : PushError) : LeasedPush place baseline source (.error e) c →
      Tries [c] (.error error)
  | recovered {c seen : Call} {e : ExecError} {found : Except ExecError (Option ObjectId)} {r : Except PushError Nat} :
      LeasedPush place baseline source (.error e) c → Reading value place found seen →
      (∀ n, r = .ok n → found = .ok (some source)) → Tries [c, seen] r
  | retried {c again c' : Call} {e : ExecError} {out : String} :
      LeasedPush place baseline source (.error e) c → classifyTransient e.message = true →
      Reading value place (.ok baseline) again → LeasedPush place baseline source (.ok out) c' → Tries [c, again, c'] (.ok 1)
  | rechecked {c again c' seen : Call} {e e' : ExecError} {found : Except ExecError (Option ObjectId)} {r : Except PushError Nat} :
      LeasedPush place baseline source (.error e) c → classifyTransient e.message = true →
      Reading value place (.ok baseline) again → LeasedPush place baseline source (.error e') c' →
      Reading value place found seen → (∀ n, r = .ok n → found = .ok (some source)) → Tries [c, again, c', seen] r

/-- The reads after the pushes; the last of a success finds the source. -/
inductive Postflight : List Call → Except PushError Nat → Prop where
  | once {seen : Call} {found : Except ExecError (Option ObjectId)} {r : Except PushError Nat} :
      Reading value place found seen → (∀ n, r = .ok n → found = .ok (some source)) → Postflight [seen] r
  | twice {failed seen : Call} {e : ExecError} {found : Except ExecError (Option ObjectId)} {r : Except PushError Nat} :
      Reading value place (.error e) failed → Reading value place found seen →
      (∀ n, r = .ok n → found = .ok (some source)) → Postflight [failed, seen] r

/-- The remote calls after the preflight; a push is tried on a descendant of the baseline. -/
inductive Body (descends : Prop) : List Call → Except PushError Nat → Prop where
  | stopped {tries : List Call} {e : PushError} : descends → Tries value place baseline source tries (.error e) →
      Body descends tries (.error e)
  | checked {tries post : List Call} {n : Nat} {r : Except PushError Nat} : descends →
      Tries value place baseline source tries (.ok n) → Postflight value place source post r → Body descends (tries ++ post) r
  | current {post : List Call} {r : Except PushError Nat} : Postflight value place source post r → Body descends post r

end Grammar

section Calls

variable {τ : Type} (env : Environment τ) (other : Host τ)

/-! ## Local commands -/

/-- Calls that stay off the remote. -/
def Local {ε α : Type} : Except ε α → List Call → Prop := fun _ calls => ∀ c ∈ calls, c.isRemote = false

theorem localCommand_logs (cwd : String) {args : List String} (processConfig : List (String × String))
    (hargs : localCommand args = true) : Logs Remote.log ((remoteHost env other).execFileGit cwd args processConfig) Local := by
  refine (execFileGit_logs env other cwd processConfig ⟨?_, ?_⟩).conseq ?_
  · intro h
    rw [localCommand, h] at hargs
    exact absurd hargs (by decide)
  · intro h
    rw [localCommand, h] at hargs
    exact absurd hargs (by decide)
  · intro r calls h c hc
    subst h
    cases List.mem_singleton.mp hc
    rfl

/-- What a log of local calls only, since some point, is kept by. -/
theorem localCommand_keeps (before : List Call) (cwd : String) (args : List String) (processConfig : List (String × String))
    (hargs : localCommand args = true) :
    Action.Keeps (fun w : Remote τ => ∃ calls, w.log = before ++ calls ∧ ∀ c ∈ calls, c.isRemote = false)
      ((remoteHost env other).execFileGit cwd args processConfig) :=
  (localCommand_logs env other cwd processConfig hargs).keeps before

theorem randomUUID_keeps (before : List Call) :
    Action.Keeps (fun w : Remote τ => ∃ calls, w.log = before ++ calls ∧ ∀ c ∈ calls, c.isRemote = false)
      (remoteHost env other).randomUUID := fun _ hw => hw

theorem resolveCurrentPushDestination_logs (repository : String) :
    Logs Remote.log (resolveCurrentPushDestination (remoteHost env other) repository) Local :=
  Logs.of_keeps fun before => resolveCurrentPushDestination_keeps (localCommand_keeps env other before) repository

theorem resolveSinglePushEndpoint_logs (repository remote : String) :
    Logs Remote.log (resolveSinglePushEndpoint (remoteHost env other) repository remote) Local :=
  Logs.of_keeps fun before => resolveSinglePushEndpoint_keeps (localCommand_keeps env other before)
    (randomUUID_keeps env other before) repository remote

theorem establishUpstreamTracking_logs (repository sourceBranch remote destinationRef sourceSha : String) :
    Logs Remote.log (establishUpstreamTracking (remoteHost env other) repository sourceBranch remote destinationRef sourceSha)
      Local :=
  Logs.of_keeps fun before => establishUpstreamTracking_keeps (localCommand_keeps env other before) repository sourceBranch
    remote destinationRef sourceSha

theorem local_command (cwd : String) (args : List String) (result : Except ExecError String) :
    ∀ c ∈ [Call.command cwd args result], c.isRemote = false := by
  intro c hc
  cases List.mem_singleton.mp hc
  rfl

/-- HEAD is read as an object id. -/
theorem sourceSha_logs (repository : String) :
    Logs Remote.log ((remoteHost env other).gitExecArgs ["rev-parse", "HEAD"] repository) fun r calls =>
      (∀ c ∈ calls, c.isRemote = false) ∧ ∀ sourceSha, r = .ok sourceSha → ∃ source : ObjectId, sourceSha = source.text ∧
        calls = [.command repository ["rev-parse", "HEAD"] (.ok (source.text ++ "\n"))] := by
  refine ((revParse_logs env other repository []).map trimString).conseq fun r calls h => ?_
  obtain ⟨r', ⟨rfl, hhead⟩, rfl⟩ := h
  refine ⟨local_command _ _ _, fun sourceSha h => ?_⟩
  cases r' with
  | error e => cases h
  | ok out =>
    obtain ⟨id, rfl⟩ := hhead out rfl
    exact ⟨id, (Except.ok.inj h).symm.trans id.printed, rfl⟩

/-- Only a descendant of what the remote has is published. -/
theorem assertFastForwardPublication_logs (repository : String) (baseline : Option ObjectId) (source : ObjectId) :
    Logs Remote.log (assertFastForwardPublication (remoteHost env other) repository (baseline.map ObjectId.text) source.text)
      fun r calls => (∀ c ∈ calls, c.isRemote = false) ∧ (r = .ok () → ∀ id, baseline = some id → id = source ∨
        env.isAncestor id.text source.text = true) := by
  cases baseline with
  | none => exact Logs.pure ⟨(fun c hc => by cases hc), fun _ id h => by cases h⟩
  | some baseline =>
    unfold assertFastForwardPublication
    refine Logs.ite (fun heq => ?_) (fun _ => ?_)
    · refine Logs.pure ⟨(fun c hc => by cases hc), fun _ id h => ?_⟩
      cases h
      exact .inl (ObjectId.text_inj heq)
    · refine Logs.attempt_throw (((mergeBase_logs env other repository baseline.text source.text []).map trimString).map
        fun _ => ()) ?_ ?_
      · intro _ calls h
        obtain ⟨_, ⟨r', ⟨rfl, hancestor⟩, rfl⟩, hok⟩ := h
        refine ⟨local_command _ _ _, fun _ id h => ?_⟩
        cases h
        cases r' with
        | error e => cases hok
        | ok out => exact .inr (hancestor out rfl)
      · intro e calls h
        obtain ⟨_, ⟨r', ⟨rfl, -⟩, rfl⟩, -⟩ := h
        exact ⟨local_command _ _ _, fun h => by cases h⟩

/-! ## Publication -/

/-- What the code makes of the refs it reads. -/
abbrev told (name : String) (advertised : AdvertisedRefs) : Option ObjectId := advertised.firstListed name

theorem readDestinationSha_logs (pushEndpoint : ResolvedPushEndpoint) (destinationRef phase : String) (retryCount : Nat) :
    Logs Remote.log (readDestinationSha (remoteHost env other) pushEndpoint destinationRef phase retryCount) fun r calls =>
      ∃ c found, calls = [c] ∧ Reading (told destinationRef) (pushEndpoint.place env destinationRef) found c ∧
        match found with
        | .ok value => r = .ok (value.map ObjectId.text)
        | .error _ => ∃ error, r = .error error := by
  refine Logs.attempt_throw (readOptionalDestinationSha_logs env other pushEndpoint destinationRef) ?_ ?_
  · intro sha calls h
    obtain ⟨answer, rfl, hanswer⟩ := h
    cases answer with
    | error e => cases hanswer
    | ok advertised =>
      cases hanswer
      exact ⟨_, _, rfl, ⟨.ok advertised, rfl, rfl⟩, rfl⟩
  · intro e calls h
    obtain ⟨answer, rfl, hanswer⟩ := h
    cases answer with
    | error e => exact ⟨_, _, rfl, ⟨.error e, rfl, rfl⟩, _, rfl⟩
    | ok advertised => cases hanswer

theorem Reading.isRemote {value : AdvertisedRefs → Option ObjectId} {place : Place} {found : Except ExecError (Option ObjectId)}
    {c : Call} (h : Reading value place found c) : c.isRemote = true := by
  obtain ⟨answer, rfl, -⟩ := h
  rfl

theorem Reading.isPush {value : AdvertisedRefs → Option ObjectId} {place : Place} {found : Except ExecError (Option ObjectId)}
    {c : Call} (h : Reading value place found c) : c.isPush = false := by
  obtain ⟨answer, rfl, -⟩ := h
  rfl

section Publish

variable (pushEndpoint : ResolvedPushEndpoint) (destinationRef : String) (baseline : Option ObjectId) (source : ObjectId)

/-- A read after a failed push recognises the source and the baseline, and nothing else. -/
theorem recover_logs :
    Logs Remote.log (recover (remoteHost env other) pushEndpoint destinationRef (baseline.map ObjectId.text) source.text)
      fun r calls => ∃ c found, calls = [c] ∧ Reading (told destinationRef) (pushEndpoint.place env destinationRef) found c ∧
        (r = .ok true → found = .ok (some source)) ∧ (r = .ok false → found = .ok baseline) := by
  refine Logs.bind (readDestinationSha_logs env other pushEndpoint destinationRef "recovery check" 1) ?_ ?_
  · intro observedSha calls h
    obtain ⟨c, found, rfl, hreading, hfound⟩ := h
    cases found with
    | error e =>
      obtain ⟨error, h⟩ := hfound
      cases h
    | ok value =>
      cases hfound
      unfold assertUnchangedOrPublished
      refine Logs.ite (fun hpublished => ?_) (fun _ => Logs.ite (fun hunchanged => ?_) fun _ => ?_)
      · refine Logs.pure ⟨c, .ok value, rfl, hreading, fun _ => ?_, fun h => by cases h⟩
        exact congrArg Except.ok (ObjectId.map_text_inj (b := some source) hpublished)
      · refine Logs.pure ⟨c, .ok value, rfl, hreading, (fun h => by cases h), fun _ => ?_⟩
        exact congrArg Except.ok (ObjectId.map_text_inj hunchanged)
      · exact Logs.throw ⟨c, .ok value, rfl, hreading, (fun h => by cases h), fun h => by cases h⟩
  · intro e calls h
    obtain ⟨c, found, rfl, hreading, -⟩ := h
    exact ⟨c, found, rfl, hreading, (fun h => by cases h), fun h => by cases h⟩

theorem leasedPush_logs :
    Logs Remote.log (pushEndpoint.pushExact (remoteHost env other) source.text destinationRef (baseline.map ObjectId.text))
      fun r calls => ∃ c result, calls = [c] ∧
        LeasedPush (pushEndpoint.place env destinationRef) baseline source result c ∧ r = result.map fun _ => () := by
  refine (pushExact_logs env other pushEndpoint source destinationRef baseline).conseq fun r calls h => ?_
  obtain ⟨before, applied, result, rfl, hleased, -, hr⟩ := h
  exact ⟨_, result, rfl, .mk before applied result hleased, hr⟩

theorem publishWithFrozenEndpoint_logs :
    Logs Remote.log (publishWithFrozenEndpoint (remoteHost env other) pushEndpoint destinationRef
      (baseline.map ObjectId.text) source.text) fun r calls =>
      Tries (told destinationRef) (pushEndpoint.place env destinationRef) baseline source calls r := by
  have hpush := leasedPush_logs env other pushEndpoint destinationRef baseline source
  have hrecover := recover_logs env other pushEndpoint destinationRef baseline source
  refine Logs.bind_outcome hpush fun first calls h => ?_
  obtain ⟨c, result, rfl, hfirst, rfl⟩ := h
  cases result with
  | ok out => exact Logs.pure (.pushed hfirst)
  | error e =>
    refine Logs.ite (fun _ => Logs.throw (.failed _ hfirst)) fun htransient => ?_
    rw [createPushError_transient, Bool.not_eq_false] at htransient
    refine Logs.bind hrecover (fun published calls h => ?_) fun error calls h => ?_
    · obtain ⟨again, found, rfl, hreading, hpublished, hunchanged⟩ := h
      refine Logs.ite (fun hp => ?_) fun hp => ?_
      · subst hp
        exact Logs.pure (.recovered hfirst hreading fun _ _ => hpublished rfl)
      cases (Bool.not_eq_true _).mp hp
      cases hunchanged rfl
      refine Logs.bind_outcome hpush fun second calls h => ?_
      obtain ⟨c', result, rfl, hsecond, rfl⟩ := h
      cases result with
      | ok out => exact Logs.pure (.retried hfirst htransient hreading hsecond)
      | error e' =>
        refine Logs.bind hrecover (fun published calls h => ?_) fun error calls h => ?_
        · obtain ⟨seen, found, rfl, hseen, hpublished, -⟩ := h
          refine Logs.ite (fun hp => ?_) fun _ => ?_
          · subst hp
            exact Logs.pure (.rechecked hfirst htransient hreading hsecond hseen fun _ _ => hpublished rfl)
          · exact Logs.throw (.rechecked hfirst htransient hreading hsecond hseen fun n h => by cases h)
        · obtain ⟨seen, found, rfl, hseen, -⟩ := h
          exact .rechecked hfirst htransient hreading hsecond hseen fun n h => by cases h
    · obtain ⟨seen, found, rfl, hseen, -⟩ := h
      exact .recovered hfirst hseen fun n h => by cases h

end Publish

theorem remoteCalls_append (calls more : List Call) : remoteCalls (calls ++ more) = remoteCalls calls ++ remoteCalls more :=
  List.filter_append ..

theorem remoteCalls_local {calls : List Call} (h : ∀ c ∈ calls, c.isRemote = false) : remoteCalls calls = [] :=
  List.filter_eq_nil_iff.mpr fun c hc => by rw [h c hc]; exact Bool.false_ne_true

theorem remoteCalls_remote {calls : List Call} (h : ∀ c ∈ calls, c.isRemote = true) : remoteCalls calls = calls :=
  List.filter_eq_self.mpr h

theorem LeasedPush.isRemote {place : Place} {baseline : Option ObjectId} {source : ObjectId} {result : Except ExecError String}
    {c : Call} (h : LeasedPush place baseline source result c) : c.isRemote = true := by
  cases h
  rfl

theorem Tries.remote {value : AdvertisedRefs → Option ObjectId} {place : Place} {baseline : Option ObjectId} {source : ObjectId}
    {calls : List Call} {r : Except PushError Nat} (h : Tries value place baseline source calls r) : remoteCalls calls = calls := by
  refine remoteCalls_remote ?_
  cases h with
  | pushed h => simp [h.isRemote]
  | failed _ h => simp [h.isRemote]
  | recovered h hseen _ => simp [h.isRemote, hseen.isRemote]
  | retried h _ hagain h' => simp [h.isRemote, hagain.isRemote, h'.isRemote]
  | rechecked h _ hagain h' hseen _ => simp [h.isRemote, hagain.isRemote, h'.isRemote, hseen.isRemote]

section Head

variable (repository : String) (destination : CurrentPushDestination) (pushEndpoint : ResolvedPushEndpoint)

theorem readPostflight_logs (retryCount : Nat) :
    Logs Remote.log (readPostflight (remoteHost env other) pushEndpoint destination.destinationRef retryCount) fun r calls =>
      ∃ seen found, Reading (told destination.destinationRef) (pushEndpoint.place env destination.destinationRef) found seen ∧
        (calls = [seen] ∨ ∃ failed e, calls = [failed, seen] ∧
          Reading (told destination.destinationRef) (pushEndpoint.place env destination.destinationRef) (.error e) failed) ∧
        ∀ sha n, r = .ok (sha, n) → ∃ value, found = .ok value ∧ sha = value.map ObjectId.text := by
  have hread := readDestinationSha_logs env other pushEndpoint destination.destinationRef "postflight"
  refine Logs.bind_outcome (hread retryCount) fun r calls h => ?_
  obtain ⟨seen, found, rfl, hseen, hfound⟩ := h
  cases r with
  | ok sha =>
    refine Logs.pure ⟨seen, found, hseen, .inl rfl, fun sha' n h => ?_⟩
    cases h
    cases found with
    | error e =>
      obtain ⟨error, h⟩ := hfound
      cases h
    | ok value => exact ⟨value, rfl, Except.ok.inj hfound⟩
  | error error =>
    refine Logs.ite (fun _ => Logs.throw ⟨seen, found, hseen, .inl rfl, fun sha n h => by cases h⟩) fun _ => ?_
    cases found with
    | ok value => cases hfound
    | error e =>
      refine ((hread 1).map fun sha => (sha, 1)).conseq fun r more h => ?_
      obtain ⟨_, ⟨last, found, rfl, hlast, hfound⟩, rfl⟩ := h
      refine ⟨last, found, hlast, .inr ⟨seen, e, rfl, hseen⟩, fun sha n h => ?_⟩
      cases found with
      | error e =>
        obtain ⟨error, rfl⟩ := hfound
        cases h
      | ok value =>
        subst hfound
        cases h
        exact ⟨value, rfl, rfl⟩

/-- What follows the pushes succeeds only on a read of the source. -/
theorem finishHead_logs (source : ObjectId) (retryCount : Nat) :
    Logs Remote.log (do
      let postflight ← readPostflight (remoteHost env other) pushEndpoint destination.destinationRef retryCount
      if postflight.1 ≠ some source.text then
        .throw ⟨"Push completed without updating the destination to the exact source commit.", false, postflight.2⟩
      else do
        if destination.establishUpstream = true then
          establishUpstreamTracking (remoteHost env other) repository destination.sourceBranch destination.remote
            destination.destinationRef source.text
        return postflight.2) fun r calls =>
      Postflight (told destination.destinationRef) (pushEndpoint.place env destination.destinationRef) source
        (remoteCalls calls) r := by
  have hreads : ∀ (seen : Call) (found : Except ExecError (Option ObjectId)) (calls more : List Call) (r : Except PushError Nat),
      (∀ c ∈ more, c.isRemote = false) → (∀ n, r = .ok n → found = .ok (some source)) →
      Reading (told destination.destinationRef) (pushEndpoint.place env destination.destinationRef) found seen →
      (calls = [seen] ∨ ∃ failed e, calls = [failed, seen] ∧
        Reading (told destination.destinationRef) (pushEndpoint.place env destination.destinationRef) (.error e) failed) →
      Postflight (told destination.destinationRef) (pushEndpoint.place env destination.destinationRef) source
        (remoteCalls (calls ++ more)) r := by
    intro seen found calls more r hlocal hr hseen hcalls
    rw [remoteCalls_append, remoteCalls_local hlocal, List.append_nil]
    rcases hcalls with rfl | ⟨failed, e, rfl, hfailed⟩
    · rw [remoteCalls_remote (by simp [hseen.isRemote])]
      exact .once hseen hr
    · rw [remoteCalls_remote (by simp [hseen.isRemote, hfailed.isRemote])]
      exact .twice hfailed hseen hr
  have hnone : ∀ c ∈ ([] : List Call), c.isRemote = false := fun c hc => by cases hc
  refine Logs.bind (readPostflight_logs env other destination pushEndpoint retryCount) ?_ ?_
  · intro postflight calls h
    obtain ⟨seen, found, hseen, hcalls, hfound⟩ := h
    obtain ⟨value, rfl, hvalue⟩ := hfound _ _ rfl
    refine Logs.ite (fun _ => ?_) fun hsource => ?_
    · exact Logs.throw (hreads _ _ calls [] _ hnone (fun n h => by cases h) hseen hcalls)
    have hsource : value = some source :=
      ObjectId.map_text_inj (b := some source) (hvalue.symm.trans (Decidable.not_not.mp hsource))
    subst hsource
    refine Logs.ite (fun _ => ?_) fun _ => ?_
    · refine Logs.bind (establishUpstreamTracking_logs env other repository _ _ _ _) (fun _ more hmore => ?_)
        fun e more hmore => ?_
      · refine Logs.pure ?_
        rw [List.append_nil]
        exact hreads _ _ calls more _ hmore (fun _ _ => rfl) hseen hcalls
      · exact hreads _ _ calls more _ hmore (fun n h => by cases h) hseen hcalls
    · exact Logs.pure (hreads _ _ calls [] _ hnone (fun _ _ => rfl) hseen hcalls)
  · intro e calls h
    obtain ⟨seen, found, hseen, hcalls, -⟩ := h
    have h := hreads seen found calls [] (.error e) hnone (fun n h => by cases h) hseen hcalls
    rwa [List.append_nil] at h

/-- What a push does: it stops before any push, or it goes on from its preflight. -/
def Publishes (value : AdvertisedRefs → Option ObjectId) (place : Place) (calls : List Call) (r : Except PushError Nat) : Prop :=
  ((∀ c ∈ calls, c.isPush = false) ∧ ∃ e, r = .error e) ∨
    ∃ (baseline : Option ObjectId) (source : ObjectId) (first : Call) (rest : List Call),
      .command repository ["rev-parse", "HEAD"] (.ok (source.text ++ "\n")) ∈ calls ∧
      remoteCalls calls = first :: rest ∧ Reading value place (.ok baseline) first ∧
      Body value place baseline source (∀ id, baseline = some id → env.isAncestor id.text source.text = true) rest r

theorem isPush_of_not_isRemote {c : Call} (h : c.isRemote = false) : c.isPush = false := by
  cases c with
  | command => rfl
  | read => rfl
  | push => cases h

/-- Local calls before change nothing. -/
theorem Publishes.after {value : AdvertisedRefs → Option ObjectId} {place : Place} {calls more : List Call}
    {r : Except PushError Nat} (h : Publishes env repository value place more r) (hcalls : ∀ c ∈ calls, c.isRemote = false) :
    Publishes env repository value place (calls ++ more) r := by
  rcases h with ⟨hquiet, he⟩ | ⟨baseline, source, first, rest, hhead, hremote, hreading, hbody⟩
  · refine .inl ⟨fun c hc => ?_, he⟩
    rcases List.mem_append.mp hc with hc | hc
    · exact isPush_of_not_isRemote (hcalls c hc)
    · exact hquiet c hc
  · refine .inr ⟨baseline, source, first, rest, List.mem_append_right _ hhead, ?_, hreading, hbody⟩
    rw [remoteCalls_append, remoteCalls_local hcalls, List.nil_append]
    exact hremote

theorem publishHead_logs :
    Logs Remote.log (publishHead (remoteHost env other) repository destination pushEndpoint)
      fun r calls => Publishes env repository (told destination.destinationRef)
        (pushEndpoint.place env destination.destinationRef) calls r := by
  have hquiet : ∀ calls : List Call, (∀ c ∈ calls, c.isRemote = false) → ∀ c ∈ calls, c.isPush = false :=
    fun _ h c hc => isPush_of_not_isRemote (h c hc)
  unfold publishHead
  refine Logs.bind (Logs.attempt_throw (R := fun r calls => (∀ c ∈ calls, c.isRemote = false) ∧ ∀ sourceSha, r = .ok sourceSha →
    ∃ source : ObjectId, sourceSha = source.text ∧
      calls = [.command repository ["rev-parse", "HEAD"] (.ok (source.text ++ "\n"))])
    (sourceSha_logs env other repository) ?_ ?_) ?_ ?_
  · intro sourceSha calls h
    exact ⟨h.1, fun sourceSha' heq => by cases heq; exact h.2 sourceSha rfl⟩
  · intro e calls h
    exact ⟨h.1, fun sourceSha h => by cases h⟩
  · intro sourceSha calls h
    obtain ⟨source, rfl, rfl⟩ := h.2 sourceSha rfl
    refine Logs.bind (readDestinationSha_logs env other pushEndpoint destination.destinationRef "preflight" 0) ?_ ?_
    · intro destinationBaselineSha calls h
      obtain ⟨first, found, rfl, hreading, hfound⟩ := h
      cases found with
      | error e =>
        obtain ⟨error, h⟩ := hfound
        cases h
      | ok baseline =>
        cases hfound
        refine Logs.bind (assertFastForwardPublication_logs env other repository baseline source) ?_ ?_
        · intro _ calls h
          have hgoes : ∀ more r, Body (told destination.destinationRef) (pushEndpoint.place env destination.destinationRef)
              baseline source (∀ id, baseline = some id → env.isAncestor id.text source.text = true) (remoteCalls more) r →
              Publishes env repository (told destination.destinationRef) (pushEndpoint.place env destination.destinationRef)
                ([.command repository ["rev-parse", "HEAD"] (.ok (source.text ++ "\n"))] ++ ([first] ++ (calls ++ more))) r := by
            intro more r hbody
            refine .inr ⟨baseline, source, first, remoteCalls more, List.mem_append_left _ List.mem_cons_self, ?_, hreading, hbody⟩
            have hfirst : remoteCalls [first] = [first] := remoteCalls_remote (by simp [hreading.isRemote])
            rw [remoteCalls_append, remoteCalls_append, remoteCalls_append, remoteCalls_local h.1, hfirst]
            rfl
          have hfinish := finishHead_logs env other repository destination pushEndpoint source
          refine Logs.ite (fun hmoved => ?_) fun _ => ?_
          · have hdescends : ∀ id, baseline = some id → env.isAncestor id.text source.text = true := by
              intro id hid
              rcases h.2 rfl id hid with rfl | hancestor
              · subst hid
                exact absurd rfl hmoved
              · exact hancestor
            refine Logs.bind (publishWithFrozenEndpoint_logs env other pushEndpoint destination.destinationRef baseline source)
              (fun retryCount tries htries => ?_) fun e tries htries => ?_
            · refine (hfinish retryCount).conseq fun r post hpost => ?_
              apply hgoes
              rw [remoteCalls_append, htries.remote]
              exact .checked hdescends htries hpost
            · apply hgoes
              rw [htries.remote]
              exact .stopped hdescends htries
          · exact (hfinish 0).conseq fun r post hpost => hgoes post r (.current hpost)
        · intro e calls h
          refine .inl ⟨?_, e, rfl⟩
          intro c hc
          rcases List.mem_append.mp hc with hc | hc
          · exact hquiet _ (local_command _ _ _) c hc
          · rcases List.mem_append.mp hc with hc | hc
            · cases List.mem_singleton.mp hc
              exact hreading.isPush
            · exact hquiet _ h.1 c hc
    · intro e calls h
      obtain ⟨first, found, rfl, hreading, -⟩ := h
      refine .inl ⟨?_, e, rfl⟩
      intro c hc
      rcases List.mem_cons.mp hc with rfl | hc
      · rfl
      · cases List.mem_singleton.mp hc
        exact hreading.isPush
  · intro e calls h
    exact .inl ⟨hquiet calls h.1, e, rfl⟩

end Head

section Exact

variable {value : AdvertisedRefs → Option ObjectId} {place : Place} {baseline : Option ObjectId} {source : ObjectId}

/-- The retry and the third value of `Exact`, at one remote call. -/
structure InOrder (value : AdvertisedRefs → Option ObjectId) (place : Place) (baseline : Option ObjectId) (source : ObjectId)
    (r : Except PushError Nat) (before : List Call) (c : Call) (after : List Call) : Prop where
  update : c.isPush = true → ∃ found applied result,
    c = .push place source.text found applied result ∧ (applied = true → found = baseline)
  retry : c.isPush = true → (∃ p ∈ before, p.isPush = true) →
    ∃ start found applied error again, before = start ++ [.push place source.text found applied (.error error), again] ∧
      Reading value place (.ok baseline) again ∧ classifyTransient error.message = true
  third : ∀ id, Reading value place (.ok id) c → (∃ p ∈ before, p.isPush = true) → id ≠ baseline → id ≠ some source →
    after = [] ∧ ∃ error, r = .error error

theorem Reading.unique {found found' : Except ExecError (Option ObjectId)} {c : Call} (h : Reading value place found c)
    (h' : Reading value place found' c) : found = found' := by
  obtain ⟨answer, rfl, rfl⟩ := h
  obtain ⟨answer', hsame, rfl⟩ := h'
  cases hsame
  rfl

theorem InOrder.read {r : Except PushError Nat} {before after : List Call} {found : Except ExecError (Option ObjectId)} {c : Call}
    (hreading : Reading value place found c) (h : ∀ id, found = .ok id → (∃ p ∈ before, p.isPush = true) → id = baseline ∨
      id = some source ∨ (after = [] ∧ ∃ error, r = .error error)) : InOrder value place baseline source r before c after := by
  have hnot : c.isPush ≠ true := by
    rw [hreading.isPush]
    exact Bool.false_ne_true
  refine ⟨fun h => absurd h hnot, fun h => absurd h hnot, fun id hid hpushed hbaseline hsource => ?_⟩
  rcases h id (hreading.unique hid) hpushed with h | h | h
  · exact absurd h hbaseline
  · exact absurd h hsource
  · exact h

theorem InOrder.push {r : Except PushError Nat} {before after : List Call} {result : Except ExecError String} {c : Call}
    (hpush : LeasedPush place baseline source result c)
    (h : (∀ p ∈ before, p.isPush = false) ∨ ∃ start e p again, before = start ++ [p, again] ∧
      LeasedPush place baseline source (.error e) p ∧ Reading value place (.ok baseline) again ∧
      classifyTransient e.message = true) : InOrder value place baseline source r before c after := by
  obtain ⟨found, applied, _, hleased⟩ := hpush
  refine ⟨fun _ => ⟨found, applied, result, rfl, hleased⟩, fun _ hpushed => ?_, fun id h => ?_⟩
  rotate_left
  · obtain ⟨answer, hcall, -⟩ := h
    cases hcall
  rcases h with h | ⟨start, e, p, again, rfl, hp, hagain, htransient⟩
  · obtain ⟨p, hp, hpush⟩ := hpushed
    rw [h p hp] at hpush
    cases hpush
  · obtain ⟨found', applied', _, -⟩ := hp
    exact ⟨start, found', applied', e, again, rfl, hagain, htransient⟩

theorem LeasedPush.isPush {result : Except ExecError String} {c : Call} (h : LeasedPush place baseline source result c) :
    c.isPush = true := by
  cases h
  rfl

/-- The tries are in order wherever no push came before, and nothing after them if they
    fail. -/
theorem Tries.inOrder {tries pre post : List Call} {r₀ r : Except PushError Nat} (h : Tries value place baseline source tries r₀)
    (hpre : ∀ p ∈ pre, p.isPush = false) (hend : (∃ n, r₀ = .ok n) ∨ (post = [] ∧ ∃ error, r = .error error)) :
    EveryEntry (fun before c after => InOrder value place baseline source r (pre ++ before) c (after ++ post)) tries := by
  have hfirst : ∀ p ∈ pre ++ [], p.isPush = false := by rwa [List.append_nil]
  have hreread : ∀ {again : Call}, Reading value place (.ok baseline) again → ∀ before after,
      InOrder value place baseline source r before again after := by
    intro again hagain before after
    refine InOrder.read hagain fun value h _ => ?_
    cases h
    exact .inl rfl
  have hlast : ∀ {seen : Call} {found : Except ExecError (Option ObjectId)}, Reading value place found seen →
      (∀ n, r₀ = .ok n → found = .ok (some source)) → ∀ before, InOrder value place baseline source r before seen ([] ++ post) := by
    intro seen found hseen hfound before
    refine InOrder.read hseen fun value hvalue _ => ?_
    rcases hend with ⟨n, hn⟩ | hend
    · rw [hfound n hn] at hvalue
      cases hvalue
      exact .inr (.inl rfl)
    · exact .inr (.inr hend)
  cases h with
  | pushed hc => exact .cons (.push hc (.inl hfirst)) .nil
  | failed _ hc => exact .cons (.push hc (.inl hfirst)) .nil
  | recovered hc hseen hfound => exact .cons (.push hc (.inl hfirst)) (.cons (hlast hseen hfound _) .nil)
  | retried hc htransient hagain hc' =>
    exact .cons (.push hc (.inl hfirst)) (.cons (hreread hagain _ _)
      (.cons (.push hc' (.inr ⟨pre, _, _, _, rfl, hc, hagain, htransient⟩)) .nil))
  | rechecked hc htransient hagain hc' hseen hfound =>
    exact .cons (.push hc (.inl hfirst)) (.cons (hreread hagain _ _)
      (.cons (.push hc' (.inr ⟨pre, _, _, _, rfl, hc, hagain, htransient⟩)) (.cons (hlast hseen hfound _) .nil)))

theorem Postflight.inOrder {pre post : List Call} {r : Except PushError Nat} (h : Postflight value place source post r) :
    EveryEntry (fun before c after => InOrder value place baseline source r (pre ++ before) c after) post := by
  have hlast : ∀ {seen : Call} {found : Except ExecError (Option ObjectId)}, Reading value place found seen →
      (∀ n, r = .ok n → found = .ok (some source)) → ∀ before, InOrder value place baseline source r before seen [] := by
    intro seen found hseen hfound before
    refine InOrder.read hseen fun value hvalue _ => ?_
    cases r with
    | ok n =>
      rw [hfound n rfl] at hvalue
      cases hvalue
      exact .inr (.inl rfl)
    | error error => exact .inr (.inr ⟨rfl, error, rfl⟩)
  cases h with
  | once hseen hfound => exact .cons (hlast hseen hfound _) .nil
  | twice hfailed hseen hfound => exact .cons (.read hfailed fun value h => by cases h) (.cons (hlast hseen hfound _) .nil)

theorem Body.inOrder {descends : Prop} {first : Call} {rest : List Call} {r : Except PushError Nat}
    (hreading : Reading value place (.ok baseline) first) (h : Body value place baseline source descends rest r) :
    EveryEntry (InOrder value place baseline source r) (first :: rest) := by
  have hpre : ∀ p ∈ [first], p.isPush = false := by
    intro p hp
    cases List.mem_singleton.mp hp
    exact hreading.isPush
  refine .cons (.read hreading fun value h _ => by cases h; exact .inl rfl) ?_
  cases h with
  | @stopped _ e _ htries =>
    have h : EveryEntry (fun before c after => InOrder value place baseline source (.error e)
        ([first] ++ before) c (after ++ [])) _ := htries.inOrder hpre (.inr ⟨rfl, e, rfl⟩)
    intro before c after hsplit
    have horder : InOrder value place baseline source (.error e) ([first] ++ before) c (after ++ []) := h before c after hsplit
    rwa [List.append_nil] at horder
  | checked _ htries hpost =>
    refine (htries.inOrder hpre (.inl ⟨_, rfl⟩)).append ?_
    simp only [← List.append_assoc]
    exact hpost.inOrder
  | current hpost =>
    have h : EveryEntry (fun before c after => InOrder value place baseline source r ([first] ++ before) c after) _ := hpost.inOrder
    exact h

theorem Tries.pushes {tries : List Call} {r : Except PushError Nat} (h : Tries value place baseline source tries r) :
    (tries.filter Call.isPush).length ≤ 2 := by
  cases h with
  | pushed hc => simp [hc.isPush]
  | failed _ hc => simp [hc.isPush]
  | recovered hc hseen _ => simp [hc.isPush, hseen.isPush]
  | retried hc _ hagain hc' => simp [hc.isPush, hc'.isPush, hagain.isPush]
  | rechecked hc _ hagain hc' hseen _ => simp [hc.isPush, hc'.isPush, hagain.isPush, hseen.isPush]

theorem Postflight.pushes {post : List Call} {r : Except PushError Nat} (h : Postflight value place source post r) :
    post.filter Call.isPush = [] := by
  cases h with
  | once hseen _ => simp [hseen.isPush]
  | twice hfailed hseen _ => simp [hfailed.isPush, hseen.isPush]

theorem Postflight.verified {post : List Call} {n : Nat} (h : Postflight value place source post (.ok n)) :
    ∃ between last, post = between ++ [last] ∧ Reading value place (.ok (some source)) last := by
  cases h with
  | once hseen hfound => exact ⟨[], _, rfl, hfound n rfl ▸ hseen⟩
  | @twice failed _ _ _ _ _ hseen hfound => exact ⟨[failed], _, rfl, hfound n rfl ▸ hseen⟩

theorem push_mem_remoteCalls {calls : List Call} {c : Call} (hc : c ∈ calls) (hpush : c.isPush = true) : c ∈ remoteCalls calls := by
  refine List.mem_filter.mpr ⟨hc, ?_⟩
  cases c with
  | push => rfl
  | read => rfl
  | command => cases hpush

theorem filter_push_remoteCalls (calls : List Call) : (remoteCalls calls).filter Call.isPush = calls.filter Call.isPush := by
  rw [remoteCalls, List.filter_filter]
  congr 1
  funext c
  cases c <;> rfl

theorem exact_of_body {repository : String} {calls rest : List Call} {first : Call} {r : Except PushError Nat}
    (hhead : .command repository ["rev-parse", "HEAD"] (.ok (source.text ++ "\n")) ∈ calls)
    (hremote : remoteCalls calls = first :: rest) (hreading : Reading value place (.ok baseline) first)
    (hbody : Body value place baseline source (∀ id, baseline = some id → env.isAncestor id.text source.text = true) rest r) :
    Exact env repository value place baseline source calls r := by
  have horder := hbody.inOrder hreading
  rw [← hremote] at horder
  have hquiet : ¬first.isPush = true := by
    rw [hreading.isPush]
    exact Bool.false_ne_true
  refine ⟨hhead, ⟨first, by rw [hremote]; rfl, hreading⟩, ?_, ?_, ?_, ?_, ?_, ?_⟩
  · intro c hc hpush
    obtain ⟨before, after, hsplit⟩ := List.append_of_mem (push_mem_remoteCalls hc hpush)
    exact (horder before c after hsplit).update hpush
  · rintro ⟨c, hc, hpush⟩
    cases hbody with
    | stopped hdescends _ => exact hdescends
    | checked hdescends _ _ => exact hdescends
    | current hpost =>
      have hmem : c ∈ (remoteCalls calls).filter Call.isPush := List.mem_filter.mpr ⟨push_mem_remoteCalls hc hpush, hpush⟩
      rw [hremote, List.filter_cons_of_neg hquiet, hpost.pushes] at hmem
      cases hmem
  · rw [← filter_push_remoteCalls, hremote, List.filter_cons_of_neg hquiet]
    cases hbody with
    | stopped _ htries => exact htries.pushes
    | checked _ htries hpost =>
      rw [List.filter_append, hpost.pushes, List.append_nil]
      exact htries.pushes
    | current hpost =>
      rw [hpost.pushes]
      exact Nat.zero_le 2
  · intro before c after hsplit
    exact (horder before c after hsplit).retry
  · intro before c after id hsplit
    exact (horder before c after hsplit).third id
  · intro retryCount hr
    subst hr
    rw [hremote]
    cases hbody with
    | @checked tries _ _ _ _ _ hpost =>
      obtain ⟨between, last, rfl, hlast⟩ := hpost.verified
      exact ⟨first, tries ++ between, last, by rw [← List.append_assoc]; rfl, hlast⟩
    | current hpost =>
      obtain ⟨between, last, rfl, hlast⟩ := hpost.verified
      exact ⟨first, between, last, rfl, hlast⟩

/-- What is made of the refs may be anything that is the same for those answered. -/
theorem Reading.congr {value' : AdvertisedRefs → Option ObjectId} {calls : List Call}
    (hsame : ∀ advertised, .read place (.ok advertised) ∈ calls → value' advertised = value advertised) {c : Call} (hc : c ∈ calls)
    {id : Option ObjectId} : Reading value' place (.ok id) c ↔ Reading value place (.ok id) c := by
  constructor
  · rintro ⟨answer, rfl, hanswer⟩
    cases answer with
    | error e => cases hanswer
    | ok advertised => exact ⟨.ok advertised, rfl, by rw [← hanswer]; exact congrArg Except.ok (hsame advertised hc).symm⟩
  · rintro ⟨answer, rfl, hanswer⟩
    cases answer with
    | error e => cases hanswer
    | ok advertised => exact ⟨.ok advertised, rfl, by rw [← hanswer]; exact congrArg Except.ok (hsame advertised hc)⟩

theorem remoteCalls_sub {calls : List Call} {c : Call} (h : c ∈ remoteCalls calls) : c ∈ calls := (List.mem_filter.mp h).1

theorem Exact.congr {value' : AdvertisedRefs → Option ObjectId} {repository : String} {calls : List Call} {r : Except PushError Nat}
    (h : Exact env repository value place baseline source calls r)
    (hsame : ∀ advertised, .read place (.ok advertised) ∈ calls → value' advertised = value advertised) :
    Exact env repository value' place baseline source calls r where
  head := h.head
  preflight := by
    obtain ⟨first, hfirst, hreading⟩ := h.preflight
    exact ⟨first, hfirst, (Reading.congr hsame (remoteCalls_sub (List.mem_of_head? hfirst))).mpr hreading⟩
  updates := h.updates
  fastForward := h.fastForward
  attempts := h.attempts
  retry := by
    intro before c after hsplit hpush hpushed
    obtain ⟨start, found, applied, error, again, rfl, hagain, htransient⟩ := h.retry before c after hsplit hpush hpushed
    have hmem : again ∈ remoteCalls calls := by
      rw [hsplit]
      simp
    exact ⟨start, found, applied, error, again, rfl, (Reading.congr hsame (remoteCalls_sub hmem)).mpr hagain, htransient⟩
  third := by
    intro before c after id hsplit hreading
    have hmem : c ∈ remoteCalls calls := by
      rw [hsplit]
      simp
    exact h.third before c after id hsplit ((Reading.congr hsame (remoteCalls_sub hmem)).mp hreading)
  verified := by
    intro retryCount hr
    obtain ⟨first, between, last, hcalls, hlast⟩ := h.verified retryCount hr
    have hmem : last ∈ remoteCalls calls := by
      rw [hcalls]
      simp
    exact ⟨first, between, last, hcalls, (Reading.congr hsame (remoteCalls_sub hmem)).mpr hlast⟩

end Exact

/-- A push of the destination that was resolved, over the endpoint that was resolved for it. -/
structure PushesExactly (repository : String) (w : Remote τ) (calls : List Call) (r : Except PushError Nat)
    (destination : CurrentPushDestination) (pushEndpoint : ResolvedPushEndpoint) (baseline : Option ObjectId) (source : ObjectId) :
    Prop where
  resolved : ((resolveCurrentPushDestination (remoteHost env other) repository).run w).1 = .ok (some destination)
  endpoint : Performed Remote.log (resolveSinglePushEndpoint (remoteHost env other) repository destination.remote) pushEndpoint calls
  /-- The reads tell the first ref listed. -/
  told : Exact env repository (told destination.destinationRef) (pushEndpoint.place env destination.destinationRef) baseline source
    calls r
  /-- That is the destination where it is not shadowed. -/
  plain : ReadsPlainly (pushEndpoint.place env destination.destinationRef) calls →
    Exact env repository (·.lookup destination.destinationRef) (pushEndpoint.place env destination.destinationRef) baseline source
      calls r
  /-- A success is true exactly when the last read was of the destination. -/
  success : ∀ retryCount, r = .ok retryCount → ∃ before advertised, remoteCalls calls =
    before ++ [.read (pushEndpoint.place env destination.destinationRef) (.ok advertised)] ∧
      (advertised.lookup destination.destinationRef = some source ↔ advertised.Unshadowed destination.destinationRef)

theorem pushesExactly {repository : String} {w : Remote τ} {calls : List Call} {r : Except PushError Nat}
    {destination : CurrentPushDestination} {pushEndpoint : ResolvedPushEndpoint} {baseline : Option ObjectId} {source : ObjectId}
    (hdestination : ((resolveCurrentPushDestination (remoteHost env other) repository).run w).1 = .ok (some destination))
    (hendpoint : Performed Remote.log (resolveSinglePushEndpoint (remoteHost env other) repository destination.remote) pushEndpoint
      calls)
    (htold : Exact env repository (told destination.destinationRef) (pushEndpoint.place env destination.destinationRef) baseline
      source calls r) :
    PushesExactly env other repository w calls r destination pushEndpoint baseline source where
  resolved := hdestination
  endpoint := hendpoint
  told := htold
  plain := fun hplain => htold.congr env fun advertised hread => (AdvertisedRefs.unshadowed_iff.mp (hplain advertised hread)).symm
  success := by
    intro retryCount hr
    obtain ⟨first, between, last, hcalls, answer, rfl, hanswer⟩ := htold.verified retryCount hr
    cases answer with
    | error e => cases hanswer
    | ok advertised =>
      refine ⟨first :: between, advertised, hcalls, ?_⟩
      rw [AdvertisedRefs.unshadowed_iff, show advertised.firstListed _ = some source from Except.ok.inj hanswer, eq_comm]

/-- Whatever others do to the refs and however the calls end, the push is `Exact`, or it
    stops before any push; it succeeds without a read of the source only when there is
    nothing to do. -/
theorem executePush_exact (repository : String) (autoPush : Bool) (w : Remote τ) :
    let out := (executePush (remoteHost env other) repository autoPush).run w
    ∃ calls, out.2.log = w.log ++ calls ∧
      ((∃ destination pushEndpoint baseline source,
          PushesExactly env other repository w calls out.1 destination pushEndpoint baseline source) ∨
        (∀ c ∈ calls, c.isPush = false) ∧ ∀ retryCount, out.1 = .ok retryCount → autoPush = false ∨
          ((resolveCurrentPushDestination (remoteHost env other) repository).run w).1 = .ok none) := by
  intro out
  have hquiet : ∀ calls : List Call, (∀ c ∈ calls, c.isRemote = false) → ∀ c ∈ calls, c.isPush = false :=
    fun _ h c hc => isPush_of_not_isRemote (h c hc)
  by_cases hoff : autoPush = false
  · refine ⟨[], ?_, .inr ⟨(fun c hc => by cases hc), fun _ _ => .inl hoff⟩⟩
    have hskip : executePush (remoteHost env other) repository autoPush = pure 0 := if_pos hoff
    exact (congrArg (fun action => (action.run w).2.log) hskip).trans (List.append_nil w.log).symm
  have hon : executePush (remoteHost env other) repository autoPush = _ := if_neg hoff
  have hout : out = _ := congrArg (fun action => action.run w) hon
  obtain ⟨calls, hlog, hcalls⟩ := resolveCurrentPushDestination_logs env other repository w
  rw [Action.run_bind, Action.run_attempt] at hout
  cases hrun : (resolveCurrentPushDestination (remoteHost env other) repository).run w with
  | mk r w' =>
    rw [hrun] at hout hlog
    cases r with
    | error e => exact ⟨calls, hout ▸ hlog, .inr ⟨hquiet calls hcalls, fun n h => by rw [hout] at h; cases h⟩⟩
    | ok destination =>
      cases destination with
      | none => exact ⟨calls, hout ▸ hlog, .inr ⟨hquiet calls hcalls, fun _ _ => .inr rfl⟩⟩
      | some destination =>
        have hrest : Logs Remote.log (do
            let pushEndpoint ← (resolveSinglePushEndpoint (remoteHost env other) repository destination.remote).attempt
              fun error => .throw (permanentPushError "Cannot resolve push endpoint" error)
            publishHead (remoteHost env other) repository destination pushEndpoint)
            fun r more => ((∀ c ∈ calls ++ more, c.isPush = false) ∧ ∃ e, r = .error e) ∨ ∃ pushEndpoint,
              Performed Remote.log (resolveSinglePushEndpoint (remoteHost env other) repository destination.remote) pushEndpoint
                (calls ++ more) ∧ Publishes env repository (told destination.destinationRef)
                  (pushEndpoint.place env destination.destinationRef) (calls ++ more) r := by
          refine Logs.bind (Logs.attempt_throw (R := fun r more => Local r more ∧ ∀ pushEndpoint,
            r = .ok pushEndpoint → Performed Remote.log (resolveSinglePushEndpoint (remoteHost env other) repository
              destination.remote) pushEndpoint more) (resolveSinglePushEndpoint_logs env other repository _).performed
            (fun _ _ h => ⟨h.1, fun pushEndpoint hok => by cases hok; exact h.2 _ rfl⟩) fun _ _ h => ⟨h.1, fun _ hok => by cases hok⟩)
            (fun pushEndpoint more hmore => ?_) fun e more hmore => ?_
          · refine (publishHead_logs env other repository destination pushEndpoint).conseq fun r last hlast =>
              .inr ⟨pushEndpoint, ?_, ?_⟩
            · exact (hmore.2 pushEndpoint rfl).mono ⟨calls, last, List.append_assoc ..⟩
            · rw [← List.append_assoc]
              refine hlast.after env repository fun c hc => ?_
              rcases List.mem_append.mp hc with hc | hc
              · exact hcalls c hc
              · exact hmore.1 c hc
          · refine .inl ⟨fun c hc => ?_, e, rfl⟩
            rcases List.mem_append.mp hc with hc | hc
            · exact hquiet _ hcalls c hc
            · exact hquiet _ hmore.1 c hc
        obtain ⟨more, hmore, hends⟩ := hrest w'
        refine ⟨calls ++ more, ?_, ?_⟩
        · rw [hout, ← List.append_assoc, ← hlog]
          exact hmore
        · rw [hout]
          rcases hends with ⟨hquiet, e, he⟩ | ⟨pushEndpoint, hperformed, hpublishes⟩
          · exact .inr ⟨hquiet, fun n hn => by rw [he] at hn; cases hn⟩
          rcases hpublishes with ⟨hquiet, e, he⟩ | ⟨baseline, source, first, rest, hhead, hremote, hreading, hbody⟩
          · exact .inr ⟨hquiet, fun n hn => by rw [he] at hn; cases hn⟩
          · exact .inl ⟨destination, pushEndpoint, baseline, source, pushesExactly env other (congrArg (·.1) hrun) hperformed
              (exact_of_body env hhead hremote hreading hbody)⟩

end Calls

/-! ## A push, and one that a shadowing ref makes needless -/

def stillEnvironment : Environment Unit where
  address _ _ := "repository"
  isAncestor _ _ := true
  others w := w.refs
  head _ := .ok .twos
  mergeBase _ := .ok ""
  read _ := .ok ()
  push _ := ⟨true, .ok "", plainError "rejected"⟩

/-- A clean branch that tracks `origin/main`. -/
def trackingHost : Host Unit where
  sha256 _ := String.ofList (List.replicate 64 'f')
  localeCompare _ _ := 0
  execSync _ _ := pure ""
  execFileGit _ args _ := match args with
    | ["remote"] => pure "origin"
    | "remote" :: _ => pure "https://host/repository"
    | "symbolic-ref" :: _ => pure "main"
    | "rev-parse" :: _ => pure "origin/main"
    | "rev-list" :: _ => pure ObjectId.twos.text
    | ["config", "--get", "branch.main.remote"] => pure "origin"
    | ["config", "--get", "branch.main.merge"] => pure "refs/heads/main"
    | _ => pure ""
  writeMessage _ _ := pure ""
  pathExists _ _ := pure true
  randomUUID := pure "endpoint"
  runTestCascade _ := pure ()

/-- The remote with these refs, before any call. -/
def remoteWith (advertised : AdvertisedRefs) : Remote Unit := ⟨fun _ => advertised, [], ()⟩

def pushRun (advertised : AdvertisedRefs) : Except PushError Nat × Remote Unit :=
  (executePush (remoteHost stillEnvironment trackingHost) "/clone" true).run (remoteWith advertised)

/-- The remote is one commit behind, and is pushed to. -/
theorem executePush_exact_pushed : ∃ calls destination pushEndpoint baseline source,
    PushesExactly stillEnvironment trackingHost "/clone" (remoteWith mainOnly) calls (pushRun mainOnly).1 destination pushEndpoint
      baseline source ∧ calls.any Call.isPush = true ∧ (pushRun mainOnly).1.isOk = true := by
  have hpushed : (pushRun mainOnly).2.log.any Call.isPush = true ∧ (pushRun mainOnly).1.isOk = true := by decide +kernel
  obtain ⟨calls, hlog, hends⟩ := executePush_exact stillEnvironment trackingHost "/clone" true (remoteWith mainOnly)
  have hcalls : (pushRun mainOnly).2.log = calls := hlog
  rcases hends with ⟨destination, pushEndpoint, baseline, source, hexact⟩ | ⟨hquiet, -⟩
  · exact ⟨calls, destination, pushEndpoint, baseline, source, hexact, hcalls ▸ hpushed.1, hpushed.2⟩
  · obtain ⟨c, hc, hpush⟩ := List.any_eq_true.mp (hcalls ▸ hpushed.1)
    rw [hquiet c hc] at hpush
    cases hpush

/-- What a read was answered. -/
def Call.answer : Call → Option AdvertisedRefs
  | .read _ (.ok advertised) => some advertised
  | _ => none

/-- HEAD is at a branch that ends in the destination's name; the destination is behind. -/
def shadowedMain : AdvertisedRefs :=
  ⟨[⟨"refs/heads/a/refs/heads/main", .twos⟩, ⟨"refs/heads/main", .ones⟩], by decide⟩

/-- Every read tells the shadowing branch, so nothing is pushed and the push returns normally:
    the destination was never seen at HEAD, and is not there. -/
theorem shadowed_push : (pushRun shadowedMain).1 = .ok 0 ∧
    stillEnvironment.head (remoteWith shadowedMain) = .ok .twos ∧
    ((pushRun shadowedMain).2.refs "repository").lookup "refs/heads/main" = some .ones ∧
    (∀ c ∈ (pushRun shadowedMain).2.log, c.isPush = false) ∧
    ∀ c ∈ (pushRun shadowedMain).2.log, ∀ advertised, c.answer = some advertised →
      advertised.lookup "refs/heads/main" ≠ some .twos := by
  have hrun : (pushRun shadowedMain).1.toOption = some 0 ∧
      ((pushRun shadowedMain).2.refs "repository").lookup "refs/heads/main" = some .ones ∧
      (pushRun shadowedMain).2.log.all (fun c => !c.isPush) = true ∧
      (pushRun shadowedMain).2.log.all (fun c => c.answer.all fun advertised =>
        advertised.lookup "refs/heads/main" != some .twos) = true := by decide +kernel
  obtain ⟨hended, hrefs, hquiet, hreads⟩ := hrun
  refine ⟨?_, rfl, hrefs, fun c hc => ?_, fun c hc advertised hanswer => ?_⟩
  · cases hr : (pushRun shadowedMain).1 with
    | error e =>
      rw [hr] at hended
      cases hended
    | ok n =>
      rw [hr] at hended
      cases hended
      rfl
  · simpa using List.all_eq_true.mp hquiet c hc
  · have hother := List.all_eq_true.mp hreads c hc
    rw [hanswer] at hother
    simpa using hother

end GitCommitsPush.Publication
