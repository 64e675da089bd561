import PlatformConfig.LifecycleExpiry

/-!
# What the status offers and what the activation admits

The status looks at the expiry of a pending request and at the certificate of the current terminal
record; the activation looks at neither. So they agree exactly where both are in time.
-/
namespace PlatformConfig.Lifecycle

open CrashProgram CrashDisk Prog

variable (c : Target)

/-- A candidate behind the checks of `activate_start` on its request, its response and their
lifetimes. -/
structure Candidate where
  request : String
  artifact : String
  operation : Operation
  pending : Pending
  version : Dir
  validated : Validated

/-- The checks of `activate_start` in front of the service configuration. -/
def checkCandidate (r artifact : String) (operation : Operation) : Run Candidate := do
  let s ← stateEntries
  require (s.journal.isNone && !s.requestJournal && !s.trustJournal)
    "unresolved lifecycle state blocks activation"
  inspect "trust is not authentic"
  let pending ← validatePending c r
  let version ← validateVersion r
  let v ← validateResponseFiles c (version.contents responseNames) pending
  require (pending.record.operation = operation)
    "candidate operation differs from the requested lifecycle operation"
  require (pending.record.service = c.service && pending.record.target = c.target)
    "candidate does not match activation service and target"
  pure ⟨r, artifact, operation, pending, version, v⟩

/-- The rest of `activate_start` up to its journal: the predecessor and the service. -/
def checkService (rollbackSeconds : ℕ) (x : Candidate) : Run Plan := do
  inspect "cannot read service configuration"
  let s ← look
  let paths ← ofOption (c.parseConfig s.config) "service configuration is not canonical"
  bindsPredecessor c x.pending.record x.operation s
  inspect "service-state query failed"
  servicePreconditions c x.pending.record x.operation s paths
  require (s.active.isSome || x.operation ≠ .renew) "renew requires an authenticated active version"
  openbaoOnly c validateCandidateListener
  makePlan c rollbackSeconds x.request x.artifact x.operation x.validated x.version s paths

/-- `target_activate_start` up to the checks of the candidate: its report on an activation that
awaits its completion, or the candidate. -/
def admission (check : Bool) (rollbackSeconds : ℕ) : Run (Report ⊕ Candidate) := do
  requireServerAdapter c
  let r ← pendingRequestId c
  let artifact ← artifactDigest c (.version r)
  match ← activateFirst c check rollbackSeconds r artifact with
  | .inl report => pure (.inl report)
  | .inr operation => do
    let x ← checkCandidate c r artifact operation
    pure (.inr x)

/-- `target_activate_start` behind the checks of the candidate. -/
def proceed (check : Bool) (rollbackSeconds : ℕ) : Report ⊕ Candidate → Run Report
  | .inl report => pure report
  | .inr x => do
    let p ← checkService c rollbackSeconds x
    if check then pure .wouldActivate
    else do
      write (.newJournal p.journal) "cannot create activation journal"
      (performActivation c p).handle fun e => (restoreFailed c).bind fun _ => .fail e
      pure .localValidated

/-- An activation is its admission and what follows it. -/
theorem targetActivateStart_eq (check : Bool) (rollbackSeconds : ℕ) :
    targetActivateStart c check rollbackSeconds =
      (admission c check rollbackSeconds).bind (proceed c check rollbackSeconds) := by
  simp only [targetActivateStart, admission, bind_eq, Prog.bind_assoc]
  congr 1
  funext _
  congr 1
  funext r
  congr 1
  funext artifact
  congr 1
  funext first
  cases first with
  | inl report => rfl
  | inr operation =>
    simp only [activateStart, planActivation, checkCandidate, proceed, checkService, bind_eq,
      Prog.bind_assoc, pure_eq, bind_ret]

/-! ## The two decisions -/

variable {c} {k : Conditions} {s t : State} {r : String} {n m : ℕ}

/-- No journal of the lifecycle helper, of the request helper or of the trust helper. -/
structure State.JournalFree (s : State) : Prop where
  journal : s.journal = none
  request : s.requestJournal = false
  trust : s.trustJournal = false

/-- The candidate of the current terminal record authenticates. -/
def Stands (c : Target) (s : State) (n : ℕ) : Prop :=
  ∀ o, s.terminal = some (.whole o) → (s.candidateAt c o.requestId n n).isSome = true

/-- The current terminal record is archived, or its candidate authenticates. -/
def Retires (c : Target) (s : State) (n : ℕ) : Prop :=
  ∀ o, s.terminal = some (.whole o) →
    s.archived o.requestId = none → (s.candidateAt c o.requestId n n).isSome = true

/-- A pending request and a response that authenticates against it, both at the time `n`. -/
structure Admissible (c : Target) (s : State) (r : String) (n : ℕ) (p : Pending) : Prop where
  pending : s.pendingAt c r n = some p
  candidate : (s.candidateAt c r n n).isSome = true

/-- The request names the service and the target of the arguments. -/
def Request.names (record : Request) (c : Target) : Prop :=
  record.service = c.service ∧ record.target = c.target

/-- The conditions under which the status offers the activation. -/
structure Offered (c : Target) (s : State) (r : String) (n : ℕ) : Prop where
  stands : Stands c s n
  admissible : ∃ p, Admissible c s r n p ∧ p.expired = false

/-- The conditions under which the activation admits the candidate. -/
structure Activatable (c : Target) (s : State) (r : String) (n : ℕ) : Prop where
  retires : Retires c s n
  admissible : ∃ p, Admissible c s r n p ∧ p.record.names c

/-- A journal-free state of a server with one pending request, as the commands leave it. -/
structure Waiting (c : Target) (s : State) (r : String) : Prop where
  server : c.adapter ≠ .client
  free : s.JournalFree
  one : Selectable c s r
  clean : s.leftovers = 0
  valid : s.activeValid c
  recorded : ∀ x, s.terminal = some x → ∃ o, x = .whole o ∧ Recorded c s o

lemma reaches_waiting (whole : ¬k.tears) (server : c.adapter ≠ .client) (start : Vacant s)
    (run : Reaches c k Always s t) (free : t.JournalFree) (one : Selectable c t r) : Waiting c t r := by
  have coherent := reaches_coherent whole start.coherent run
  have accounted := reaches_accounted whole start.coherent start.accounted run
  exact ⟨server, free, one, (reaches_clean whole run).trans start.clean,
    (coherent.paired free.journal).activeValid, accounted.terminal⟩

lemma Waiting.legible (h : Waiting c s r) : s.legible := h.one.legible h.server

/-- A candidate that authenticates is the one of the terminal record. -/
lemma Recorded.supports_at {o : Terminal} (h : Recorded c s o)
    (candidate : (s.candidateAt c o.requestId n n).isSome = true) : Supports c (calmAt n) s o := by
  rintro m m' rfl rfl
  obtain ⟨v, there⟩ := Option.isSome_iff_exists.mp candidate
  obtain ⟨d, leaf, version, rfl⟩ := candidateAt_validated there
  obtain ⟨d', version', binds⟩ := h.supports
  rw [version] at version'
  cases version'
  exact ⟨_, there, binds leaf⟩

lemma Supports.candidate {o : Terminal} (h : Supports c (calmAt n) s o) :
    (s.candidateAt c o.requestId n n).isSome = true := by
  obtain ⟨v, there, -⟩ := h n n rfl rfl
  rw [there]
  rfl

/-- A reader in front of the rest of a program, where the reader's failure settles the result. -/
lemma leads_decided {α β : Type} {Q : Except String β → State → Prop} {p : Run α} {f : α → Run β}
    {R : α → Prop} {F : Prop} (h : Reads (disk (calmAt n)) s p R F) (failed : F → ∀ e, Q (.error e) s)
    (rest : ∀ a, R a → Leads (calmAt n) (f a) Q s) : Leads (calmAt n) (p.bind f) Q s :=
  wp_reads (fun _ => trivial) h (fun e fails => failed fails e) rest

lemma reads_pendingAt : Reads (disk (calmAt n)) s (validatePending c r)
    (fun p => s.pendingAt c r n = some p) (s.pendingAt c r n = none) := by
  refine reads_validatePending.mono ?_ ?_
  · rintro p ⟨m, at_, there⟩
    rwa [show m = n from at_] at there
  · rintro (faults | ⟨m, at_, none_⟩)
    · exact faults.elim
    · rwa [show m = n from at_] at none_

lemma reads_responseAt {files : Contents} {p : Pending} : Reads (disk (calmAt n)) s
    (validateResponseFiles c files p) (fun v => c.validateResponseFiles files p n = some v)
    (c.validateResponseFiles files p n = none) := by
  refine reads_validateResponseFiles.mono ?_ ?_
  · rintro v ⟨m, at_, there⟩
    rwa [show m = n from at_] at there
  · rintro ⟨m, at_, none_⟩
    rwa [show m = n from at_] at none_

lemma reads_candidateAt : Reads (disk (calmAt n)) s (authenticateTargetCandidate c r)
    (fun v => s.candidateAt c r n n = some v) (s.candidateAt c r n n = none) := by
  refine reads_authenticateTargetCandidate.mono ?_ ?_
  · rintro v ⟨m, m', at_, at', there⟩
    rwa [show m = n from at_, show m' = n from at'] at there
  · rintro (faults | ⟨m, m', at_, at', none_⟩)
    · exact faults.elim
    · rwa [show m = n from at_, show m' = n from at'] at none_

/-- What a status at the time `n` says about the pending request. -/
def Verdict (c : Target) (s : State) (r : String) (n : ℕ) (out : Except String Status) : Prop :=
  (out = .ok ⟨.responseReady, some r, .activateResponse⟩ ↔ Offered c s r n) ∧
    ∀ id, out = .ok ⟨.requestExpired, id, .resetRequired⟩ → ¬Offered c s r n

lemma Verdict.refuses {out : Except String Status} (other : ¬Offered c s r n)
    (differs : out ≠ .ok ⟨.responseReady, some r, .activateResponse⟩) : Verdict c s r n out :=
  ⟨iff_of_false differs other, fun _ _ => other⟩

lemma verdict_error {e : String} (other : ¬Offered c s r n) : Verdict c s r n (.error e) :=
  .refuses other (by rintro ⟨⟩)

lemma candidateAt_eq {p : Pending} (pending : s.pendingAt c r n = some p) :
    s.candidateAt c r n n = (s.versionAt r).bind fun d =>
      c.validateResponseFiles (d.contents responseNames) p n := by
  rw [State.candidateAt, pending, Option.bind_some]

lemma responseStatus_verdict {p : Pending} (stands : Stands c s n)
    (pending : s.pendingAt c r n = some p) (live : p.expired = false) :
    Leads (calmAt n) (responseStatus c r p) (fun out _ => Verdict c s r n out) s := by
  have unless_ : (s.candidateAt c r n n).isSome = false → ¬Offered c s r n := by
    rintro absent ⟨-, p', admissible, -⟩
    rw [admissible.candidate] at absent
    cases absent
  simp only [responseStatus, bind_eq]
  refine holds_look trivial ?_
  cases version : s.versions.lookup (.version r) with
  | some d =>
    refine leads_decided reads_candidateAt (fun none_ e => ?_) fun v there => ?_
    · exact verdict_error (unless_ (by rw [none_]; rfl))
    · have offered : Offered c s r n := ⟨stands, p, ⟨pending, by rw [there]; rfl⟩, live⟩
      exact ⟨iff_of_true rfl offered, by rintro id ⟨⟩⟩
  | none =>
    have absent : (s.candidateAt c r n n).isSome = false := by
      rw [candidateAt_eq pending, State.versionAt, version]
      rfl
    have other := unless_ absent
    cases s.versions.lookup (.ingress r) with
    | some d =>
      refine leads_fine reads_inspect id fun _ _ => ?_
      refine leads_check (fun _ => verdict_error other) fun _ => ?_
      refine leads_decided reads_validateResponseFiles (fun _ e => verdict_error other) fun v _ => ?_
      exact .refuses other (by simp)
    | none => exact .refuses other (by simp)

lemma pendingStatus_verdict (stands : Stands c s n) :
    Leads (calmAt n) (pendingStatus c r) (fun out _ => Verdict c s r n out) s := by
  simp only [pendingStatus, bind_eq]
  refine leads_decided reads_pendingAt (fun none_ e => verdict_error ?_) fun p pending => ?_
  · rintro ⟨-, p, admissible, -⟩
    rw [admissible.pending] at none_
    cases none_
  refine leads_check (fun refused => verdict_error ?_) fun allows => ?_
  · rintro ⟨-, p', admissible, -⟩
    have candidate := admissible.candidate
    rw [candidateAt_eq pending] at candidate
    obtain ⟨v, there⟩ := Option.isSome_iff_exists.mp candidate
    obtain ⟨d, -, valid⟩ := Option.bind_eq_some_iff.mp there
    rw [Target.validateResponseFiles, refused] at valid
    cases valid
  · cases expired : p.expired with
    | true =>
      refine .refuses ?_ (by simp)
      rintro ⟨-, p', admissible, live⟩
      obtain rfl : p = p' := Option.some.inj (pending.symm.trans admissible.pending)
      rw [expired] at live
      cases live
    | false => exact responseStatus_verdict stands pending expired

/-- The terminal record of a waiting state authenticates exactly if its candidate does. -/
lemma Waiting.statusTerminal (h : Waiting c s r) {o : Option Terminal} (found : Finds s o) :
    Reads (disk (calmAt n)) s (statusTerminal c o) (fun _ => Stands c s n) (¬Stands c s n) := by
  cases o with
  | none =>
    refine reads_ret fun o there => ?_
    rw [found.at_] at there
    cases there
  | some o =>
    have there : s.terminal = some (.whole o) := found.at_
    obtain ⟨o', same, recorded⟩ := h.recorded _ there
    cases same
    have stands : Supports c (calmAt n) s o → Stands c s n := by
      intro supports o' there'
      rw [there] at there'
      cases there'
      exact supports.candidate
    refine reads_validateTerminalCandidate.bind (fun fails lasts => ?_) ?_
    · exact fails.elim id fun bad => bad (recorded.supports_at (lasts o there))
    · rintro _ ⟨m, m', v, at_, at', candidate, binds⟩
      rw [show m = n from at_, show m' = n from at'] at candidate
      have lasts : Stands c s n := by
        intro o' there'
        rw [there] at there'
        cases there'
        rw [candidate]
        rfl
      refine reads_validateTerminalActivation.mono (fun _ _ => lasts) fun fails => ?_
      exact fails.elim False.elim fun bad => absurd ⟨h.valid, recorded.agrees⟩ bad

/-- The pending requests that are left are the one that waits. -/
lemma Waiting.listed (h : Waiting c s r) {ids : List String} (excluded : ∀ x, x ∈ ids ↔ s.recorded x) :
    s.pending.keys.filter (fun x => x ∉ ids) = [r] :=
  h.one.only ids (by rwa [Excludes, if_neg h.server])

lemma Waiting.status (h : Waiting c s r) :
    Leads (calmAt n) (targetStatus c) (fun out _ => Verdict c s r n out) s := by
  simp only [targetStatus, bind_eq]
  refine leads_fine (reads_requireServerAdapter id) h.server fun _ _ => ?_
  refine leads_fine reads_inspect id fun _ _ => ?_
  refine leads_fine reads_stateEntries (calm_only fun unclean => unclean h.clean) ?_
  rintro s ⟨rfl, -⟩
  refine leads_fine reads_inspect id fun _ _ => ?_
  refine leads_fine reads_readTerminal (calm_only fun bad => bad h.legible.1) fun o found => ?_
  refine leads_fine reads_readHistory (calm_only fun bad => bad h.legible.2) fun l archive => ?_
  refine leads_decided (h.statusTerminal found) (fun lapsed e => verdict_error fun offered => ?_)
    fun _ stands => ?_
  · exact lapsed offered.stands
  refine leads_fine reads_pendingRequestIds id ?_
  rintro ids listed
  obtain rfl : ids = [r] := listed.trans (h.listed (excluded_iff found archive))
  have free : (s.journal.isSome : Bool) = false := by
    rw [h.free.journal]
    rfl
  refine holds_checked (decide_eq_true le_rfl) ?_
  simp only [selectStatus, free, Bool.false_eq_true, if_false]
  exact pendingStatus_verdict stands

/-- How an admission at the time `n` ends. -/
def Decides (c : Target) (s : State) (r : String) (n : ℕ) (out : Except String (Report ⊕ Candidate)) :
    Prop :=
  (∀ report, out ≠ .ok (.inl report)) ∧ ((∃ x, out = .ok (.inr x)) ↔ Activatable c s r n)

lemma decides_error {e : String} (refused : ¬Activatable c s r n) : Decides c s r n (.error e) :=
  ⟨by rintro report ⟨⟩, iff_of_false (by rintro ⟨x, ⟨⟩⟩) refused⟩

lemma Selectable.unique {r' : String} (h : Selectable c s r) (h' : Selectable c s r') : r = r' := by
  have read := reads_gives (k := calmAt 0) (reads_selectionExcluded (c := c) (s := s))
    (fun fails => fails.elim id fun bad => bad.2 (h.legible bad.1)) (n := 0) rfl (by rintro m rfl; rfl)
  obtain ⟨ids, ⟨-, excludes⟩, -⟩ := read
  have only := (h.only ids excludes).symm.trans (h'.only ids excludes)
  simpa using only

/-- The retirement goes on exactly if the terminal record can retire. -/
lemma Waiting.retire {β : Type} {check : Bool} {f : Unit → Run β} {Q : Except String β → State → Prop}
    (h : Waiting c s r) (refused : ¬Retires c s n → ∀ e, Q (.error e) s)
    (rest : Retires c s n → ∀ t, Cleared s t → Leads (calmAt n) (f ()) Q t) :
    Leads (calmAt n) ((retireCurrentTargetTerminal c check r).bind f) Q s := by
  by_cases retires : Retires c s n
  · have cleared : Does c (calmAt n) (fun _ _ => True) (retireCurrentTargetTerminal c check r)
        (fun out t => out = .ok () ∧ Cleared s t) s := by
      rw [← bind_ret_right (retireCurrentTargetTerminal c check r)]
      refine does_retireCurrentTargetTerminal h.free.journal
        (fun _ => ⟨fun _ => trivial, fun _ => trivial⟩) (fun e t fails => ?_) fun t there _ => ⟨rfl, there⟩
      rcases fails with faults | illegible | ⟨o, there, bad⟩
      · exact faults.elim
      · exact absurd h.legible.1 illegible
      · obtain ⟨o', same, recorded⟩ := h.recorded _ there
        cases same
        refine absurd ⟨?_, h.legible.2, recorded.settled, fun absent => ?_⟩ bad
        · rintro rfl
          exact h.one.fresh h.server (.inl ⟨o, there, rfl⟩)
        · exact ⟨recorded.supports_at (retires o there absent), h.valid, recorded.agrees⟩
    refine wp_bind.mpr (wp_mono cleared (fun _ _ _ _ => trivial) ?_)
    rintro out t ⟨rfl, there⟩
    exact rest retires t there
  · have stop := refused retires
    simp only [retireCurrentTargetTerminal, bind_eq, Prog.bind_assoc]
    refine leads_reads reads_readTerminal stop fun o found => ?_
    cases o with
    | none =>
      refine absurd (fun o there => ?_) retires
      rw [found.at_] at there
      cases there
    | some o =>
      have there : s.terminal = some (.whole o) := found.at_
      simp only [Prog.bind_assoc]
      refine leads_check (fun _ => stop _) fun _ => ?_
      refine leads_reads reads_readHistory stop fun l archive => ?_
      cases archived : l.find? fun a => a.requestId = o.requestId with
      | none =>
        simp only [retireTerminal, bind_eq, Prog.bind_assoc]
        refine leads_reads reads_validateTerminalCandidate stop ?_
        rintro _ ⟨m, m', v, at_, at', candidate, -⟩
        rw [show m = n from at_, show m' = n from at'] at candidate
        refine absurd (fun o' there' _ => ?_) retires
        rw [there] at there'
        cases there'
        rw [candidate]
        rfl
      | some a =>
        have kept := (archive.mem a).mp (List.mem_of_find?_eq_some archived)
        have named : a.requestId = o.requestId := by simpa using List.find?_some archived
        refine absurd (fun o' there' absent => ?_) retires
        rw [there] at there'
        cases there'
        rw [← named, kept] at absent
        cases absent

/-- The checks of the candidate behind the retirement. -/
lemma checkCandidate_decides {p : Pending} {artifact : String} (free : s.JournalFree)
    (clean : s.leftovers = 0) (retires : Retires c s n) (pending : s.pendingAt c r n = some p)
    (cleared : Cleared s t) :
    Leads (calmAt n) ((checkCandidate c r artifact p.record.operation).bind fun x =>
      pure (.inr x)) (fun out _ => Decides c s r n out) t := by
  have only : ∀ p', Admissible c s r n p' → p' = p := fun p' there =>
    Option.some.inj (there.pending.symm.trans pending)
  obtain ⟨-, ⟨o, l, rfl⟩, -⟩ := cleared
  simp only [checkCandidate, bind_eq, Prog.bind_assoc]
  refine leads_fine reads_stateEntries (calm_only fun unclean => unclean clean) ?_
  rintro _ ⟨rfl, -⟩
  refine holds_checked (by simp [free.journal, free.request, free.trust]) ?_
  refine leads_fine reads_inspect id fun _ _ => ?_
  refine leads_decided reads_pendingAt (fun none_ e => decides_error ?_) fun p' there => ?_
  · rintro ⟨-, p', admissible, -⟩
    exact absurd none_ (Option.ne_none_iff_exists'.mpr ⟨p', admissible.pending⟩)
  obtain rfl : p' = p := Option.some.inj (Eq.trans (b := s.pendingAt c r n) there.symm pending)
  refine leads_decided reads_validateVersion (fun fails e => decides_error ?_) fun d version => ?_
  · rintro ⟨-, p', admissible, -⟩
    have candidate := admissible.candidate
    rw [candidateAt_eq pending, show s.versionAt r = none from fails.elim False.elim id] at candidate
    cases candidate
  refine leads_decided reads_responseAt (fun none_ e => decides_error ?_) fun v valid => ?_
  · rintro ⟨-, p', admissible, -⟩
    have candidate := admissible.candidate
    rw [candidateAt_eq pending, show s.versionAt r = some d from version, Option.bind_some, none_] at candidate
    cases candidate
  have admissible : Admissible c s r n p' := by
    refine ⟨pending, ?_⟩
    rw [candidateAt_eq pending, show s.versionAt r = some d from version, Option.bind_some, valid]
    rfl
  refine holds_checked (decide_eq_true rfl) ?_
  refine leads_check (fun other => decides_error ?_) fun named => ?_
  · rintro ⟨-, p'', there', names⟩
    obtain rfl := only p'' there'
    simp [names.1, names.2] at other
  · simp only [Bool.and_eq_true, decide_eq_true_eq] at named
    exact ⟨by rintro report ⟨⟩, iff_of_true ⟨_, rfl⟩ ⟨retires, p', admissible, named⟩⟩

lemma Waiting.admission (h : Waiting c s r) (check : Bool) (rollbackSeconds : ℕ) :
    Leads (calmAt n) (admission c check rollbackSeconds) (fun out _ => Decides c s r n out) s := by
  simp only [Lifecycle.admission, bind_eq]
  refine leads_fine (reads_requireServerAdapter id) h.server fun _ _ => ?_
  refine leads_fine reads_pendingRequestId (calm_only fun none_ => none_ ⟨r, h.one⟩) fun r' selected => ?_
  obtain rfl := h.one.unique selected
  refine leads_decided reads_artifactDigest (fun fails e => decides_error ?_) fun artifact _ => ?_
  · rintro ⟨-, p, admissible, -⟩
    obtain ⟨v, there⟩ := Option.isSome_iff_exists.mp admissible.candidate
    exact fails.elim id fun bad => bad (candidate_artifact there)
  simp only [activateFirst, bind_eq, Prog.bind_assoc]
  refine leads_fine reads_inspect id fun _ _ => ?_
  refine leads_decided reads_pendingAt (fun none_ e => decides_error ?_) fun p pending => ?_
  · rintro ⟨-, p', admissible, -⟩
    exact absurd none_ (Option.ne_none_iff_exists'.mpr ⟨p', admissible.pending⟩)
  refine leads_check (fun refused => decides_error ?_) fun _ => ?_
  · rintro ⟨-, p', admissible, -⟩
    have candidate := admissible.candidate
    rw [candidateAt_eq pending] at candidate
    obtain ⟨v, there⟩ := Option.isSome_iff_exists.mp candidate
    obtain ⟨d, -, valid⟩ := Option.bind_eq_some_iff.mp there
    rw [Target.validateResponseFiles, refused] at valid
    cases valid
  refine leads_fine reads_stateEntries (calm_only fun unclean => unclean h.clean) ?_
  rintro s ⟨rfl, -⟩
  have free : (s.journal.isSome : Bool) = false := by
    rw [h.free.journal]
    rfl
  simp only [free, Bool.false_eq_true, if_false, Prog.bind_assoc]
  refine h.retire (fun refused e => decides_error fun admitted => refused admitted.retires)
    fun retires t cleared => ?_
  exact checkCandidate_decides h.free h.clean retires pending cleared

/-! ## The agreement -/

/-- The status offers the activation of the request. -/
def Offers (c : Target) (s : State) (r : String) (n : ℕ) : Prop :=
  ∃ t, Exec (disk (calmAt n)).semantics (targetStatus c) s
    (.ok ⟨.responseReady, some r, .activateResponse⟩) t

/-- The activation gets past the checks of its request, its response and their lifetimes. -/
def Passes (c : Target) (s : State) (n : ℕ) (check : Bool) (rollbackSeconds : ℕ) : Prop :=
  ∃ x t, Exec (disk (calmAt n)).semantics (admission c check rollbackSeconds) s (.ok (.inr x)) t

/-- Status and activation agree at a time: the status offers what the activation admits, what it
reports as expired is not activated, and what it offers is not rejected. -/
structure Agrees (c : Target) (s : State) (r : String) (n : ℕ) : Prop where
  offers_iff : ∀ check rollbackSeconds, Offers c s r n ↔ Passes c s n check rollbackSeconds
  expired : ∀ id t, Exec (disk (calmAt n)).semantics (targetStatus c) s
      (.ok ⟨.requestExpired, id, .resetRequired⟩) t →
    ∀ check rollbackSeconds out u, Exec (disk (calmAt n)).semantics
      (targetActivateStart c check rollbackSeconds) s out u → ∃ e, out = .error e
  offered : Offers c s r n → ∀ check rollbackSeconds out u, Exec (disk (calmAt n)).semantics
      (admission c check rollbackSeconds) s out u → ∃ x, out = .ok (.inr x)

/-- The request and the current terminal record are in time, and the request is one of the target. -/
structure InTime (c : Target) (s : State) (n : ℕ) (p : Pending) : Prop where
  live : p.record.names c → Retires c s n → p.expired = false
  stands : p.record.names c → Retires c s n → Stands c s n
  names : p.expired = false → Stands c s n → p.record.names c

lemma Waiting.offers_iff (h : Waiting c s r) : Offers c s r n ↔ Offered c s r n := by
  constructor
  · rintro ⟨t, ran⟩
    exact (wp_exec h.status ran).1.mp rfl
  · intro offered
    obtain ⟨out, t, ran⟩ := exec_exists (@calm_answers (· = n) n rfl) (targetStatus c) s
    exact ⟨t, (wp_exec h.status ran).1.mpr offered ▸ ran⟩

lemma Waiting.passes_iff (h : Waiting c s r) (check : Bool) (rollbackSeconds : ℕ) :
    Passes c s n check rollbackSeconds ↔ Activatable c s r n := by
  constructor
  · rintro ⟨x, t, ran⟩
    exact (wp_exec (h.admission check rollbackSeconds) ran).2.mp ⟨x, rfl⟩
  · intro admitted
    obtain ⟨out, t, ran⟩ := exec_exists (@calm_answers (· = n) n rfl)
      (Lifecycle.admission c check rollbackSeconds) s
    obtain ⟨x, rfl⟩ := (wp_exec (h.admission check rollbackSeconds) ran).2.mpr admitted
    exact ⟨x, t, ran⟩

/-- An activation that is not admitted fails. -/
lemma Waiting.refused (h : Waiting c s r) (refused : ¬Activatable c s r n) {check : Bool}
    {rollbackSeconds : ℕ} {out : Except String Report} {u : State}
    (ran : Exec (disk (calmAt n)).semantics (targetActivateStart c check rollbackSeconds) s out u) :
    ∃ e, out = .error e := by
  have fails : Leads (calmAt n) (targetActivateStart c check rollbackSeconds)
      (fun out _ => ∃ e, out = .error e) s := by
    rw [targetActivateStart_eq]
    refine wp_bind.mpr (wp_mono (h.admission check rollbackSeconds) (fun _ _ _ _ => trivial) ?_)
    rintro (e | report | x) t ⟨first, admitted⟩
    · exact ⟨e, rfl⟩
    · exact absurd rfl (first report)
    · exact absurd (admitted.mp ⟨x, rfl⟩) refused
  exact wp_exec fails ran

lemma offered_iff_admitted : (Offered c s r n ↔ Activatable c s r n) ↔
    ∀ p, Admissible c s r n p → InTime c s n p := by
  have only {p p' : Pending} (there : Admissible c s r n p) (there' : Admissible c s r n p') : p' = p :=
    Option.some.inj (there'.pending.symm.trans there.pending)
  constructor
  · intro same p there
    have offered (names : p.record.names c) (retires : Retires c s n) : Offered c s r n :=
      same.mpr ⟨retires, p, there, names⟩
    refine ⟨fun names retires => ?_, fun names retires => (offered names retires).stands,
      fun live stands => ?_⟩
    · obtain ⟨p', there', live⟩ := (offered names retires).admissible
      rwa [only there there'] at live
    · obtain ⟨p', there', names⟩ := (same.mp ⟨stands, p, there, live⟩).admissible
      rwa [only there there'] at names
  · intro inTime
    constructor
    · rintro ⟨stands, p, there, live⟩
      exact ⟨fun o at_ _ => stands o at_, p, there, (inTime p there).names live stands⟩
    · rintro ⟨retires, p, there, names⟩
      exact ⟨(inTime p there).stands names retires, p, there, (inTime p there).live names retires⟩

lemma Waiting.agrees_iff (h : Waiting c s r) :
    Agrees c s r n ↔ ∀ p, Admissible c s r n p → InTime c s n p := by
  rw [← offered_iff_admitted]
  constructor
  · intro agrees
    exact h.offers_iff.symm.trans ((agrees.offers_iff true 0).trans (h.passes_iff true 0))
  · intro same
    refine ⟨fun check rollbackSeconds => ?_, fun id t ran check rollbackSeconds out u started => ?_,
      fun offers check rollbackSeconds out u ran => ?_⟩
    · exact h.offers_iff.trans (same.trans (h.passes_iff check rollbackSeconds).symm)
    · have other := (wp_exec h.status ran).2 id rfl
      exact h.refused (fun admitted => other (same.mpr admitted)) started
    · have admitted := same.mp (h.offers_iff.mp offers)
      exact (wp_exec (h.admission check rollbackSeconds) ran).2.mpr admitted

/-- Status and activation agree on a waiting request exactly if an admissible candidate is in time:
its request has not expired, and the certificate of an archived terminal record lasts. -/
theorem expiry_agrees_iff (whole : ¬k.tears) (server : c.adapter ≠ .client) (start : Vacant s)
    (run : Reaches c k Always s t) (free : t.JournalFree) (one : Selectable c t r) :
    Agrees c t r n ↔ ∀ p, Admissible c t r n p → InTime c t n p :=
  (reaches_waiting whole server start run free one).agrees_iff

lemma installed_reached : Reaches registry untorn Always unissued installed :=
  .ran trivial (.ran trivial (.ran trivial (.refl _) trivial) trivial) trivial

lemma installed_selectable : Selectable registry installed "r" := by
  have terminal : installed.terminal = none := by decide +kernel
  have history : installed.history = none := by decide +kernel
  have keys : installed.pending.keys = ["r"] := by decide +kernel
  have fresh : ∀ x, ¬installed.recorded x := by
    rintro x (⟨o, there, -⟩ | there)
    · rw [terminal] at there
      cases there
    · simp [State.archived, history] at there
  refine ⟨fun _ => ⟨fun x there => ?_, fun x y there => ?_⟩, fun ids excludes => ?_, ?_, fun _ => fresh _⟩
  · rw [terminal] at there
    cases there
  · simp [State.archived, history] at there
  · rw [Excludes, if_neg (show registry.adapter ≠ .client by decide)] at excludes
    have absent : "r" ∉ ids := fun mem => fresh "r" ((excludes "r").mp mem)
    rw [keys]
    simp [absent]
  · exact AList.mem_keys.mpr (by rw [keys]; simp)

lemma installed_free : installed.JournalFree := ⟨by decide +kernel, by decide +kernel, by decide +kernel⟩

lemma installed_stands : Stands registry installed n := by
  have terminal : installed.terminal = none := by decide +kernel
  intro o there
  rw [terminal] at there
  cases there

/-- The last second of the request. -/
theorem expiry_agrees_iff_installed : Agrees registry installed "r" 1999 := by
  refine (expiry_agrees_iff (k := untorn) (fun h => h) (by decide) unissued_vacant installed_reached
    installed_free installed_selectable).mpr fun p there => ?_
  have request : (installed.pendingAt registry "r" 1999).map
      (fun p => (p.expired, p.record.service, p.record.target)) = some (false, "zot", "host") := by
    decide +kernel
  rw [there.pending] at request
  simp only [Option.map_some, Option.some.injEq, Prod.mk.injEq] at request
  exact ⟨fun _ _ => request.1, fun _ _ => installed_stands, fun _ _ => request.2⟩

/-- The status wants the reset of an expired request whose activation goes on. -/
theorem expired_request_admitted : ¬∀ (c : Target) (k : Conditions) (s t : State) (r : String) (n : ℕ),
    ¬k.tears → c.adapter ≠ .client → Vacant s → Reaches c k Always s t → t.JournalFree →
    Selectable c t r → Agrees c t r n := by
  intro always
  have agrees := always registry untorn unissued installed "r" 2000 (fun h => h) (by decide)
    unissued_vacant installed_reached installed_free installed_selectable
  have waiting := reaches_waiting (k := untorn) (fun h => h) (by decide) unissued_vacant
    installed_reached installed_free installed_selectable
  have request : (installed.pendingAt registry "r" 2000).map
      (fun p => (p.expired, p.record.service, p.record.target)) = some (true, "zot", "host") := by
    decide +kernel
  have candidate : (installed.candidateAt registry "r" 2000 2000).isSome = true := by decide +kernel
  obtain ⟨p, pending, same⟩ := Option.map_eq_some_iff.mp request
  simp only [Prod.mk.injEq] at same
  have live := (waiting.agrees_iff.mp agrees p ⟨pending, candidate⟩).live same.2
    fun o there _ => installed_stands o there
  rw [same.1] at live
  cases live

end PlatformConfig.Lifecycle
