import PlatformConfig.GitlabResume

/-!
# Downloads of one response, over and over

The state that any number of killed downloads leave decides whether the next one gets to its end.
-/
namespace PlatformConfig.HostGitlab

open CrashDisk CrashParts CrashProgram Prog
open Lifecycle (Answer Ask Awaits Contents Data Dir FileName Files Going Pending PublishedFrom Target Timely
  VersionEntry Write agreeOn oneByte pendingNames publication registry responseNames unissued versionNames)

variable {c : Target} {g : Config} {x y : Conditions} {r : String} {p : Pending} {pkg : Files} {s₀ s t : Station}
  {tears : Prop}

/-! ## Runs -/

/-- Nothing of the request is below the versions root, and for a client nothing at all. -/
structure Unopened (c : Target) (r : String) (s : Lifecycle.State) : Prop where
  bare : s.root = .absent → s.versions = ∅
  version : .version r ∉ s.versions
  ingress : .ingress r ∉ s.versions
  client : c.adapter = .client → s.versions = ∅

lemma Unopened.keeps (h : Unopened c r s.1) : Keeps c tears r p pkg s.1 s := by
  refine ⟨rfl, h.bare, fun d found => ?_, fun d found => ?_, fun client e mem => ?_⟩
  · exact absurd (mem_of_lookup found) h.version
  · exact absurd (mem_of_lookup found) h.ingress
  · rw [h.client client] at mem
    exact absurd mem (AList.notMem_empty _)

/-- Downloads that were killed anywhere have only brought the response below the versions root. -/
theorem downloads_keep (h : Keeps c tears r p pkg s₀.1 s) (start : Awaits c r p s₀.1) (accepts : Accepts g r pkg)
    (serves : Serves g r pkg x) (may : x.life.tears → tears)
    (killed : Runs (disk x).semantics (· = downloadResponse c g) s t) : Keeps c tears r p pkg s₀.1 t := by
  refine killed.invariant ?_ h
  rintro q rfl u here
  have run := wp_invariant (I := Keeps c tears r p pkg s₀.1) (fun _ _ _ _ going => going) here
    (holds_downloadResponse here start accepts serves may)
  exact wp_mono run (fun _ _ _ going => going) fun _ _ ended => ended.2

/-- The files of a version that is published from the pending request and the response. -/
lemma published_files {d : Dir} (h : PublishedFrom p (offer pkg) d) (f : FileName) :
    d.files.lookup f = publication p.files (offer pkg) f := by
  obtain ⟨exact_, agree⟩ := h
  simp only [Dir.exact, Bool.and_eq_true, decide_eq_true_eq, List.all_eq_true] at exact_
  simp only [agreeOn, List.all_eq_true, decide_eq_true_eq] at agree
  by_cases mem : f ∈ versionNames
  · rw [← agree f mem, Dir.contents, if_pos mem]
  · have other : ¬(f = .key ∨ f = .csr) := by
      rintro (rfl | rfl)
      · exact mem (by decide)
      · exact mem (by decide)
    have outside : f ∉ responseNames := fun there =>
      mem ((by decide : ∀ f ∈ responseNames, f ∈ versionNames) f there)
    rw [publication, if_neg other, offer_narrow f outside]
    exact AList.lookup_eq_none.mpr fun there => mem (exact_.1 f there)

/-- Wherever downloads are killed, a version of the request has the files of the request and of the
response and no others, an ingress has nothing but the beginnings of response files, whole ones where
a kill tears none, and outside the versions root nothing has changed. -/
theorem downloads_sound (start : Awaits c r p s₀.1) (new : Unopened c r s₀.1) (accepts : Accepts g r pkg)
    (serves : Serves g r pkg x) (killed : Runs (disk x).semantics (· = downloadResponse c g) s₀ s) :
    (∀ d f, s.1.versions.lookup (.version r) = some d → d.files.lookup f = publication p.files (offer pkg) f) ∧
    (∀ d f z, s.1.versions.lookup (.ingress r) = some d → d.files.lookup f = some z →
      ∃ w, offer pkg f = some w ∧ (z = w ∨ x.life.tears ∧ z <+: w)) ∧
    s.1 = { s₀.1 with root := s.1.root, versions := s.1.versions } := by
  have keeps : Keeps c x.life.tears r p pkg s₀.1 s := downloads_keep new.keeps start accepts serves id killed
  exact ⟨fun d f found => published_files (keeps.version d found) f,
    fun d f z found there => (keeps.ingress d found f z there).2, keeps.rest⟩

/-- The response is published from the pending request, and nothing but the versions root has changed. -/
structure Received (r : String) (p : Pending) (pkg : Files) (s t : Station) : Prop where
  version : ∃ d, t.1.versions.lookup (.version r) = some d ∧ PublishedFrom p (offer pkg) d
  rest : t.1 = { s.1 with root := t.1.root, versions := t.1.versions }
  download : t.2 = none

/-- After any number of downloads that were killed anywhere, a download that meets no failure and no
late response gets to its end exactly where nothing of them is in the way, and then the response is
published. -/
theorem download_resumes_iff {out : Except String String} (start : Awaits c r p s₀.1) (new : Unopened c r s₀.1)
    (accepts : Accepts g r pkg) (serves : Serves g r pkg x)
    (killed : Runs (disk x).semantics (· = downloadResponse c g) s₀ s) (again : Serves g r pkg y)
    (delivers : Delivers y) (calm : ¬y.life.faults) (timely : Timely c y.life r p (offer pkg) s₀.1)
    (ran : Exec (disk y).semantics (downloadResponse c g) s out t) :
    (out.isOk = true ↔ Unblocked c g r pkg s) ∧ (out.isOk = true → Received r p pkg s₀ t) := by
  have keeps : Keeps c True r p pkg s₀.1 s :=
    downloads_keep new.keeps start accepts serves (fun _ => trivial) killed
  obtain ⟨ended, going⟩ := wp_exec (wp_invariant (I := Keeps c True r p pkg s₀.1) (fun _ _ _ _ going => going) keeps
    (holds_downloadResponse keeps start accepts again fun _ => trivial)) ran
  cases ended with
  | done free version ingress download =>
    obtain ⟨d, found⟩ := Option.isSome_iff_exists.mp (AList.lookup_isSome.mpr version)
    exact ⟨⟨fun _ => free, fun _ => rfl⟩, fun _ => ⟨⟨d, found, going.version d found⟩, going.rest, download⟩⟩
  | refused unfit =>
    refine ⟨⟨fun ok => (Bool.false_ne_true ok).elim, fun free => ?_⟩, fun ok => (Bool.false_ne_true ok).elim⟩
    rcases unfit with fault | late | undelivered | blocked
    · exact absurd fault calm
    · exact absurd timely late
    · exact absurd delivers undelivered
    · exact absurd free blocked

/-! ## A sample download -/

/-- The facade of the registry; every digest is the same. -/
def facade : Config where
  sha256 _ := "0000000000000000000000000000000000000000000000000000000000000000"
  project := RecordText.encode (RecordText.unlines (["schema=1", "kind=pki-exchange-project", "origin=https://git",
    "project_id=7", "project_path=pki/exchange", "gitlab_version=18.11.3-ce.0"].map String.toList))
  service := "zot"
  spoolRoot := "/spool"

/-- The package of one response, with files of one byte each. -/
def package : Files :=
  (oneByte responseNames).insert manifestName (facade.stageManifest "r" (oneByte responseNames))

/-- What the package client prints. -/
def packageResult : PackageResult where
  status := "downloaded"
  stage := "response"
  projectId := 7
  projectPath := "pki/exchange"
  packageId := 1
  packageName := "pki-exchange-response-zot"
  packageVersion := "r"
  fileSha256 := (downloadNames.map fun f => ⟨f, facade.digests package f⟩).toAList
  destinationDir := "/spool/response-download"
  gitlabAuthorityClaimed := false

/-- Nothing fails, the time stands still, and the package client always succeeds. -/
def serving : Conditions where
  life := ⟨False, False, (· = 1000)⟩
  client _ y := y = ⟨some package, some packageResult⟩

/-- The length of the name of a stage. -/
def stageLength : VersionEntry → ℕ
  | .stage _ tx => tx.length
  | _ => 0

/-- A name that no stage has. -/
def freshName (s : Lifecycle.State) : String :=
  String.ofList (List.replicate ((s.versions.keys.map stageLength).sum + 1) 'x')

lemma freshName_fresh (s : Lifecycle.State) (r : String) : .stage r (freshName s) ∉ s.versions := by
  intro mem
  have bound : stageLength (.stage r (freshName s)) ≤ (s.versions.keys.map stageLength).sum :=
    List.single_le_sum (fun _ _ => Nat.zero_le _) _ (List.mem_map_of_mem (AList.mem_keys.mp mem))
  simp [stageLength, freshName] at bound

def stationAnswer : (z : Ask ⊕ SpoolAsk) → Station → Sum.elim Answer SpoolAnswer z
  | .inl .now, _ => (1000 : ℕ)
  | .inl .inspect, _ => true
  | .inl .dormant, _ => true
  | .inl .transaction, s => freshName s.1
  | .inl .identity, _ => (1, 1)
  | .inl (.validate a b), _ => some (a, b)
  | .inl .listener, _ => true
  | .inl .source, _ => none
  | .inr .inspect, _ => true
  | .inr .client, _ => ⟨some package, some packageResult⟩

abbrev stationRun := (disk serving).answering stationAnswer

lemma station_within : Within stationRun (disk serving).semantics := by
  refine answering_within fun z s => ?_
  cases z with
  | inl z =>
    cases z with
    | now => rfl
    | inspect => exact .inl rfl
    | transaction => exact freshName_fresh s.1
    | dormant | identity | validate | listener | source => trivial
  | inr z =>
    cases z with
    | inspect => exact .inl rfl
    | client => rfl

def unopened : Station := (unissued, none)

/-- What a first download leaves that is killed behind the package client. -/
def halted : Station := after stationRun 26 (downloadResponse registry facade) unopened

lemma halted_download : halted.1.root = .ready ∧ halted.1.versions.keys = [.ingress "r"] ∧
    (halted.1.versions.lookup (.ingress "r")).all (·.files.keys = []) = true ∧ halted.2.isSome = true := by
  decide +kernel

/-- The pending request of the registry. -/
def issuing : Pending :=
  ⟨⟨"r", 1000, 2000, .issue, "zot", "host", none, none⟩, Dir.contents pendingNames ⟨(1, 1), oneByte pendingNames⟩, false⟩

lemma unissued_pending : unissued.pendingAt registry "r" 1000 = some issuing := rfl

lemma package_full : Dir.exact downloadNames ⟨(0, 0), package⟩ = true := by decide +kernel

lemma package_manifest : facade.validateManifest "r" package = true := by decide +kernel

lemma package_result : facade.validatePackageResult "r" packageResult = true := by decide +kernel

lemma package_digests : facade.resultMatches packageResult package = true := by decide +kernel

lemma package_accepted : Accepts facade "r" package := ⟨package_full, package_manifest⟩

lemma package_served : Serves facade "r" package serving := by
  rintro d y rfl result there
  obtain rfl := Option.some.inj there
  exact ⟨rfl, package_result, package_digests⟩

lemma unissued_awaits : Awaits registry "r" issuing unissued where
  one := by
    have fresh : ∀ id, ¬unissued.recorded id := by
      rintro id (⟨o, there, -⟩ | there)
      · cases there
      · cases there
    refine ⟨fun _ => ⟨fun o there => ?_, fun id o there => ?_⟩, fun ids excludes => ?_, ?_, fun _ => fresh _⟩
    · cases there
    · cases there
    · rw [Lifecycle.Excludes, if_neg (show registry.adapter ≠ .client by decide)] at excludes
      have absent : "r" ∉ ids := fun mem => fresh "r" ((excludes "r").mp mem)
      have keys : unissued.pending.keys = ["r"] := rfl
      rw [keys]
      simp [absent]
    · exact List.mem_singleton_self "r"
  clean := rfl
  journal := rfl
  requestJournal := rfl
  trustJournal := rfl
  pending := ⟨1000, unissued_pending⟩
  allowed := rfl
  names := ⟨rfl, rfl⟩
  trustOnly client := by cases client

lemma unissued_unopened : Unopened registry "r" unissued :=
  ⟨fun _ => rfl, AList.notMem_empty _, AList.notMem_empty _, fun _ => rfl⟩

lemma halted_unblocked : Unblocked registry facade "r" package halted := by
  obtain ⟨root, keys, empty, -⟩ := halted_download
  have version : .version "r" ∉ halted.1.versions := by
    rw [AList.mem_keys, keys]
    decide
  have server : registry.adapter ≠ .client := by decide
  refine ⟨fun unowned => ?_, fun _ d found differs => ?_, fun client => absurd client server,
    fun client => absurd client server, fun there => absurd there version⟩
  · rw [root] at unowned
    cases unowned
  obtain ⟨y, z, at_, -⟩ := differs
  rw [found] at empty
  have none_ : d.files.keys = [] := of_decide_eq_true empty
  have mem : y ∈ d.files := AList.lookup_isSome.mp (by rw [at_]; rfl)
  rw [AList.mem_keys, none_] at mem
  cases mem

/-- What a whole download leaves. -/
def received : Station := (run stationRun (downloadResponse registry facade) unopened).2

theorem downloads_sound_received :
    received.1 = { unissued with root := received.1.root, versions := received.1.versions } ∧
    ∀ d f, received.1.versions.lookup (.version "r") = some d →
      d.files.lookup f = publication issuing.files (offer package) f := by
  have killed : Runs (disk serving).semantics (· = downloadResponse registry facade) unopened received :=
    .step (.refl _) rfl (station_within.exec _ _).killed
  have sound := downloads_sound unissued_awaits unissued_unopened package_accepted package_served killed
  exact ⟨sound.2.2, fun d f found => sound.1 d f found⟩

theorem download_resumes_iff_halted :
    (run stationRun (downloadResponse registry facade) halted).1.isOk = true ∧
    ∃ d, (run stationRun (downloadResponse registry facade) halted).2.1.versions.lookup (.version "r") = some d := by
  have killed : Runs (disk serving).semantics (· = downloadResponse registry facade) unopened halted :=
    .step (.refl _) rfl (station_within.killed 26 _ _)
  have timely : Timely registry serving.life "r" issuing (offer package) unissued := by
    rintro n rfl
    exact ⟨unissued_pending, rfl, rfl⟩
  have delivers : Delivers serving := by
    rintro d y rfl
    rfl
  have resumes := @download_resumes_iff registry facade serving serving "r" issuing package unopened halted _ _ unissued_awaits
    unissued_unopened package_accepted package_served killed package_served delivers (fun fault => fault) timely
    (station_within.exec (downloadResponse registry facade) halted)
  have ended := resumes.1.mpr halted_unblocked
  obtain ⟨d, found, -⟩ := (resumes.2 ended).version
  exact ⟨ended, d, found⟩

end PlatformConfig.HostGitlab
