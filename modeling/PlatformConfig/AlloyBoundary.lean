import PlatformConfig.AlloyVersions
import PlatformConfig.JsonKeys
import PlatformConfig.JsonLines

/-!
# The signed boundary of an initial Alloy activation

The target replaces the version paths of each writer in its configuration by paths without a version
and signs what is left; the controller signs the configuration that it has reviewed. The inventory's
services and SHA-256 are parameters.
-/
namespace PlatformConfig.AlloyBoundary

open CanonicalJson TextScan QuotedText AlloyConfig AlloyInputs AlloyVersions
open FailoverPlan (bind_ok checked_ok)
open RecordText (Bytes encode decode)
open UrlText (isAscii)

/-- A service of the inventory. -/
structure Service where
  name : String
  target : String
  profile : String
  keyCustody : String
  subjectDn : String
  days : Option ℤ
  rollbackHoldSeconds : Option ℤ

def profile : String := "client-p384-sha384-v1"

section Boundary
variable (sha256 : Bytes → String)

/-- The subject of a writer's service; of two services of one name the last one counts. -/
def subjectOf (services : List Service) (target : String) (w : Writer) : Option String :=
  (services.reverse.find? (·.name = w.service)).bind fun s =>
    if s.target = target && s.profile = profile && s.keyCustody = "host-local" && s.days.isSome &&
      s.rollbackHoldSeconds.any (0 < ·) then some s.subjectDn else none

/-- The subjects that `Initial` and `boundary` select. -/
def selectSubjects (services : List Service) (target : String) (writers : List (WriterName × Writer)) :
    Option (List (WriterName × String)) := do
  let subjects ← writers.mapM fun w => (subjectOf services target w.2).map fun s => (w.1, s)
  if (subjects.map Prod.snd).Nodup then some subjects else none

def digest (j : Json) : String := sha256 (encode (canonical j ++ ['\n']))

/-- `boundary_digests` -/
def boundaryDigests (target : String) (subjects : List (WriterName × String))
    (writers : List (WriterName × Writer)) (normalized dropin : Bytes) : List (WriterName × String) :=
  writers.map fun w => (w.1, digest sha256 (.obj [("ca_sha256", .str w.2.caSha256),
    ("config_sha256", .str (sha256 normalized)), ("dropin_sha256", .str (sha256 dropin)),
    ("kind", .str "alloy-initial-boundary"), ("package_nevra", .str nevra), ("profile", .str profile),
    ("schema", .int 1), ("service", .str w.2.service), ("subject_dn", .str ((subjects.lookup w.1).getD "")),
    ("target", .str target), ("writer", .str w.1.text),
    ("writers", .obj (writers.map fun v => (v.1.text, writerJson v.1 v.2)))]))

/-- The loop over the two credentials of a writer, whose paths the checks have read. -/
def normalizeWriter (t : Text) (w : WriterName × Text) : Text :=
  [Credential.cert, .key].foldl (fun t f => replaceAll (quote (String.ofList (versionPath w.1 w.2 f)))
    (quote (String.ofList (versionPath w.1 placeholder f))) t) t

def normalize (t : Text) (versionIds : List (WriterName × Text)) : Text := versionIds.foldl normalizeWriter t

structure Boundary where
  versionIds : List (WriterName × Text)
  digests : List (WriterName × String)

/-- `config_boundary`, with the services that `Initial` has loaded. -/
def targetBoundary (nfkc : Text → Text) (ca : String → Option (ℕ × String)) (services : List Service)
    (c : Context) (config dropin : Bytes) : Except String Boundary :=
  match selectSubjects services c.target c.writers with
  | none => .error "inventory client policy mismatch"
  | some subjects => do
    let versionIds ← configBoundary nfkc ca c config dropin
    let normalized := normalize ((decode config).getD []) versionIds
    return ⟨versionIds, boundaryDigests sha256 c.target subjects c.writers (encode normalized) dropin⟩

/-- `boundary` of the controller's filter, with the services of the same inventory. -/
def boundary (services : List Service) (target : String) (writers : List (WriterName × Writer))
    (config dropin : Text) : Option (List (WriterName × String)) :=
  (selectSubjects services target writers).bind fun subjects =>
    if isAscii config && isAscii dropin then
      some (boundaryDigests sha256 target subjects writers (encode config) (encode dropin))
    else none

end Boundary

section Normalizing
variable {names : List WriterName} {versionIds : List (WriterName × Text)} {ss : List Text}

lemma normalize_eq {ids : WriterName → Text} (same : ∀ p ∈ versionIds, ids p.1 = p.2)
    (paths : ∀ p ∈ versionIds, PathText p.2) (t : Text) : normalize t versionIds =
      (renames (versionIds.map Prod.fst) ids fun _ => placeholder).foldl
        (fun t p => replaceAll (enquote p.1) (enquote p.2) t) t := by
  induction versionIds generalizing t with
  | nil => rfl
  | cons p ps ih =>
    obtain ⟨own, others⟩ := List.forall_mem_cons.mp same
    obtain ⟨path, paths⟩ := List.forall_mem_cons.mp paths
    have rest := ih others paths
    simp only [normalize, renames, ownedPaths] at rest
    simp only [normalize, renames, ownedPaths, List.foldl_cons, List.map_cons, List.flatMap_cons, List.cons_append,
      List.nil_append, normalizeWriter, List.foldl_nil, quote_version p.1 path, quote_version p.1 pathText_placeholder,
      rest, own]

lemma nodup_renames {ids ids' : WriterName → Text} (distinct : names.Nodup) :
    ((renames names ids ids').map Prod.fst).Nodup := by
  have pairs : (ownedPaths names).Nodup := by
    rw [ownedPaths, List.nodup_flatMap]
    refine ⟨fun n _ => by simp, distinct.imp fun other => ?_⟩
    simp [Function.onFun, other.symm]
  rw [renames, List.map_map]
  refine pairs.map fun p q same => ?_
  obtain ⟨writer, -, credential⟩ := versionPath_inj same
  exact Prod.ext writer credential

/-- The replacements of the target, each in its turn, leave the placeholders in the places of the versions. -/
theorem normalize_located {ids : WriterName → Text} (h : Located names ids ss) (own : versionIds.map Prod.fst = names)
    (same : ∀ p ∈ versionIds, ids p.1 = p.2) : normalize (join ss) versionIds = join (normalized names ids ss) := by
  have paths : ∀ p ∈ versionIds, PathText p.2 := by
    intro p mem
    rw [← same p mem]
    exact h.pathText p.1 (own ▸ List.mem_map_of_mem mem)
  have each : ∀ p ∈ renames names ids (fun _ => placeholder), ∃ n ∈ names, ∃ f, p.1 = versionPath n (ids n) f ∧
      p.2 = versionPath n placeholder f := by
    intro p mem
    obtain ⟨q, there, rfl⟩ := List.mem_map.mp mem
    exact ⟨q.1, mem_ownedPaths.mp there, q.2, rfl, rfl⟩
  rw [normalize_eq same paths, own]
  refine replaceAll_each h.free (nodup_renames h.distinct) (fun p mem => ?_) (fun p mem q mem' path => ?_) fun p mem => ?_
  · obtain ⟨n, there, f, path, -⟩ := each p mem
    obtain ⟨k, -, once⟩ := h.paths n there f
    exact ⟨k + 1, path ▸ once⟩
  · obtain ⟨n, -, f, -, made⟩ := each p mem
    obtain ⟨m, there, g, old, -⟩ := each q mem'
    rw [made, old] at path
    exact placeholder_not_hex (h.hex m there) (versionPath_inj path).2.1
  · obtain ⟨n, -, f, -, made⟩ := each p mem
    rw [made]
    exact (pathText_version n pathText_placeholder f).absent (by decide)

/-- The text with other requests in its paths is one of ASCII. -/
lemma withRequests_ascii (ids : WriterName → Text) {ids' : WriterName → Text} {t : Text} (paths : ∀ n ∈ names, PathText (ids' n))
    (ascii : ∀ c ∈ t, c.toNat < 128) : ∀ c ∈ withRequests names ids ids' t, c.toNat < 128 := by
  intro c mem
  rcases mem_join mem with rfl | ⟨s, there, inside⟩
  · decide
  · obtain ⟨i, here⟩ := List.mem_iff_getElem?.mp there
    rw [getElem?_changed] at here
    obtain ⟨u, segment, rfl⟩ := Option.map_eq_some_iff.mp here
    have old : ∀ c ∈ u, c.toNat < 128 := fun c mem => ascii c (mem_of_segment (List.mem_of_getElem? segment) mem)
    split_ifs at inside
    · by_cases path : ∃ n ∈ names, ∃ f, u = versionPath n (ids n) f
      · obtain ⟨n, mem, f, rfl⟩ := path
        rw [renamed_path mem] at inside
        have plain := (pathText_version n (paths n mem) f).plain c inside
        exact lt_of_le_of_lt plain.upper (by decide)
      · push Not at path
        rw [renamed_other path] at inside
        exact old c inside
    · exact old c inside

end Normalizing

section Digests
variable {sha256 : Bytes → String}

lemma digest_injective (free : Function.Injective sha256) : Function.Injective (digest sha256) := by
  intro a b same
  have ascii (j : Json) : ∀ c ∈ canonical j ++ ['\n'], c.toNat < 128 := by
    intro c mem
    rcases List.mem_append.mp mem with inside | last
    · exact (JsonText.canonical_visible j c inside).ascii
    · obtain rfl := List.mem_singleton.mp last
      decide
  have texts := RecordText.encode_injective (ascii a) (ascii b) (free same)
  exact canonical_injective (List.append_cancel_right texts)

/-- The digests bind the normalized configuration. -/
theorem boundaryDigests_inj (free : Function.Injective sha256) {target : String} {subjects : List (WriterName × String)}
    {writers : List (WriterName × Writer)} (some_ : writers ≠ []) {config config' dropin : Bytes} :
    boundaryDigests sha256 target subjects writers config dropin =
      boundaryDigests sha256 target subjects writers config' dropin ↔ config = config' := by
  constructor
  · intro same
    obtain ⟨w, ws, rfl⟩ := List.exists_cons_of_ne_nil some_
    simp only [boundaryDigests, List.map_cons, List.cons.injEq, Prod.mk.injEq, true_and] at same
    have values := digest_injective free same.1
    simp only [Json.obj.injEq, List.cons.injEq, Prod.mk.injEq, Json.str.injEq, true_and, and_true] at values
    exact free values
  · rintro rfl
    rfl

end Digests

section Contexts

lemma validateWriters_names {fields : List (String × Json)} {ws : List (WriterName × Writer)}
    (h : validateWriters fields = .ok ws) : ws.map (fun w => w.1.text) = fields.map Prod.fst := by
  induction fields generalizing ws with
  | nil =>
    cases h
    rfl
  | cons f fields ih =>
    obtain ⟨key, w⟩ := f
    unfold validateWriters at h
    split at h
    · cases h
    · next n named =>
      obtain ⟨writer, -, rest⟩ := bind_ok.mp h
      obtain ⟨others, checked, made⟩ := bind_ok.mp rest
      cases made
      have name : n.text = key := by simpa using List.find?_some named
      rw [List.map_cons, List.map_cons, ih checked, name]

/-- The writers of an accepted context have different names. -/
lemma validateContext_names {j : Json} {c : Context} (keyed : JsonText.Keyed j) (valid : validateContext j = .ok c) :
    (c.writers.map Prod.fst).Nodup ∧ c.writers ≠ [] := by
  unfold validateContext at valid
  obtain ⟨-, rest⟩ := checked_ok.mp valid
  obtain ⟨-, rest⟩ := checked_ok.mp rest
  obtain ⟨-, rest⟩ := checked_ok.mp rest
  obtain ⟨-, rest⟩ := checked_ok.mp rest
  obtain ⟨-, rest⟩ := checked_ok.mp rest
  split at rest
  · next fields found =>
    obtain ⟨some_, rest⟩ := checked_ok.mp rest
    obtain ⟨writers, checked, rest⟩ := bind_ok.mp rest
    obtain ⟨-, made⟩ := checked_ok.mp rest
    cases made
    have names := validateWriters_names checked
    have distinct : (fields.map Prod.fst).Nodup := (keyed.get found).1
    constructor
    · rw [← names] at distinct
      have texts : writers.map (fun w => w.1.text) = (writers.map Prod.fst).map WriterName.text := by
        rw [List.map_map]
        rfl
      exact (texts ▸ distinct).of_map WriterName.text
    · rintro rfl
      obtain rfl : fields = [] := List.map_eq_nil_iff.mp names.symm
      simp at some_
  · cases rest

end Contexts

section Binding
variable {nfkc : Text → Text} {ca ca' : String → Option (ℕ × String)} {sha256 : Bytes → String}
  {services : List Service} {c : Context} {config dropin : Bytes} {b : Boundary}

/-- The names of a context's writers. -/
def writerNames (c : Context) : List WriterName := c.writers.map Prod.fst

lemma dropin_ascii : ∀ c ∈ expectedDropin, c.toNat < 128 := by
  have ascii : isAscii expectedDropin = true := by decide +kernel
  simpa [isAscii] using ascii

/-- The boundary of an accepted configuration, with placeholders in the places of its versions. -/
structure Bounds (sha256 : Bytes → String) (services : List Service) (c : Context) (config dropin : Bytes) (b : Boundary)
    (t : Text) (subjects : List (WriterName × String)) : Prop where
  read : decode config = some t
  expected : dropin = encode expectedDropin
  selected : selectSubjects services c.target c.writers = some subjects
  located : Located (writerNames c) (requestOf b.versionIds) (segments t)
  digests : b.digests = boundaryDigests sha256 c.target subjects c.writers
    (encode (withRequests (writerNames c) (requestOf b.versionIds) (fun _ => placeholder) t)) dropin

lemma targetBoundary_spec (distinct : (writerNames c).Nodup)
    (h : targetBoundary sha256 nfkc ca services c config dropin = .ok b) :
    ∃ t subjects, Bounds sha256 services c config dropin b t subjects := by
  unfold targetBoundary at h
  split at h
  · cases h
  · next subjects selected =>
    obtain ⟨versionIds, checked, made⟩ := bind_ok.mp h
    cases made
    obtain ⟨t, read, own, located⟩ := configBoundary_located distinct checked
    have dropins : dropin = encode expectedDropin := by
      simp only [configBoundary, read] at checked
      exact of_decide_eq_true (checked_ok.mp checked).1
    have same : ∀ p ∈ versionIds, requestOf versionIds p.1 = p.2 := by
      intro p mem
      have found : versionIds.lookup p.1 = some p.2 := lookup_of_nodup (by rw [own]; exact distinct) mem
      rw [requestOf, found]
      rfl
    have text := normalize_located located own same
    rw [join_segments] at text
    refine ⟨t, subjects, read, dropins, selected, located, ?_⟩
    change boundaryDigests _ _ _ _ (encode (normalize ((decode config).getD []) versionIds)) _ = _
    rw [read, Option.getD_some, text]
    rfl

/-- The controller computes the digests of the target from the configuration with placeholders. -/
lemma Bounds.controller {t : Text} {subjects : List (WriterName × String)}
    (h : Bounds sha256 services c config dropin b t subjects) : boundary sha256 services c.target c.writers
      (withRequests (writerNames c) (requestOf b.versionIds) (fun _ => placeholder) t) expectedDropin = some b.digests := by
  have ascii : ∀ x ∈ withRequests (writerNames c) (requestOf b.versionIds) (fun _ => placeholder) t, x.toNat < 128 :=
    withRequests_ascii _ pathText_placeholders (RecordText.encode_decode h.read).2
  have both : (isAscii (withRequests (writerNames c) (requestOf b.versionIds) (fun _ => placeholder) t) &&
      isAscii expectedDropin) = true := by
    simpa [isAscii] using And.intro ascii dropin_ascii
  rw [boundary, h.selected, Option.bind_some, if_pos both, h.digests, h.expected]

/-- The boundary binds everything but the versions: two accepted configurations have the same digests
when one is the other with its own requests in its version paths, and the digests are those that the
controller computes with placeholders there. -/
theorem boundary_binds (float : Text → Option FloatText) (free : Function.Injective sha256) {text : Text} {j : Json}
    (read : JsonText.loads float text = some j) (valid : validateContext j = .ok c) {config' : Bytes} {b' : Boundary}
    (first : targetBoundary sha256 nfkc ca services c config dropin = .ok b)
    (second : targetBoundary sha256 nfkc ca' services c config' dropin = .ok b') :
    ∃ t d, decode config = some t ∧ decode dropin = some d ∧
      (b.digests = b'.digests ↔
        config' = encode (withRequests (writerNames c) (requestOf b.versionIds) (requestOf b'.versionIds) t)) ∧
      boundary sha256 services c.target c.writers
        (withRequests (writerNames c) (requestOf b.versionIds) (fun _ => placeholder) t) d = some b.digests := by
  obtain ⟨distinct, some_⟩ := validateContext_names (JsonText.loads_keyed read) valid
  obtain ⟨t, subjects, bounds⟩ := targetBoundary_spec distinct first
  obtain ⟨t', subjects', bounds'⟩ := targetBoundary_spec distinct second
  refine ⟨t, expectedDropin, bounds.read, ?_, ?_, bounds.controller⟩
  · rw [bounds.expected]
    exact RecordText.decode_encode dropin_ascii
  obtain rfl := Option.some.inj (bounds.selected.symm.trans bounds'.selected)
  obtain ⟨bytes, ascii⟩ := RecordText.encode_decode bounds.read
  obtain ⟨bytes', ascii'⟩ := RecordText.encode_decode bounds'.read
  have plain (t : Text) (ids : WriterName → Text) (ascii : ∀ c ∈ t, c.toNat < 128) :
      ∀ x ∈ withRequests (writerNames c) ids (fun _ => placeholder) t, x.toNat < 128 :=
    withRequests_ascii ids pathText_placeholders ascii
  have renamed := withRequests_ascii (requestOf b.versionIds) bounds'.located.pathText ascii
  have keeps : ∀ s, '"' ∉ s →
      '"' ∉ substituted (renames (writerNames c) (requestOf b.versionIds) (requestOf b'.versionIds)) s :=
    fun s bare => renamed_free bounds'.located.pathText bare
  calc b.digests = b'.digests
      ↔ withRequests (writerNames c) (requestOf b.versionIds) (fun _ => placeholder) t =
          withRequests (writerNames c) (requestOf b'.versionIds) (fun _ => placeholder) t' := by
        rw [bounds.digests, bounds'.digests, boundaryDigests_inj free some_]
        exact ⟨RecordText.encode_injective (plain t _ ascii) (plain t' _ ascii'), fun same => by rw [same]⟩
    _ ↔ normalized (writerNames c) (requestOf b.versionIds) (segments t) =
          normalized (writerNames c) (requestOf b'.versionIds) (segments t') := by
        constructor
        · intro same
          have cut := congrArg segments same
          rwa [withRequests, withRequests, segments_requoted fun s => renamed_free pathText_placeholders,
            segments_requoted fun s => renamed_free pathText_placeholders] at cut
        · exact fun same => congrArg join same
    _ ↔ segments t' = changed (substituted (renames (writerNames c) (requestOf b.versionIds) (requestOf b'.versionIds)))
          (segments t) := located_agree bounds.located bounds'.located
    _ ↔ config' = encode (withRequests (writerNames c) (requestOf b.versionIds) (requestOf b'.versionIds) t) := by
        rw [← bytes']
        constructor
        · intro same
          rw [withRequests, requoted, ← same, join_segments]
        · intro same
          rw [RecordText.encode_injective ascii' renamed same, withRequests, segments_requoted keeps]

end Binding

section Sample
open AlloyAccepted

/-- The bytes themselves, as a digest without collisions. -/
def bytesText (d : Bytes) : String := String.ofList (d.map fun b => Char.ofNat b.toNat)

lemma bytesText_injective : Function.Injective bytesText := by
  intro d d' same
  have texts := String.ofList_injective same
  refine List.map_injective_iff.mpr (fun b b' equal => ?_) texts
  have table : ∀ n < 256, (Char.ofNat n).toNat = n := by decide +kernel
  have small (b : UInt8) : (Char.ofNat b.toNat).toNat = b.toNat := table _ b.toNat_lt
  rw [← UInt8.toNat_inj, ← small b, ← small b', equal]

def sampleServices : List Service :=
  [⟨"loki-client", "web-01", profile, "host-local", "CN=loki-client", some 90, some 3600⟩]

/-- The log writer's configuration has its boundary. -/
theorem sample_bound : ∃ c b, targetBoundary bytesText id sampleCa sampleServices c (encode sampleConfig)
      (encode (dropin sampleVars)) = .ok b ∧
    ∃ t d, decode (encode sampleConfig) = some t ∧ decode (encode (dropin sampleVars)) = some d ∧
      (b.digests = b.digests ↔ encode sampleConfig =
        encode (withRequests (writerNames c) (requestOf b.versionIds) (requestOf b.versionIds) t)) ∧
      boundary bytesText sampleServices c.target c.writers
        (withRequests (writerNames c) (requestOf b.versionIds) (fun _ => placeholder) t) d = some b.digests := by
  have spec := validate_spec sample_validated
  obtain ⟨-, -, ⟨single, ascii, uncommented⟩, -⟩ := sample_facts
  have renders : Renders sampleVars samplePlan sampleConfig := by
    have whole := renders_of (r := []) (by rwa [List.append_nil])
    rwa [List.append_nil] at whole
  have recognizable : Recognizable sampleVars samplePlan sampleConfig := by
    refine ⟨ascii_of ascii, uncommented, fun w mem => ?_⟩
    obtain rfl := List.mem_singleton.mp mem
    exact sample_facts.2.2.2.2
  obtain ⟨requests, passed⟩ := boundary_accepts spec sample_regular renders recognizable sampleSources sample_files
  have made : targetBoundary bytesText id sampleCa sampleServices (context samplePlan sampleSources)
      (encode sampleConfig) (encode (dropin sampleVars)) = .ok ⟨requests, boundaryDigests bytesText "web-01"
        [(.loki, "CN=loki-client")] samplePlan.writers
        (encode (normalize ((decode (encode sampleConfig)).getD []) requests)) (encode (dropin sampleVars))⟩ :=
    bind_ok.mpr ⟨requests, passed, rfl⟩
  exact ⟨_, _, made, boundary_binds (fun _ => none) bytesText_injective (contextText_read _ spec)
    (validateContext_json spec) made made⟩

end Sample

end PlatformConfig.AlloyBoundary
