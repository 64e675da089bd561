import PlatformConfig.CrashDisk
import PlatformConfig.CrashLinks

/-!
# Installing CA anchors

The anchor directory of a host and the runs of `rocky-ca-trust-prepare apply`. Certificates are
published through a temporary name and a hard link; every run starts by checking what is already
installed under their names.
-/
namespace PlatformConfig.TrustAnchors

open CrashProgram CrashDisk CrashLinks Prog

abbrev Data := List UInt8

/-- A file of the anchor directory. `labelled` says that its SELinux label is the one the policy
asks for. -/
structure File where
  regular : Bool
  uid : ℕ
  gid : ℕ
  mode : ℕ
  content : Data
  labelled : Bool
  deriving DecidableEq

/-- The file without its label. -/
def File.plain (f : File) : File := { f with labelled := false }

abbrev Anchors := Volume String File

def replaceCrlf : Data → Data
  | 13 :: 10 :: rest => 10 :: replaceCrlf rest
  | b :: rest => b :: replaceCrlf rest
  | [] => []

def normalizedPem (data : Data) : Data := (replaceCrlf data).rdropWhile (· == 10) ++ [10]

/-- What the host's commands compute: whether `openssl` accepts one canonical CA certificate, the
fingerprint of its DER form, and the fingerprints that a directory of anchors puts into the
extracted bundle. -/
structure Tools where
  reviewed : Data → Bool
  fingerprint : Data → String
  extract : Anchors → List String

/-- `update-ca-trust extract` takes over every certificate of the anchor directory. -/
def Tools.Extracts (T : Tools) : Prop :=
  ∀ (v : Anchors) n f k, v.stat n = some (f, k) → f.regular = true →
    T.reviewed (normalizedPem f.content) = true →
    T.fingerprint (normalizedPem f.content) ∈ T.extract v

def isAlphanumeric (c : Char) : Bool := c.isDigit || c.isLower || c.isUpper

def isNameChar (c : Char) : Bool := isAlphanumeric c || c = '_' || c = '.' || c = '-'

/-- An anchor's basename: `[A-Za-z0-9][A-Za-z0-9_.-]{0,80}\.crt`. -/
def matchesName (name : String) : Bool :=
  match name.toList with
  | [] => false
  | c :: rest =>
    isAlphanumeric c && (".crt".toList).isSuffixOf rest && rest.length ≤ 84 &&
      (rest.take (rest.length - 4)).all isNameChar

structure Certificate (T : Tools) where
  pem : Data
  name : String
  canonical : normalizedPem pem = pem
  reviewed : T.reviewed pem = true
  basename : matchesName name = true

def Certificate.fingerprint {T : Tools} (c : Certificate T) : String := T.fingerprint c.pem

/-- The certificates of one command line: their destinations differ. -/
structure Selection (T : Tools) where
  certificates : List (Certificate T)
  distinct : (certificates.map (·.name)).Nodup

/-- The file that `publish` makes of a certificate. -/
def Certificate.anchor {T : Tools} (c : Certificate T) : File := ⟨true, 0, 0, 0o644, c.pem, false⟩

structure State where
  anchors : Anchors
  bundle : List String

inductive Write
  | create (temporary : String)
  | fchown (temporary : String)
  | fchmod (temporary : String)
  | append (temporary : String) (data : Data)
  | link (temporary destination : String)
  | unlink (temporary : String)
  | restorecon (destination : String)
  | extract

/-- Questions to the host: whether its identity, the lock, the sources and their chain are as
they should be, whether a path's ancestors are controlled by root, the random part of a temporary
name, the verdict of `matchpathcon`, and the fingerprints in the bundle. -/
inductive Ask
  | prepared
  | ancestors
  | token
  | matchpathcon (destination : String)
  | bundle

abbrev Answer : Ask → Type
  | .prepared => Bool
  | .ancestors => Bool
  | .token => String
  | .matchpathcon _ => Bool
  | .bundle => Option (List String)

abbrev Run := Program State Write Ask Answer String

def temporary (token : String) : String := ".platform-ca-" ++ token

/-- A temporary file as `os.open` makes it. -/
def draft : File := ⟨true, 0, 0, 0o600, [], false⟩

def onAnchors (f : Anchors → Option Anchors) (s : State) : Option State :=
  (f s.anchors).map fun anchors => { s with anchors }

def perform (T : Tools) : Write → State → Option State
  | .create t => onAnchors (·.create t draft)
  | .fchown t => onAnchors (·.modify t fun f => { f with uid := 0, gid := 0 })
  | .fchmod t => onAnchors (·.modify t fun f => { f with mode := 0o644 })
  | .append t data => onAnchors (·.modify t fun f => { f with content := f.content ++ data })
  | .link t destination => onAnchors (·.link t destination)
  | .unlink t => onAnchors (·.unlink t)
  | .restorecon destination => onAnchors (·.modify destination fun f => { f with labelled := true })
  | .extract => fun s => some { s with bundle := T.extract s.anchors }

/-- A kill inside a write leaves a part of the data, and one inside the extraction any bundle. -/
inductive Torn : Write → State → State → Prop
  | append {t data part s u} (part_ : part <+: data)
      (applied : onAnchors (·.modify t fun f => { f with content := f.content ++ part }) s = some u) :
      Torn (.append t data) s u
  | extract (s : State) (bundle : List String) : Torn .extract s { s with bundle }

/-- The answers of a host on which nothing goes wrong. -/
def Expected (s : State) : (x : Ask) → Answer x → Prop
  | .prepared, y => y = true
  | .ancestors, y => y = true
  | .token, y => s.anchors.stat (temporary y) = none
  | .matchpathcon n, y => y = ((s.anchors.stat n).any fun f => f.1.labelled)
  | .bundle, y => y = some s.bundle

/-- The host. When it is `calm`, no command or write fails and every answer is as expected. -/
def host (T : Tools) (calm : Prop) : Disk State Write Ask Answer where
  apply := perform T
  answers x s y := calm → Expected s x y
  fails _ := ¬calm
  torn := Torn

def limit : ℕ := 16384

/-- A singly linked file that root alone can write. -/
def validateFile (path : String) (f : File) (links : ℕ) (mode : ℕ) : Run Unit := do
  require (f.regular && links == 1) s!"not a singly linked regular file: {path}"
  require (f.uid == 0 && f.gid == 0) s!"file must be root:root: {path}"
  require (f.mode &&& 0o022 == 0) s!"file is writable by group/others: {path}"
  require (f.mode == mode) s!"file must have mode {mode}: {path}"

/-- The content of a file of mode `mode`; nothing when it is absent. -/
def readFile (path : String) (mode : ℕ) : Run (Option Data) := do
  require (← ask .ancestors) s!"unsafe path: {path}"
  let s ← look
  match s.anchors.stat path with
  | none => pure none
  | some (f, links) => do
    validateFile path f links mode
    require (decide (f.content.length ≤ limit)) s!"file exceeds {limit} bytes: {path}"
    pure (some f.content)

variable {T : Tools}

def missingAnchors : List (Certificate T) → Run (List (Certificate T))
  | [] => pure []
  | item :: rest => do
    match ← readFile item.name 0o644 with
    | none => do
      let missing ← missingAnchors rest
      pure (item :: missing)
    | some existing => do
      require (normalizedPem existing == item.pem) s!"conflicting installed anchor: {item.name}"
      missingAnchors rest

/-- Fill the temporary file and give it its final name. -/
def fill (c : Certificate T) (t : String) : Run Unit := do
  write (.fchown t) "fchown"
  write (.fchmod t) "fchmod"
  write (.append t c.pem) "write"
  write (.link t c.name) "link"

def publish (c : Certificate T) : Run Unit := do
  require (← ask .ancestors) s!"unsafe path: {c.name}"
  let token ← ask .token
  write (.create (temporary token)) "open"
  (fill c (temporary token)).handle fun e => do
    write (.unlink (temporary token)) "unlink"
    .fail e
  write (.unlink (temporary token)) "unlink"

def publishAll : List (Certificate T) → Run Unit
  | [] => pure ()
  | item :: rest => do
    publish item
    publishAll rest

def restorecon : List (Certificate T) → Run Unit
  | [] => pure ()
  | item :: rest => do
    write (.restorecon item.name) "restorecon failed"
    restorecon rest

def matchpathcon : List (Certificate T) → Run Unit
  | [] => pure ()
  | item :: rest => do
    require (← ask (.matchpathcon item.name)) "matchpathcon failed"
    matchpathcon rest

def checkInstalled (certificates : List (Certificate T)) : Run Unit := do
  let missing ← missingAnchors certificates
  require missing.isEmpty ("missing anchors: " ++ ", ".intercalate (missing.map (·.name)))
  matchpathcon certificates
  let bundle ← ask .bundle
  match (bundle : Option (List String)) with
  | none => .fail "tls-ca-bundle.pem"
  | some fingerprints =>
    require (certificates.all fun item => item.fingerprint ∈ fingerprints)
      "selected CA is absent from extracted TLS bundle; approved apply must refresh trust"

/-- One approved run of `apply`. -/
def apply (selected : Selection T) : Run Unit := do
  require (← ask .prepared) "preparation"
  let missing ← missingAnchors selected.certificates
  publishAll missing
  restorecon selected.certificates
  write .extract "update-ca-trust failed"
  checkInstalled selected.certificates

/-! ## What is installed under a name -/

/-- A file that a run accepts under the name of `c`. -/
structure Accepted (c : Certificate T) (f : File) (links : ℕ) : Prop where
  regular : f.regular = true
  single : links = 1
  uid : f.uid = 0
  gid : f.gid = 0
  mode : f.mode = 0o644
  fits : f.content.length ≤ limit
  same : normalizedPem f.content = c.pem

/-- The name of `c` is free, or its file is accepted. -/
def Found (c : Certificate T) (s : State) : Prop :=
  s.anchors.stat c.name = none ∨
    ∃ f links, s.anchors.stat c.name = some (f, links) ∧ Accepted c f links

/-- A directory without conflicting names. -/
def Unconflicted (selected : Selection T) (s : State) : Prop :=
  ∀ c ∈ selected.certificates, Found c s

/-- Every certificate is installed: its name is a singly linked file with the reviewed bytes. -/
def Installed (selected : Selection T) (s : State) : Prop :=
  ∀ c ∈ selected.certificates, ∃ f links, s.anchors.stat c.name = some (f, links) ∧ Accepted c f links

lemma Accepted.congr {c : Certificate T} {f g : File} {links : ℕ} (same : g.plain = f.plain)
    (h : Accepted c f links) : Accepted c g links := by
  cases f
  cases g
  cases same
  exact ⟨h.regular, h.single, h.uid, h.gid, h.mode, h.fits, h.same⟩

lemma anchor_accepted (c : Certificate T) (fits : c.pem.length ≤ limit) : Accepted c c.anchor 1 :=
  ⟨rfl, rfl, rfl, rfl, rfl, fits, c.canonical⟩

variable {calm : Prop} {s : State} {β : Type}

lemma reads_validateFile {path : String} {f : File} {links : ℕ} :
    Reads (host T calm) s (validateFile path f links 0o644)
      (fun _ => f.regular = true ∧ links = 1 ∧ f.uid = 0 ∧ f.gid = 0 ∧ f.mode = 0o644)
      ¬(f.regular = true ∧ links = 1 ∧ f.uid = 0 ∧ f.gid = 0 ∧ f.mode = 0o644) := by
  unfold validateFile
  simp only [bind_eq]
  refine reads_check (fun no all => ?_) fun single => ?_
  · simp [all.1, all.2.1] at no
  refine reads_check (fun no all => ?_) fun owned => ?_
  · simp [all.2.2.1, all.2.2.2.1] at no
  refine reads_check (fun no all => ?_) fun _ => ?_
  · simp [all.2.2.2.2] at no
  refine (reads_require fun no all => ?_).mono (fun _ mode => ?_) id
  · simp [all.2.2.2.2] at no
  · simp only [Bool.and_eq_true, beq_iff_eq] at single owned mode
    exact ⟨single.1, single.2, owned.1, owned.2, mode⟩

/-- The certificates that are not installed yet, where the others are as they should be. -/
lemma reads_missingAnchors (certificates : List (Certificate T)) :
    Reads (host T calm) s (missingAnchors certificates)
      (fun missing => missing = certificates.filter (fun c => (s.anchors.stat c.name).isNone) ∧
        ∀ c ∈ certificates, Found c s)
      (calm → ∃ c ∈ certificates, ¬Found c s) := by
  induction certificates with
  | nil => exact reads_ret ⟨rfl, by simp⟩
  | cons item rest ih =>
    have later : (calm → ∃ c ∈ rest, ¬Found c s) → calm → ∃ c ∈ item :: rest, ¬Found c s := by
      intro fails quiet
      obtain ⟨c, mem, no⟩ := fails quiet
      exact ⟨c, List.mem_cons_of_mem _ mem, no⟩
    simp only [missingAnchors, readFile, bind_eq, Prog.bind_assoc]
    refine reads_ask fun y answer => ?_
    refine reads_check (fun no quiet => ?_) fun _ => reads_look ?_
    · rw [answer quiet] at no
      cases no
    cases found : s.anchors.stat item.name with
    | none =>
      refine ih.bind later fun missing values => reads_ret ?_
      obtain ⟨rfl, all⟩ := values
      refine ⟨by simp [found], fun c mem => ?_⟩
      rcases List.mem_cons.mp mem with rfl | mem
      · exact .inl found
      · exact all c mem
    | some file =>
      obtain ⟨f, links⟩ := file
      have refuse : (Accepted item f links → False) → calm → ∃ c ∈ item :: rest, ¬Found c s := by
        intro no _
        refine ⟨item, List.mem_cons_self .., fun there => ?_⟩
        rcases there with free | ⟨g, k, there, accepted⟩
        · rw [found] at free
          cases free
        · rw [found] at there
          cases there
          exact no accepted
      simp only [Prog.bind_assoc]
      refine reads_validateFile.bind (fun no => refuse fun h => no ⟨h.regular, h.single, h.uid, h.gid, h.mode⟩) ?_
      intro _ valid
      refine reads_check (fun no => refuse fun h => ?_) fun fits => ?_
      · simp [h.fits] at no
      refine reads_check (fun no => refuse fun h => ?_) fun same => ?_
      · simp [h.same] at no
      refine ih.mono (fun missing values => ?_) later
      obtain ⟨rfl, all⟩ := values
      refine ⟨by simp [found], fun c mem => ?_⟩
      rcases List.mem_cons.mp mem with rfl | mem
      · obtain ⟨regular, single, uid, gid, mode⟩ := valid
        exact .inr ⟨f, links, found, regular, single, uid, gid, mode, of_decide_eq_true fits,
          beq_iff_eq.mp same⟩
      · exact all c mem

/-! ## What a run adds -/

/-- The files of `s` are as they were, and what is new under a certificate's name is its anchor. -/
def Added (selected : Selection T) (s t : State) : Prop :=
  Keeps File.plain s.anchors t.anchors ∧
    ∀ c ∈ selected.certificates, s.anchors.stat c.name = none →
      t.anchors.stat c.name = none ∨
        ∃ f links, t.anchors.stat c.name = some (f, links) ∧ f.plain = c.anchor

variable {selected : Selection T} {c : Certificate T} {t u v : State} {name : String} {x : File}

lemma Added.refl (s : State) : Added selected s s := ⟨.refl _, fun _ _ free => .inl free⟩

lemma Added.trans (first : Added selected s t) (second : Added selected t u) :
    Added selected s u := by
  refine ⟨first.1.trans second.1, fun c mem free => ?_⟩
  rcases first.2 c mem free with free | ⟨f, links, there, same⟩
  · exact second.2 c mem free
  · obtain ⟨g, there, same'⟩ := second.1.stat there
    exact .inr ⟨g, links, there, same'.trans same⟩

lemma Added.of_extends {names : Finset String} (h : Extends s.anchors t.anchors names x)
    (anchor : ∀ c ∈ selected.certificates, c.name ∈ names → x.plain = c.anchor) :
    Added selected s t := by
  refine ⟨.of_extends h, fun c mem free => ?_⟩
  by_cases new : c.name ∈ names
  · exact .inr ⟨x, names.card, h.stat_new new, anchor c mem new⟩
  · exact .inl ((h.stat_old new).trans free)

lemma temporary_ne (c : Certificate T) (token : String) : c.name ≠ temporary token := by
  intro same
  have basename := c.basename
  rw [same] at basename
  simp [matchesName, temporary, isAlphanumeric] at basename

/-- A state in which `name` is the only new name. -/
lemma Added.of_temporary {token : String} (h : Extends s.anchors t.anchors {temporary token} x) :
    Added selected s t := by
  refine .of_extends h fun c _ new => ?_
  exact absurd (Finset.mem_singleton.mp new) (temporary_ne c token)

lemma certificate_unique (selected : Selection T) {c d : Certificate T}
    (first : c ∈ selected.certificates) (second : d ∈ selected.certificates)
    (same : c.name = d.name) : c = d :=
  List.inj_on_of_nodup_map selected.distinct first second same

/-- A state in which the new names are the certificate's own and perhaps a temporary one. -/
lemma Added.of_published {token : String} (mem : c ∈ selected.certificates)
    (h : Extends s.anchors t.anchors {c.name, temporary token} c.anchor) : Added selected s t := by
  refine .of_extends h fun d known new => ?_
  rcases Finset.mem_insert.mp new with same | same
  · rw [certificate_unique selected known mem same]
    rfl
  · exact absurd (Finset.mem_singleton.mp same) (temporary_ne d token)

lemma onAnchors_some {f : Anchors → Option Anchors} (h : onAnchors f s = some t) :
    f s.anchors = some t.anchors ∧ t.bundle = s.bundle := by
  obtain ⟨w, applied, rfl⟩ := Option.map_eq_some_iff.mp h
  exact ⟨applied, rfl⟩

lemma onAnchors_applies {f : Anchors → Option Anchors} {w : Anchors} (h : f s.anchors = some w) :
    onAnchors f s = some { s with anchors := w } := by
  rw [onAnchors, h]
  rfl

/-- One change of the temporary file. -/
lemma holds_modify {w : Write} {g : File → File} {e : String} {k : Unit → Run β} {token : String}
    {Q : Except String β → State → Prop} (step : perform T w = onAnchors (·.modify (temporary token) g))
    (torn : ∀ v, Torn w u v → ∃ y, Extends s.anchors v.anchors {temporary token} y)
    (h : Extends s.anchors u.anchors {temporary token} x) (refused : ¬calm → Q (.error e) u)
    (rest : ∀ v, Extends s.anchors v.anchors {temporary token} (g x) →
      Holds (host T calm) (Added selected s) (k ()) Q v) :
    Holds (host T calm) (Added selected s) ((write w e).bind k) Q u := by
  refine holds_write (fun v cut => ?_) (fun no => ?_) fun v applied => ?_
  · obtain ⟨y, cut⟩ := torn v cut
    exact .of_temporary cut
  · refine ⟨.of_temporary h, refused fun quiet => ?_⟩
    rcases no with none_ | fails
    · obtain ⟨w', applied⟩ := h.modify_applies (Finset.mem_singleton_self _) g
      change perform T w u = none at none_
      rw [step, onAnchors_applies applied] at none_
      cases none_
    · exact fails quiet
  · have applied : perform T w u = some v := applied
    rw [step] at applied
    have next := h.modify (Finset.mem_singleton_self _) (onAnchors_some applied).1
    exact ⟨.of_temporary next, rest v next⟩

/-- How `fill` ends: with both names on the complete file, or with the temporary name alone. -/
structure Filled (calm : Prop) (s : State) (c : Certificate T) (token : String)
    (out : Except String Unit) (v : State) : Prop where
  complete : out = .ok () → Extends s.anchors v.anchors {c.name, temporary token} c.anchor
  failed : ∀ e, out = .error e → ∃ y, Extends s.anchors v.anchors {temporary token} y
  done : calm → s.anchors.stat c.name = none → out = .ok ()

lemma Filled.error {token e : String} (h : Extends s.anchors v.anchors {temporary token} x)
    (refused : calm → s.anchors.stat c.name ≠ none) : Filled calm s c token (.error e) v :=
  ⟨by rintro ⟨⟩, fun _ _ => ⟨x, h⟩, fun quiet free => absurd free (refused quiet)⟩

lemma holds_fill {token : String} (mem : c ∈ selected.certificates)
    (h : Extends s.anchors u.anchors {temporary token} draft) :
    Holds (host T calm) (Added selected s) (fill c (temporary token)) (Filled calm s c token) u := by
  simp only [fill, bind_eq]
  refine holds_modify rfl (by rintro v ⟨⟩) h (fun loud => .error h fun quiet => absurd quiet loud)
    fun v₁ owned => ?_
  refine holds_modify rfl (by rintro v ⟨⟩) owned
    (fun loud => .error owned fun quiet => absurd quiet loud) fun v₂ readable => ?_
  refine holds_modify rfl (fun v cut => ?_) readable
    (fun loud => .error readable fun quiet => absurd quiet loud) fun v₃ written => ?_
  · cases cut with
    | append _ applied =>
      exact ⟨_, readable.modify (Finset.mem_singleton_self _) (onAnchors_some applied).1⟩
  refine wp_tail (holds_write (by rintro v ⟨⟩) (fun no => ⟨.of_temporary written, ?_⟩)
    fun v applied => ?_)
  · refine .error written fun quiet free => ?_
    rcases no with none_ | fails
    · rw [← written.stat_old (by simpa using temporary_ne c token)] at free
      obtain ⟨w, applied⟩ := written.link_applies (Finset.mem_singleton_self _) free
      have none_ : onAnchors (·.link (temporary token) c.name) v₃ = none := none_
      rw [onAnchors_applies applied] at none_
      cases none_
    · exact fails quiet
  · have applied : onAnchors (·.link (temporary token) c.name) v₃ = some v := applied
    have both := written.link (Finset.mem_singleton_self _) (onAnchors_some applied).1
    exact ⟨.of_published mem both, fun _ => both, by rintro e ⟨⟩, fun _ _ => rfl⟩

/-- The end of a publication. -/
structure PublishEnd (calm : Prop) (selected : Selection T) (s : State) (c : Certificate T)
    (out : Except String Unit) (v : State) : Prop where
  added : Added selected s v
  complete : out = .ok () → Extends s.anchors v.anchors {c.name} c.anchor
  done : calm → s.anchors.stat c.name = none → out = .ok ()

lemma holds_publish (mem : c ∈ selected.certificates) :
    Holds (host T calm) (Added selected s) (publish c) (PublishEnd calm selected s c) s := by
  have refused : ∀ {e : String}, ¬calm → PublishEnd calm selected s c (.error e) s := fun loud =>
    ⟨.refl s, by rintro ⟨⟩, fun quiet => absurd quiet loud⟩
  simp only [publish, bind_eq]
  refine holds_ask (.refl s) fun y answer => ?_
  refine holds_check (fun no => refused fun quiet => ?_) fun _ => ?_
  · rw [answer quiet] at no
    cases no
  refine holds_ask (.refl s) fun token fresh => ?_
  refine holds_write (by rintro v ⟨⟩) (fun no => ⟨.refl s, refused fun quiet => ?_⟩) fun v applied => ?_
  · rcases no with none_ | fails
    · have free : s.anchors.stat (temporary token) = none := fresh quiet
      have none_ : onAnchors (·.create (temporary token) draft) s = none := none_
      simp [onAnchors, Volume.create, Volume.stat_eq_none.mp free] at none_
    · exact fails quiet
  have applied : onAnchors (·.create (temporary token) draft) s = some v := applied
  have drafted := Extends.create (onAnchors_some applied).1
  refine ⟨.of_temporary drafted, wp_bind.mpr (wp_handle.mpr (wp_mono (holds_fill mem drafted)
    (fun _ _ _ h => h) fun out w filled => ?_))⟩
  cases out with
  | error e =>
    obtain ⟨x, left⟩ := filled.failed e rfl
    have noisy : ¬(calm ∧ s.anchors.stat c.name = none) := fun h => by
      have done := filled.done h.1 h.2
      cases done
    have failed : ∀ {e : String} {w}, Added selected s w → PublishEnd calm selected s c (.error e) w :=
      fun added => ⟨added, by rintro ⟨⟩, fun quiet free => absurd ⟨quiet, free⟩ noisy⟩
    refine holds_write (by rintro v ⟨⟩) (fun _ => ⟨.of_temporary left, failed (.of_temporary left)⟩)
      fun z applied => ?_
    have applied : onAnchors (·.unlink (temporary token)) w = some z := applied
    have gone := left.unlink (Finset.mem_singleton_self _) (onAnchors_some applied).1
    rw [Finset.erase_singleton] at gone
    have added : Added selected s z := .of_extends gone (by simp)
    exact ⟨added, failed added⟩
  | ok _ =>
    have both := filled.complete rfl
    have temporary_mem : temporary token ∈ ({c.name, temporary token} : Finset String) := by simp
    have added : Added selected s w := .of_published mem both
    refine wp_tail (holds_write (by rintro v ⟨⟩)
      (fun no => ⟨added, added, by rintro ⟨⟩, fun quiet _ => ?_⟩) fun z applied => ?_)
    · rcases no with none_ | fails
      · obtain ⟨w', applied⟩ := both.unlink_applies temporary_mem
        have none_ : onAnchors (·.unlink (temporary token)) w = none := none_
        rw [onAnchors_applies applied] at none_
        cases none_
      · exact absurd quiet fails
    · have applied : onAnchors (·.unlink (temporary token)) w = some z := applied
      have single := both.unlink temporary_mem (onAnchors_some applied).1
      have only : ({c.name, temporary token} : Finset String).erase (temporary token) = {c.name} := by
        rw [Finset.pair_comm]
        exact Finset.erase_insert (by simpa using (temporary_ne c token).symm)
      rw [only] at single
      have added : Added selected s z := .of_extends single fun d known new => by
        rw [certificate_unique selected known mem (Finset.mem_singleton.mp new)]
        rfl
      exact ⟨added, added, fun _ => single, fun _ _ => rfl⟩

/-- The certificates of a list carry their anchors, each under a single name. -/
def Carries (certificates : List (Certificate T)) (s : State) : Prop :=
  ∀ c ∈ certificates, ∃ f, s.anchors.stat c.name = some (f, 1) ∧ f.plain = c.anchor

lemma Carries.kept {certificates : List (Certificate T)} (h : Carries certificates s)
    (kept : Keeps File.plain s.anchors t.anchors) : Carries certificates t := by
  intro c mem
  obtain ⟨f, there, same⟩ := h c mem
  obtain ⟨g, there, same'⟩ := kept.stat there
  exact ⟨g, there, same'.trans same⟩

lemma holds_publishAll (missing : List (Certificate T)) (sub : ∀ c ∈ missing, c ∈ selected.certificates)
    (distinct : (missing.map (·.name)).Nodup) (start : Added selected s u)
    (free : ∀ c ∈ missing, u.anchors.stat c.name = none) :
    Holds (host T calm) (Added selected s) (publishAll missing) (fun out t =>
      (Added selected s t ∧ Keeps File.plain u.anchors t.anchors) ∧
        (out = .ok () → Carries missing t) ∧ (calm → out = .ok ())) u := by
  induction missing generalizing u with
  | nil => exact ⟨⟨start, .refl _⟩, fun _ c mem => absurd mem List.not_mem_nil, fun _ => rfl⟩
  | cons item rest ih =>
    rw [List.map_cons, List.nodup_cons] at distinct
    have here : item ∈ item :: rest := List.mem_cons_self ..
    have published : Holds (host T calm) _ _ _ u := holds_publish (sub item here)
    refine wp_bind.mpr (wp_mono published (fun _ _ _ h => start.trans h) fun out v ended => ?_)
    cases out with
    | error e =>
      refine ⟨⟨start.trans ended.added, ended.added.1⟩, by rintro ⟨⟩, fun quiet => ?_⟩
      have done := ended.done quiet (free item here)
      cases done
    | ok _ =>
      have single := ended.complete rfl
      have still : ∀ c ∈ rest, v.anchors.stat c.name = none := by
        intro c mem
        rw [single.stat_old]
        · exact free c (List.mem_cons_of_mem _ mem)
        · rw [Finset.mem_singleton]
          exact fun same => distinct.1 (List.mem_map.mpr ⟨c, mem, same⟩)
      have next := ih (fun c mem => sub c (List.mem_cons_of_mem _ mem)) distinct.2
        (start.trans ended.added) still
      refine wp_mono next (fun _ _ _ h => h) fun out t after => ?_
      refine ⟨⟨after.1.1, ended.added.1.trans after.1.2⟩, fun done c mem => ?_, after.2.2⟩
      rcases List.mem_cons.mp mem with rfl | mem
      · have there := single.stat_new (Finset.mem_singleton_self _)
        obtain ⟨f, there, same⟩ := after.1.2.stat there
        exact ⟨f, there, same⟩
      · exact after.2.1 done c mem

/-- Every name of the list is labelled as the policy asks. -/
def Labelled (certificates : List (Certificate T)) (s : State) : Prop :=
  ∀ c ∈ certificates, ∃ f links, s.anchors.stat c.name = some (f, links) ∧ f.labelled = true

/-- `t` differs from `s` by labels that the policy asks for. -/
def Relabelled (s t : State) : Prop :=
  Keeps File.plain s.anchors t.anchors ∧ ∀ n, (s.anchors.stat n = none → t.anchors.stat n = none) ∧
    ∀ f links, s.anchors.stat n = some (f, links) → f.labelled = true →
      ∃ g, t.anchors.stat n = some (g, links) ∧ g.labelled = true

lemma Relabelled.refl (s : State) : Relabelled s s :=
  ⟨.refl _, fun _ => ⟨id, fun f _ there labelled => ⟨f, there, labelled⟩⟩⟩

lemma Relabelled.trans (first : Relabelled s t) (second : Relabelled t u) : Relabelled s u := by
  refine ⟨first.1.trans second.1, fun n => ⟨fun free => ?_, fun f links there labelled => ?_⟩⟩
  · exact (second.2 n).1 ((first.2 n).1 free)
  · obtain ⟨g, there, labelled⟩ := (first.2 n).2 f links there labelled
    exact (second.2 n).2 g links there labelled

lemma Relabelled.added (h : Relabelled s t) : Added selected s t :=
  ⟨h.1, fun c _ free => .inl ((h.2 c.name).1 free)⟩

lemma relabelled_step (applied : s.anchors.modify name (fun f => { f with labelled := true }) = some t.anchors) :
    Relabelled s t := by
  refine ⟨.of_modify (g := fun f => { f with labelled := true }) (fun _ => rfl) applied, fun n => ?_⟩
  obtain ⟨free, known⟩ := stat_modify (m := n) applied
  refine ⟨free, fun f links there labelled => ?_⟩
  rcases known f links there with there | there
  · exact ⟨f, there, labelled⟩
  · exact ⟨_, there, rfl⟩

lemma modify_stat {g : File → File} (applied : s.anchors.modify name g = some t.anchors) :
    ∃ f links, s.anchors.stat name = some (f, links) ∧ t.anchors.stat name = some (g f, links) := by
  unfold Volume.modify at applied
  obtain ⟨i, found, same⟩ := Option.map_eq_some_iff.mp applied
  refine ⟨s.anchors.node i, s.anchors.links i, Volume.stat_eq_some.mpr ⟨i, found, rfl, rfl⟩, ?_⟩
  rw [← same]
  exact Volume.stat_eq_some.mpr ⟨i, found, Function.update_self .., rfl⟩

lemma holds_restorecon (certificates : List (Certificate T)) (start : Relabelled s u) :
    Holds (host T calm) (Relabelled s) (restorecon certificates) (fun out t => Relabelled u t ∧
      (out = .ok () → Labelled certificates t) ∧
      (calm → (∀ c ∈ certificates, u.anchors.stat c.name ≠ none) → out = .ok ())) u := by
  induction certificates generalizing u with
  | nil => exact ⟨.refl u, fun _ c mem => absurd mem List.not_mem_nil, fun _ _ => rfl⟩
  | cons item rest ih =>
    simp only [restorecon, bind_eq]
    refine holds_write (by rintro v ⟨⟩) (fun no => ⟨start, .refl u, by rintro ⟨⟩, fun quiet all => ?_⟩)
      fun v applied => ?_
    · rcases no with none_ | fails
      · have none_ : onAnchors (·.modify item.name fun f => { f with labelled := true }) u = none := none_
        cases found : u.anchors.names.lookup item.name with
        | none => exact absurd (Volume.stat_eq_none.mpr found) (all item (List.mem_cons_self ..))
        | some i => simp [onAnchors, Volume.modify, found] at none_
      · exact absurd quiet fails
    · have applied : onAnchors (·.modify item.name fun f => { f with labelled := true }) u = some v := applied
      have step := relabelled_step (onAnchors_some applied).1
      refine ⟨start.trans step, wp_mono (ih (start.trans step)) (fun _ _ _ h => h) fun out t after => ?_⟩
      refine ⟨step.trans after.1, fun done c mem => ?_, fun quiet all => after.2.2 quiet fun c mem => ?_⟩
      · rcases List.mem_cons.mp mem with rfl | mem
        · obtain ⟨f, links, -, there⟩ := modify_stat (onAnchors_some applied).1
          obtain ⟨g, there, labelled⟩ := (after.1.2 c.name).2 _ _ there rfl
          exact ⟨g, links, there, labelled⟩
        · exact after.2.1 done c mem
      · have there := all c (List.mem_cons_of_mem _ mem)
        cases found : u.anchors.stat c.name with
        | none => exact absurd found there
        | some file =>
          obtain ⟨g, there, -⟩ := step.1.stat found
          simp [there]

/-- A run reads its checks back from the state, and the bundle. -/
lemma reads_matchpathcon (certificates : List (Certificate T)) :
    Reads (host T calm) s (matchpathcon certificates) (fun _ => True)
      (calm → ¬Labelled certificates s) := by
  induction certificates with
  | nil => exact reads_ret trivial
  | cons item rest ih =>
    simp only [matchpathcon, bind_eq]
    refine reads_ask fun y answer => ?_
    refine reads_check (fun no quiet labelled => ?_) fun _ => ih.mono (fun _ _ => trivial) ?_
    · obtain ⟨f, links, there, yes⟩ := labelled item (List.mem_cons_self ..)
      have answer : y = ((s.anchors.stat item.name).any fun f => f.1.labelled) := answer quiet
      rw [there, no] at answer
      simp [yes] at answer
    · exact fun no quiet labelled => no quiet fun c mem => labelled c (List.mem_cons_of_mem _ mem)

lemma reads_checkInstalled :
    Reads (host T calm) s (checkInstalled selected.certificates) (fun _ => Installed selected s)
      (calm → ¬(Installed selected s ∧ Labelled selected.certificates s ∧
        ∀ c ∈ selected.certificates, c.fingerprint ∈ s.bundle)) := by
  simp only [checkInstalled, bind_eq]
  refine (reads_missingAnchors _).bind (fun no quiet ready => ?_) fun missing values => ?_
  · obtain ⟨c, mem, no⟩ := no quiet
    exact no (.inr (ready.1 c mem))
  obtain ⟨rfl, found⟩ := values
  have installed : (∀ c ∈ selected.certificates, s.anchors.stat c.name ≠ none) → Installed selected s := by
    intro present c mem
    exact (found c mem).resolve_left (present c mem)
  refine reads_check (fun no quiet ready => ?_) fun empty => ?_
  · have empty : selected.certificates.filter (fun c => (s.anchors.stat c.name).isNone) = [] := by
      refine List.filter_eq_nil_iff.mpr fun c mem => ?_
      obtain ⟨f, links, there, -⟩ := ready.1 c mem
      simp [there]
    rw [empty] at no
    cases no
  have present : ∀ c ∈ selected.certificates, s.anchors.stat c.name ≠ none := by
    intro c mem free
    have none_ := List.filter_eq_nil_iff.mp (List.isEmpty_iff.mp empty) c mem
    simp [free] at none_
  refine (reads_matchpathcon _).bind (fun no quiet ready => no quiet ready.2.1) fun _ _ => ?_
  refine reads_ask fun y answer => ?_
  have read : calm → y = some s.bundle := answer
  cases y with
  | none => exact reads_fail fun quiet => by cases read quiet
  | some fingerprints =>
    refine (reads_require fun no quiet ready => ?_).mono (fun _ _ => installed present) id
    obtain rfl := Option.some.inj (read quiet)
    have all : (selected.certificates.all fun item => decide (item.fingerprint ∈ s.bundle)) = true := by
      simpa using ready.2.2
    rw [all] at no
    cases no

/-- What a later run needs of the name of `c`: an absent file must fit the size that is read
back, a present one must have a single link and fit it too. -/
def Whole (s : State) (c : Certificate T) : Prop :=
  match s.anchors.stat c.name with
  | none => c.pem.length ≤ limit
  | some (f, links) => links = 1 ∧ f.content.length ≤ limit

lemma holds_apply (extracts : T.Extracts) (s : State) :
    Holds (host T calm) (Added selected s) (apply selected) (fun out t =>
      (Added selected s t ∧ (out = .ok () → Installed selected t)) ∧
        (calm → Unconflicted selected s → (∀ c ∈ selected.certificates, Whole s c) → out = .ok ())) s := by
  have refused : ∀ {e : String} {t}, Added selected s t →
      Added selected s t ∧ ((Except.error e : Except String Unit) = .ok () → Installed selected t) :=
    fun added => ⟨added, by rintro ⟨⟩⟩
  simp only [apply, bind_eq]
  refine holds_ask (.refl s) fun y answer => ?_
  refine holds_check (fun no => ⟨refused (.refl s), fun quiet => ?_⟩) fun _ => ?_
  · rw [answer quiet] at no
    cases no
  refine wp_reads (fun _ => .refl s) (reads_missingAnchors _) (fun e no => ⟨refused (.refl s),
    fun quiet found => ?_⟩) fun missing values => ?_
  · obtain ⟨c, mem, no⟩ := no quiet
    exact absurd (found c mem) no
  obtain ⟨rfl, found⟩ := values
  -- publication
  have sub : ∀ c ∈ selected.certificates.filter (fun c => (s.anchors.stat c.name).isNone),
      c ∈ selected.certificates ∧ s.anchors.stat c.name = none := by
    intro c mem
    obtain ⟨mem, free⟩ := List.mem_filter.mp mem
    exact ⟨mem, Option.isNone_iff_eq_none.mp free⟩
  have distinct : ((selected.certificates.filter fun c => (s.anchors.stat c.name).isNone).map
      (·.name)).Nodup := selected.distinct.sublist (List.filter_sublist.map _)
  refine wp_bind.mpr (wp_mono (holds_publishAll _ (fun c mem => (sub c mem).1) distinct (.refl s)
    fun c mem => (sub c mem).2) (fun _ _ _ h => h) fun out t published => ?_)
  obtain ⟨⟨added, -⟩, complete, done⟩ := published
  cases out with
  | error e => exact ⟨refused added, fun quiet => by cases done quiet⟩
  | ok _ =>
  have complete := complete rfl
  have present : ∀ c ∈ selected.certificates, ∃ f, t.anchors.stat c.name = some (f, 1) ∧
      (Whole s c → Accepted c f 1) := by
    intro c mem
    rcases found c mem with free | ⟨f, links, there, accepted⟩
    · obtain ⟨f, there, same⟩ := complete c (List.mem_filter.mpr ⟨mem, by simp [free]⟩)
      refine ⟨f, there, fun whole => ?_⟩
      rw [Whole, free] at whole
      exact Accepted.congr (f := c.anchor) same (anchor_accepted c whole)
    · obtain rfl := accepted.single
      obtain ⟨g, there, same⟩ := added.1.stat there
      exact ⟨g, there, fun _ => accepted.congr same⟩
  -- labels
  refine wp_bind.mpr (wp_mono (holds_restorecon _ (.refl t)) (fun _ _ _ h => added.trans h.added)
    fun out u labelled => ?_)
  obtain ⟨relabelled, complete, done⟩ := labelled
  have added := added.trans relabelled.added
  cases out with
  | error e =>
    refine ⟨refused added, fun quiet _ _ => ?_⟩
    have done := done quiet fun c mem free => by
      obtain ⟨f, there, -⟩ := present c mem
      rw [free] at there
      cases there
    cases done
  | ok _ =>
  refine holds_write (fun v cut => ?_) (fun no => ⟨added, refused added, fun quiet => ?_⟩)
    fun v applied => ?_
  · cases cut
    exact added
  · rcases no with none_ | fails
    · cases none_
    · exact absurd quiet fails
  obtain rfl : { u with bundle := T.extract u.anchors } = v := Option.some.inj applied
  -- the final check
  have kept : Added selected s { u with bundle := T.extract u.anchors } := added
  refine ⟨kept, wp_tail (wp_reads (fun _ => kept) reads_checkInstalled (fun e no =>
    ⟨refused kept, fun quiet _ whole => ?_⟩) fun _ installed => ⟨⟨kept, fun _ => installed⟩, fun _ _ _ => rfl⟩)⟩
  have installed : Installed selected u := by
    intro c mem
    obtain ⟨f, there, accepted⟩ := present c mem
    obtain ⟨g, there, same⟩ := relabelled.1.stat there
    exact ⟨g, 1, there, (accepted (whole c mem)).congr same⟩
  refine absurd ⟨installed, complete rfl, fun c mem => ?_⟩ (no quiet)
  obtain ⟨f, links, there, accepted⟩ := installed c mem
  have known := extracts u.anchors c.name f links there accepted.regular (by rw [accepted.same]; exact c.reviewed)
  rwa [accepted.same] at known

/-! ## Resuming after kills -/

/-- Nothing but its link count or its size can be wrong with what the name of `c` stands for. -/
def Ready (selected : Selection T) (s : State) : Prop :=
  ∀ c ∈ selected.certificates, ∀ f links, s.anchors.stat c.name = some (f, links) → links = 1 →
    f.content.length ≤ limit → Accepted c f links

lemma Unconflicted.ready (h : Unconflicted selected s) : Ready selected s := by
  intro c mem f links there _ _
  rcases h c mem with free | ⟨g, k, found, accepted⟩
  · rw [free] at there
    cases there
  · rw [found] at there
    cases there
    exact accepted

lemma Ready.unconflicted (h : Ready selected s) (whole : ∀ c ∈ selected.certificates, Whole s c) :
    Unconflicted selected s := by
  intro c mem
  have whole := whole c mem
  unfold Whole at whole
  cases there : s.anchors.stat c.name with
  | none => exact .inl there
  | some file =>
    rw [there] at whole
    exact .inr ⟨file.1, file.2, there, h c mem _ _ there whole.1 whole.2⟩

lemma Ready.added (h : Ready selected s) (added : Added selected s t) : Ready selected t := by
  intro c mem f links there single fits
  cases before : s.anchors.stat c.name with
  | none =>
    rcases added.2 c mem before with free | ⟨g, k, found, same⟩
    · rw [free] at there
      cases there
    · rw [found] at there
      cases there
      cases f
      cases same
      exact ⟨rfl, single, rfl, rfl, rfl, fits, c.canonical⟩
  | some file =>
    obtain ⟨g, links'⟩ := file
    obtain ⟨g', found, same⟩ := added.1.stat before
    rw [found] at there
    cases there
    have content : f.plain.content = g.plain.content := by rw [same]
    have fits : g.content.length ≤ limit := content ▸ fits
    exact (h c mem g links before single fits).congr same

/-- The next uninterrupted run of `apply` succeeds and leaves every certificate installed. -/
def Resumes (selected : Selection T) (s : State) : Prop :=
  (∃ t, Exec (host T True).semantics (apply selected) s (.ok ()) t) ∧
    ∀ out t, Exec (host T True).semantics (apply selected) s out t →
      out = .ok () ∧ Installed selected t

lemma fresh_token (s : State) : ∃ token, s.anchors.stat (temporary token) = none := by
  have infinite : Set.Infinite (Set.range temporary) := by
    refine Set.infinite_range_of_injective fun a b same => ?_
    exact String.append_right_inj _ |>.mp same
  obtain ⟨n, ⟨token, rfl⟩, free⟩ := infinite.exists_notMem_finset s.anchors.names.keys.toFinset
  refine ⟨token, Volume.stat_eq_none.mpr (AList.lookup_eq_none.mpr fun known => free ?_)⟩
  exact List.mem_toFinset.mpr (AList.mem_keys.mp known)

lemma host_answers (x : Ask) (s : State) : ∃ y, (host T calm).answers x s y := by
  cases x with
  | prepared => exact ⟨true, fun _ => rfl⟩
  | ancestors => exact ⟨true, fun _ => rfl⟩
  | token =>
    obtain ⟨token, free⟩ := fresh_token s
    exact ⟨token, fun _ => free⟩
  | matchpathcon n => exact ⟨_, fun _ => rfl⟩
  | bundle => exact ⟨some s.bundle, fun _ => rfl⟩

/-- A run resumes where every name is whole, and nowhere else. -/
lemma resumes_iff (extracts : T.Extracts) (ready : Ready selected s) :
    Resumes selected s ↔ ∀ c ∈ selected.certificates, Whole s c := by
  have applied : Holds (host T True) (Added selected s) _ _ s := holds_apply extracts s
  constructor
  · rintro ⟨⟨t, run⟩, -⟩ c mem
    obtain ⟨⟨added, installed⟩, -⟩ := wp_exec applied run
    obtain ⟨f, links, there, accepted⟩ := installed rfl c mem
    unfold Whole
    cases before : s.anchors.stat c.name with
    | none =>
      rcases added.2 c mem before with free | ⟨g, k, found, same⟩
      · rw [free] at there
        cases there
      · rw [found] at there
        cases there
        have content : f.content = c.pem := congrArg File.content same
        exact content ▸ accepted.fits
    | some file =>
      obtain ⟨g, k⟩ := file
      obtain ⟨g', found, same⟩ := added.1.stat before
      rw [found] at there
      cases there
      have content : f.plain.content = g.plain.content := by rw [same]
      have fits : f.content.length ≤ limit := accepted.fits
      exact ⟨accepted.single, content ▸ fits⟩
  · intro whole
    have ends : ∀ out t, Exec (host T True).semantics (apply selected) s out t →
        out = .ok () ∧ Installed selected t := by
      intro out t run
      obtain ⟨⟨-, installed⟩, done⟩ := wp_exec applied run
      obtain rfl := done trivial (ready.unconflicted whole) whole
      exact ⟨rfl, installed rfl⟩
    obtain ⟨out, t, run⟩ := exec_exists host_answers (apply selected) s
    obtain ⟨rfl, -⟩ := ends out t run
    exact ⟨⟨t, run⟩, ends⟩

/-- Tools that know a single certificate. -/
def sampleTools : Tools where
  reviewed data := data == [67, 65, 10]
  fingerprint data := toString data.length
  extract v := v.names.entries.filterMap fun e =>
    let f := v.node e.2
    if f.regular && normalizedPem f.content == [67, 65, 10] then
      some (toString (normalizedPem f.content).length)
    else none

def sampleCertificate : Certificate sampleTools where
  pem := [67, 65, 10]
  name := "platform-root-ca.crt"
  canonical := by decide
  reviewed := by decide
  basename := by decide +kernel

def sampleSelection : Selection sampleTools := ⟨[sampleCertificate], by decide⟩

/-- The answers of a host on which every step succeeds. -/
def undisturbed : (o : CrashDisk.Op Write Ask) → State → Reply State Answer o × State
  | .look, s => (s, s)
  | .ask .prepared, s => (true, s)
  | .ask .ancestors, s => (true, s)
  | .ask .token, s => ("0", s)
  | .ask (.matchpathcon n), s => ((s.anchors.stat n).any fun f => f.1.labelled, s)
  | .ask .bundle, s => (some s.bundle, s)
  | .write w, s => match perform sampleTools w s with
    | some t => (true, t)
    | none => (false, s)

lemma undisturbed_within : Within undisturbed (host sampleTools False).semantics := by
  intro o s
  cases o with
  | look => exact .look s
  | ask x => cases x <;> exact .ask fun h => h.elim
  | write w =>
    cases applied : perform sampleTools w s with
    | none =>
      simp only [undisturbed, applied]
      exact Done.refused (D := host sampleTools False) (.inl applied)
    | some t =>
      simp only [undisturbed, applied]
      exact Done.wrote (D := host sampleTools False) applied

def emptyHost : State := ⟨.empty draft, []⟩

/-- The state after the first `n` operations of an `apply` run on the empty directory. -/
def stopped (n : ℕ) : State := after undisturbed n (apply sampleSelection) emptyHost

lemma stopped_runs (n : ℕ) :
    Runs (host sampleTools False).semantics (· = apply sampleSelection) emptyHost (stopped n) :=
  .step (.refl _) rfl (undisturbed_within.killed n _ _)

end PlatformConfig.TrustAnchors
