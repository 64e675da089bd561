import PlatformConfig.RequestRuns

/-!
# Creation of a request

The files of a new request validate at the time at which they were made, and the creation of a
request publishes exactly them or leaves no new published request.
-/
namespace PlatformConfig.HostRequest

open CrashProgram CrashDisk Prog
open GuardPlan (matchesHex)
open RecordText

variable {t : Tools} {k : Conditions} {P : Args → ℕ → Prop} {a : Args} {root r nonce : String} {s u : State}
  {n : Node} {check : Bool}

/-! ## The record of a new request -/

/-- A value that fits on a line of a record. -/
def Fits (v : String) : Prop := isToken v.toList = true ∧ v.toList.length ≤ 253

lemma fits_hex {m : ℕ} (pos : 0 < m) (small : m ≤ 253) (h : matchesHex m r = true) : Fits r := by
  refine ⟨hex_token pos h, ?_⟩
  simp only [matchesHex, Bool.and_eq_true, decide_eq_true_eq] at h
  omega

lemma lowerAlphanum_visible {c : Char} (h : isLowerAlphanum c = true) : isVisible c = true := by
  simp only [isLowerAlphanum, Bool.or_eq_true, Char.isDigit, Char.isLower, Bool.and_eq_true,
    decide_eq_true_eq, UInt32.le_iff_toNat_le] at h
  simp only [isVisible, Bool.and_eq_true, decide_eq_true_eq]
  rcases h with ⟨low, high⟩ | ⟨low, high⟩
  · exact ⟨le_trans (by decide) low, le_trans high (by decide)⟩
  · exact ⟨le_trans (by decide) low, le_trans high (by decide)⟩

lemma fits_name {more : Char → Bool} {m : ℕ} (visible : ∀ c, more c = true → isVisible c = true)
    (small : m ≤ 252) (h : matchesName more m r = true) : Fits r := by
  unfold matchesName at h
  split at h
  · cases h
  · next c cs chars =>
    simp only [Bool.and_eq_true, decide_eq_true_eq, List.all_eq_true, Bool.or_eq_true] at h
    obtain ⟨⟨first, length⟩, rest⟩ := h
    rw [Fits, chars]
    refine ⟨?_, by simp only [List.length_cons]; omega⟩
    simp only [isToken, Bool.and_eq_true, List.all_eq_true]
    refine ⟨by simp, List.forall_mem_cons.mpr ⟨lowerAlphanum_visible first, fun d mem => ?_⟩⟩
    exact (rest d mem).elim lowerAlphanum_visible (visible d)

lemma fits_service (a : Args) : Fits a.service := by
  refine fits_name (fun c same => ?_) (by decide) a.service_ok
  rw [of_decide_eq_true same]
  decide

lemma fits_identity (h : matchesIdentity r = true) : Fits r := by
  refine fits_name (fun c same => ?_) (by decide) h
  rcases Bool.or_eq_true_iff.mp same with same | same
  all_goals
    rw [of_decide_eq_true same]
    decide

lemma fits_decimal {m : ℕ} (small : m ≤ maxEpoch) : Fits (str m) := by
  refine ⟨?_, ?_⟩
  · have digits := isDigits_str m
    simp only [isDigits, Bool.and_eq_true, decide_eq_true_eq, List.all_eq_true] at digits
    simp only [isToken, Bool.and_eq_true, decide_eq_true_eq, List.all_eq_true]
    exact ⟨digits.1, fun c mem => hex_visible (by simp [GuardPlan.isLowerHex, digits.2 c mem])⟩
  · have bound : m < 10 ^ 19 := lt_of_le_of_lt small (by decide)
    have length : (str m).length ≤ 19 := (Nat.length_repr_le_iff (by decide)).mpr bound
    rw [String.length_toList]
    omega

lemma fits_optional {m : ℕ} (pos : 0 < m) (small : m ≤ 253) (h : r = noneText ∨ matchesHex m r = true) :
    Fits r := by
  rcases h with rfl | hex
  · exact ⟨by decide, by decide⟩
  · exact fits_hex pos small hex

/-- The values of a new request fit on their lines. -/
lemma newRequest_fits {created : ℕ} {csr spki : String} (hex : matchesHex 32 r = true)
    (nonce_ : matchesHex 64 nonce = true) (csr_ : matchesHex 64 csr = true)
    (spki_ : matchesHex 64 spki = true) (time : created + a.requestTtlSeconds ≤ maxEpoch) :
    ∀ v ∈ (newRequest a r nonce created csr spki).values, Fits v := by
  have target := fits_identity a.target_ok
  have operation : Fits a.operation.text := by
    cases a.operation <;> exact ⟨by decide, by decide⟩
  have profile : Fits a.subject.profile := by
    have either : a.subject.profile = serverProfile ∨ a.subject.profile = clientProfile := by
      cases a.subject
      · exact .inl rfl
      · exact .inr rfl
    rcases either with same | same
    all_goals
      rw [same]
      exact ⟨by decide, by decide⟩
  simp only [newRequest, Request.values, List.forall_mem_cons]
  exact ⟨⟨by decide, by decide⟩, fits_hex (by decide) (by decide) hex,
    fits_hex (by decide) (by decide) nonce_, fits_decimal (by omega), fits_decimal time, operation,
    fits_service a, target, target, fits_hex (by decide) (by decide) a.inventory_ok,
    fits_hex (by decide) (by decide) csr_, fits_hex (by decide) (by decide) spki_,
    fits_optional (by decide) (by decide) a.current, fits_optional (by decide) (by decide) a.predecessor,
    profile, fits_identity a.response_ok, by simp⟩

lemma length_serialize {names values : List String} (same : names.length = values.length)
    (small : ∀ x ∈ names, x.toList.length ≤ 253) (small' : ∀ v ∈ values, v.toList.length ≤ 253) :
    (serialize names values).length ≤ 508 * names.length := by
  rw [serialize, encode, List.length_map, recordText, unlines]
  induction names generalizing values with
  | nil => simp
  | cons x names ih =>
    cases values with
    | nil => cases same
    | cons v values =>
      have rest := ih (Nat.succ.inj same) (fun y mem => small y (List.mem_cons_of_mem x mem))
        fun w mem => small' w (List.mem_cons_of_mem v mem)
      have here := small x List.mem_cons_self
      have here' := small' v List.mem_cons_self
      simp only [List.zipWith_cons_cons, List.flatMap_cons, List.length_append, List.length_cons,
        List.length_nil, field]
      omega

lemma readable_serialize {x v : String} {names values : List String} (same : names.length = values.length)
    (few : names.length ≤ 2000) (small : ∀ y ∈ x :: names, y.toList.length ≤ 253)
    (small' : ∀ w ∈ v :: values, w.toList.length ≤ 253) :
    readable (serialize (x :: names) (v :: values)) = true := by
  have length := length_serialize (by simp [same]) small small'
  have some_ : serialize (x :: names) (v :: values) ≠ [] := by
    simp [serialize, recordText, unlines, encode]
  have pos := List.length_pos_iff.mpr some_
  simp only [readable, Bool.and_eq_true, decide_eq_true_eq]
  rw [List.length_cons] at length
  exact ⟨pos, length.trans (by rw [maxProtocolSize]; omega)⟩

lemma request_readable {q : Request} (fits : ∀ v ∈ q.values, Fits v) : readable (requestContent q) = true :=
  readable_serialize rfl (by decide) (by decide) fun v mem => (fits v mem).2

lemma journal_readable (hex : matchesHex 32 r = true) (small : root.toList.length ≤ 253) :
    readable (journalFor root r) = true := by
  have fits := fits_hex (by decide) (by decide) hex
  simp only [matchesHex, Bool.and_eq_true, decide_eq_true_eq] at hex
  refine readable_serialize rfl (by decide) (by decide) fun v mem => ?_
  simp only [List.mem_cons, List.not_mem_nil, or_false] at mem
  rcases mem with rfl | rfl | rfl | rfl
  · decide
  · exact fits.2
  · have length : (".stage-" : String).toList.length = 7 := by decide
    rw [stagingName, String.toList_append, List.length_append, length]
    omega
  · exact small

/-! ## The files of a new request -/

/-- The files of a staging directory before its configuration is removed. -/
def stagedFiles (config : Data) (p : Protocol) : Files :=
  (((((∅ : Files).insert .config (.ok config)).insert .key (.ok p.key)).insert .csr (.ok p.csr)).insert
    .request (.ok p.request)).insert .signature (.ok p.signature)

/-- The files of a new request. -/
def newFiles (config : Data) (p : Protocol) : Files := (stagedFiles config p).erase .config

lemma lookup_newFiles {config : Data} {p : Protocol} (f : FileName) :
    (newFiles config p).lookup f = match f with
      | .key => some (.ok p.key)
      | .csr => some (.ok p.csr)
      | .request => some (.ok p.request)
      | .signature => some (.ok p.signature)
      | _ => none := by
  have none_ : (∅ : Files).lookup f = none := rfl
  cases f <;> simp [newFiles, stagedFiles, -AList.insert_empty, none_]

lemma newFiles_exact {config : Data} {p : Protocol} : exactNames (newFiles config p) = true := by
  have member : ∀ f, f ∈ (newFiles config p).keys ↔ f ∈ expectedFiles := by
    intro f
    rw [← AList.mem_keys, ← AList.lookup_isSome, lookup_newFiles]
    cases f <;> simp [expectedFiles]
  simp only [exactNames, Bool.and_eq_true, decide_eq_true_eq]
  exact ⟨fun f => (member f).mp, fun f => (member f).mpr⟩

/-- The four files that a run makes validate at the time of their record. -/
theorem newFiles_accepted (config : Data) {p : Protocol} {created : ℕ} {spki : String}
    (hex : matchesHex 32 r = true) (nonce_ : matchesHex 64 nonce = true)
    (time : created + a.requestTtlSeconds ≤ maxEpoch) (key : readable p.key = true)
    (csr : readable p.csr = true) (signature : readable p.signature = true)
    (profile : validateCsr t a p.key p.csr = .ok spki)
    (request : p.request = requestContent (newRequest a r nonce created (t.sha256 p.csr) spki))
    (verified : t.verify a.target p.request p.signature = true) :
    Accepted t a created r (newFiles config p) p (newRequest a r nonce created (t.sha256 p.csr) spki)
      spki := by
  have fits := newRequest_fits (a := a) hex nonce_ (t.hex p.csr) (validateCsr_hex profile) time
  have positive := a.ttl_ok.1
  refine ⟨newFiles_exact, ⟨⟨lookup_newFiles _, ?_⟩, ⟨lookup_newFiles _, signature⟩, ⟨lookup_newFiles _, csr⟩,
    ⟨lookup_newFiles _, key⟩⟩, ?_, ?_, ?_, ?_, rfl, profile, rfl, verified⟩
  · rw [request]
    exact request_readable fits
  · rw [request]
    exact parseRequest_content fun v mem => (fits v mem).1
  · simp [Request.identified, newRequest, hex, nonce_]
  · exact ⟨created, created + a.requestTtlSeconds, decimal_str _, decimal_str _, time, le_rfl, by omega, rfl⟩
  · simp [Request.bound, newRequest]

/-! ## Staging -/

/-- What has to hold of the arguments for a creation at the time `now`: what it writes can be read
again, and the record does not expire after the last epoch. -/
structure Creatable (a : Args) (now : ℕ) : Prop where
  config : readable a.config = true
  journal : ∀ r, matchesHex 32 r = true → readable (journalFor a.pendingRoot r) = true
  time : now + a.requestTtlSeconds ≤ maxEpoch

/-- Something outside the helper can go wrong. -/
def Trouble (k : Conditions) : Prop := k.faults ∨ k.toolFaults ∨ k.collides

lemma holds_newFile {s₀ s₁ : State} {files : Files} {f : FileName} {d : Data} {e : String} {β : Type}
    {Q : Except String β → State → Prop} {g : Unit → Run β} (h : Going t P root s₀ s)
    (stage : Restaged s₁ s r files) (fresh : f ∉ files) (known : isStaged f = true)
    (failed : k.faults → Q (.error e) s)
    (rest : ∀ u, Going t P root s₀ u → Restaged s₁ u r (files.insert f (.ok d)) →
      Holds (disk t k) (Going t P root s₀) (g ()) Q u) :
    Holds (disk t k) (Going t P root s₀) ((write (.newFile r f d) e).bind g) Q s := by
  have staged := h.staged stage.there
  have applied : ∀ c, (Write.newFile r f c).apply s = some (s.put (.stage r) (.ok (files.insert f (.ok c)))) :=
    fun c => change_eq.mpr ⟨files, _, stage.there, if_neg fresh, rfl⟩
  have put : ∀ c, Going t P root s₀ (s.put (.stage r) (.ok (files.insert f (.ok c)))) :=
    fun c => h.restage stage.there (staged.insert known)
  refine holds_applied h (fun v torn => ?_) failed (applied d) (put d)
    (rest _ (put d) (stage.trans (Restaged.put (node_some stage.there))))
  obtain ⟨front, -, part⟩ := torn_file torn
  rw [applied] at part
  cases part
  exact put front

/-- A file that a tool makes, unless tools can fail. -/
lemma holds_made {I : State → Prop} {x : Ask} {y : Answer x → Option Data} {e : String} (valid : Data → Prop)
    {β : Type} {Q : Except String β → State → Prop} {g : Data → Run β} (here : I s)
    (given : ∀ answer, (disk t k).answers x s answer → Delivered valid (y answer) ∨ k.toolFaults)
    (failed : k.toolFaults → Q (.error e) s)
    (rest : ∀ d, (readable d = true ∧ valid d) ∨ k.toolFaults → Holds (disk t k) I (g d) Q s) :
    Holds (disk t k) I ((deliver x y e).bind g) Q s := by
  refine holds_deliver here (fun answer answers none_ => failed ?_) fun answer d answers made => rest d ?_
  · refine (given answer answers).resolve_left fun delivered => ?_
    obtain ⟨d, same, -⟩ := delivered
    cases same.symm.trans none_
  · refine (given answer answers).imp_left fun delivered => ?_
    obtain ⟨d', same, valid⟩ := delivered
    cases same.symm.trans made
    exact valid

/-- How the staging of a request ends. -/
def Stages (t : Tools) (k : Conditions) (a : Args) (r : String) (s : State) :
    Except String Unit → State → Prop
  | .ok _, u => ∃ files created, Restaged s u r files ∧ k.clock created ∧ readable a.config = true ∧
      (created + a.requestTtlSeconds ≤ maxEpoch → k.toolFaults ∨ ∃ p q spki, Accepted t a created r files p q spki)
  | .error _, _ => ∀ now, Fixed k now → Trouble k ∨ ¬Creatable a now

lemma holds_stageRequest {s₀ : State} (h : Going t P root s₀ s) (there : s.node (.stage r) = some (.ok ∅))
    (hex : matchesHex 32 r = true) (nonce_ : matchesHex 64 nonce = true) :
    Holds (disk t k) (Going t P root s₀) (stageRequest t a r nonce) (Stages t k a r s) s := by
  have faulty : ∀ {e u}, k.faults → Stages t k a r s (.error e) u := fun faults _ _ => .inl (.inl faults)
  have broken : ∀ {e u}, k.toolFaults → Stages t k a r s (.error e) u :=
    fun faults _ _ => .inl (.inr (.inl faults))
  unfold stageRequest
  refine holds_newFile h (Restaged.refl there) (by simp) (by decide) faulty fun s₁ h₁ stage₁ => ?_
  refine holds_made (fun _ => True) h₁ (fun y given => given) broken fun key key_ => ?_
  refine holds_newFile h₁ stage₁ (by simp [-AList.insert_empty]) (by decide) faulty fun s₂ h₂ stage₂ => ?_
  refine holds_inspect h₂ faulty (holds_made _ h₂ (fun y given => given) broken fun csr csr_ => ?_)
  refine holds_newFile h₂ stage₂ (by simp [-AList.insert_empty]) (by decide) faulty fun s₃ h₃ stage₃ => ?_
  refine holds_inspect h₃ faulty ?_
  refine holds_ofExcept (fun e failed => broken (csr_.resolve_left fun made => ?_)) fun csr' safe => ?_
  · rw [readSafe_eq.mpr ⟨rfl, made.1⟩] at failed
    cases failed
  obtain ⟨same, csrFits⟩ := readSafe_eq.mp safe
  cases same
  refine holds_ofExcept (fun e failed => broken (csr_.resolve_left fun made => ?_)) fun spki profile => ?_
  · obtain ⟨-, spki, valid⟩ := made
    rw [failed] at valid
    cases valid
  refine holds_ask h₃ fun created at_ => ?_
  generalize made_ : requestContent (newRequest a r nonce created (t.sha256 csr) spki) = request
  refine holds_newFile h₃ stage₃ (by simp [-AList.insert_empty]) (by decide) faulty fun s₄ h₄ stage₄ => ?_
  refine holds_made _ h₄ (fun y given => given) broken fun signature signature_ => ?_
  refine holds_newFile h₄ stage₄ (by simp [-AList.insert_empty]) (by decide) faulty fun s₅ h₅ stage₅ => ?_
  refine holds_inspect h₅ faulty ?_
  refine holds_ofExcept (fun e failed now fixed => .inr fun creatable => ?_) fun request' safe => ?_
  · have time := creatable.time
    rw [← fixed created at_] at time
    have fits := newRequest_fits (a := a) hex nonce_ (t.hex csr) (validateCsr_hex profile) time
    rw [readSafe_eq.mpr ⟨rfl, made_ ▸ request_readable fits⟩] at failed
    cases failed
  obtain ⟨same, -⟩ := readSafe_eq.mp safe
  cases same
  refine holds_ofExcept (fun e failed => broken (signature_.resolve_left fun made => ?_)) fun signature' safe => ?_
  · rw [readSafe_eq.mpr ⟨rfl, made.1⟩] at failed
    cases failed
  obtain ⟨same, signatureFits⟩ := readSafe_eq.mp safe
  cases same
  refine holds_ofExcept (fun e failed => broken (signature_.resolve_left fun made => ?_)) fun _ verified => ?_
  · rw [verifyRequestSignature, made.2] at failed
    cases failed
  have verified := Fallible.ensure_eq_ok.mp verified
  refine holds_ofExcept (fun e failed now _ => .inr fun creatable => ?_) fun config safe => ?_
  · rw [readSafe_eq.mpr ⟨rfl, creatable.config⟩] at failed
    cases failed
  obtain ⟨same, configFits⟩ := readSafe_eq.mp safe
  cases same
  have applied : (Write.unlinkFile r .config).apply s₅ =
      some (s₅.put (.stage r) (.ok (newFiles a.config ⟨key, csr, request, signature⟩))) :=
    change_eq.mpr ⟨_, _, stage₅.there, if_pos (by simp [-AList.insert_empty]), rfl⟩
  refine wp_tail (holds_applied h₅ (fun v torn => by cases torn) faulty applied
    (h₅.restage stage₅.there ((h₅.staged stage₅.there).erase .config)) ?_)
  refine ⟨newFiles a.config ⟨key, csr, request, signature⟩, created,
    stage₅.trans (Restaged.put (node_some stage₅.there)), at_, configFits, fun time => ?_⟩
  refine key_.symm.imp_right fun made => ?_
  have accepted := newFiles_accepted a.config (p := ⟨key, csr, request, signature⟩) hex nonce_ time
    made.1 csrFits signatureFits profile made_.symm verified
  exact ⟨_, _, spki, accepted⟩

/-! ## Publication -/

/-- The staged node `n` stands under its published name, and nothing else has changed. -/
structure Published (s u : State) (r : String) (n : Node) : Prop where
  journal : u.journal = s.journal
  pending : u.pending.isSome = s.pending.isSome
  free : s.node (.request r) = none
  node : ∀ e, u.node e = if e = .request r then some n else if e = .stage r then none else s.node e

/-- The pending root holds the completed requests and the staging directory, unless one of the
completed requests is not there. -/
lemma entriesAre_iff {completed : List String} (h : Shape t P root s) (token : isToken root.toList = true)
    (there : s.node (.stage r) = some n) (recorded : ∀ r, r ∈ completed ↔ Recorded s r)
    (all_ : AllRecorded s) : s.entriesAre completed r = true ↔
      ∀ r' ∈ completed, (s.node (.request r')).isSome = true := by
  obtain ⟨tree, pending⟩ := Option.isSome_iff_exists.mp (node_some there)
  obtain ⟨hex, journal, -⟩ := h.staged r n there
  have names : ∀ e ∈ tree.keys, e ∈ Entry.stage r :: completed.map Entry.request := by
    intro e mem
    have some_ := (mem_pending pending).mp mem
    cases e with
    | request r' =>
      exact List.mem_cons_of_mem _ (List.mem_map_of_mem ((recorded r').mpr (all_ r' some_)))
    | stage r' =>
      obtain ⟨m, at_⟩ := Option.isSome_iff_exists.mp some_
      rw [h.stage_of token hex journal at_]
      exact List.mem_cons_self
    | other name =>
      rw [h.others] at some_
      cases some_
  simp only [State.entriesAre, pending, Option.map_some, Option.getD_some, Bool.and_eq_true,
    decide_eq_true_eq]
  constructor
  · rintro ⟨-, expected⟩ r' in_
    exact (mem_pending pending).mp (expected _ (List.mem_cons_of_mem _ (List.mem_map_of_mem in_)))
  · intro published
    refine ⟨names, List.forall_mem_cons.mpr ⟨(mem_pending pending).mpr (by rw [there]; rfl), fun e in_ => ?_⟩⟩
    obtain ⟨r', mem, rfl⟩ := List.mem_map.mp in_
    exact (mem_pending pending).mpr (published r' mem)

/-- How a publication ends. -/
def Publishes (t : Tools) (k : Conditions) (a : Args) (completed : List String) (r : String) (n : Node) (s : State) :
    Except String Unit → State → Prop
  | .ok _, u => Published s u r n ∧ (∀ r' ∈ completed, (s.node (.request r')).isSome = true) ∧
      ∃ now result, k.clock now ∧ validatePendingDirectory t a now r (some n) = .ok result
  | .error _, _ => ∀ now, Fixed k now → k.faults ∨ (s.node (.request r)).isSome = true ∨
      (∀ result, validatePendingDirectory t a now r (some n) ≠ .ok result) ∨
      ∃ r' ∈ completed, s.node (.request r') = none

lemma holds_publishRequest {s₀ : State} {completed : List String} (h : Going t P root s₀ s)
    (token : isToken root.toList = true) (member : ∀ now, k.clock now → P a now)
    (there : s.node (.stage r) = some n) (recorded : ∀ r, r ∈ completed ↔ Recorded s r)
    (all_ : AllRecorded s) :
    Holds (disk t k) (Going t P root s₀) (publishRequest t a r completed) (Publishes t k a completed r n s) s := by
  have exact_ := entriesAre_iff h.1 token there recorded all_
  unfold publishRequest
  refine holds_look h (holds_ask h fun now at_ => holds_ofExcept (fun e failed now' fixed => ?_) fun result valid => ?_)
  · refine .inr (.inr (.inl fun result valid => ?_))
    rw [there, fixed now at_, valid] at failed
    cases failed
  rw [there] at valid
  have sealed_ : Sealed t P r n := ⟨a, now, result, member now at_, valid⟩
  refine holds_look h (holds_check (fun refused _ _ => .inr (.inr (.inr ?_))) fun passed => ?_)
  · by_contra present
    push Not at present
    rw [exact_.mpr fun r' mem => Option.isSome_iff_ne_none.mpr (present r' mem)] at refused
    cases refused
  refine holds_inspect h (fun faults _ _ => .inl faults) ?_
  refine holds_write (fun v torn => by cases torn) (fun refused => ⟨h, fun _ _ => ?_⟩) fun u applied => ?_
  · rcases refused with none_ | faults
    · have none_ : (Write.publish r).apply s = none := none_
      simp only [Write.apply, there] at none_
      split_ifs at none_ with present
      exact .inr (.inl present)
    · exact .inl faults
  · have applied : (Write.publish r).apply s = some u := applied
    simp only [Write.apply, there] at applied
    split_ifs at applied with present
    cases applied
    have free : s.node (.request r) = none := Option.not_isSome_iff_eq_none.mp present
    have going : Going t P root s₀ (s.publish r n) :=
      h.trans (h.1.publish there sealed_ all_) (Kept.publish there free)
    have published : Published s (s.publish r n) r n :=
      ⟨rfl, by simp [State.publish, State.put, State.drop], free, fun e => node_publish (node_some there)⟩
    exact ⟨going, wp_tail (holds_inspect going (fun faults _ _ => .inl faults)
      ⟨published, exact_.mp passed, now, result, at_, valid⟩)⟩

/-- How a creation ends. -/
def Creates (t : Tools) (k : Conditions) (a : Args) (completed : List String) (s : State) :
    Except String Result → State → Prop
  | .ok result, u => u.journal = none ∧ (∀ r, u.node (.stage r) = none) ∧
      (∀ r ∈ completed, (s.node (.request r)).isSome = true) ∧ ∃ r n now found,
        s.node (.request r) = none ∧ k.clock now ∧
        validatePendingDirectory t a now r (some n) = .ok found ∧
        result = { found with status := .created } ∧
        ∀ r', u.node (.request r') = if r' = r then some n else s.node (.request r')
  | .error _, _ => ∀ now, Fixed k now →
      Trouble k ∨ ¬Creatable a now ∨ ∃ r ∈ completed, s.node (.request r) = none

/-- A creation publishes one validated request or fails for one of the reasons above. -/
theorem create_holds {s₀ : State} {completed : List String} (h : Going t P a.pendingRoot s₀ s)
    (member : ∀ now, k.clock now → P a now) (journal : s.journal = none) (pending : s.pending.isSome = true)
    (recorded : ∀ r, r ∈ completed ↔ Recorded s r) (all_ : AllRecorded s) :
    Holds (disk t k) (Going t P a.pendingRoot s₀) (createRequest t a completed) (Creates t k a completed s) s := by
  have unstaged : ∀ r, s.node (.stage r) = none := fun r => h.1.unstaged journal
  have faulty : ∀ {e u}, k.faults → Creates t k a completed s (.error e) u :=
    fun faults _ _ => .inl (.inl faults)
  unfold createRequest
  refine holds_ask h fun r drawn => holds_ask h fun nonce nonce_ => ?_
  obtain ⟨hex, free⟩ := drawn
  have nonce_ : matchesHex 64 nonce = true := nonce_
  refine holds_checked (by simp [hex, nonce_]) ?_
  -- The journal: whole, or the beginning of it.
  have journaled : ∀ front, front <+: journalFor a.pendingRoot r →
      Going t P a.pendingRoot s₀ { s with journal := some (.ok front) } := fun front part =>
    h.trans (h.1.newJournal hex part unstaged) Kept.of_journal
  refine holds_applied (u := { s with journal := some (.ok (journalFor a.pendingRoot r)) }) h
    (fun v torn => ?_) faulty (by simp [Write.apply, journal, journalFor]) (journaled _ List.prefix_rfl) ?_
  · obtain ⟨front, part, rfl⟩ := torn_journal torn
    exact journaled front part
  generalize at_ : ({ s with journal := some (.ok (journalFor a.pendingRoot r)) } : State) = s₁
  have going₁ : Going t P a.pendingRoot s₀ s₁ := at_ ▸ journaled _ List.prefix_rfl
  have node₁ : ∀ e, s₁.node e = s.node e := fun e => by rw [← at_]; rfl
  have journal₁ : s₁.journal = some (.ok (journalFor a.pendingRoot r)) := by rw [← at_]
  have pending₁ : s₁.pending.isSome = true := by rw [← at_]; exact pending
  have recorded₁ : ∀ r, Recorded s₁ r ↔ Recorded s r := fun r => by rw [← at_]; rfl
  refine holds_ofExcept (fun e failed now _ => .inr (.inl fun creatable => ?_)) fun _ _ => ?_
  · have fits := creatable.journal r hex
    rw [journalFor] at fits
    rw [readSafe_eq.mpr ⟨rfl, fits⟩] at failed
    cases failed
  refine holds_inspect going₁ faulty ?_
  -- The staging directory.
  have made : Going t P a.pendingRoot s₀ (s₁.put (.stage r) (.ok ∅)) :=
    going₁.trans (going₁.1.stage pending₁ hex journal₁ Staged.empty) (Kept.stage pending₁)
  have empty : Restaged s₁ (s₁.put (.stage r) (.ok ∅)) r ∅ := Restaged.put pending₁
  refine holds_applied going₁ (fun v torn => by cases torn) faulty
    (by simp [Write.apply, pending₁, node₁, unstaged]) made ?_
  refine wp_seq (P := fun _ u => Stages t k a r (s₁.put (.stage r) (.ok ∅)) (.ok ()) u ∧
    Going t P a.pendingRoot s₀ u) ?_ ?_
  · refine wp_mono (wp_invariant (I := Going t P a.pendingRoot s₀) (fun _ _ _ _ g => g) made
      (holds_stageRequest made empty.there hex nonce_)) (fun _ _ _ g => g) fun out u ended => ?_
    cases out with
    | ok x => exact ended
    | error e => exact fun now fixed => (ended.1 now fixed).imp_right .inl
  rintro - u ⟨⟨files, created, restaged, clock, fits, accepted⟩, going⟩
  have stage := empty.trans restaged
  have requests : ∀ r', u.node (.request r') = s.node (.request r') := fun r' => by
    rw [stage.node, if_neg (by simp), node₁]
  have kept : ∀ r, Recorded u r ↔ Recorded s r := fun r => by
    rw [going.2.recorded, ← h.2.recorded]
  have completed_ : ∀ r, r ∈ completed ↔ Recorded u r := fun r => (recorded r).trans (kept r).symm
  refine wp_seq (P := fun _ v => Publishes t k a completed r (.ok files) u (.ok ()) v ∧
    Going t P a.pendingRoot s₀ v) ?_ ?_
  · refine wp_mono (wp_invariant (I := Going t P a.pendingRoot s₀) (fun _ _ _ _ g => g) going
      (holds_publishRequest going a.root_ok member stage.there completed_ fun r' some_ => ?_))
      (fun _ _ _ g => g) fun out v ended => ?_
    · rw [requests] at some_
      exact (kept r').mpr (all_ r' some_)
    · cases out with
      | ok x => exact ended
      | error e =>
        intro now fixed
        rcases ended.1 now fixed with faults | taken | invalid | ⟨r', in_, absent⟩
        · exact .inl (.inl faults)
        · rw [requests] at taken
          refine .inl (.inr (.inr (free.resolve_left fun none_ => ?_)))
          rw [Option.isNone_iff_eq_none] at none_
          rw [none_] at taken
          cases taken
        · by_cases time : created + a.requestTtlSeconds ≤ maxEpoch
          · rcases accepted time with faults | ⟨p, q, spki, accepted⟩
            · exact .inl (.inr (.inl faults))
            · rw [fixed created clock] at accepted
              exact absurd (validatePending_eq.mpr ⟨files, p, q, spki, rfl, accepted, rfl⟩) (invalid _)
          · refine .inr (.inl fun creatable => time ?_)
            rw [fixed created clock]
            exact creatable.time
        · exact .inr (.inr ⟨r', in_, by rwa [← requests]⟩)
  rintro - v ⟨⟨published, present, now, found, clock', valid⟩, going'⟩
  have destination : v.node (.request r) = some (.ok files) := by rw [published.node, if_pos rfl]
  refine holds_look going' (holds_ask going' fun now' clock'' => holds_ofExcept (fun e failed now₀ fixed => ?_)
    fun result valid' => ?_)
  · have same : now' = now := (fixed now' clock'').trans (fixed now clock').symm
    rw [destination, same, valid] at failed
    cases failed
  rw [destination] at valid'
  have unstaged' : ∀ r', v.node (.stage r') = none := by
    intro r'
    rw [published.node, if_neg (by simp), stage.node, node₁, unstaged]
    split_ifs <;> rfl
  have last : v.journal = some (.ok (journalContent r (stagingName r) a.pendingRoot)) := by
    rw [published.journal, stage.journal, journal₁, journalFor]
  refine holds_inspect going' faulty (wp_seq (P := fun _ w => w = { v with journal := none }) ?_ ?_)
  · refine wp_mono (holds_removeJournal last going' (going'.trans (going'.1.unlinkJournal unstaged') Kept.of_journal))
      (fun _ _ _ g => g) fun out w ended => ?_
    cases out with
    | ok x => exact ended
    | error e => exact faulty ended.1
  · rintro - w rfl
    refine ⟨rfl, unstaged', fun r' in_ => by rw [← requests]; exact present r' in_, r, .ok files, now', result, ?_,
      clock'', valid', rfl, fun r' => ?_⟩
    · rw [← requests]
      exact published.free
    · have node := published.node (.request r')
      simp only [requests, Entry.request.injEq, reduceCtorEq, if_false] at node
      exact node

end PlatformConfig.HostRequest
