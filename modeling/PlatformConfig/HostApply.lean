import PlatformConfig.HostPrepare

/-!
# One run of a host preparation

What the checks of `apply` decide, what a run can have made of the host at each of its moments,
and how it ends.
-/
namespace PlatformConfig.HostPrepare

open CrashProgram CrashDisk CrashLinks Prog

variable {h : Host} {key : PublicKey} {calm : Prop} {s t u v : State} {α β : Type} {f : File}
  {links : ℕ} {n : FileName}

/-! ## What the checks decide -/

/-- On a calm host `p` passes exactly where `P` holds, and its value satisfies `R`. -/
def Decides (h : Host) (calm : Prop) (s : State) (p : Run β) (P : Prop) (R : β → Prop) : Prop :=
  Reads (host h calm) s p (fun a => P ∧ R a) (calm → ¬P)

section Deciding
variable {P T : Prop} {R R' : β → Prop}

lemma Decides.ret {a : β} (value : R a) : Decides h calm s (.ret a) True R :=
  reads_ret ⟨trivial, value⟩

lemma Decides.fail {e : String} : Decides h calm s (.fail e : Run β) False R :=
  reads_fail fun _ => id

lemma Decides.last {b : Bool} {e : String} :
    Decides h calm s (require b e : Run Unit) (b = true) (fun _ => True) := by
  cases b with
  | false => exact reads_fail fun _ => by decide
  | true => exact reads_ret ⟨rfl, trivial⟩

lemma Decides.guard {b : Bool} {e : String} {k : Unit → Run β} (rest : Decides h calm s (k ()) P R) :
    Decides h calm s ((require b e).bind k) (b = true ∧ P) R := by
  cases b with
  | false => exact reads_fail fun _ no => by cases no.1
  | true => exact rest.mono (fun a value => ⟨⟨rfl, value.1⟩, value.2⟩) fun no quiet both => no quiet both.2

lemma Decides.bind {V : α → Prop} {p : Run α} {k : α → Run β} (first : Decides h calm s p P V)
    (rest : ∀ a, P → V a → Decides h calm s (k a) T R) : Decides h calm s (p.bind k) (P ∧ T) R := by
  refine Reads.bind first (fun no quiet both => no quiet both.1) fun a value => ?_
  refine (rest a value.1 value.2).mono (fun _ g => ⟨⟨value.1, g.1⟩, g.2⟩) fun no quiet both => no quiet both.2

lemma Decides.look {k : State → Run β} (rest : Decides h calm s (k s) P R) :
    Decides h calm s (look.bind k) P R := reads_look rest

/-- A question that a calm host answers with yes. -/
lemma Decides.ask {x : Ask} {k : Answer x → Run β} (rest : ∀ y, (calm → Expected s x y) →
    Decides h calm s (k y) P R) : Decides h calm s ((ask x).bind k) P R :=
  reads_ask fun y answer => rest y answer

lemma Decides.sure {b : Bool} {e : String} {k : Unit → Run β} (yes : calm → b = true)
    (rest : Decides h calm s (k ()) P R) : Decides h calm s ((require b e).bind k) P R := by
  cases b with
  | false => exact reads_fail fun quiet => by cases yes quiet
  | true => exact rest

lemma Decides.mono {p : Run β} (d : Decides h calm s p P R) (same : P ↔ T)
    (value : ∀ a, P → R a → R' a) : Decides h calm s p T R' :=
  Reads.mono d (fun a g => ⟨same.mp g.1, value a g.1 g.2⟩) fun no quiet yes => no quiet (same.mpr yes)

lemma Decides.iff {p : Run β} (d : Decides h calm s p P R) (same : P ↔ T) :
    Decides h calm s p T R := d.mono same fun _ _ => id

end Deciding

structure Identity (a : Account) (group : Option ℕ) : Prop where
  ordinary : 1000 ≤ a.uid
  comment : a.comment = automationComment
  home : a.home = automationHome
  shell : a.shell = automationShell
  primary : group = some a.gid
  own : a.shared = false

lemma decides_checkAccountIdentity {a : Account} {group : Option ℕ} :
    Decides h calm s (checkAccountIdentity a group) (Identity a group) (fun _ => True) := by
  simp only [checkAccountIdentity, bind_eq]
  refine (Decides.guard <| .guard <| .guard <| .guard <| .guard .last).iff ?_
  simp only [decide_eq_true_eq, beq_iff_eq, Bool.not_eq_true']
  exact ⟨fun all => ⟨all.1, all.2.1, all.2.2.1, all.2.2.2.1, all.2.2.2.2.1, all.2.2.2.2.2⟩,
    fun all => ⟨all.ordinary, all.comment, all.home, all.shell, all.primary, all.own⟩⟩

lemma decides_checkDirectory {path : String} {d : Option Dir} {uid gid mode : ℕ} :
    Decides h calm s (checkDirectory path d uid gid mode) (d = some ⟨true, uid, gid, mode⟩)
      (fun _ => True) := by
  cases d with
  | none => exact Decides.fail.iff (by simp)
  | some d =>
    obtain ⟨directory, uid', gid', mode'⟩ := d
    simp only [checkDirectory, bind_eq]
    refine (Decides.guard <| .guard .last).iff ?_
    simp [and_assoc]

lemma decides_checkFile {path : String} {x : Option (File × ℕ)} {uid gid mode : ℕ} :
    Decides h calm s (checkFile path x uid gid mode)
      (∃ content, x = some (⟨true, uid, gid, mode, content⟩, 1)) (fun _ => True) := by
  cases x with
  | none => exact Decides.fail.iff (by simp)
  | some x =>
    obtain ⟨⟨regular, uid', gid', mode', content⟩, links⟩ := x
    simp only [checkFile, bind_eq]
    refine (Decides.guard <| .guard <| .guard .last).iff ?_
    simp [and_assoc]

/-- A file that is read back as it is. -/
structure Readable (f : File) (links : ℕ) : Prop where
  regular : f.regular = true
  single : links = 1
  mode : f.mode &&& 0o022 = 0
  fits : f.content.length ≤ maxBytes

lemma decides_readManagedFile {path : String} :
    Decides h calm s (readManagedFile path (some (f, links))) (Readable f links)
      (fun content => content = f.content) := by
  simp only [readManagedFile, bind_eq, pure_eq]
  refine (Decides.guard <| .guard <| .guard <| .guard <|
    .ret (R := fun content => content = f.content) rfl).iff ?_
  simp only [beq_iff_eq, decide_eq_true_eq, and_true]
  exact ⟨fun all => ⟨all.1, all.2.1, all.2.2.1, all.2.2.2⟩,
    fun all => ⟨all.regular, all.single, all.mode, all.fits⟩⟩

/-- The managed sudo policy with a given text. -/
def sudoersWith (content : Data) : File := ⟨true, 0, 0, 0o440, content⟩

/-- The sudo policy is absent, or ours in its present or its earlier form. -/
def SudoersReady (s : State) : Prop :=
  ∀ x, s.stat .sudoers = some x → x = (sudoersWith legacySudoersContent, 1) ∨ x = (sudoersWith sudoersContent, 1)

lemma sudoers_fit : legacySudoersContent.length ≤ maxBytes ∧ sudoersContent.length ≤ maxBytes := by
  decide +kernel

lemma decides_preflightSudoers :
    Decides h calm s preflightSudoers (SudoersReady s)
      (fun r => r = (s.stat .sudoers).map fun x => x.1.content) := by
  simp only [preflightSudoers, bind_eq, pure_eq]
  refine .ask fun y answer => .sure answer (.look ?_)
  cases found : s.stat .sudoers with
  | none =>
    have ready : SudoersReady s := fun x there => by
      rw [found] at there
      cases there
    have none_ : Decides h calm s (.ret none) True (fun r : Option Data => r = none) := .ret rfl
    exact none_.iff ⟨fun _ => ready, fun _ => trivial⟩
  | some x =>
    obtain ⟨f, links⟩ := x
    have ready : SudoersReady s ↔ (f, links) = (sudoersWith legacySudoersContent, 1) ∨
        (f, links) = (sudoersWith sudoersContent, 1) := by
      simp [SudoersReady, found]
    have known : ∀ content, content = f.content → Decides h calm s
        ((require (content == legacySudoersContent || content == sudoersContent)
          "refusing to replace a different sudoers policy").bind fun _ => .ret (some content))
        ((f.content == legacySudoersContent || f.content == sudoersContent) = true ∧ True)
        (fun r => r = some f.content) := by
      rintro _ rfl
      exact .guard (.ret (R := fun r => r = some f.content) rfl)
    refine (Decides.bind decides_checkFile fun _ _ _ => Decides.bind decides_readManagedFile
      fun content _ same => known content same).iff ?_
    rw [ready]
    constructor
    · rintro ⟨⟨content, same⟩, -, policy, -⟩
      cases same
      simpa [sudoersWith] using policy
    · rintro (same | same) <;> cases same
      · exact ⟨⟨_, rfl⟩, ⟨rfl, rfl, rfl, sudoers_fit.1⟩, by simp [sudoersWith], trivial⟩
      · exact ⟨⟨_, rfl⟩, ⟨rfl, rfl, rfl, sudoers_fit.2⟩, by simp [sudoersWith], trivial⟩

/-- The directory of a user that nobody else can enter. -/
def privateDir (a : Account) : Dir := ⟨true, a.uid, a.gid, 0o700⟩

/-- An account that a run takes over. -/
structure Adopts (h : Host) (s : State) (a : Account) : Prop where
  identity : Identity a s.group
  locked : a.locked = true
  confined : ∀ g ∈ a.allGroups, g = a.gid ∨ g = h.access
  home : s.home = some (privateDir a)
  ssh : ∀ d, s.ssh = some d → d.directory = true ∧ d.uid = a.uid ∧ d.gid = a.gid
  entries : s.ssh ≠ none → s.strayKeys = false

/-- The account is one that a run takes over, or there is no trace of one. -/
def AccountReady (h : Host) (s : State) : Prop :=
  match s.account with
  | none => s.home = none ∧ s.stat .sudoers = none ∧ s.group = none
  | some a => Adopts h s a

lemma decides_ensureAccountState :
    Decides h calm s (ensureAccountStateBeforeApply h) (AccountReady h s) (fun r => r = s.account) := by
  simp only [ensureAccountStateBeforeApply, bind_eq, pure_eq]
  refine .look ?_
  unfold AccountReady
  cases s.account with
  | none =>
    refine (Decides.guard <| .guard <| .guard <|
      .ret (R := fun r : Option Account => r = none) rfl).iff ?_
    simp
  | some a =>
    have tail : Decides h calm s (checkExistingSsh s a)
        ((∀ d, s.ssh = some d → d.directory = true ∧ d.uid = a.uid ∧ d.gid = a.gid) ∧
          (s.ssh ≠ none → s.strayKeys = false)) (fun _ => True) := by
      unfold checkExistingSsh
      cases s.ssh with
      | none => exact (Decides.ret trivial).iff (by simp)
      | some d =>
        refine (Decides.guard <| .guard <| .last).iff ?_
        simp [and_assoc]
    refine (Decides.bind decides_checkAccountIdentity fun _ _ _ => .guard <| .guard <|
      .bind decides_checkDirectory fun _ _ _ => .bind tail fun _ _ _ =>
      .ret (R := fun r => r = some a) rfl).iff ?_
    simp only [List.all_eq_true, Bool.or_eq_true, beq_iff_eq, and_true]
    exact ⟨fun all => ⟨all.1, all.2.1, all.2.2.1, all.2.2.2.1, all.2.2.2.2.1, all.2.2.2.2.2⟩,
      fun all => ⟨all.identity, all.locked, all.confined, all.home, all.ssh, all.entries⟩⟩

/-- No second key file, and no key but the reviewed one. -/
def KeyReady (key : PublicKey) (s : State) : Prop :=
  s.stat .authorizedKeys2 = none ∧
    ∀ f links, s.stat .authorizedKeys = some (f, links) → Readable f links ∧ f.content = key.content

lemma decides_preflightManagedFiles :
    Decides h calm s (preflightManagedFiles key) (KeyReady key s ∧ SudoersReady s) (fun _ => True) := by
  simp only [preflightManagedFiles, bind_eq]
  refine .look ?_
  have policy : Decides h calm s (discard preflightSudoers) (SudoersReady s) (fun _ => True) := by
    refine (Decides.bind decides_preflightSudoers fun _ _ _ => .ret trivial).iff ?_
    simp
  cases found : s.stat .authorizedKeys with
  | none =>
    refine (Decides.guard policy).iff ?_
    simp [KeyReady, found]
  | some x =>
    obtain ⟨f, links⟩ := x
    have known : ∀ content, content = f.content → Decides h calm s
        ((require (content == key.content) "refusing to replace a different authorized key").bind
          fun _ => discard preflightSudoers)
        ((f.content == key.content) = true ∧ SudoersReady s) (fun _ => True) := by
      rintro _ rfl
      exact .guard policy
    refine (Decides.guard <| .bind decides_readManagedFile fun content _ same => known content same).iff ?_
    simp [KeyReady, found, and_assoc]

/-- The authorized key as a run publishes it. -/
def keyFile (key : PublicKey) (a : Account) : File := ⟨true, a.uid, a.gid, 0o600, key.content⟩

def sudoersFile : File := sudoersWith sudoersContent

/-- A host that is ready for the account `a`. -/
structure Settled (h : Host) (key : PublicKey) (s : State) (a : Account) : Prop where
  identity : Identity a s.group
  member : h.access ∈ a.allGroups
  confined : ∀ g ∈ a.allGroups, g = a.gid ∨ g = h.access
  locked : a.locked = true
  home : s.home = some (privateDir a)
  ssh : s.ssh = some (privateDir a)
  keys : s.stat .authorizedKeys = some (keyFile key a, 1)
  second : s.stat .authorizedKeys2 = none
  entries : s.strayKeys = false
  sudoers : s.stat .sudoers = some (sudoersFile, 1)

lemma key_readable (a : Account) : Readable (keyFile key a) 1 := by
  have mode : (keyFile key a).mode &&& 0o022 = 0 := by
    change 0o600 &&& 0o022 = 0
    decide
  exact ⟨rfl, rfl, mode, key.fits⟩

/-- The key file is there as published. -/
lemma decides_key {a : Account} {k : Unit → Run β} {P : Prop} {R : β → Prop}
    (rest : Decides h calm s (k ()) P R) :
    Decides h calm s ((checkFile authorizedKeysPath (s.stat .authorizedKeys) a.uid a.gid 0o600).bind fun _ =>
      (readManagedFile authorizedKeysPath (s.stat .authorizedKeys)).bind fun content =>
      (require (content == key.content) "authorized key differs from the supplied per-VM key").bind k)
      (s.stat .authorizedKeys = some (keyFile key a, 1) ∧ P) R := by
  cases found : s.stat .authorizedKeys with
  | none =>
    refine (Decides.bind (V := fun _ => True) (T := True) decides_checkFile fun _ known _ => ?_).iff ?_
    · obtain ⟨content, ⟨⟩⟩ := known
    · simp
  | some x =>
    obtain ⟨f, links⟩ := x
    have known : ∀ content, content = f.content → Decides h calm s
        ((require (content == key.content) "authorized key differs from the supplied per-VM key").bind k)
        ((f.content == key.content) = true ∧ P) R := by
      rintro _ rfl
      exact .guard rest
    refine (Decides.bind decides_checkFile fun _ _ _ => .bind decides_readManagedFile
      fun content _ same => known content same).iff ?_
    constructor
    · rintro ⟨⟨content, same⟩, -, text, rest⟩
      cases same
      exact ⟨by rw [keyFile, ← beq_iff_eq.mp text], rest⟩
    · rintro ⟨same, rest⟩
      cases same
      exact ⟨⟨_, rfl⟩, key_readable a, by simp [keyFile], rest⟩

lemma sudoers_ready_iff : (SudoersReady s ∧ (s.stat .sudoers).map (fun x => x.1.content) = some sudoersContent) ↔
    s.stat .sudoers = some (sudoersFile, 1) := by
  constructor
  · rintro ⟨ready, content⟩
    obtain ⟨x, found, text⟩ := Option.map_eq_some_iff.mp content
    rcases ready x found with rfl | rfl
    · exact absurd text (by decide +kernel)
    · exact found
  · intro found
    refine ⟨fun x there => ?_, by rw [found]; rfl⟩
    rw [found] at there
    exact .inr (Option.some.inj there).symm

lemma decides_checkReady :
    Decides h calm s (checkReady h key) (∃ a, s.account = some a ∧ Settled h key s a) (fun _ => True) := by
  simp only [checkReady, checkAccount, bind_eq]
  refine .ask fun y answer => .sure answer (.look ?_)
  cases s.account with
  | none => exact Decides.fail.iff (by simp)
  | some a =>
    have policy : Decides h calm s (preflightSudoers.bind fun policy =>
        require (policy == some sudoersContent) "managed sudoers policy differs from the required policy")
        (s.stat .sudoers = some (sudoersFile, 1)) (fun _ => True) := by
      have known : ∀ r, r = (s.stat .sudoers).map (fun x => x.1.content) → Decides h calm s
          (require (r == some sudoersContent) "managed sudoers policy differs from the required policy")
          (((s.stat .sudoers).map (fun x => x.1.content) == some sudoersContent) = true) (fun _ => True) := by
        rintro _ rfl
        exact .last
      refine (Decides.bind decides_preflightSudoers fun r _ same => known r same).iff ?_
      rw [beq_iff_eq]
      exact sudoers_ready_iff
    refine (Decides.bind decides_checkAccountIdentity fun _ _ _ => .guard <| .guard <| .guard <|
      .bind decides_checkDirectory fun _ _ _ => .bind decides_checkDirectory fun _ _ _ =>
      decides_key <| .guard <| .guard policy).iff ?_
    simp only [decide_eq_true_eq, List.all_eq_true, Bool.or_eq_true, beq_iff_eq, Bool.not_eq_true',
      Option.isNone_iff_eq_none]
    constructor
    · rintro ⟨identity, member, confined, locked, home, ssh, keys, second, entries, sudoers⟩
      exact ⟨a, rfl, identity, member, confined, locked, home, ssh, keys, second, entries, sudoers⟩
    · rintro ⟨b, same, settled⟩
      cases same
      exact ⟨settled.identity, settled.member, settled.confined, settled.locked, settled.home,
        settled.ssh, settled.keys, settled.second, settled.entries, settled.sudoers⟩

/-! ## What a run can do -/

/-- The account that a run works with, and the same account as a member of the access group. -/
def base (h : Host) (s : State) : Account := s.account.getD h.newAccount

def Host.join (h : Host) (a : Account) : Account :=
  if h.access ∈ a.allGroups then a else { a with groups := h.access :: a.groups }

/-- What a run checks before it changes anything. -/
structure Accepts (h : Host) (key : PublicKey) (s : State) : Prop where
  account : AccountReady h s
  keys : KeyReady key s
  sudoers : SudoersReady s

/-- What a run checks on its way: an account outside of the access group has no key and no sudo
policy, the staging directory is root's own, and a key file has its owner and mode. -/
structure Completes (h : Host) (s : State) : Prop where
  join : h.access ∉ (base h s).allGroups → s.stat .authorizedKeys = none ∧ s.stat .sudoers = none
  staging : ∀ d, s.staging = some d → d = rootDir
  keys : ∀ f links, s.stat .authorizedKeys = some (f, links) →
    f.uid = (base h s).uid ∧ f.gid = (base h s).gid ∧ f.mode = 0o600

/-- Nothing lies below a directory that is absent. -/
structure Nested (s : State) : Prop where
  ssh : s.home = none → s.ssh = none
  keys : s.ssh = none → ∀ n, n.isSsh = true → s.stat n = none

/-- The account is locked and in the access group, and the SSH policy was found right. -/
def Guarded (h : Host) (s : State) : Prop :=
  ∃ a, s.account = some a ∧ a.locked = true ∧ h.access ∈ a.allGroups ∧ s.policy = true

/-- The name stands for the same file in both states, or in neither. -/
def SameEntry (n : FileName) (t u : State) : Prop := u.files.names.lookup n = t.files.names.lookup n

/-- Where the key or the sudo policy is another file than before, access was guarded. -/
def Early (h : Host) (t u : State) : Prop :=
  ¬SameEntry .authorizedKeys t u ∨ ¬SameEntry .sudoers t u → Guarded h u

/-- What publication can have made of the files of `t`. -/
structure FilesMoved (h : Host) (key : PublicKey) (t : State) (files : Volume FileName File) : Prop where
  keys : files.names.lookup .authorizedKeys = t.files.names.lookup .authorizedKeys ∨
    t.files.names.lookup .authorizedKeys = none ∧
      ∃ links, files.stat .authorizedKeys = some (keyFile key (base h t), links)
  sudoers : files.names.lookup .sudoers = t.files.names.lookup .sudoers ∨
    ∃ links, files.stat .sudoers = some (sudoersFile, links)
  others : ∀ n, n ≠ .authorizedKeys → n ≠ .sudoers → files.names.lookup n = t.files.names.lookup n ∨
    t.files.names.lookup n = none ∧ n.isSsh = false
  fresh : ∀ n i, files.names.lookup n = some i → t.files.names.lookup n = some i ∨ t.files.next ≤ i
  nodes : ∀ i < t.files.next, files.node i = t.files.node i
  next : t.files.next ≤ files.next

/-- What runs that passed their first checks in `t` can have made of it. -/
structure Went (h : Host) (key : PublicKey) (t u : State) : Prop where
  account : (t.account = none ∧ u.account = none ∧ u.group = none ∧ u.home = none) ∨
    (u.account = some (base h t) ∨ u.account = some (h.join (base h t))) ∧
      u.group = some (base h t).gid ∧ u.home = some (privateDir (base h t))
  ssh : u.ssh = t.ssh ∨ u.account = some (h.join (base h t)) ∧
    ((∃ mode, u.ssh = some ⟨true, (base h t).uid, (base h t).gid, mode⟩) ∨
      t.ssh = none ∧ u.ssh = some rootDir)
  staging : u.staging = t.staging ∨ u.staging = none ∨ u.staging = some rootDir
  files : FilesMoved h key t u.files
  published : SameEntry .authorizedKeys t u ∧ SameEntry .sudoers t u ∨
    u.account = some (h.join (base h t)) ∧ u.ssh ≠ none

/-- Nothing but the staging directory can be different. -/
structure Idle (t u : State) : Prop where
  account : u.account = t.account
  group : u.group = t.group
  home : u.home = t.home
  ssh : u.ssh = t.ssh
  files : u.files = t.files
  staging : u.staging = t.staging ∨ u.staging = none

/-- What one run can have made of `t` at any of its moments. -/
structure Progress (h : Host) (key : PublicKey) (t u : State) : Prop where
  moved : Idle t u ∨ Accepts h key t ∧ Went h key t u
  early : Early h t u

/-- A state of a run after it has the account `a`. -/
def stage (h : Host) (t : State) (a : Account) (ssh staging : Option Dir) (policy : Bool)
    (files : Volume FileName File) : State :=
  ⟨some a, some (base h t).gid, some (privateDir (base h t)), ssh, staging, files, policy⟩

lemma Early.of_files (same : u.files = t.files) : Early h t u := by
  rintro (differs | differs) <;> exact absurd (by rw [SameEntry, same]) differs

lemma FilesMoved.refl (t : State) : FilesMoved h key t t.files :=
  ⟨.inl rfl, .inl rfl, fun _ _ _ => .inl rfl, fun _ _ found => .inl found, fun _ _ => rfl, le_refl _⟩

lemma Progress.idle (idle : Idle t u) : Progress h key t u := ⟨.inl idle, .of_files idle.files⟩

lemma Progress.stage {a : Account} {ssh staging : Option Dir} {policy : Bool} (accepts : Accepts h key t)
    (account : a = base h t ∨ a = h.join (base h t))
    (moved : ssh = t.ssh ∨ a = h.join (base h t) ∧
      ((∃ mode, ssh = some ⟨true, (base h t).uid, (base h t).gid, mode⟩) ∨ t.ssh = none ∧ ssh = some rootDir))
    (staged : staging = t.staging ∨ staging = none ∨ staging = some rootDir) :
    Progress h key t (HostPrepare.stage h t a ssh staging policy t.files) := by
  refine ⟨.inr ⟨accepts, ⟨.inr ⟨?_, rfl, rfl⟩, ?_, staged, .refl t, .inl ⟨rfl, rfl⟩⟩⟩, .of_files rfl⟩
  · rcases account with rfl | rfl
    · exact .inl rfl
    · exact .inr rfl
  · exact moved.imp_right fun known => ⟨congrArg some known.1, known.2⟩

/-- How a part of a run ends: with a value as `R` says, or with an error that a calm run has only
where the checks of `t` do not all pass. -/
def Phase (h : Host) (key : PublicKey) (calm : Prop) (t : State) (R : β → State → Prop) :
    Except String β → State → Prop
  | .ok a, w => R a w
  | .error _, w => Progress h key t w ∧ (calm → ¬(Accepts h key t ∧ Completes h t))

abbrev Goes (h : Host) (key : PublicKey) (calm : Prop) (t : State) (p : Run β)
    (R : β → State → Prop) (s : State) : Prop :=
  Holds (host h calm) (Progress h key t) p (Phase h key calm t R) s

section Phases
variable {R : β → State → Prop}

lemma goes_bind {V : α → State → Prop} {p : Run α} {k : α → Run β}
    (first : Goes h key calm t p V s) (rest : ∀ a w, V a w → Goes h key calm t (k a) R w) :
    Goes h key calm t (p.bind k) R s := by
  refine wp_bind.mpr (wp_mono first (fun _ _ _ g => g) fun out w ended => ?_)
  cases out with
  | error e => exact ended
  | ok a => exact rest a w ended

lemma goes_ret {a : β} (value : R a s) : Goes h key calm t (.ret a) R s := value

/-- One write whose effect is known. -/
lemma goes_write {w : Write} {e : String} {k : Unit → Run β} (applied : perform h w s = some u)
    (whole : ∀ v, ¬Torn w s v) (still : Progress h key t s) (here : Progress h key t u)
    (rest : Goes h key calm t (k ()) R u) : Goes h key calm t ((write w e).bind k) R s := by
  refine holds_write (fun v cut => absurd cut (whole v)) (fun no => ⟨still, still, fun quiet => ?_⟩)
    fun v moved => ?_
  · rcases no with none_ | fails
    · have none_ : perform h w s = none := none_
      rw [applied] at none_
      cases none_
    · exact absurd quiet fails
  · have moved : perform h w s = some v := moved
    rw [applied] at moved
    cases moved
    exact ⟨here, rest⟩

/-- A check of the host as it is. -/
lemma goes_decides {p : Run α} {k : α → Run β} {P : Prop} {V : α → Prop} (still : Progress h key t s)
    (checks : Decides h calm s p P V) (needed : Accepts h key t ∧ Completes h t → P)
    (rest : ∀ a, P → V a → Goes h key calm t (k a) R s) : Goes h key calm t (p.bind k) R s :=
  wp_reads (fun _ => still) checks (fun _ no => ⟨still, fun quiet good => no quiet (needed good)⟩)
    fun a value => rest a value.1 value.2

lemma goes_tail {p : Run β} (run : Goes h key calm t (p.bind .ret) R s) : Goes h key calm t p R s := by
  rwa [bind_ret_right] at run

lemma goes_look {k : State → Run β} (still : Progress h key t s) (rest : Goes h key calm t (k s) R s) :
    Goes h key calm t (look.bind k) R s := holds_look still rest

end Phases

lemma join_uid (a : Account) : (h.join a).uid = a.uid := by
  unfold Host.join
  split <;> rfl

lemma join_gid (a : Account) : (h.join a).gid = a.gid := by
  unfold Host.join
  split <;> rfl

lemma join_locked (a : Account) : (h.join a).locked = a.locked := by
  unfold Host.join
  split <;> rfl

lemma join_member (a : Account) : h.access ∈ (h.join a).allGroups := by
  unfold Host.join
  split
  · assumption
  · simp [Account.allGroups]

lemma join_join (a : Account) : h.join (h.join a) = h.join a := if_pos (join_member a)

lemma join_identity {a : Account} {group : Option ℕ} (i : Identity a group) : Identity (h.join a) group := by
  unfold Host.join
  split
  · exact i
  · exact ⟨i.ordinary, i.comment, i.home, i.shell, i.primary, i.own⟩

lemma join_confined {a : Account} (confined : ∀ g ∈ a.allGroups, g = a.gid ∨ g = h.access) :
    ∀ g ∈ (h.join a).allGroups, g = (h.join a).gid ∨ g = h.access := by
  unfold Host.join
  split
  · exact confined
  · intro g mem
    rcases List.mem_cons.mp mem with rfl | mem
    · exact .inl rfl
    · rcases List.mem_cons.mp mem with rfl | mem
      · exact .inr rfl
      · exact confined g (List.mem_cons_of_mem _ mem)

/-- What is known of the account that a run works with. -/
structure Sound (h : Host) (a : Account) : Prop where
  identity : Identity a (some a.gid)
  locked : a.locked = true
  confined : ∀ g ∈ a.allGroups, g = a.gid ∨ g = h.access

lemma newAccount_sound : Sound h h.newAccount :=
  ⟨⟨h.ordinary, rfl, rfl, rfl, rfl, rfl⟩, rfl, fun _ mem => .inl (List.mem_singleton.mp mem)⟩

lemma Accepts.sound (accepts : Accepts h key t) : Sound h (base h t) := by
  have ready := accepts.account
  unfold AccountReady at ready
  unfold base
  cases found : t.account with
  | none => exact newAccount_sound
  | some a =>
    rw [found] at ready
    have ready : Adopts h t a := ready
    have identity := ready.identity
    rw [identity.primary] at identity
    exact ⟨identity, ready.locked, ready.confined⟩

lemma goes_ensureAccount (accepts : Accepts h key t) :
    Goes h key calm t (ensureAccount t.account) (fun a w => a = base h t ∧
      w = stage h t (base h t) t.ssh t.staging false t.files) { t with policy := false } := by
  have sound := accepts.sound
  obtain ⟨account, group, home, ssh, staging, files, policy⟩ := t
  cases account with
  | some a =>
    obtain ready : Adopts h _ a := accepts.account
    obtain rfl : group = some a.gid := ready.identity.primary
    obtain rfl : home = some (privateDir a) := ready.home
    exact ⟨rfl, rfl⟩
  | none =>
    obtain ⟨rfl, -, rfl⟩ : home = none ∧ _ ∧ group = none := accepts.account
    have moved : Progress h key _ (stage h _ _ _ staging false _) :=
      .stage accepts (.inl rfl) (.inl rfl) (.inl rfl)
    refine goes_write rfl (by rintro v ⟨⟩) (.idle ⟨rfl, rfl, rfl, rfl, rfl, .inl rfl⟩) moved ?_
    refine goes_write rfl (by rintro v ⟨⟩) moved moved (goes_look moved ?_)
    exact goes_decides moved decides_checkAccountIdentity (fun _ => sound.identity) fun _ _ _ =>
      goes_ret ⟨rfl, rfl⟩

lemma goes_ensureAccess (accepts : Accepts h key t) :
    Goes h key calm t (ensureAccess h (base h t)) (fun _ w =>
      w = stage h t (h.join (base h t)) t.ssh t.staging false t.files ∧
        (h.access ∉ (base h t).allGroups → t.stat .authorizedKeys = none ∧ t.stat .sudoers = none))
      (stage h t (base h t) t.ssh t.staging false t.files) := by
  have here : Progress h key t (stage h t (base h t) t.ssh t.staging false t.files) :=
    .stage accepts (.inl rfl) (.inl rfl) (.inl rfl)
  have there : Progress h key t (stage h t (h.join (base h t)) t.ssh t.staging false t.files) :=
    .stage accepts (.inr rfl) (.inl rfl) (.inl rfl)
  unfold ensureAccess
  by_cases member : h.access ∈ (base h t).allGroups
  · rw [if_pos member]
    refine goes_ret ⟨?_, fun no => absurd member no⟩
    rw [Host.join, if_pos member]
  · rw [if_neg member]
    refine goes_look here ?_
    refine goes_decides here .last (fun good => ?_) fun _ free _ => ?_
    · obtain ⟨keys, sudoers⟩ := good.2.join member
      simpa using ⟨keys, sudoers⟩
    · have free : ((t.stat .authorizedKeys).isNone && (t.stat .sudoers).isNone) = true := free
      refine goes_tail (goes_write (u := stage h t (h.join (base h t)) t.ssh t.staging false t.files) ?_
        (by rintro v ⟨⟩) here there (goes_ret ⟨rfl, fun _ => by simpa using free⟩))
      rw [Host.join, if_neg member]
      rfl

/-- The user's `.ssh`, where it is there at all. -/
lemma Accepts.ssh (accepts : Accepts h key t) (nested : Nested t) {d : Dir} (found : t.ssh = some d) :
    d.directory = true ∧ d.uid = (base h t).uid ∧ d.gid = (base h t).gid := by
  have ready := accepts.account
  unfold AccountReady at ready
  unfold base
  cases account : t.account with
  | none =>
    rw [account] at ready
    have gone := nested.ssh ready.1
    rw [found] at gone
    cases gone
  | some a =>
    rw [account] at ready
    exact ready.ssh d found

lemma Accepts.entries (accepts : Accepts h key t) (found : t.ssh ≠ none) (nested : Nested t) :
    t.strayKeys = false := by
  have ready := accepts.account
  unfold AccountReady at ready
  cases account : t.account with
  | none =>
    rw [account] at ready
    exact absurd (nested.ssh ready.1) found
  | some a =>
    rw [account] at ready
    exact ready.entries found

lemma goes_prepareDirectories (accepts : Accepts h key t) (nested : Nested t) :
    Goes h key calm t (prepareDirectories (base h t)) (fun _ w =>
      w = stage h t (h.join (base h t)) (some (privateDir (base h t))) t.staging true t.files)
      (stage h t (h.join (base h t)) t.ssh t.staging true t.files) := by
  have before : Progress h key t (stage h t (h.join (base h t)) t.ssh t.staging true t.files) :=
    .stage accepts (.inr rfl) (.inl rfl) (.inl rfl)
  have after : ∀ mode, Progress h key t (stage h t (h.join (base h t))
      (some ⟨true, (base h t).uid, (base h t).gid, mode⟩) t.staging true t.files) := fun mode =>
    .stage accepts (.inr rfl) (.inr ⟨rfl, .inl ⟨mode, rfl⟩⟩) (.inl rfl)
  -- the ownership and the mode of `.ssh`, whoever made it
  have owned : ∀ uid gid mode, Progress h key t (stage h t (h.join (base h t))
        (some ⟨true, uid, gid, mode⟩) t.staging true t.files) →
      Goes h key calm t ((write (.chownSsh (base h t).uid (base h t).gid) "chown").bind fun _ =>
        write .chmodSsh "chmod")
        (fun _ w => w = stage h t (h.join (base h t)) (some (privateDir (base h t))) t.staging true t.files)
        (stage h t (h.join (base h t)) (some ⟨true, uid, gid, mode⟩) t.staging true t.files) := by
    intro uid gid mode here
    refine goes_write rfl (by rintro v ⟨⟩) here (after mode) ?_
    exact goes_tail (goes_write rfl (by rintro v ⟨⟩) (after mode) (after 0o700) (goes_ret rfl))
  simp only [prepareDirectories, bind_eq]
  refine goes_write (u := stage h t (h.join (base h t)) t.ssh t.staging true t.files) rfl
    (by rintro v ⟨⟩) before before ?_
  refine goes_write (u := stage h t (h.join (base h t)) t.ssh t.staging true t.files) rfl
    (by rintro v ⟨⟩) before before (goes_look before ?_)
  change Goes h key calm t (if t.ssh = none then _ else _) _ _
  cases found : t.ssh with
  | none =>
    have made : Progress h key t (stage h t (h.join (base h t)) (some rootDir) t.staging true t.files) :=
      .stage accepts (.inr rfl) (.inr ⟨rfl, .inr ⟨found, rfl⟩⟩) (.inl rfl)
    rw [found] at before
    exact goes_write rfl (by rintro v ⟨⟩) before made (owned 0 0 0o700 made)
  | some d =>
    obtain ⟨directory, uid, gid, mode⟩ := d
    obtain ⟨rfl, -, -⟩ := accepts.ssh nested found
    rw [found] at before
    exact owned uid gid mode before

lemma goes_ensureHomeStaging (accepts : Accepts h key t) :
    Goes h key calm t ensureHomeStagingDirectory (fun _ w =>
      w = stage h t (h.join (base h t)) (some (privateDir (base h t))) (some rootDir) true t.files ∧
        ∀ d, t.staging = some d → d = rootDir)
      (stage h t (h.join (base h t)) (some (privateDir (base h t))) t.staging true t.files) := by
  have here : ∀ staging, staging = t.staging ∨ staging = none ∨ staging = some rootDir → Progress h key t
      (stage h t (h.join (base h t)) (some (privateDir (base h t))) staging true t.files) := fun _ =>
    .stage accepts (.inr rfl) (.inr ⟨rfl, .inl ⟨0o700, rfl⟩⟩)
  simp only [ensureHomeStagingDirectory, bind_eq]
  refine goes_look (here _ (.inl rfl)) ?_
  change Goes h key calm t (if t.staging = none then _ else _) _ _
  cases found : t.staging with
  | none =>
    have before := here _ (.inl found.symm)
    have after := here _ (.inr (.inr rfl))
    refine goes_write rfl (by rintro v ⟨⟩) before after (goes_look after ?_)
    exact goes_ret ⟨rfl, by rintro d ⟨⟩⟩
  | some d =>
    have before := here _ (.inl found.symm)
    refine goes_look before ?_
    obtain ⟨directory, uid, gid, mode⟩ := d
    refine goes_tail (goes_decides before ((Decides.guard <| .guard .last).iff
      (T := (⟨directory, uid, gid, mode⟩ : Dir) = rootDir) ?_) (fun good => good.2.staging _ found) fun _ same _ => ?_)
    · simp [rootDir, and_assoc]
    · rw [same]
      exact goes_ret ⟨rfl, fun _ known => (Option.some.inj known).symm⟩

/-! ## Publication -/

/-- A state of a run that publishes. -/
def publishing (h : Host) (t : State) (files : Volume FileName File) : State :=
  stage h t (h.join (base h t)) (some (privateDir (base h t))) (some rootDir) true files

variable {F G B : Volume FileName File} {x y : File} {names : Finset FileName} {path tmp : FileName}

lemma Progress.publishing (accepts : Accepts h key t) (moved : FilesMoved h key t F) :
    Progress h key t (publishing h t F) := by
  refine ⟨.inr ⟨accepts, .inr ⟨.inr rfl, rfl, rfl⟩, .inr ⟨rfl, .inl ⟨0o700, rfl⟩⟩, .inr (.inr rfl), moved,
    .inr ⟨rfl, by simp [HostPrepare.publishing, HostPrepare.stage]⟩⟩, fun _ => ⟨_, rfl, ?_, join_member _, rfl⟩⟩
  rw [join_locked]
  exact accepts.sound.locked

/-- What a run may put under a name. -/
def Ours (h : Host) (key : PublicKey) (t : State) (x : File) (n : FileName) : Prop :=
  n = .authorizedKeys ∧ x = keyFile key (base h t) ∨ n = .sudoers ∧ x = sudoersFile ∨
    n ≠ .authorizedKeys ∧ n ≠ .sudoers ∧ n.isSsh = false

lemma FilesMoved.extends (moved : FilesMoved h key t B) (e : Extends B F names x)
    (ours : ∀ n ∈ names, Ours h key t x n) : FilesMoved h key t F := by
  refine ⟨?_, ?_, fun n other second => ?_, fun n i found => ?_, fun i below => ?_, ?_⟩
  · by_cases mem : .authorizedKeys ∈ names
    · rcases ours _ mem with ⟨-, same⟩ | ⟨⟨⟩, -⟩ | ⟨no, -⟩
      · refine .inr ⟨?_, names.card, same ▸ e.stat_new mem⟩
        rcases moved.keys with before | ⟨free, -⟩
        · exact before.symm.trans (e.new _ mem).1
        · exact free
      · exact absurd rfl no
    · rw [e.old _ mem, e.stat_old mem]
      exact moved.keys
  · by_cases mem : .sudoers ∈ names
    · rcases ours _ mem with ⟨⟨⟩, -⟩ | ⟨-, same⟩ | ⟨-, no, -⟩
      · exact .inr ⟨names.card, same ▸ e.stat_new mem⟩
      · exact absurd rfl no
    · rw [e.old _ mem, e.stat_old mem]
      exact moved.sudoers
  · by_cases mem : n ∈ names
    · rcases ours _ mem with ⟨same, -⟩ | ⟨same, -⟩ | ⟨-, -, foreign⟩
      · exact absurd same other
      · exact absurd same second
      · refine .inr ⟨?_, foreign⟩
        rcases moved.others n other second with before | ⟨free, -⟩
        · exact before.symm.trans (e.new _ mem).1
        · exact free
    · rw [e.old _ mem]
      exact moved.others n other second
  · by_cases mem : n ∈ names
    · rw [(e.new n mem).2] at found
      cases found
      exact .inr moved.next
    · rw [e.old n mem] at found
      exact moved.fresh n i found
  · exact (e.node i (below.trans_le moved.next)).trans (moved.nodes i below)
  · have grown := moved.next
    rw [e.next]
    omega

/-- A temporary name of a run. -/
structure Temporary (t : State) (n : FileName) : Prop where
  unknown : t.files.names.lookup n = none
  key : n ≠ .authorizedKeys
  sudoers : n ≠ .sudoers
  foreign : n.isSsh = false

lemma FilesMoved.unlink (moved : FilesMoved h key t F) (tmp_ : Temporary t tmp)
    (applied : F.unlink tmp = some G) : FilesMoved h key t G := by
  unfold Volume.unlink at applied
  obtain ⟨i, found, rfl⟩ := Option.map_eq_some_iff.mp applied
  have old : ∀ {n}, n ≠ tmp → (F.names.erase tmp).lookup n = F.names.lookup n := AList.lookup_erase_ne
  refine ⟨?_, ?_, fun n other second => ?_, fun n j there => ?_, moved.nodes, moved.next⟩
  · refine moved.keys.imp (old tmp_.key.symm).trans fun new => ⟨new.1, ?_⟩
    obtain ⟨-, links, there⟩ := new
    obtain ⟨j, lookup, node, -⟩ := Volume.stat_eq_some.mp there
    exact ⟨_, Volume.stat_eq_some.mpr ⟨j, (old tmp_.key.symm).trans lookup, node, rfl⟩⟩
  · refine moved.sudoers.imp (old tmp_.sudoers.symm).trans fun new => ?_
    obtain ⟨links, there⟩ := new
    obtain ⟨j, lookup, node, -⟩ := Volume.stat_eq_some.mp there
    exact ⟨_, Volume.stat_eq_some.mpr ⟨j, (old tmp_.sudoers.symm).trans lookup, node, rfl⟩⟩
  · by_cases same : n = tmp
    · subst same
      exact .inr ⟨tmp_.unknown, tmp_.foreign⟩
    · exact (moved.others n other second).imp_left (old same).trans
  · by_cases same : n = tmp
    · subst same
      rw [AList.lookup_erase] at there
      cases there
    · exact moved.fresh n j ((old same).symm.trans there)

/-- Taking away what is left of a temporary file is a step of a run. -/
lemma Progress.cleanup (here : Progress h key t s) (tmp_ : Temporary t tmp)
    (applied : onFiles (·.unlink tmp) s = some v) : Progress h key t v := by
  obtain ⟨G, gone, rfl⟩ := Option.map_eq_some_iff.mp applied
  have kept : ∀ n, n ≠ tmp → G.names.lookup n = s.files.names.lookup n := by
    intro n other
    unfold Volume.unlink at gone
    obtain ⟨i, -, rfl⟩ := Option.map_eq_some_iff.mp gone
    exact AList.lookup_erase_ne other
  refine ⟨?_, fun differs => ?_⟩
  · rcases here.moved with idle | ⟨accepts, went⟩
    · have absent : s.files.names.lookup tmp = none := by
        rw [idle.files]
        exact tmp_.unknown
      simp [Volume.unlink, absent] at gone
    · refine .inr ⟨accepts, went.account, went.ssh, went.staging, went.files.unlink tmp_ gone, ?_⟩
      exact went.published.imp_left fun same =>
        ⟨(kept _ tmp_.key.symm).trans same.1, (kept _ tmp_.sudoers.symm).trans same.2⟩
  · refine here.early (differs.imp (fun other same => other ?_) fun other same => other ?_)
    · exact (kept _ tmp_.key.symm).trans same
    · exact (kept _ tmp_.sudoers.symm).trans same

lemma onFiles_some {f : Volume FileName File → Option (Volume FileName File)} (applied : onFiles f s = some v) :
    ∃ F, f s.files = some F ∧ v = { s with files := F } := by
  obtain ⟨F, made, same⟩ := Option.map_eq_some_iff.mp applied
  exact ⟨F, made, same.symm⟩

lemma onFiles_publishing {f : Volume FileName File → Option (Volume FileName File)} (made : f F = some G) :
    onFiles f (publishing h t F) = some (publishing h t G) := by
  change (f F).map _ = _
  rw [made]
  rfl

lemma holds_cleanup {e : String} (here : Progress h key t s) (tmp_ : Temporary t tmp) :
    Holds (host h calm) (Progress h key t) (write (.unlinkMissing tmp) e) (fun _ v => Progress h key t v) s := by
  rw [← bind_ret_right (write (σ := State) (W := Write) (X := Ask) (Y := Answer) _ _)]
  refine holds_write (by rintro v ⟨⟩) (fun _ => ⟨here, here⟩) fun v applied => ?_
  have applied : (if s.stat tmp = none then some s else onFiles (·.unlink tmp) s) = some v := applied
  split at applied
  case isTrue =>
    cases applied
    exact ⟨here, here⟩
  case isFalse =>
    have after := here.cleanup tmp_ applied
    exact ⟨after, after⟩

section Drafting
variable {d : Draft} {token : String} {R : β → State → Prop}

/-- The name of a temporary file is none of the managed ones. -/
lemma draft_ours (d : Draft) (token : String) : Ours h key t x (d.name token) := by
  cases d <;> exact .inr (.inr ⟨by rintro ⟨⟩, by rintro ⟨⟩, rfl⟩)

lemma FilesMoved.temporary (moved : FilesMoved h key t B) (free : B.names.lookup (d.name token) = none) :
    Temporary t (d.name token) := by
  have key : d.name token ≠ .authorizedKeys := by cases d <;> rintro ⟨⟩
  have sudoers : d.name token ≠ .sudoers := by cases d <;> rintro ⟨⟩
  refine ⟨?_, key, sudoers, by cases d <;> rfl⟩
  rcases moved.others _ key sudoers with same | ⟨unknown, -⟩
  · exact same.symm.trans free
  · exact unknown

lemma FilesMoved.draft (moved : FilesMoved h key t B) (ext : Extends B F {d.name token} x) :
    FilesMoved h key t F :=
  moved.extends ext fun n mem => by
    rw [Finset.mem_singleton.mp mem]
    exact draft_ours d token

/-- A temporary file is made. -/
lemma goes_mkstemp {e : String} {k : Unit → Run β} (accepts : Accepts h key t) (moved : FilesMoved h key t B)
    (fresh : calm → B.stat (d.name token) = none)
    (rest : ∀ F, Extends B F {d.name token} draftFile → Temporary t (d.name token) →
      Goes h key calm t (k ()) R (publishing h t F)) :
    Goes h key calm t ((write (.mkstemp (d.name token)) e).bind k) R (publishing h t B) := by
  have here : Progress h key t (publishing h t B) := .publishing accepts moved
  refine holds_write (by rintro v ⟨⟩) (fun no => ⟨here, here, fun quiet => ?_⟩) fun v applied => ?_
  · rcases no with none_ | fails
    · have none_ : onFiles (·.create (d.name token) draftFile) (publishing h t B) = none := none_
      have free := Volume.stat_eq_none.mp (fresh quiet)
      simp [onFiles, publishing, stage, Volume.create, free] at none_
    · exact absurd quiet fails
  · have applied : onFiles (·.create (d.name token) draftFile) (publishing h t B) = some v := applied
    obtain ⟨F, made, rfl⟩ := onFiles_some applied
    have drafted := Extends.create made
    have temporary := moved.temporary (drafted.new _ (Finset.mem_singleton_self _)).1
    exact ⟨.publishing accepts (moved.draft drafted), rest F drafted temporary⟩

/-- A change of the temporary file. -/
lemma goes_draft {w : Write} {g : File → File} {e : String} {k : Unit → Run β} (accepts : Accepts h key t)
    (moved : FilesMoved h key t B)
    (step : ∀ F, perform h w (publishing h t F) = onFiles (·.modify (d.name token) g) (publishing h t F))
    (torn : ∀ F v, Torn w (publishing h t F) v →
      ∃ g, onFiles (·.modify (d.name token) g) (publishing h t F) = some v)
    (ext : Extends B F {d.name token} x)
    (rest : ∀ G, Extends B G {d.name token} (g x) → Goes h key calm t (k ()) R (publishing h t G)) :
    Goes h key calm t ((write w e).bind k) R (publishing h t F) := by
  have here := Finset.mem_singleton_self (d.name token)
  have now : Progress h key t (publishing h t F) := .publishing accepts (moved.draft ext)
  refine holds_write (fun v cut => ?_) (fun no => ⟨now, now, fun quiet => ?_⟩) fun v applied => ?_
  · obtain ⟨g', cut⟩ := torn F v cut
    obtain ⟨G, made, rfl⟩ := onFiles_some cut
    exact .publishing accepts (moved.draft (ext.modify here made))
  · rcases no with none_ | fails
    · obtain ⟨G, made⟩ := ext.modify_applies here g
      have none_ : perform h w (publishing h t F) = none := none_
      rw [step] at none_
      have made : (publishing h t F).files.modify (d.name token) g = some G := made
      simp [onFiles, made] at none_
    · exact absurd quiet fails
  · have applied : perform h w (publishing h t F) = some v := applied
    rw [step] at applied
    obtain ⟨G, made, rfl⟩ := onFiles_some applied
    have next := ext.modify here made
    exact ⟨.publishing accepts (moved.draft next), rest G next⟩

/-- The mode, the owner and the content of a temporary file. -/
lemma goes_content {k : Unit → Run β} {content : Data} {uid gid mode : ℕ} {e₁ e₂ e₃ : String}
    (accepts : Accepts h key t) (moved : FilesMoved h key t B) (ext : Extends B F {d.name token} draftFile)
    (rest : ∀ G, Extends B G {d.name token} ⟨true, uid, gid, mode, content⟩ →
      Goes h key calm t (k ()) R (publishing h t G)) :
    Goes h key calm t ((write (.fchmod (d.name token) mode) e₁).bind fun _ =>
      (write (.fchown (d.name token) uid gid) e₂).bind fun _ =>
      (write (.writeAll (d.name token) content) e₃).bind k) R (publishing h t F) := by
  refine goes_draft accepts moved (fun _ => rfl) (by rintro F v ⟨⟩) ext fun F₁ ext => ?_
  refine goes_draft accepts moved (fun _ => rfl) (by rintro F v ⟨⟩) ext fun F₂ ext => ?_
  refine goes_draft accepts moved (fun _ => rfl) (fun F v cut => ?_) ext rest
  cases cut with
  | writeAll _ applied => exact ⟨_, applied⟩

lemma goes_fillDraft {content : Data} {uid gid mode : ℕ} (accepts : Accepts h key t)
    (moved : FilesMoved h key t B) (ours : Ours h key t ⟨true, uid, gid, mode, content⟩ path)
    (other : path ≠ d.name token) (free : B.stat path = none)
    (ext : Extends B F {d.name token} draftFile) :
    Goes h key calm t (fillDraft path (d.name token) content uid gid mode) (fun _ w => ∃ G,
      w = publishing h t G ∧ Extends B G {path} ⟨true, uid, gid, mode, content⟩) (publishing h t F) := by
  have here := Finset.mem_singleton_self (d.name token)
  simp only [fillDraft, bind_eq]
  refine goes_content accepts moved ext fun F₁ ext => ?_
  have own : ∀ {G names}, Extends B G names ⟨true, uid, gid, mode, content⟩ →
      (∀ n ∈ names, n = path ∨ n = d.name token) → Progress h key t (publishing h t G) := by
    refine fun e known => .publishing accepts (moved.extends e fun n mem => ?_)
    rcases known n mem with rfl | rfl
    · exact ours
    · exact draft_ours d token
  have alone := own ext (by simp)
  refine holds_write (by rintro v ⟨⟩) (fun no => ⟨alone, alone, fun quiet => ?_⟩) fun v applied => ?_
  · rcases no with none_ | fails
    · have free : F₁.stat path = none := (ext.stat_old (by simpa using other)).trans free
      obtain ⟨G, made⟩ := ext.link_applies here free
      have none_ : onFiles (·.link (d.name token) path) (publishing h t F₁) = none := none_
      have made : (publishing h t F₁).files.link (d.name token) path = some G := made
      simp [onFiles, made] at none_
    · exact absurd quiet fails
  have applied : onFiles (·.link (d.name token) path) (publishing h t F₁) = some v := applied
  obtain ⟨F₂, made, rfl⟩ := onFiles_some applied
  have both := ext.link here made
  have second := own both (by simp)
  have temporary : d.name token ∈ ({path, d.name token} : Finset FileName) := by simp
  refine ⟨second, goes_tail (holds_write (by rintro v ⟨⟩) (fun no => ⟨second, second, fun quiet => ?_⟩)
    fun v applied => ?_)⟩
  · rcases no with none_ | fails
    · obtain ⟨G, made⟩ := both.unlink_applies temporary
      have none_ : onFiles (·.unlink (d.name token)) (publishing h t F₂) = none := none_
      have made : (publishing h t F₂).files.unlink (d.name token) = some G := made
      simp [onFiles, made] at none_
    · exact absurd quiet fails
  have applied : onFiles (·.unlink (d.name token)) (publishing h t F₂) = some v := applied
  obtain ⟨F₃, made, rfl⟩ := onFiles_some applied
  have single := both.unlink temporary made
  rw [Finset.pair_comm, Finset.erase_insert (by simpa using other.symm)] at single
  exact ⟨own single (by simp), F₃, rfl, single⟩

/-- A program with the removal of its temporary file, which runs after its error and its value. -/
lemma goes_finally {p : Run β} {e : String} (tmp_ : Temporary t tmp) {V : β → State → Prop}
    (body : Goes h key calm t p V s)
    (done : ∀ a w, V a w → Goes h key calm t (write (.unlinkMissing tmp) e) (fun _ v => R a v) w) :
    Goes h key calm t (finally_ p (write (.unlinkMissing tmp) e)) R s := by
  -- at its end too a run is where it may be
  refine wp_bind.mpr (wp_handle.mpr (wp_mono body (fun _ _ _ g => g) fun out w ended => ?_))
  cases out with
  | error e =>
    refine wp_bind.mpr (wp_mono (holds_cleanup ended.1 tmp_) (fun _ _ _ g => g) fun out v after => ?_)
    cases out with
    | error e => exact ⟨after, ended.2⟩
    | ok _ => exact ⟨after, ended.2⟩
  | ok a => exact goes_bind (done a w ended) fun _ v after => goes_ret after

/-- Where the temporary name is gone, its removal is a step without effect. -/
lemma goes_gone {e : String} {R : Unit → State → Prop} (here : Progress h key t s) (gone : s.stat tmp = none)
    (value : R () s) : Goes h key calm t (write (.unlinkMissing tmp) e) R s :=
  goes_tail (goes_write (if_pos gone) (by rintro v ⟨⟩) here here (goes_ret value))

end Drafting

/-- A published file: its name has it alone, and every other entry is as it was. -/
structure Published (h : Host) (key : PublicKey) (t : State) (B : Volume FileName File) (path : FileName)
    (x : File) (w : State) : Prop where
  state : ∃ F, w = publishing h t F ∧ FilesMoved h key t F ∧ F.stat path = some (x, 1) ∧
    ∀ n, n ≠ path → F.stat n = B.stat n
  known : ∀ y, B.stat path = some y → y = (x, 1)

/-- One file is published, or found as it would be published. -/
lemma goes_publishFile {text : String} {d : Draft} {parent : Run Unit} {content : Data} {uid gid mode : ℕ}
    (accepts : Accepts h key t) (moved : FilesMoved h key t B)
    (ours : Ours h key t ⟨true, uid, gid, mode, content⟩ path) (other : ∀ token, path ≠ d.name token)
    (readable : Readable ⟨true, uid, gid, mode, content⟩ 1)
    (parents : Decides h calm (publishing h t B) parent True (fun _ => True))
    (known : Accepts h key t ∧ Completes h t → ∀ y, B.stat path = some y →
      y = (⟨true, uid, gid, mode, content⟩, 1)) :
    Goes h key calm t (publishFile path text d parent content uid gid mode)
      (fun _ => Published h key t B path ⟨true, uid, gid, mode, content⟩) (publishing h t B) := by
  have here : Progress h key t (publishing h t B) := .publishing accepts moved
  simp only [publishFile, bind_eq]
  refine goes_look here ?_
  have view : (publishing h t B).stat path = B.stat path := rfl
  rw [view]
  cases found : B.stat path with
  | some y =>
    obtain ⟨f, links⟩ := y
    have text_ : ∀ c, c = f.content → Decides h calm (publishing h t B)
        (require (c == content) s!"refusing to replace different file content: {text}" : Run Unit)
        ((f.content == content) = true) (fun _ => True) := by
      rintro _ rfl
      exact .last
    have checks : Decides h calm (publishing h t B) ((checkFile text (some (f, links)) uid gid mode).bind
        fun _ => (readManagedFile text (some (f, links))).bind fun c =>
          require (c == content) s!"refusing to replace different file content: {text}")
        ((f, links) = (⟨true, uid, gid, mode, content⟩, 1)) (fun _ => True) := by
      refine (Decides.bind decides_checkFile fun _ _ _ => .bind decides_readManagedFile
        fun c _ same => text_ c same).iff ?_
      constructor
      · rintro ⟨⟨c, same⟩, -, text⟩
        cases same
        rw [← beq_iff_eq.mp text]
      · intro same
        cases same
        exact ⟨⟨_, rfl⟩, readable, by simp⟩
    refine goes_tail (goes_decides here checks (fun good => known good _ found) fun _ same _ => ?_)
    refine goes_ret ⟨⟨B, rfl, moved, by rw [found, same], fun _ _ => rfl⟩, fun y there => ?_⟩
    rw [found] at there
    cases there
    exact same
  | none =>
    refine goes_decides here parents (fun _ => trivial) fun _ _ _ => ?_
    refine holds_ask here fun token fresh => ?_
    refine goes_mkstemp accepts moved fresh fun F drafted temporary => ?_
    refine goes_finally temporary (goes_fillDraft accepts moved ours (other token) found drafted)
      fun _ w ended => ?_
    obtain ⟨F, rfl, single⟩ := ended
    have grown : FilesMoved h key t F := moved.extends single fun n mem => by
      rw [Finset.mem_singleton.mp mem]
      exact ours
    refine goes_gone (.publishing accepts grown) ?_ ⟨⟨F, rfl, grown, single.stat_new (Finset.mem_singleton_self _),
      fun n differs => single.stat_old (by simpa using differs)⟩, fun y there => ?_⟩
    · have free := (drafted.new _ (Finset.mem_singleton_self _)).1
      exact (single.stat_old (by simpa using (other token).symm)).trans (Volume.stat_eq_none.mpr free)
    · rw [found] at there
      cases there

/-- The candidate takes the place of the earlier policy. -/
lemma FilesMoved.replace {c : FileName} (moved : FilesMoved h key t F) (own : Temporary t c)
    (fresh : ∃ links, F.stat c = some (sudoersFile, links)) (applied : F.replace c .sudoers = some G) :
    FilesMoved h key t G := by
  obtain ⟨i, found, placed, gone, rest, node, next⟩ := Volume.replace_names own.sudoers applied
  have late : t.files.next ≤ i := by
    rcases moved.fresh c i found with known | late
    · rw [own.unknown] at known
      cases known
    · exact late
  obtain ⟨links, fresh⟩ := fresh
  obtain ⟨i', found', held, -⟩ := Volume.stat_eq_some.mp fresh
  rw [found] at found'
  cases found'
  refine ⟨?_, .inr ⟨_, Volume.stat_eq_some.mpr ⟨i, placed, by rw [node, held], rfl⟩⟩, fun n other second => ?_,
    fun n j there => ?_, fun j below => by rw [node]; exact moved.nodes j below, by rw [next]; exact moved.next⟩
  · have kept := rest .authorizedKeys own.key.symm (by rintro ⟨⟩)
    refine moved.keys.imp kept.trans fun new => ⟨new.1, ?_⟩
    obtain ⟨-, links, there⟩ := new
    obtain ⟨j, lookup, held, -⟩ := Volume.stat_eq_some.mp there
    exact ⟨_, Volume.stat_eq_some.mpr ⟨j, kept.trans lookup, by rw [node, held], rfl⟩⟩
  · by_cases same : n = c
    · subst same
      exact .inr ⟨own.unknown, own.foreign⟩
    · rw [rest n same second]
      exact moved.others n other second
  · by_cases same : n = c
    · subst same
      rw [gone] at there
      cases there
    by_cases policy : n = .sudoers
    · subst policy
      rw [placed] at there
      cases there
      exact .inr late
    · rw [rest n same policy] at there
      exact moved.fresh n j there

/-- The state of the files after the candidate was promoted: the policy is ours, the candidate has
at most its own name left, and every other entry is as it was. -/
structure Promoted (h : Host) (key : PublicKey) (t : State) (B : Volume FileName File) (c : FileName)
    (w : State) : Prop where
  state : ∃ F, w = publishing h t F ∧ FilesMoved h key t F ∧ F.stat .sudoers = some (sudoersFile, 1) ∧
    (F.stat c = none ∨ F.stat c = some (sudoersFile, 1)) ∧ ∀ n, n ≠ .sudoers → n ≠ c → F.stat n = B.stat n

lemma decides_checkSudoersParent : Decides h calm s checkSudoersParent True (fun _ => True) := by
  simp only [checkSudoersParent, bind_eq]
  refine .ask fun y answer => ?_
  have tail := Decides.sure (k := fun _ => .ret ()) (e := "destination parent /etc/sudoers.d") answer
    (Decides.ret (h := h) (s := s) (R := fun _ => True) trivial)
  rwa [bind_ret_right] at tail

lemma goes_promote {token : String} (accepts : Accepts h key t) (moved : FilesMoved h key t B)
    (policy : B.stat .sudoers = none ∨ B.stat .sudoers = some (sudoersWith legacySudoersContent, 1))
    (ext : Extends B F {Draft.candidate.name token} draftFile) (own : Temporary t (Draft.candidate.name token)) :
    Goes h key calm t (promote ((B.stat .sudoers).map fun x => x.1.content) (Draft.candidate.name token))
      (fun _ => Promoted h key t B (Draft.candidate.name token)) (publishing h t F) := by
  have single := Finset.mem_singleton_self (Draft.candidate.name token)
  have apart : FileName.sudoers ∉ ({Draft.candidate.name token} : Finset FileName) := by
    rw [Finset.mem_singleton]
    exact own.sudoers.symm
  simp only [promote, bind_eq]
  refine goes_content accepts moved ext fun C ext => ?_
  have grown : FilesMoved h key t C := moved.draft ext
  have here : Progress h key t (publishing h t C) := .publishing accepts grown
  have known : C.stat .sudoers = B.stat .sudoers := ext.stat_old apart
  have held : C.stat (Draft.candidate.name token) = some (sudoersFile, 1) := ext.stat_new single
  refine holds_ask here fun y answer => holds_check (fun no => ⟨here, fun quiet => ?_⟩) fun _ => ?_
  · have answer : y = true := answer quiet
    rw [no] at answer
    cases answer
  rcases policy with free | legacy
  · rw [free, Option.map_none, if_neg (by simp)]
    have publication : Goes h key calm t
        (publishFile .sudoers sudoersPath .sudoers checkSudoersParent sudoersContent 0 0 0o440) _ _ :=
      goes_publishFile accepts grown (.inr (.inl ⟨rfl, rfl⟩)) (by rintro _ ⟨⟩)
        ⟨rfl, rfl, rfl, sudoers_fit.2⟩ decides_checkSudoersParent fun _ y there => by
          rw [known, free] at there
          cases there
    refine wp_mono publication (fun _ _ _ g => g) fun out w ended => ?_
    cases out with
    | error e => exact ended
    | ok _ =>
      obtain ⟨F, rfl, after, there, rest⟩ := ended.state
      refine ⟨F, rfl, after, there, .inr ((rest _ own.sudoers).trans held), fun n other second => ?_⟩
      exact (rest n other).trans (ext.stat_old (by simpa using second))
  · have text : ((sudoersWith legacySudoersContent, 1) : File × ℕ).1.content = legacySudoersContent := rfl
    rw [legacy, Option.map_some, text, if_pos rfl]
    refine goes_decides here decides_preflightSudoers (fun _ x there => ?_) fun r _ current => ?_
    · have there : C.stat .sudoers = some x := there
      rw [known, legacy] at there
      exact .inl (Option.some.inj there).symm
    have current : r = (C.stat .sudoers).map fun x => x.1.content := current
    rw [known, legacy] at current
    subst current
    refine holds_checked (beq_self_eq_true _) ?_
    have lookup := (ext.new _ single).2
    obtain ⟨G, made⟩ := Volume.replace_applies lookup .sudoers
    have applied : perform h (.replace (Draft.candidate.name token) .sudoers) (publishing h t C) =
        some (publishing h t G) := onFiles_publishing (f := (·.replace (Draft.candidate.name token) .sudoers)) made
    have after : FilesMoved h key t G := grown.replace own ⟨1, held⟩ made
    obtain ⟨there, gone, rest⟩ := Volume.stat_replace own.sudoers held (known.trans legacy) made
    refine goes_tail (goes_write applied (by rintro v ⟨⟩) here (.publishing accepts after) (goes_ret ?_))
    refine ⟨G, rfl, after, there, .inl gone, fun n other second => ?_⟩
    exact (rest n second other).trans (ext.stat_old (by simpa using second))

lemma goes_publishSudoers (accepts : Accepts h key t) (moved : FilesMoved h key t B)
    (same : B.stat .sudoers = t.stat .sudoers) :
    Goes h key calm t publishSudoers (fun _ w => ∃ F, w = publishing h t F ∧ FilesMoved h key t F ∧
      F.stat .sudoers = some (sudoersFile, 1) ∧ ∀ n, n ≠ .sudoers → F.stat n = B.stat n) (publishing h t B) := by
  have here : Progress h key t (publishing h t B) := .publishing accepts moved
  have ready : SudoersReady (publishing h t B) := fun x there => accepts.sudoers x (same.symm.trans there)
  simp only [publishSudoers, bind_eq, pure_eq]
  refine goes_decides here decides_preflightSudoers (fun _ => ready) fun r _ current => ?_
  have current : r = (B.stat .sudoers).map fun x => x.1.content := current
  subst current
  by_cases present : (B.stat .sudoers).map (fun x => x.1.content) = some sudoersContent
  · rw [if_pos present]
    exact goes_ret ⟨B, rfl, moved, sudoers_ready_iff.mp ⟨ready, present⟩, fun _ _ => rfl⟩
  rw [if_neg present]
  have policy : B.stat .sudoers = none ∨ B.stat .sudoers = some (sudoersWith legacySudoersContent, 1) := by
    cases found : B.stat .sudoers with
    | none => exact .inl rfl
    | some x =>
      rcases ready x found with rfl | rfl
      · exact .inr rfl
      · rw [found] at present
        exact absurd rfl present
  refine holds_ask here fun token fresh => ?_
  refine goes_mkstemp accepts moved fresh fun F drafted temporary => ?_
  refine goes_finally temporary (goes_promote accepts moved policy drafted temporary) fun _ w ended => ?_
  obtain ⟨F, rfl, after, there, left, rest⟩ := ended.state
  have free : B.stat (Draft.candidate.name token) = none :=
    Volume.stat_eq_none.mpr (drafted.new _ (Finset.mem_singleton_self _)).1
  rcases left with gone | left
  · refine goes_gone (.publishing accepts after) gone ⟨F, rfl, after, there, fun n other => ?_⟩
    by_cases same : n = Draft.candidate.name token
    · subst same
      exact gone.trans free.symm
    · exact rest n other same
  · obtain ⟨i, found, -⟩ := Volume.stat_eq_some.mp left
    obtain ⟨G, made⟩ : ∃ G, F.unlink (Draft.candidate.name token) = some G := by simp [Volume.unlink, found]
    obtain ⟨gone, others⟩ := Volume.stat_unlink left made
    have cleaned : FilesMoved h key t G := after.unlink temporary made
    have applied : perform h (.unlinkMissing (Draft.candidate.name token)) (publishing h t F) =
        some (publishing h t G) := by
      have present : (publishing h t F).stat (Draft.candidate.name token) ≠ none := by
        change F.stat (Draft.candidate.name token) ≠ none
        rw [left]
        rintro ⟨⟩
      exact (if_neg present).trans (onFiles_publishing (f := (·.unlink (Draft.candidate.name token))) made)
    refine goes_tail (goes_write applied (by rintro v ⟨⟩) (.publishing accepts after)
      (.publishing accepts cleaned) (goes_ret ⟨G, rfl, cleaned, ?_, fun n other => ?_⟩))
    · exact (others _ temporary.sudoers.symm).trans there
    · by_cases same : n = Draft.candidate.name token
      · subst same
        exact gone.trans free.symm
      · exact (others n same).trans (rest n other same)

/-! ## A whole run -/

/-- The host after a run that succeeded, the staging directory apart. -/
structure Finished (h : Host) (key : PublicKey) (t w : State) : Prop where
  account : w.account = some (h.join (base h t))
  group : w.group = some (base h t).gid
  home : w.home = some (privateDir (base h t))
  ssh : w.ssh = some (privateDir (base h t))
  keys : w.stat .authorizedKeys = some (keyFile key (base h t), 1)
  sudoers : w.stat .sudoers = some (sudoersFile, 1)
  others : ∀ n, n ≠ .authorizedKeys → n ≠ .sudoers → w.stat n = t.stat n

lemma decides_checkSshParent (files : Volume FileName File) :
    Decides h calm (publishing h t files) (checkSshParent (base h t).uid (base h t).gid) True
      (fun _ => True) := by
  have private_ : (publishing h t files).ssh = some (privateDir (base h t)) := rfl
  simp only [checkSshParent, bind_eq]
  refine .look ?_
  rw [private_]
  refine (Decides.guard <| .guard .last).iff ?_
  simp only [privateDir, beq_self_eq_true, Bool.and_self, iff_true, true_and]
  decide

/-- The key file that is there is the one a run would publish. -/
lemma known_key (accepts : Accepts h key t) (completes : Completes h t) (y : File × ℕ)
    (found : t.stat .authorizedKeys = some y) : y = (keyFile key (base h t), 1) := by
  obtain ⟨⟨regular, uid, gid, mode, content⟩, links⟩ := y
  obtain ⟨readable, text⟩ := accepts.keys.2 _ _ found
  obtain ⟨rfl, rfl, rfl⟩ := completes.keys _ _ found
  obtain rfl := text
  obtain rfl := readable.regular
  obtain rfl := readable.single
  rfl

lemma goes_publishAccess (accepts : Accepts h key t) :
    Goes h key calm t (publishAccess key (base h t)) (fun _ w => ∃ F, w = publishing h t F ∧
      FilesMoved h key t F ∧ Finished h key t w ∧ (∀ d, t.staging = some d → d = rootDir) ∧
      ∀ y, t.stat .authorizedKeys = some y → y = (keyFile key (base h t), 1))
      (stage h t (h.join (base h t)) (some (privateDir (base h t))) t.staging true t.files) := by
  simp only [publishAccess, bind_eq]
  refine goes_bind (goes_ensureHomeStaging accepts) fun _ w staged => ?_
  obtain ⟨rfl, staging⟩ := staged
  refine goes_bind (goes_publishFile accepts (.refl t) (.inl ⟨rfl, rfl⟩) (by rintro _ ⟨⟩)
    (key_readable _) (decides_checkSshParent _)
    fun good y there => known_key good.1 good.2 y there) fun _ w published => ?_
  obtain ⟨⟨F, rfl, moved, keys, others⟩, known⟩ := published
  refine goes_bind (goes_publishSudoers accepts moved (others _ (by rintro ⟨⟩))) fun _ w policy => ?_
  obtain ⟨G, rfl, after, sudoers, rest⟩ := policy
  have here : Progress h key t (publishing h t G) := .publishing accepts after
  refine goes_tail (goes_write rfl (by rintro v ⟨⟩) here here (goes_ret ?_))
  refine ⟨G, rfl, after, ⟨rfl, rfl, rfl, rfl, ?_, sudoers, fun n first second => ?_⟩, staging, known⟩
  · exact (rest _ (by rintro ⟨⟩)).trans keys
  · exact (rest n second).trans (others n first)

lemma strayKeys_iff : s.strayKeys = false ↔
    ∀ n, n.isSsh = true → n ≠ .authorizedKeys → n ≠ .authorizedKeys2 → s.stat n = none := by
  unfold State.strayKeys State.stat
  simp only [List.any_eq_false, Bool.and_eq_true, bne_iff_ne, not_and, Volume.stat_eq_none,
    AList.lookup_eq_none]
  constructor
  · intro none_ n ssh first second there
    exact none_ n (AList.mem_keys.mp there) ⟨ssh, first⟩ second
  · intro none_ n there both second
    exact none_ n both.1 both.2 second (AList.mem_keys.mpr there)

lemma Finished.settled (finished : Finished h key t s) (accepts : Accepts h key t) (nested : Nested t) :
    Settled h key s (h.join (base h t)) := by
  have sound := accepts.sound
  have private_ : privateDir (h.join (base h t)) = privateDir (base h t) := by
    rw [privateDir, privateDir, join_uid, join_gid]
  have file : keyFile key (h.join (base h t)) = keyFile key (base h t) := by
    rw [keyFile, keyFile, join_uid, join_gid]
  refine ⟨?_, join_member _, join_confined sound.confined, ?_, by rw [private_]; exact finished.home,
    by rw [private_]; exact finished.ssh, by rw [file]; exact finished.keys, ?_, ?_, finished.sudoers⟩
  · rw [finished.group]
    exact join_identity sound.identity
  · rw [join_locked]
    exact sound.locked
  · exact (finished.others _ (by rintro ⟨⟩) (by rintro ⟨⟩)).trans accepts.keys.1
  · refine strayKeys_iff.mpr fun n ssh first second => ?_
    have policy : n ≠ .sudoers := by
      rintro rfl
      cases ssh
    rw [finished.others n first policy]
    by_cases there : t.ssh = none
    · exact nested.keys there n ssh
    · exact strayKeys_iff.mp (accepts.entries there nested) n ssh first second

/-- The checks of the account do not look at the SSH policy. -/
lemma accountReady_policy {policy : Bool} : AccountReady h { t with policy } ↔ AccountReady h t := by
  have same : ∀ {s u : State} {a : Account}, u.group = s.group → u.home = s.home → u.ssh = s.ssh →
      u.files = s.files → Adopts h s a → Adopts h u a := by
    intro s u a group home ssh files adopts
    refine ⟨group ▸ adopts.identity, adopts.locked, adopts.confined, home ▸ adopts.home,
      ssh ▸ adopts.ssh, fun there => ?_⟩
    rw [State.strayKeys, files]
    exact adopts.entries (ssh ▸ there)
  unfold AccountReady
  cases found : t.account with
  | none => exact Iff.rfl
  | some a => exact ⟨same rfl rfl rfl rfl, same rfl rfl rfl rfl⟩

lemma goes_applyLocked (nested : Nested t) :
    Goes h key calm t (applyLocked h key) (fun _ w => (Accepts h key t ∧ Completes h t) ∧
      ∃ F, w = publishing h t F ∧ FilesMoved h key t F ∧ Finished h key t w) { t with policy := false } := by
  have still : Progress h key t { t with policy := false } := .idle ⟨rfl, rfl, rfl, rfl, rfl, .inl rfl⟩
  simp only [applyLocked, bind_eq]
  refine holds_ask still fun y answer => holds_check (fun no => ⟨still, fun quiet => ?_⟩) fun _ => ?_
  · have answer : y = true := answer quiet
    rw [no] at answer
    cases answer
  refine goes_decides still decides_ensureAccountState (fun good => accountReady_policy.mpr good.1.account) fun user ready same => ?_
  have same : user = t.account := same
  subst same
  refine goes_decides still decides_preflightManagedFiles (fun good => ⟨good.1.keys, good.1.sudoers⟩)
    fun _ files _ => ?_
  have accepts : Accepts h key t := ⟨accountReady_policy.mp ready, files.1, files.2⟩
  refine goes_bind (goes_ensureAccount accepts) fun a w made => ?_
  obtain ⟨rfl, rfl⟩ := made
  refine goes_bind (goes_ensureAccess accepts) fun _ w joined => ?_
  obtain ⟨rfl, joined⟩ := joined
  have member : ∀ policy, Progress h key t
      (stage h t (h.join (base h t)) t.ssh t.staging policy t.files) := fun _ =>
    .stage accepts (.inr rfl) (.inl rfl) (.inl rfl)
  refine goes_write rfl (by rintro v ⟨⟩) (member _) (member true) ?_
  refine goes_bind (goes_prepareDirectories accepts nested) fun _ w prepared => ?_
  subst prepared
  refine goes_bind (goes_publishAccess accepts) fun _ w published => ?_
  obtain ⟨F, rfl, moved, finished, staging, known⟩ := published
  have here : Progress h key t (publishing h t F) := .publishing accepts moved
  have completes : Completes h t := by
    refine ⟨joined, staging, fun f links there => ?_⟩
    obtain ⟨rfl, rfl⟩ := Prod.mk.inj (known _ there)
    exact ⟨rfl, rfl, rfl⟩
  refine goes_tail (goes_decides here decides_checkReady (fun _ => ⟨_, rfl, finished.settled accepts nested⟩)
    fun _ _ _ => goes_ret ⟨⟨accepts, completes⟩, F, rfl, moved, finished⟩)

lemma rmdir_some (removed : perform h .rmdirStaging s = some v) :
    v = { s with staging := none } ∧ ∀ n, n.isStaged = true → s.stat n = none := by
  have removed : rmdirStaging s = some v := removed
  unfold rmdirStaging at removed
  split at removed
  case h_1 => cases removed
  case h_2 d found =>
    obtain ⟨empty, ⟨⟩⟩ := Option.ite_none_right_eq_some.mp removed
    refine ⟨rfl, fun n staged => ?_⟩
    simp only [Bool.and_eq_true, List.all_eq_true, Bool.not_eq_true'] at empty
    refine Volume.stat_eq_none.mpr (AList.lookup_eq_none.mpr fun there => ?_)
    rw [empty.2 n (AList.mem_keys.mp there)] at staged
    cases staged

lemma Progress.rmdir (here : Progress h key t s) (removed : perform h .rmdirStaging s = some v) :
    Progress h key t v := by
  obtain ⟨rfl, -⟩ := rmdir_some removed
  refine ⟨here.moved.imp (fun idle => ?_) fun moved => ⟨moved.1, ?_⟩, here.early⟩
  · exact ⟨idle.account, idle.group, idle.home, idle.ssh, idle.files, .inr rfl⟩
  · have went := moved.2
    exact ⟨went.account, went.ssh, .inr (.inl rfl), went.files, went.published⟩

/-- The staging directory is removed at the end, if it can be. -/
lemma holds_rmdir (here : Progress h key t s) :
    Holds (host h calm) (Progress h key t) ((write .rmdirStaging "rmdir").handle fun _ => .ret ())
      (fun out v => out = .ok () ∧ Progress h key t v ∧
        (v = s ∧ (calm → perform h .rmdirStaging s = none) ∨ perform h .rmdirStaging s = some v)) s := by
  rw [← bind_ret_right (write (σ := State) (W := Write) (X := Ask) (Y := Answer) _ _)]
  refine wp_handle.mpr (holds_write (by rintro v ⟨⟩) (fun no => ⟨here, rfl, here, .inl ⟨rfl, fun quiet => ?_⟩⟩)
    fun v removed => ⟨here.rmdir removed, rfl, here.rmdir removed, .inr removed⟩)
  exact no.resolve_right fun fails => fails quiet

/-- How a run of `apply` ends. -/
structure Ends (h : Host) (key : PublicKey) (calm : Prop) (t : State) (out : Except String Unit)
    (w : State) : Prop where
  progress : Progress h key t w
  refused : ∀ e, out = .error e → calm → ¬(Accepts h key t ∧ Completes h t)
  passed : out = .ok () → Accepts h key t ∧ Completes h t
  finished : out = .ok () → Finished h key t w
  swept : out = .ok () → calm → (w.staging = none ∨ w.staging = some rootDir) ∧
    (w.staging = none ↔ ∀ n, n.isStaged = true → w.stat n = none)

lemma publishing_swept
    (gone : v = publishing h t F ∧ perform h .rmdirStaging (publishing h t F) = none ∨
      perform h .rmdirStaging (publishing h t F) = some v) :
    (v.staging = none ∨ v.staging = some rootDir) ∧
      (v.staging = none ↔ ∀ n, n.isStaged = true → v.stat n = none) := by
  rcases gone with ⟨rfl, left⟩ | removed
  · refine ⟨.inr rfl, ⟨by rintro ⟨⟩, fun empty => ?_⟩⟩
    have all : F.names.keys.all (fun n => !n.isStaged) = true := by
      refine List.all_eq_true.mpr fun n mem => ?_
      by_contra staged
      have staged : n.isStaged = true := by simpa using staged
      have free := Volume.stat_eq_none.mp (empty n staged)
      exact AList.lookup_eq_none.mp free (AList.mem_keys.mpr mem)
    have removed : perform h .rmdirStaging (publishing h t F) =
        if (true && F.names.keys.all fun n => !n.isStaged) = true then
          some { publishing h t F with staging := none } else none := rfl
    rw [removed, all] at left
    cases left
  · obtain ⟨rfl, empty⟩ := rmdir_some removed
    exact ⟨.inl rfl, fun _ => empty, fun _ => rfl⟩

theorem holds_apply (nested : Nested t) :
    Holds (host h calm) (Progress h key t) (apply h key) (Ends h key calm t) t := by
  have start : Progress h key t t := .idle ⟨rfl, rfl, rfl, rfl, rfl, .inl rfl⟩
  have failed : ∀ {e : String} {w}, Progress h key t w → (calm → ¬(Accepts h key t ∧ Completes h t)) →
      Ends h key calm t (.error e) w := fun progress bad =>
    ⟨progress, fun _ _ => bad, by rintro ⟨⟩, by rintro ⟨⟩, by rintro ⟨⟩⟩
  simp only [apply, bind_eq]
  refine holds_write (by rintro v ⟨⟩) (fun no => ⟨start, failed start fun quiet => ?_⟩) fun v applied => ?_
  · rcases no with none_ | fails
    · cases none_
    · exact absurd quiet fails
  obtain rfl : { t with policy := false } = v := Option.some.inj applied
  refine ⟨.idle ⟨rfl, rfl, rfl, rfl, rfl, .inl rfl⟩, ?_⟩
  refine wp_bind.mpr (wp_handle.mpr (wp_mono (goes_applyLocked nested) (fun _ _ _ g => g) fun out w ended => ?_))
  cases out with
  | error e =>
    refine wp_bind.mpr (wp_mono (holds_rmdir ended.1) (fun _ _ _ g => g) fun out v after => ?_)
    obtain ⟨rfl, progress, -⟩ := after
    exact failed progress ended.2
  | ok _ =>
    obtain ⟨good, F, rfl, moved, finished⟩ := ended
    have here : Progress h key t (publishing h t F) := .publishing good.1 moved
    refine wp_bind.mpr (wp_mono (holds_rmdir here) (fun _ _ _ g => g) fun out v after => ?_)
    obtain ⟨rfl, progress, gone⟩ := after
    refine ⟨progress, by rintro e ⟨⟩, fun _ => good, fun _ => ?_, fun _ quiet => ?_⟩
    · rcases gone with ⟨rfl, -⟩ | removed
      · exact finished
      · obtain ⟨rfl, -⟩ := rmdir_some removed
        exact ⟨rfl, rfl, rfl, rfl, finished.keys, finished.sudoers, finished.others⟩
    · exact publishing_swept (gone.imp_left fun left => ⟨left.1, left.2 quiet⟩)

end PlatformConfig.HostPrepare
