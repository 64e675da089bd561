import PlatformConfig.HostApply

/-!
# Resuming a host preparation

From which of the states that killed runs leave the next run of `apply` reaches the state that an
uninterrupted run reaches.
-/
namespace PlatformConfig.HostPrepare

open CrashProgram CrashDisk CrashLinks Prog

variable {h : Host} {key : PublicKey} {s t u : State} {f : File} {links : ℕ} {n : FileName}

/-! ## What several runs can have made of a host -/

lemma Accepts.went (accepts : Accepts h key s) : Went h key s s := by
  refine ⟨?_, .inl rfl, .inl rfl, .refl s, .inl ⟨rfl, rfl⟩⟩
  have ready := accepts.account
  unfold AccountReady at ready
  unfold base
  cases found : s.account with
  | none =>
    rw [found] at ready
    exact .inl ⟨rfl, rfl, ready.2.2, ready.1⟩
  | some a =>
    rw [found] at ready
    exact .inr ⟨.inl rfl, ready.identity.primary, ready.home⟩

lemma Went.idle (went : Went h key s t) (idle : Idle t u) : Went h key s u := by
  refine ⟨?_, ?_, ?_, ?_, ?_⟩
  · rw [idle.account, idle.group, idle.home]
    exact went.account
  · rw [idle.account, idle.ssh]
    exact went.ssh
  · rcases idle.staging with same | gone
    · rw [same]
      exact went.staging
    · exact .inr (.inl gone)
  · rw [idle.files]
    exact went.files
  · rw [SameEntry, SameEntry, idle.files, idle.account, idle.ssh]
    exact went.published

/-- The account that a later run works with. -/
lemma Went.base (went : Went h key s t) :
    base h t = base h s ∨ base h t = h.join (base h s) := by
  rcases went.account with ⟨before, after, -⟩ | ⟨before | after, -⟩
  · left
    rw [HostPrepare.base, HostPrepare.base, before, after]
  · left
    conv_lhs => rw [HostPrepare.base, before]
    rfl
  · right
    conv_lhs => rw [HostPrepare.base, after]
    rfl

/-- What of the account no run changes. -/
structure SameUser (h : Host) (a b : Account) : Prop where
  uid : b.uid = a.uid
  gid : b.gid = a.gid
  join : h.join b = h.join a

lemma Went.user (went : Went h key s t) : SameUser h (HostPrepare.base h s) (HostPrepare.base h t) := by
  rcases went.base with same | joined
  · rw [same]
    exact ⟨rfl, rfl, rfl⟩
  · rw [joined]
    exact ⟨join_uid _, join_gid _, join_join _⟩

lemma SameUser.privateDir {a b : Account} (same : SameUser h a b) : privateDir b = privateDir a := by
  rw [HostPrepare.privateDir, HostPrepare.privateDir, same.uid, same.gid]

lemma SameUser.keyFile {a b : Account} (same : SameUser h a b) : keyFile key b = keyFile key a := by
  rw [HostPrepare.keyFile, HostPrepare.keyFile, same.uid, same.gid]

lemma FilesMoved.trans (same : SameUser h (base h s) (base h t)) (first : FilesMoved h key s t.files)
    (second : FilesMoved h key t u.files) : FilesMoved h key s u.files := by
  -- a file that the first part made is still there after the second one
  have still : ∀ {n x}, u.files.names.lookup n = t.files.names.lookup n →
      (∃ links, t.files.stat n = some (x, links)) → ∃ links, u.files.stat n = some (x, links) := by
    rintro n x lookup ⟨links, there⟩
    obtain ⟨i, found, held, -⟩ := Volume.stat_eq_some.mp there
    have node := second.nodes i (t.files.bounded n i found)
    exact ⟨_, Volume.stat_eq_some.mpr ⟨i, lookup.trans found, node.trans held, rfl⟩⟩
  refine ⟨?_, ?_, fun n other policy => ?_, fun n i found => ?_, fun i below => ?_, first.next.trans second.next⟩
  · rcases second.keys with lookup | ⟨absent, new⟩
    · rcases first.keys with before | ⟨absent, made⟩
      · exact .inl (lookup.trans before)
      · exact .inr ⟨absent, still lookup made⟩
    · rw [same.keyFile] at new
      refine .inr ⟨?_, new⟩
      rcases first.keys with before | ⟨absent, -⟩
      · exact before.symm.trans absent
      · exact absent
  · rcases second.sudoers with lookup | new
    · rcases first.sudoers with before | made
      · exact .inl (lookup.trans before)
      · exact .inr (still lookup made)
    · exact .inr new
  · rcases first.others n other policy with before | ⟨absent, foreign⟩
    · rcases second.others n other policy with after | ⟨absent, foreign⟩
      · exact .inl (after.trans before)
      · exact .inr ⟨before.symm.trans absent, foreign⟩
    · exact .inr ⟨absent, foreign⟩
  · rcases second.fresh n i found with before | late
    · exact first.fresh n i before
    · exact .inr (first.next.trans late)
  · exact (second.nodes i (below.trans_le first.next)).trans (first.nodes i below)

/-- Membership in the access group lasts. -/
lemma Went.member (first : Went h key s t) (second : Went h key t u)
    (member : t.account = some (h.join (HostPrepare.base h s))) :
    u.account = some (h.join (HostPrepare.base h s)) := by
  have current : HostPrepare.base h t = h.join (HostPrepare.base h s) := by
    conv_lhs => rw [HostPrepare.base, member]
    rfl
  rcases second.account with ⟨gone, -⟩ | ⟨same | joined, -⟩
  · rw [gone] at member
    cases member
  · rw [same, current]
  · rw [joined, first.user.join]

lemma Went.ssh_lasts (second : Went h key t u) (there : t.ssh ≠ none) : u.ssh ≠ none := by
  rcases second.ssh with same | ⟨-, ⟨mode, made⟩ | ⟨-, made⟩⟩
  · rwa [same]
  · simp [made]
  · simp [made]

lemma Went.trans (first : Went h key s t) (second : Went h key t u) : Went h key s u := by
  have same := first.user
  refine ⟨?_, ?_, ?_, first.files.trans same second.files, ?_⟩
  · rcases second.account with ⟨gone, none_⟩ | ⟨account, group, home⟩
    · rcases first.account with ⟨before, -⟩ | ⟨account | account, -⟩
      · exact .inl ⟨before, none_⟩
      · rw [gone] at account
        cases account
      · rw [gone] at account
        cases account
    · refine .inr ⟨?_, by rw [group, same.gid], by rw [home, same.privateDir]⟩
      rcases account with plain | member
      · rcases first.base with before | before
        · exact .inl (plain.trans (congrArg some before))
        · exact .inr (plain.trans (congrArg some before))
      · exact .inr (member.trans (congrArg some same.join))
  · rcases second.ssh with kept | ⟨member, made⟩
    · rw [kept]
      exact first.ssh.imp_right fun made => ⟨first.member second made.1, made.2⟩
    · rw [same.join] at member
      rw [same.uid, same.gid] at made
      rcases made with owned | ⟨absent, made⟩
      · exact .inr ⟨member, .inl owned⟩
      · rcases first.ssh with before | ⟨-, ⟨mode, before⟩ | ⟨-, before⟩⟩
        · exact .inr ⟨member, .inr ⟨before.symm.trans absent, made⟩⟩
        · rw [before] at absent
          cases absent
        · rw [before] at absent
          cases absent
  · rcases second.staging with same | rest
    · rw [same]
      exact first.staging
    · exact .inr rest
  · rcases second.published with kept | made
    · rcases first.published with before | made
      · exact .inl ⟨kept.1.trans before.1, kept.2.trans before.2⟩
      · exact .inr ⟨first.member second made.1, second.ssh_lasts made.2⟩
    · rw [same.join] at made
      exact .inr made

lemma Went.progress (first : Went h key s t) (progress : Progress h key t u) : Went h key s u := by
  rcases progress.moved with idle | ⟨-, second⟩
  · exact first.idle idle
  · exact first.trans second

/-- An entry that is the same file has the links it had. -/
lemma Went.stat (accepts : Accepts h key s) (went : Went h key s t)
    (same : SameEntry n s t) : t.stat n = s.stat n := by
  unfold State.stat Volume.stat
  rw [same]
  refine Option.map_congr fun i found => ?_
  have found : s.files.names.lookup n = some i := found
  have below := s.files.bounded n i found
  rw [went.files.nodes i below]
  refine congrArg (Prod.mk (s.files.node i)) (Volume.links_congr fun m => ⟨fun there => ?_, fun there => ?_⟩)
  · rcases went.files.fresh m i there with known | late
    · exact known
    · exact absurd below (not_lt.mpr late)
  · by_cases policy : m = .sudoers
    · subst policy
      rcases went.files.sudoers with kept | ⟨links, made⟩
      · exact kept.trans there
      -- the policy had a single link, so that it is the entry itself that is the same
      · obtain ⟨x, held⟩ : ∃ x, s.stat .sudoers = some x := by
          simp [State.stat, Volume.stat, there]
        have single : ∃ f, s.stat .sudoers = some (f, 1) := by
          rcases accepts.sudoers x held with rfl | rfl
          · exact ⟨_, held⟩
          · exact ⟨_, held⟩
        obtain ⟨f, single⟩ := single
        obtain rfl : n = .sudoers := Volume.stat_single single (found.trans there.symm)
        exact Eq.trans same there
    · by_cases key : m = .authorizedKeys
      · subst key
        rcases went.files.keys with kept | ⟨absent, -⟩
        · exact kept.trans there
        · rw [there] at absent
          cases absent
      · rcases went.files.others m key policy with kept | ⟨absent, -⟩
        · exact kept.trans there
        · rw [there] at absent
          cases absent

lemma Went.nested (nested : Nested s) (went : Went h key s t) (accepts : Accepts h key s) : Nested t := by
  refine ⟨fun absent => ?_, fun absent n ssh => ?_⟩
  · rcases went.account with ⟨before, after, -⟩ | ⟨-, -, home⟩
    · have ready := accepts.account
      rw [AccountReady, before] at ready
      have gone := nested.ssh ready.1
      rcases went.ssh with same | ⟨account, -⟩
      · exact same.trans gone
      · rw [after] at account
        cases account
    · rw [absent] at home
      cases home
  · have before : s.ssh = none := by
      rcases went.ssh with same | ⟨-, ⟨mode, made⟩ | ⟨-, made⟩⟩
      · exact same.symm.trans absent
      · rw [made] at absent
        cases absent
      · rw [made] at absent
        cases absent
    have free := nested.keys before n ssh
    refine (went.stat accepts ?_).trans free
    have policy : n ≠ .sudoers := by
      rintro rfl
      cases ssh
    by_cases key : n = .authorizedKeys
    · subst key
      rcases went.published with kept | made
      · exact kept.1
      · exact absurd absent made.2
    · rcases went.files.others n key policy with kept | ⟨-, foreign⟩
      · exact kept
      · rw [ssh] at foreign
        cases foreign

/-! ## From which states the next run gets through -/

/-- What killed runs have left in `t` that the next run stumbles over or leaves behind: a `.ssh`
that still belongs to root, a managed file with a second name, a temporary file. -/
structure Unmarked (h : Host) (s t : State) : Prop where
  owned : ∀ d, t.ssh = some d → d.uid = (base h s).uid ∧ d.gid = (base h s).gid
  key : ∀ f links, t.stat .authorizedKeys = some (f, links) → links = 1
  policy : ∀ f links, t.stat .sudoers = some (f, links) → links = 1
  leftovers : ∀ n, n ≠ .authorizedKeys → n ≠ .sudoers → t.stat n = s.stat n

section Resuming
variable (accepts : Accepts h key s) (nested : Nested s) (went : Went h key s t)
include accepts nested went

lemma accepts_owned (later : Accepts h key t) :
    (∀ d, t.ssh = some d → d.uid = (base h s).uid ∧ d.gid = (base h s).gid) ∧
      (∀ f links, t.stat .authorizedKeys = some (f, links) → links = 1) ∧
      ∀ f links, t.stat .sudoers = some (f, links) → links = 1 := by
  refine ⟨fun d found => ?_, fun f links found => (later.keys.2 f links found).1.single, fun f links found => ?_⟩
  · have owned := later.ssh (went.nested nested accepts) found
    rw [went.user.uid, went.user.gid] at owned
    exact owned.2
  · rcases later.sudoers _ found with same | same <;> cases same <;> rfl

/-- The entries of `.ssh` but the key are none, as they were before. -/
lemma went_entries : t.strayKeys = false ∧ t.stat .authorizedKeys2 = none := by
  have same : ∀ n, n.isSsh = true → n ≠ .authorizedKeys → t.stat n = s.stat n := by
    intro n ssh key
    have policy : n ≠ .sudoers := by
      rintro rfl
      cases ssh
    rcases went.files.others n key policy with kept | ⟨-, foreign⟩
    · exact went.stat accepts kept
    · rw [ssh] at foreign
      cases foreign
  refine ⟨strayKeys_iff.mpr fun n ssh first second => ?_, (same _ rfl (by rintro ⟨⟩)).trans accepts.keys.1⟩
  rw [same n ssh first]
  by_cases there : s.ssh = none
  · exact nested.keys there n ssh
  · exact strayKeys_iff.mp (accepts.entries there nested) n ssh first second

lemma accepts_again (owned : ∀ d, t.ssh = some d → d.uid = (base h s).uid ∧ d.gid = (base h s).gid)
    (key_ : ∀ f links, t.stat .authorizedKeys = some (f, links) → links = 1)
    (policy : ∀ f links, t.stat .sudoers = some (f, links) → links = 1) : Accepts h key t := by
  obtain ⟨stray, second⟩ := went_entries accepts nested went
  refine ⟨?_, ⟨second, fun f links found => ?_⟩, fun x found => ?_⟩
  · unfold AccountReady
    rcases went.account with ⟨before, gone, group, home⟩ | ⟨account, group, home⟩
    · rw [gone]
      have ready := accepts.account
      rw [AccountReady, before] at ready
      refine ⟨home, ?_, group⟩
      rcases went.published with kept | made
      · exact (went.stat accepts kept.2).trans ready.2.1
      · rw [gone] at made
        cases made.1
    · have sound := accepts.sound
      obtain ⟨a, present, identity, locked, confined, uid, gid⟩ : ∃ a, t.account = some a ∧
          Identity a (some a.gid) ∧ a.locked = true ∧ (∀ g ∈ a.allGroups, g = a.gid ∨ g = h.access) ∧
          a.uid = (base h s).uid ∧ a.gid = (base h s).gid := by
        rcases account with same | joined
        · exact ⟨_, same, sound.identity, sound.locked, sound.confined, rfl, rfl⟩
        · refine ⟨_, joined, ?_, by rw [join_locked]; exact sound.locked, join_confined sound.confined,
            join_uid _, join_gid _⟩
          rw [join_gid]
          exact join_identity sound.identity
      rw [present]
      have private_ : privateDir a = privateDir (base h s) := by rw [privateDir, privateDir, uid, gid]
      refine ⟨?_, locked, confined, by rw [private_]; exact home, fun d found => ⟨?_, ?_⟩, fun _ => stray⟩
      · rw [group, ← gid]
        exact identity
      · rcases went.ssh with same | ⟨-, ⟨mode, made⟩ | ⟨-, made⟩⟩
        · exact (accepts.ssh nested (same.symm.trans found)).1
        · rw [found] at made
          cases made
          rfl
        · rw [found] at made
          cases made
          rfl
      · rw [uid, gid]
        exact owned d found
  · have single := key_ f links found
    subst single
    rcases went.files.keys with kept | ⟨-, links, made⟩
    · exact accepts.keys.2 f 1 ((went.stat accepts kept).symm.trans found)
    · have made : t.stat .authorizedKeys = some (keyFile key (base h s), links) := made
      rw [found] at made
      cases made
      exact ⟨key_readable _, rfl⟩
  · rcases went.files.sudoers with kept | ⟨links, made⟩
    · exact accepts.sudoers x ((went.stat accepts kept).symm.trans found)
    · have made : t.stat .sudoers = some (sudoersFile, links) := made
      obtain rfl := policy _ _ made
      rw [found] at made
      exact .inr (Option.some.inj made)

omit nested in
lemma completes_again (completes : Completes h s) : Completes h t := by
  refine ⟨fun outside => ?_, fun d found => ?_, fun f links found => ?_⟩
  · have plain : base h t = base h s := went.base.resolve_right fun joined => by
      rw [joined] at outside
      exact outside (join_member _)
    rw [plain] at outside
    rcases went.published with kept | ⟨member, -⟩
    · obtain ⟨keys, policy⟩ := completes.join outside
      exact ⟨(went.stat accepts kept.1).trans keys, (went.stat accepts kept.2).trans policy⟩
    · have current : base h t = h.join (base h s) := by
        conv_lhs => rw [base, member]
        rfl
      rw [← plain, current] at outside
      exact absurd (join_member _) outside
  · rcases went.staging with same | gone | made
    · exact completes.staging d (same.symm.trans found)
    · rw [gone] at found
      cases found
    · rw [made] at found
      exact (Option.some.inj found).symm
  · rw [went.user.uid, went.user.gid]
    rcases went.files.keys with kept | ⟨-, links', made⟩
    · exact completes.keys f links ((went.stat accepts kept).symm.trans found)
    · have made : t.stat .authorizedKeys = some (keyFile key (base h s), links') := made
      rw [found] at made
      cases made
      exact ⟨rfl, rfl, rfl⟩

end Resuming

/-- Two hosts that look the same: account, group, directories and every file with its links. -/
structure SameHost (s t : State) : Prop where
  account : s.account = t.account
  group : s.group = t.group
  home : s.home = t.home
  ssh : s.ssh = t.ssh
  staging : s.staging = t.staging
  files : ∀ n, s.stat n = t.stat n

/-- The next uninterrupted run from `t` is not refused, and reaches the state that an uninterrupted
run from `s` reaches. -/
def Resumes (h : Host) (key : PublicKey) (s t : State) : Prop :=
  ∀ r, Exec (host h True).semantics (apply h key) s (.ok ()) r →
    (∃ w, Exec (host h True).semantics (apply h key) t (.ok ()) w) ∧
      ∀ out w, Exec (host h True).semantics (apply h key) t out w → out = .ok () ∧ SameHost w r

lemma host_answers {calm : Prop} (x : Ask) (s : State) : ∃ y, (host h calm).answers x s y := by
  cases x with
  | mkstemp d =>
    have infinite : Set.Infinite (Set.range d.name) := by
      refine Set.infinite_range_of_injective fun a b same => ?_
      cases d <;> simpa [Draft.name] using same
    obtain ⟨n, ⟨token, rfl⟩, free⟩ := infinite.exists_notMem_finset s.files.names.keys.toFinset
    refine ⟨token, fun _ => Volume.stat_eq_none.mpr (AList.lookup_eq_none.mpr fun known => free ?_)⟩
    exact List.mem_toFinset.mpr (AList.mem_keys.mp known)
  | _ => exact ⟨true, fun _ => rfl⟩

/-- A calm run from a state that passes every check gets through. -/
lemma calm_completes (accepts : Accepts h key t) (nested : Nested t) (completes : Completes h t) :
    (∃ w, Exec (host h True).semantics (apply h key) t (.ok ()) w) ∧
      ∀ out w, Exec (host h True).semantics (apply h key) t out w → out = .ok () := by
  have ends : ∀ out w, Exec (host h True).semantics (apply h key) t out w → out = .ok () := by
    intro out w run
    have ended := wp_exec (holds_apply nested) run
    cases out with
    | error e => exact absurd ⟨accepts, completes⟩ (ended.refused e rfl trivial)
    | ok _ => rfl
  obtain ⟨out, w, run⟩ := exec_exists host_answers (apply h key) t
  obtain rfl := ends out w run
  exact ⟨⟨w, run⟩, ends⟩

/-- What two finished runs, one of them from a state that earlier runs left, agree on. -/
lemma finished_same {r w : State} (user : SameUser h (base h s) (base h t))
    (first : Finished h key s r) (second : Finished h key t w)
    (swept : ∀ v, v = r ∨ v = w → (v.staging = none ∨ v.staging = some rootDir) ∧
      (v.staging = none ↔ ∀ n, n.isStaged = true → v.stat n = none)) :
    SameHost w r ↔ ∀ n, n ≠ .authorizedKeys → n ≠ .sudoers → t.stat n = s.stat n := by
  constructor
  · intro same n key policy
    rw [← second.others n key policy, same.files n, first.others n key policy]
  · intro leftovers
    have files : ∀ n, w.stat n = r.stat n := by
      intro n
      by_cases key : n = .authorizedKeys
      · subst key
        rw [second.keys, first.keys, user.keyFile]
      by_cases policy : n = .sudoers
      · subst policy
        rw [second.sudoers, first.sudoers]
      · rw [second.others n key policy, first.others n key policy, leftovers n key policy]
    refine ⟨by rw [second.account, first.account, user.join], by rw [second.group, first.group, user.gid],
      by rw [second.home, first.home, user.privateDir], by rw [second.ssh, first.ssh, user.privateDir], ?_, files⟩
    have same : w.staging = none ↔ r.staging = none := by
      rw [(swept w (.inr rfl)).2, (swept r (.inl rfl)).2]
      simp only [files]
    rcases (swept w (.inr rfl)).1 with gone | there
    · rw [gone, same.mp gone]
    · rcases (swept r (.inl rfl)).1 with gone | there'
      · rw [same.mpr gone] at there
        cases there
      · rw [there, there']

lemma resumes_iff (accepts : Accepts h key s) (nested : Nested s) (went : Went h key s t) :
    Resumes h key s t ↔ (Completes h s → Unmarked h s t) := by
  have later := went.nested nested accepts
  have swept : ∀ {v r}, Nested v → Exec (host h True).semantics (apply h key) v (.ok ()) r →
      Ends h key True v (.ok ()) r := fun nested run => wp_exec (holds_apply nested) run
  constructor
  · intro resumes completes
    obtain ⟨⟨r, run⟩, -⟩ := calm_completes accepts nested completes
    obtain ⟨⟨w, second⟩, same⟩ := resumes r run
    have ended := swept nested run
    have after := swept later second
    obtain ⟨owned, key, policy⟩ := accepts_owned accepts nested went (after.passed rfl).1
    refine ⟨owned, key, policy, ?_⟩
    refine (finished_same went.user (ended.finished rfl) (after.finished rfl) ?_).mp (same _ w second).2
    rintro v (rfl | rfl)
    · exact ended.swept rfl trivial
    · exact after.swept rfl trivial
  · intro unmarked r run
    have ended := swept nested run
    have completes := (ended.passed rfl).2
    have clean := unmarked completes
    have accepts' := accepts_again accepts nested went clean.owned clean.key clean.policy
    obtain ⟨there, ends⟩ := calm_completes accepts' later (completes_again accepts went completes)
    refine ⟨there, fun out w second => ?_⟩
    obtain rfl := ends out w second
    have after := swept later second
    refine ⟨rfl, (finished_same went.user (ended.finished rfl) (after.finished rfl) ?_).mpr clean.leftovers⟩
    rintro v (rfl | rfl)
    · exact ended.swept rfl trivial
    · exact after.swept rfl trivial

lemma runs_went (accepts : Accepts h key s) (nested : Nested s)
    (runs : Runs (host h False).semantics (· = apply h key) s t) : Went h key s t := by
  refine runs.invariant ?_ accepts.went
  rintro p rfl u went
  refine wp_mono (holds_apply (went.nested nested accepts)) (fun _ _ _ progress => went.progress progress) ?_
  exact fun _ _ ended => went.progress ended.progress

/-- After any number of killed runs from a host that the first checks accept, the next run ends as
an uninterrupted one exactly where the runs left no mark. In no run is the key or the sudo policy
published before the account is locked, in its access group, and the SSH policy was checked. -/
theorem preparation_resumes_iff (accepts : Accepts h key s) (nested : Nested s)
    (runs : Runs (host h False).semantics (· = apply h key) s t) :
    (Resumes h key s t ↔ (Completes h s → Unmarked h s t)) ∧
      ∀ u v, Nested u → Killed (host h False).semantics (apply h key) u v → Early h u v := by
  refine ⟨resumes_iff accepts nested (runs_went accepts nested runs), fun u v nested run => ?_⟩
  have start : Progress h key u u := .idle ⟨rfl, rfl, rfl, rfl, rfl, .inl rfl⟩
  have progress := wp_killed (holds_apply nested) start run
  exact progress.early

/-! ## A host without the account -/

def sampleHost : Host := ⟨2000, 1000, 1000, le_refl _⟩

def sampleKey : PublicKey := ⟨ascii "ssh-ed25519 AAAA automation\n", by decide +kernel⟩

def freshHost : State := ⟨none, none, none, none, none, .empty draftFile, false⟩

/-- The answers of a host on which every step succeeds. -/
def undisturbed : (o : CrashDisk.Op Write Ask) → State → Reply State Answer o × State
  | .look, s => (s, s)
  | .ask (.mkstemp _), s => ("x", s)
  | .ask .base, s | .ask .ancestors, s | .ask .sudoersDirectory, s | .ask .visudo, s
  | .ask .ready, s => (true, s)
  | .write w, s => match perform sampleHost w s with
    | some t => (true, t)
    | none => (false, s)

lemma undisturbed_within : Within undisturbed (host sampleHost False).semantics := by
  intro o s
  cases o with
  | look => exact .look s
  | ask x => cases x <;> exact .ask fun quiet => quiet.elim
  | write w =>
    cases applied : perform sampleHost w s with
    | none =>
      simp only [undisturbed, applied]
      exact Done.refused (D := host sampleHost False) (.inl applied)
    | some t =>
      simp only [undisturbed, applied]
      exact Done.wrote (D := host sampleHost False) applied

/-- The host after the first `n` operations of a run on the fresh host. -/
def stopped (n : ℕ) : State := after undisturbed n (apply sampleHost sampleKey) freshHost

lemma stopped_runs (n : ℕ) :
    Runs (host sampleHost False).semantics (· = apply sampleHost sampleKey) freshHost (stopped n) :=
  .step (.refl _) rfl (undisturbed_within.killed n _ _)

lemma freshHost_stat (n : FileName) : freshHost.stat n = none :=
  Volume.stat_eq_none.mpr (AList.lookup_empty _)

lemma freshHost_accepts : Accepts sampleHost sampleKey freshHost := by
  refine ⟨⟨rfl, freshHost_stat _, rfl⟩, ⟨freshHost_stat _, fun f links found => ?_⟩, fun x found => ?_⟩
  · rw [freshHost_stat] at found
    cases found
  · rw [freshHost_stat] at found
    cases found

lemma freshHost_nested : Nested freshHost := ⟨fun _ => rfl, fun _ n _ => freshHost_stat n⟩

lemma freshHost_completes : Completes sampleHost freshHost := by
  refine ⟨fun _ => ⟨freshHost_stat _, freshHost_stat _⟩, by rintro d ⟨⟩, fun f links found => ?_⟩
  rw [freshHost_stat] at found
  cases found

/-- A run killed after the account was added to its group. -/
theorem preparation_resumes_iff_joined : Resumes sampleHost sampleKey freshHost (stopped 11) := by
  refine (preparation_resumes_iff freshHost_accepts freshHost_nested (stopped_runs 11)).1.mpr fun _ => ?_
  have free : ∀ n, (stopped 11).stat n = none := by
    intro n
    have empty : (stopped 11).files.names.entries = [] := by decide +kernel
    refine Volume.stat_eq_none.mpr (AList.lookup_eq_none.mpr fun there => ?_)
    have mem := AList.mem_keys.mp there
    rw [AList.keys, empty] at mem
    cases mem
  have bare : (stopped 11).ssh = none := by decide +kernel
  refine ⟨fun d found => ?_, fun f links found => ?_, fun f links found => ?_, fun n _ _ => ?_⟩
  · rw [bare] at found
    cases found
  · rw [free] at found
    cases found
  · rw [free] at found
    cases found
  · rw [free, freshHost_stat]

/-- A run killed between making `.ssh` and giving it to the user stops every later one. -/
theorem foreign_ssh_blocks : Accepts sampleHost sampleKey freshHost ∧
    Runs (host sampleHost False).semantics (· = apply sampleHost sampleKey) freshHost (stopped 16) ∧
    ¬Resumes sampleHost sampleKey freshHost (stopped 16) := by
  refine ⟨freshHost_accepts, stopped_runs 16, fun resumes => ?_⟩
  have went := runs_went freshHost_accepts freshHost_nested (stopped_runs 16)
  have unmarked := (resumes_iff freshHost_accepts freshHost_nested went).mp resumes freshHost_completes
  have foreign : (stopped 16).ssh = some rootDir := by decide +kernel
  have owned := (unmarked.owned rootDir foreign).1
  exact absurd owned (by decide)

end PlatformConfig.HostPrepare
