import PlatformConfig.OperationSummary
import Mathlib.Tactic

/-!
# The verdict of a summary

Which logs a summary accepts, what it collects from them, and when the verdict is a pass: exactly
for complete success, whatever the order of the records.
-/
namespace PlatformConfig.Operation

variable {address : String → Bool} {operation : String} {phases : List String} {hosts : Hosts}
  {records l : List Record} {e e' : Evidence} {r : Record}

/-! ## What the records say -/

/-- The starts and completions of a phase, a start as `none`. -/
def marksOf (records : List Record) (phase : String) : List (Option ℤ) :=
  records.filterMap fun
    | .started p => if p = phase then some none else none
    | .completed p status => if p = phase then some (some status) else none
    | _ => none

def recapsOf (records : List Record) (phase host : String) : List Counters :=
  records.filterMap fun
    | .recap p h counters => if p = phase ∧ h = host then some counters else none
    | _ => none

def reportsOf (records : List Record) (host : String) : List Report :=
  records.filterMap fun
    | .failover _ h report => if h = host then some report else none
    | _ => none

def hostsOf (records : List Record) : Hosts :=
  records.filterMap fun
    | .host host role => some (host, role)
    | _ => none

/-- A record that a summary accepts by itself. -/
def fits (address : String → Bool) (operation : String) (phases : List String) (hosts : Hosts) :
    Record → Bool
  | .host host role => safeHost address host && safeText role 16 && role ∈ allowedRoles operation
  | .started phase => safeText phase 64 && phase ∈ phases
  | .completed phase status => safeText phase 64 && phase ∈ phases && 0 ≤ status && status ≤ 255
  | .task phase host outcome task =>
    safeText phase 64 && safeHost address host && safeText outcome 16 && safeText task 255 &&
      phase ∈ phases && outcome ∈ outcomes && belongs operation hosts phase host
  | .recap phase host counters =>
    safeText phase 64 && safeHost address host && phase ∈ phases && counters.bounded &&
      belongs operation hosts phase host
  | .failover phase host report =>
    safeHost address host && operation ∈ failoverOperations && phases.getLast? = some phase &&
      (hosts.lookup host).isSome && report.admissible
  | .error _ => false

/-- A phase that starts at most once, and is completed at most once after that. -/
def Ordered (marks : List (Option ℤ)) : Prop :=
  marks = [] ∨ marks = [none] ∨ ∃ status, marks = [none, some status]

/-- A log that a summary accepts. -/
structure Accepted (address : String → Bool) (operation : String) (phases : List String)
    (hosts : Hosts) (records : List Record) : Prop where
  fits : ∀ r ∈ records, fits address operation phases hosts r = true
  phases : ∀ phase, Ordered (marksOf records phase)
  recaps : ∀ phase host, (hosts.lookup host).isSome → (recapsOf records phase host).length ≤ 1
  reports : ∀ host, (reportsOf records host).length ≤ 1

/-! ## Reading the records -/

/-- The marks that a collected phase status stands for. -/
def marks : Option (Option ℤ) → List (Option ℤ)
  | none => []
  | some none => [none]
  | some (some status) => [none, some status]

lemma ordered_marks (status : Option (Option ℤ)) : Ordered (marks status) := by
  rcases status with _ | _ | status
  · exact .inl rfl
  · exact .inr (.inl rfl)
  · exact .inr (.inr ⟨status, rfl⟩)

/-- What is collected from records without a host record. -/
structure Collects (hosts : Hosts) (records : List Record) (e : Evidence) : Prop where
  phases : ∀ phase, marksOf records phase = marks (e.phaseStatus.lookup phase)
  recaps : ∀ phase host, (hosts.lookup host).isSome →
    recapsOf records phase host = (e.recaps.lookup (phase, host)).toList
  reports : ∀ host, reportsOf records host = (e.failoverResults.lookup host).toList
  invalid : e.invalid = records.any fun
    | .error _ => true
    | _ => false

lemma collects_nil : Collects hosts [] .empty := ⟨fun _ => rfl, fun _ _ _ => rfl, fun _ => rfl, rfl⟩

lemma marksOf_append (phase : String) : marksOf (records ++ l) phase = marksOf records phase ++ marksOf l phase :=
  List.filterMap_append

lemma recapsOf_append (phase host : String) :
    recapsOf (records ++ l) phase host = recapsOf records phase host ++ recapsOf l phase host :=
  List.filterMap_append

lemma reportsOf_append (host : String) :
    reportsOf (records ++ l) host = reportsOf records host ++ reportsOf l host :=
  List.filterMap_append

lemma lookup_cons_ne {α β : Type} [BEq α] [LawfulBEq α] {a a' : α} (b : β) (l : List (α × β))
    (h : a' ≠ a) : ((a, b) :: l).lookup a' = l.lookup a' := by
  rw [List.lookup_cons, beq_eq_false_iff_ne.mpr h]

/-- A record that changes nothing that is collected. -/
lemma Collects.skip (h : Collects hosts l e) (phases : ∀ phase, marksOf [r] phase = [])
    (recaps : ∀ phase host, (hosts.lookup host).isSome → recapsOf [r] phase host = [])
    (reports : ∀ host, reportsOf [r] host = []) (error : ∀ phase, r ≠ .error phase) :
    Collects hosts (l ++ [r]) e := by
  refine ⟨fun phase => ?_, fun phase host known => ?_, fun host => ?_, ?_⟩
  · rw [marksOf_append, phases, List.append_nil, h.phases]
  · rw [recapsOf_append, recaps phase host known, List.append_nil, h.recaps phase host known]
  · rw [reportsOf_append, reports, List.append_nil, h.reports]
  · rw [List.any_append, h.invalid]
    cases r with
    | error phase => exact absurd rfl (error phase)
    | _ => simp

/-- A phase that goes on from `status` to `status'`. -/
lemma Collects.mark (h : Collects hosts l e) {phase : String} {status : Option ℤ}
    (goes : marks (e.phaseStatus.lookup phase) ++ [status] = marks (some status))
    (marked : ∀ p, marksOf [r] p = if p = phase then [status] else [])
    (recaps : ∀ phase host, recapsOf [r] phase host = []) (reports : ∀ host, reportsOf [r] host = [])
    (error : ∀ phase, r ≠ .error phase) :
    Collects hosts (l ++ [r]) { e with phaseStatus := (phase, status) :: e.phaseStatus } := by
  refine ⟨fun p => ?_, fun p host known => ?_, fun host => ?_, ?_⟩
  · rw [marksOf_append, marked, h.phases]
    by_cases same : p = phase
    · subst same
      rw [if_pos rfl, List.lookup_cons_self, goes]
    · rw [if_neg same, lookup_cons_ne _ _ same, List.append_nil]
  · rw [recapsOf_append, recaps, List.append_nil, h.recaps p host known]
  · rw [reportsOf_append, reports, List.append_nil, h.reports]
  · rw [List.any_append, h.invalid]
    cases r with
    | error phase => exact absurd rfl (error phase)
    | _ => simp

lemma Collects.recap (h : Collects hosts l e) {phase host : String} {counters : Counters}
    (new : e.recaps.lookup (phase, host) = none) :
    Collects hosts (l ++ [.recap phase host counters])
      { e with recaps := ((phase, host), counters) :: e.recaps } := by
  refine ⟨fun p => ?_, fun p g known => ?_, fun g => ?_, ?_⟩
  · rw [marksOf_append, h.phases]
    exact List.append_nil _
  · rw [recapsOf_append, h.recaps p g known]
    by_cases same : (p, g) = (phase, host)
    · cases same
      rw [new, List.lookup_cons_self]
      simp [recapsOf]
    · rw [lookup_cons_ne _ _ same]
      have other : ¬(phase = p ∧ host = g) := fun both => same (by rw [both.1, both.2])
      simp [recapsOf, other]
  · rw [reportsOf_append, h.reports]
    exact List.append_nil _
  · simp [h.invalid]

lemma Collects.report (h : Collects hosts l e) {phase host : String} {report : Report}
    (new : e.failoverResults.lookup host = none) :
    Collects hosts (l ++ [.failover phase host report])
      { e with failoverResults := (host, report) :: e.failoverResults } := by
  refine ⟨fun p => ?_, fun p g known => ?_, fun g => ?_, ?_⟩
  · rw [marksOf_append, h.phases]
    exact List.append_nil _
  · rw [recapsOf_append, h.recaps p g known]
    exact List.append_nil _
  · rw [reportsOf_append, h.reports]
    by_cases same : g = host
    · subst same
      rw [new, List.lookup_cons_self]
      simp [reportsOf]
    · rw [lookup_cons_ne _ _ same]
      simp [reportsOf, Ne.symm same]
  · simp [h.invalid]

/-- What one record adds, and that it is one that a summary accepts. -/
theorem readRecord_collects (h : Collects hosts l e)
    (read : readRecord address operation phases hosts e r = some e') :
    Collects hosts (l ++ [r]) e' ∧
      (e'.invalid = false → e.invalid = false ∧ fits address operation phases hosts r = true) := by
  cases r with
  | host => cases read
  | started phase =>
    obtain ⟨passed, ⟨⟩⟩ := Option.ite_none_right_eq_some.mp read
    simp only [Bool.and_eq_true, decide_eq_true_eq] at passed
    refine ⟨h.mark (by rw [passed.2]; rfl) (fun p => ?_) (fun _ _ => rfl) (fun _ => rfl)
      (by rintro _ ⟨⟩), fun fine => ⟨fine, ?_⟩⟩
    · by_cases same : p = phase
      · simp [marksOf, same]
      · simp [marksOf, same, Ne.symm same]
    · simp [fits, passed.1.1, passed.1.2]
  | completed phase status =>
    obtain ⟨passed, ⟨⟩⟩ := Option.ite_none_right_eq_some.mp read
    simp only [Bool.and_eq_true, decide_eq_true_eq] at passed
    obtain ⟨⟨⟨⟨safe, mem⟩, started⟩, low⟩, high⟩ := passed
    refine ⟨h.mark (by rw [started]; rfl) (fun p => ?_) (fun _ _ => rfl) (fun _ => rfl)
      (by rintro _ ⟨⟩), fun fine => ⟨fine, ?_⟩⟩
    · by_cases same : p = phase
      · simp [marksOf, same]
      · simp [marksOf, same, Ne.symm same]
    · simp [fits, safe, mem, low, high]
  | task phase host outcome task =>
    obtain ⟨passed, ⟨⟩⟩ := Option.ite_none_right_eq_some.mp read
    exact ⟨h.skip (fun _ => rfl) (fun _ _ _ => rfl) (fun _ => rfl) (by rintro _ ⟨⟩),
      fun fine => ⟨fine, passed⟩⟩
  | recap phase host counters =>
    obtain ⟨passed, read⟩ := Option.ite_none_right_eq_some.mp read
    by_cases known : (hosts.lookup host).isSome = true
    · rw [if_pos known] at read
      obtain ⟨new, ⟨⟩⟩ := Option.ite_none_right_eq_some.mp read
      exact ⟨h.recap new, fun fine => ⟨fine, passed⟩⟩
    · rw [if_neg known] at read
      cases read
      refine ⟨h.skip (fun _ => rfl) (fun p g there => ?_) (fun _ => rfl) (by rintro _ ⟨⟩),
        fun fine => ⟨fine, passed⟩⟩
      have other : host ≠ g := by
        rintro rfl
        exact known there
      simp [recapsOf, other]
  | failover phase host report =>
    obtain ⟨passed, ⟨⟩⟩ := Option.ite_none_right_eq_some.mp read
    simp only [Bool.and_eq_true, decide_eq_true_eq] at passed
    obtain ⟨⟨⟨⟨⟨safe, op⟩, last⟩, known⟩, new⟩, fine⟩ := passed
    exact ⟨h.report new, fun valid => ⟨valid, by simp [fits, safe, op, last, known, fine]⟩⟩
  | error phase =>
    obtain ⟨passed, ⟨⟩⟩ := Option.ite_none_right_eq_some.mp read
    refine ⟨⟨fun p => ?_, fun p g known => ?_, fun g => ?_, ?_⟩, by rintro ⟨⟩⟩
    · rw [marksOf_append, h.phases]
      exact List.append_nil _
    · rw [recapsOf_append, h.recaps p g known]
      exact List.append_nil _
    · rw [reportsOf_append, h.reports]
      exact List.append_nil _
    · simp

lemma ordered_start {status : Option (Option ℤ)} (h : Ordered (marks status ++ [none])) :
    status = none := by
  rcases status with _ | _ | status
  · rfl
  · rcases h with h | h | ⟨s, h⟩ <;> simp [marks] at h
  · rcases h with h | h | ⟨s, h⟩ <;> simp [marks] at h

lemma ordered_end {status : Option (Option ℤ)} {n : ℤ} (h : Ordered (marks status ++ [some n])) :
    status = some none := by
  rcases status with _ | _ | status
  · rcases h with h | h | ⟨s, h⟩ <;> simp [marks] at h
  · rfl
  · rcases h with h | h | ⟨s, h⟩ <;> simp [marks] at h

lemma Ordered.front {m n : List (Option ℤ)} (h : Ordered (m ++ n)) : Ordered m := by
  rcases h with h | h | ⟨s, h⟩
  · exact .inl (List.append_eq_nil_iff.mp h).1
  · rcases List.append_eq_singleton_iff.mp h with ⟨rfl, -⟩ | ⟨rfl, -⟩
    · exact .inl rfl
    · exact .inr (.inl rfl)
  · rcases m with _ | ⟨a, _ | ⟨b, _ | ⟨d, m⟩⟩⟩
    · exact .inl rfl
    · cases h
      exact .inr (.inl rfl)
    · cases h
      exact .inr (.inr ⟨s, rfl⟩)
    · cases h

lemma Accepted.front (h : Accepted address operation phases hosts (records ++ l)) :
    Accepted address operation phases hosts records := by
  refine ⟨fun r mem => h.fits r (List.mem_append_left _ mem), fun p => ?_, fun p g known => ?_,
    fun g => ?_⟩
  · exact (marksOf_append p ▸ h.phases p).front
  · have few := h.recaps p g known
    rw [recapsOf_append, List.length_append] at few
    omega
  · have few := h.reports g
    rw [reportsOf_append, List.length_append] at few
    omega

/-- An accepted record can be read. -/
theorem readRecord_some (h : Collects hosts l e)
    (accepted : Accepted address operation phases hosts (l ++ [r])) (other : r.isHost = false) :
    ∃ e', readRecord address operation phases hosts e r = some e' := by
  have fit := accepted.fits r (by simp)
  have ordered := fun p => accepted.phases p
  simp only [marksOf_append, h.phases] at ordered
  cases r with
  | host => cases other
  | started phase =>
    have new : e.phaseStatus.lookup phase = none := by
      refine ordered_start ?_
      simpa [marksOf] using ordered phase
    simp only [fits, Bool.and_eq_true, decide_eq_true_eq] at fit
    exact ⟨_, if_pos (by simp [fit.1, fit.2, new])⟩
  | completed phase status =>
    have open_ : e.phaseStatus.lookup phase = some none := by
      refine ordered_end (n := status) ?_
      simpa [marksOf] using ordered phase
    simp only [fits, Bool.and_eq_true, decide_eq_true_eq] at fit
    obtain ⟨⟨⟨safe, mem⟩, low⟩, high⟩ := fit
    exact ⟨_, if_pos (by simp [safe, mem, low, high, open_])⟩
  | task phase host outcome task => exact ⟨e, if_pos fit⟩
  | recap phase host counters =>
    by_cases known : (hosts.lookup host).isSome = true
    · have few := accepted.recaps phase host known
      rw [recapsOf_append, h.recaps phase host known] at few
      have new : e.recaps.lookup (phase, host) = none := by
        cases there : e.recaps.lookup (phase, host) with
        | none => rfl
        | some c => simp [there, recapsOf] at few
      exact ⟨_, (if_pos fit).trans ((if_pos known).trans (if_pos new))⟩
    · exact ⟨e, (if_pos fit).trans (if_neg known)⟩
  | failover phase host report =>
    have few := accepted.reports host
    rw [reportsOf_append, h.reports] at few
    have new : e.failoverResults.lookup host = none := by
      cases there : e.failoverResults.lookup host with
      | none => rfl
      | some c => simp [there, reportsOf] at few
    simp only [fits, Bool.and_eq_true, decide_eq_true_eq] at fit
    obtain ⟨⟨⟨⟨safe, op⟩, last⟩, known⟩, fine⟩ := fit
    exact ⟨_, if_pos (by simp [safe, op, last, known, fine, new])⟩
  | error phase => cases fit

/-- The evidence of a log that is read. -/
def collect (address : String → Bool) (operation : String) (phases : List String) (hosts : Hosts)
    (records : List Record) : Option Evidence :=
  records.foldlM (readRecord address operation phases hosts) .empty

lemma collect_append : collect address operation phases hosts (records ++ [r]) =
    (collect address operation phases hosts records).bind fun e =>
      readRecord address operation phases hosts e r := by
  simp [collect, List.foldlM_append]

/-- What a summary collects, and that the records are ones that it accepts by themselves. -/
theorem collect_collects (read : collect address operation phases hosts records = some e) :
    Collects hosts records e ∧
      (e.invalid = false → ∀ r ∈ records, fits address operation phases hosts r = true) := by
  induction records using List.reverseRecOn generalizing e with
  | nil =>
    cases read
    exact ⟨collects_nil, fun _ r mem => absurd mem List.not_mem_nil⟩
  | append_singleton records r ih =>
    rw [collect_append] at read
    obtain ⟨e', before, read⟩ := Option.bind_eq_some_iff.mp read
    obtain ⟨collects, fit⟩ := ih before
    obtain ⟨collects', fit'⟩ := readRecord_collects collects read
    refine ⟨collects', fun valid r' mem => ?_⟩
    rcases List.mem_append.mp mem with mem | mem
    · exact fit (fit' valid).1 r' mem
    · obtain rfl := List.mem_singleton.mp mem
      exact (fit' valid).2

lemma Collects.accepted (h : Collects hosts records e)
    (fit : ∀ r ∈ records, fits address operation phases hosts r = true) :
    Accepted address operation phases hosts records := by
  refine ⟨fit, fun p => ?_, fun p g known => ?_, fun g => ?_⟩
  · rw [h.phases]
    exact ordered_marks _
  · rw [h.recaps p g known]
    exact Option.length_toList_le
  · rw [h.reports]
    exact Option.length_toList_le

/-- Accepted records can be read. -/
theorem collect_some (other : ∀ r ∈ records, r.isHost = false)
    (accepted : Accepted address operation phases hosts records) :
    ∃ e, collect address operation phases hosts records = some e ∧ e.invalid = false := by
  have read : ∃ e, collect address operation phases hosts records = some e := by
    induction records using List.reverseRecOn with
    | nil => exact ⟨_, rfl⟩
    | append_singleton records r ih =>
      obtain ⟨e, before⟩ := ih (fun r mem => other r (List.mem_append_left _ mem)) accepted.front
      obtain ⟨e', read⟩ := readRecord_some (collect_collects before).1 accepted (other r (by simp))
      exact ⟨e', by rw [collect_append, before]; exact read⟩
  obtain ⟨e, read⟩ := read
  refine ⟨e, read, ?_⟩
  rw [(collect_collects read).1.invalid, List.any_eq_false]
  intro r mem
  cases r with
  | error phase => exact absurd (accepted.fits _ mem) (by simp [fits])
  | _ => simp

/-! ## Reading the hosts -/

/-- Hosts that a log can name: each once, with a role of the operation. -/
structure Named (address : String → Bool) (operation : String) (hosts : Hosts) : Prop where
  each : ∀ h ∈ hosts, safeHost address h.1 = true ∧ safeText h.2 16 = true ∧
    h.2 ∈ allowedRoles operation
  distinct : (hosts.map Prod.fst).Nodup

lemma lookup_none_iff {α β : Type} [BEq α] [LawfulBEq α] {l : List (α × β)} {a : α} :
    l.lookup a = none ↔ a ∉ l.map Prod.fst := by
  rw [List.lookup_eq_none_iff, List.mem_map]
  constructor
  · rintro none_ ⟨h, mem, rfl⟩
    simpa using none_ h mem
  · intro absent h mem
    exact bne_iff_ne.mpr fun same => absent ⟨h, mem, same.symm⟩

lemma Named.snoc {host role : String} (h : Named address operation hosts)
    (safe : safeHost address host = true ∧ safeText role 16 = true ∧ role ∈ allowedRoles operation)
    (new : hosts.lookup host = none) : Named address operation (hosts ++ [(host, role)]) := by
  refine ⟨fun g mem => ?_, ?_⟩
  · rcases List.mem_append.mp mem with mem | mem
    · exact h.each g mem
    · obtain rfl := List.mem_singleton.mp mem
      exact safe
  · rw [List.map_append, List.nodup_append]
    refine ⟨h.distinct, List.nodup_singleton _, ?_⟩
    rintro g mem g' mem' rfl
    obtain rfl := List.mem_singleton.mp mem'
    exact lookup_none_iff.mp new mem

theorem readHosts_iff (start : Named address operation hosts) (hosts' : Hosts) :
    readHosts address operation records hosts = some hosts' ↔
      hosts' = hosts ++ hostsOf records ∧ Named address operation hosts' := by
  induction records generalizing hosts with
  | nil =>
    simp only [readHosts, hostsOf, List.filterMap_nil, List.append_nil, Option.some.injEq]
    constructor
    · rintro rfl
      exact ⟨rfl, start⟩
    · rintro ⟨rfl, -⟩
      rfl
  | cons r records ih =>
    cases r with
    | host host role =>
      have tail : hosts ++ hostsOf (.host host role :: records) =
          hosts ++ [(host, role)] ++ hostsOf records := by simp [hostsOf]
      rw [tail]
      simp only [readHosts]
      by_cases passed : (safeHost address host && safeText role 16 &&
          decide (role ∈ allowedRoles operation) && decide (hosts.lookup host = none)) = true
      · rw [if_pos passed]
        simp only [Bool.and_eq_true, decide_eq_true_eq] at passed
        exact ih (start.snoc ⟨passed.1.1.1, passed.1.1.2, passed.1.2⟩ passed.2)
      · rw [if_neg passed]
        refine ⟨by rintro ⟨⟩, ?_⟩
        rintro ⟨rfl, named⟩
        refine absurd ?_ passed
        have safe := named.each (host, role) (by simp)
        have new : hosts.lookup host = none := by
          refine lookup_none_iff.mpr fun mem => ?_
          have distinct := named.distinct
          rw [List.map_append, List.map_append, List.append_assoc, List.nodup_append] at distinct
          exact distinct.2.2 host mem host (by simp) rfl
        simp [safe.1, safe.2.1, safe.2.2, new]
    | _ => exact ih start

/-! ## Complete success -/

/-- A recap that passes its phase. -/
structure Sound (operation phase : String) (c : Counters) : Prop where
  failures : c.failures = 0
  unreachable : c.unreachable = 0
  ok : operation ∈ preparedOperations → 0 < c.ok
  gated : operation ∈ evidenceGatedOperations ∨ startsWith phase "rke2-deployment-runners-" = true →
    c.ignored = 0 ∧ c.rescued = 0
  unchanged : phase ∈ unchangedPhases → c.changed = 0

/-- A failover report that passes the phase. -/
structure Reported (phase : String) (r : Report) : Prop where
  plan : phase = "failover-plan" → r.failoverTestResult = "not_run" ∧ r.finalSmokeResult = "not_run"
  smoke : phase ≠ "failover-plan" → r.finalSmokeResult = "passed"
  test : phase = "failover-test" → r.failoverTestResult = "passed" ∧ r.recoveryResult = "passed"
  recover : phase = "failover-recover" → r.recoveryResult ≠ "failed"

/-- The hosts are those that the operation requires, under its phases. -/
structure Established (operation : String) (phases : List String) (hosts : Hosts) : Prop where
  some : hosts ≠ []
  openbao : operation ∈ openbaoOperations →
    hosts.length = if operation ∈ openbaoPkiOperations then 1 else 3
  storage : operation = "storage-apply" ∨ operation ∈ openbaoStorageOperations → hosts.length = 1
  roles : ∀ h ∈ hosts, h.2 ≠ "N/A"
  server : (∃ phase ∈ phases, startsWith phase "rke2-deployment-runners-" = true) →
    ∃ h ∈ hosts, h.2 = "server"

/-- Every phase has started once and was completed once with status 0, and every host has one
passing recap for every phase that applies to it, and for a failover one passing report. -/
structure Succeeds (operation : String) (phases : List String) (hosts : Hosts)
    (records : List Record) : Prop where
  done : ∀ phase ∈ phases, marksOf records phase = [none, some 0]
  recaps : ∀ h ∈ hosts, ∀ phase ∈ phases, phase ≠ "inventory" → applicable h.2 phase = true →
    ∃ c, recapsOf records phase h.1 = [c] ∧ Sound operation phase c
  reports : operation ∈ failoverOperations → ∀ h ∈ hosts, ∀ phase ∈ phases, phase ≠ "inventory" →
    ∃ r, reportsOf records h.1 = [r] ∧ Reported phase r

lemma sound_iff {phase : String} {c : Counters} (bounded : c.bounded = true) :
    c.fails operation phase = false ↔ Sound operation phase c := by
  simp only [Counters.bounded, List.all_cons, List.all_nil, Bool.and_true, Bool.and_eq_true,
    decide_eq_true_eq] at bounded
  obtain ⟨⟨ok, -⟩, ⟨changed, -⟩, ⟨failures, -⟩, ⟨unreachable, -⟩, ⟨skipped, -⟩, ⟨rescued, -⟩, ⟨ignored, -⟩⟩ :=
    bounded
  simp only [Counters.fails, Bool.or_eq_false_iff, Bool.and_eq_false_iff, decide_eq_false_iff_not]
  constructor
  · rintro ⟨⟨⟨⟨failed, lost⟩, ran⟩, gated⟩, unchanged⟩
    refine ⟨by omega, by omega, fun mem => ?_, fun gate => ?_, fun mem => ?_⟩
    · rcases ran with absent | ran
      · exact absurd mem absent
      · omega
    · rcases gated with ⟨absent, other⟩ | ⟨none_, none'⟩
      · rcases gate with mem | starts
        · exact absurd mem absent
        · rw [starts] at other
          cases other
      · omega
    · rcases unchanged with absent | same
      · exact absurd mem absent
      · omega
  · intro sound
    have failed := sound.failures
    have lost := sound.unreachable
    refine ⟨⟨⟨⟨by omega, by omega⟩, ?_⟩, ?_⟩, ?_⟩
    · by_cases mem : operation ∈ preparedOperations
      · have ran := sound.ok mem
        exact .inr (by omega)
      · exact .inl mem
    · by_cases gate : operation ∈ evidenceGatedOperations ∨
          startsWith phase "rke2-deployment-runners-" = true
      · obtain ⟨none_, none'⟩ := sound.gated gate
        exact .inr ⟨by omega, by omega⟩
      · rw [not_or, Bool.not_eq_true] at gate
        exact .inl gate
    · by_cases mem : phase ∈ unchangedPhases
      · have same := sound.unchanged mem
        exact .inr (by omega)
      · exact .inl mem

lemma reported_iff {phase : String} {r : Option Report} :
    reportFails phase r = false ↔ ∃ report, r = some report ∧ Reported phase report := by
  cases r with
  | none => simp [reportFails]
  | some r =>
    simp only [reportFails, Bool.or_eq_false_iff, Bool.and_eq_false_iff, decide_eq_false_iff_not,
      not_not]
    constructor
    · rintro ⟨⟨⟨plan, smoke⟩, test⟩, recover⟩
      refine ⟨r, rfl, ?_, ?_, ?_, ?_⟩
      · exact fun same => plan.resolve_left fun other => other same
      · exact fun other => smoke.resolve_left other
      · exact fun same => test.resolve_left fun other => other same
      · exact fun same => recover.resolve_left fun other => other same
    · rintro ⟨_, ⟨⟩, reported⟩
      refine ⟨⟨⟨?_, ?_⟩, ?_⟩, ?_⟩
      · exact (em (phase = _)).elim (fun same => .inr (reported.plan same)) .inl
      · exact (em (phase = _)).elim .inl fun other => .inr (reported.smoke other)
      · exact (em (phase = _)).elim (fun same => .inr (reported.test same)) .inl
      · exact (em (phase = _)).elim (fun same => .inr (reported.recover same)) .inl

/-! ## The verdict of the evidence -/

lemma recapResult_pass {host role phase : String} (applies : applicable role phase = true) :
    e.recapResult operation host role phase = .pass ↔
      e.phaseStatus.lookup phase = some (some 0) ∧ (phase ≠ "inventory" →
        ∃ c, e.recaps.lookup (phase, host) = some c ∧ c.fails operation phase = false) := by
  unfold Evidence.recapResult
  rw [applies, Bool.not_true, if_neg Bool.false_ne_true]
  cases e.phaseStatus.lookup phase with
  | none => simp
  | some status =>
    by_cases inventory : phase = "inventory"
    · simp [inventory]
    · by_cases zero : status = some 0
      · cases e.recaps.lookup (phase, host) <;> simp [inventory, zero]
      · simp [inventory, zero]

lemma phaseResult_pass {host role phase : String} (applies : applicable role phase = true) :
    e.phaseResult operation host role phase = .pass ↔
      e.phaseStatus.lookup phase = some (some 0) ∧ (phase ≠ "inventory" →
        (∃ c, e.recaps.lookup (phase, host) = some c ∧ c.fails operation phase = false) ∧
        (operation ∈ failoverOperations →
          reportFails phase (e.failoverResults.lookup host) = false)) := by
  unfold Evidence.phaseResult
  by_cases overridden : (operation ∈ failoverOperations && phase ≠ "inventory" &&
      reportFails phase (e.failoverResults.lookup host)) = true
  · rw [if_pos overridden]
    simp only [Bool.and_eq_true, decide_eq_true_eq] at overridden
    obtain ⟨⟨failover, other⟩, fails⟩ := overridden
    simp [failover, other, fails]
  · rw [if_neg overridden, recapResult_pass applies]
    refine and_congr_right fun _ => forall_congr' fun other => ?_
    refine (and_iff_left fun failover => ?_).symm
    simpa [failover, other] using overridden

lemma hostResult_pass {host role : String} {status : ℤ} (first : ∃ phase ∈ phases, applicable role phase = true) :
    e.hostResult operation phases status host role = .pass ↔ role ≠ "N/A" ∧ status = 0 ∧
      ∀ phase ∈ phases, applicable role phase = true →
        e.phaseResult operation host role phase = .pass := by
  have some_ : e.statuses operation phases host role ≠ [] := by
    obtain ⟨phase, mem, applies⟩ := first
    simp only [Evidence.statuses, ne_eq, List.map_eq_nil_iff, List.filter_eq_nil_iff, not_forall]
    exact ⟨phase, mem, by simpa using applies⟩
  have all_ : ((e.statuses operation phases host role).all (· = .pass)) = true ↔
      ∀ phase ∈ phases, applicable role phase = true → e.phaseResult operation host role phase = .pass := by
    simp only [Evidence.statuses, List.all_map, List.all_filter, List.all_eq_true]
    refine forall₂_congr fun phase _ => ?_
    cases applicable role phase <;> simp
  unfold Evidence.hostResult
  simp only [if_neg some_]
  by_cases passed : (role ≠ "N/A" && status = 0 &&
      (e.statuses operation phases host role).all (· = .pass)) = true
  · rw [if_pos passed]
    simp only [Bool.and_eq_true, decide_eq_true_eq, all_] at passed
    exact ⟨fun _ => ⟨passed.1.1, passed.1.2, passed.2⟩, fun _ => rfl⟩
  · rw [if_neg passed]
    refine ⟨fun same => ?_, fun both => absurd ?_ passed⟩
    · split at same <;> cases same
    · simp only [Bool.and_eq_true, decide_eq_true_eq, all_]
      exact ⟨⟨both.1, both.2.1⟩, both.2.2⟩

/-- Every operation of the table begins with a phase that applies to every host. -/
lemma operations_first : ∀ o ∈ operations, ∃ phase rest, o.2 = phase :: rest ∧
    startsWith phase "kube-vip-" = false ∧ startsWith phase "rke2-gitlab-runner-" = false ∧
      startsWith phase "rke2-deployment-runners-" = false := by
  have first : ∀ o ∈ operations, (o.2.head?.any fun phase => !startsWith phase "kube-vip-" &&
      !startsWith phase "rke2-gitlab-runner-" && !startsWith phase "rke2-deployment-runners-") = true := by
    decide +kernel
  intro o mem
  have fine := first o mem
  cases at_ : o.2 with
  | nil => simp [at_] at fine
  | cons phase rest =>
    simp only [at_, List.head?_cons, Option.any_some, Bool.and_eq_true, Bool.not_eq_true'] at fine
    exact ⟨phase, rest, rfl, fine.1.1, fine.1.2, fine.2⟩

/-- The phases that a rendering of a log looks at. -/
def Log.rendered (log : Log) (through : Option String) : List String :=
  (throughPhases log.operation log.phases through).getD []

variable {log : Log} {status : ℤ} {through : Option String}

/-- A log whose rendering a summary does not refuse. -/
structure Renders (address : String → Bool) (log : Log) (status : ℤ) (through : Option String) :
    Prop where
  status : 0 ≤ status ∧ status ≤ 255
  table : safeText log.operation 64 = true ∧ operations.lookup log.operation = some log.phases
  hosts : Named address log.operation (hostsOf log.records)
  gate : ∀ phase, through = some phase → log.operation ∈ prefixGatedOperations ∧ phase ∈ log.phases
  records : Accepted address log.operation (log.rendered through) (hostsOf log.records) log.records

lemma throughPhases_eq : throughPhases log.operation log.phases through = some (log.rendered through) ↔
    ∀ phase, through = some phase → log.operation ∈ prefixGatedOperations ∧ phase ∈ log.phases := by
  cases through with
  | none => simp [Log.rendered, throughPhases]
  | some phase =>
    by_cases gated : log.operation ∈ prefixGatedOperations ∧ phase ∈ log.phases
    · simp [Log.rendered, throughPhases, gated]
    · simp [Log.rendered, throughPhases, gated]

lemma mem_of_lookup {α β : Type} [BEq α] [LawfulBEq α] {l : List (α × β)} {a : α} {b : β}
    (h : l.lookup a = some b) : (a, b) ∈ l := by
  obtain ⟨before, after, rfl, -⟩ := List.lookup_eq_some_iff.mp h
  simp

lemma rendered_first (table : operations.lookup log.operation = some log.phases)
    (at_ : throughPhases log.operation log.phases through = some (log.rendered through)) (role : String) :
    ∃ phase ∈ log.rendered through, applicable role phase = true := by
  obtain ⟨phase, rest, same, first, second, third⟩ :=
    operations_first _ (mem_of_lookup table)
  have same : log.phases = phase :: rest := same
  refine ⟨phase, ?_, by simp [applicable, first, second, third]⟩
  cases through with
  | none => simp [Log.rendered, throughPhases, same]
  | some last =>
    have gated := throughPhases_eq.mp at_ last rfl
    rw [Log.rendered, throughPhases, if_pos (by simp [gated])]
    simp [same]

lemma failover_applicable (table : operations.lookup log.operation = some log.phases)
    (failover : log.operation ∈ failoverOperations) (phase : String)
    (mem : phase ∈ log.rendered through) (role : String) : applicable role phase = true := by
  have all_ : ∀ o ∈ operations, o.1 ∈ failoverOperations → ∀ phase ∈ o.2,
      startsWith phase "kube-vip-" = false ∧ startsWith phase "rke2-gitlab-runner-" = false ∧
        startsWith phase "rke2-deployment-runners-" = false := by
    decide +kernel
  have listed : phase ∈ log.phases := by
    cases through with
    | none => exact mem
    | some last =>
      rw [Log.rendered, throughPhases] at mem
      by_cases gated : (decide (log.operation ∈ prefixGatedOperations) && decide (last ∈ log.phases)) = true
      · rw [if_pos gated] at mem
        exact List.mem_of_mem_take mem
      · rw [if_neg gated] at mem
        exact absurd mem List.not_mem_nil
  obtain ⟨first, second, third⟩ := all_ _ (mem_of_lookup table) failover phase listed
  simp [applicable, first, second, third]

lemma rest_eq : (∀ phase, marksOf (log.records.filter fun r => !r.isHost) phase = marksOf log.records phase) ∧
    (∀ phase host, recapsOf (log.records.filter fun r => !r.isHost) phase host =
      recapsOf log.records phase host) ∧
    ∀ host, reportsOf (log.records.filter fun r => !r.isHost) host = reportsOf log.records host := by
  refine ⟨fun phase => ?_, fun phase host => ?_, fun host => ?_⟩
  all_goals
    simp only [marksOf, recapsOf, reportsOf, List.filterMap_filter]
    refine List.filterMap_congr fun r _ => ?_
    cases r <;> rfl

lemma accepted_rest {phases : List String} {hosts : Hosts} (named : Named address log.operation (hostsOf log.records)) :
    Accepted address log.operation phases hosts (log.records.filter fun r => !r.isHost) ↔
      Accepted address log.operation phases hosts log.records := by
  obtain ⟨marks, recaps, reports⟩ := @rest_eq log
  constructor
  · intro h
    refine ⟨fun r mem => ?_, fun phase => marks phase ▸ h.phases phase,
      fun phase host known => recaps phase host ▸ h.recaps phase host known,
      fun host => reports host ▸ h.reports host⟩
    by_cases isHost : r.isHost = true
    · cases r with
      | host host role =>
        have safe := named.each (host, role) (List.mem_filterMap.mpr ⟨_, mem, rfl⟩)
        simp [fits, safe.1, safe.2.1, safe.2.2]
      | _ => cases isHost
    · exact h.fits r (List.mem_filter.mpr ⟨mem, by simpa using isHost⟩)
  · intro h
    refine ⟨fun r mem => h.fits r (List.mem_filter.mp mem).1, fun phase => ?_, fun phase host known => ?_,
      fun host => ?_⟩
    · rw [marks]
      exact h.phases phase
    · rw [recaps]
      exact h.recaps phase host known
    · rw [reports]
      exact h.reports host

lemma guard_iff {p : Prop} [Decidable p] {u : Unit} : (guard p : Option Unit) = some u ↔ p := by
  by_cases h : p <;> simp [guard, h]

lemma parseRecords_iff {parsed : Hosts × List Record} : parseRecords address log = some parsed ↔
    (safeText log.operation 64 = true ∧ operations.lookup log.operation = some log.phases) ∧
      Named address log.operation (hostsOf log.records) ∧
      parsed = (hostsOf log.records, log.records.filter fun r => !r.isHost) := by
  have start : Named address log.operation [] := ⟨by simp, List.nodup_nil⟩
  have hosts : ∀ hosts, readHosts address log.operation log.records [] = some hosts ↔
      hosts = hostsOf log.records ∧ Named address log.operation hosts := fun hosts => by
    rw [readHosts_iff start, List.nil_append]
  constructor
  · intro h
    obtain ⟨_, table, h⟩ := Option.bind_eq_some_iff.mp h
    obtain ⟨found, read, h⟩ := Option.bind_eq_some_iff.mp h
    cases h
    obtain ⟨rfl, named⟩ := (hosts _).mp read
    exact ⟨guard_iff.mp table, named, rfl⟩
  · rintro ⟨table, named, rfl⟩
    refine Option.bind_eq_some_iff.mpr ⟨(), guard_iff.mpr table, ?_⟩
    exact Option.bind_eq_some_iff.mpr ⟨_, (hosts _).mpr ⟨rfl, named⟩, rfl⟩

lemma commandRender_iff {result : Summary × ℕ} :
    commandRender address log status through = some result ↔
      (0 ≤ status ∧ status ≤ 255) ∧
      (safeText log.operation 64 = true ∧ operations.lookup log.operation = some log.phases) ∧
      Named address log.operation (hostsOf log.records) ∧
      throughPhases log.operation log.phases through = some (log.rendered through) ∧
      ∃ e, collect address log.operation (log.rendered through) (hostsOf log.records)
          (log.records.filter fun r => !r.isHost) = some e ∧ e.invalid = false ∧
        result = (⟨log.operation, e.complete log.operation (log.rendered through)
            (hostsOf log.records) status, e.rows log.operation (log.rendered through)
            (hostsOf log.records) status⟩,
          if status ≠ 0 ∨ e.complete log.operation (log.rendered through) (hostsOf log.records) status
          then 0 else 2) := by
  have phases : ∀ phases, throughPhases log.operation log.phases through = some phases ↔
      phases = log.rendered through ∧
        throughPhases log.operation log.phases through = some (log.rendered through) := by
    intro phases
    constructor
    · intro h
      have same : log.rendered through = phases := by rw [Log.rendered, h]; rfl
      exact ⟨same.symm, same ▸ h⟩
    · rintro ⟨rfl, h⟩
      exact h
  constructor
  · intro h
    obtain ⟨_, range, h⟩ := Option.bind_eq_some_iff.mp h
    obtain ⟨parsed, parse, h⟩ := Option.bind_eq_some_iff.mp h
    obtain ⟨table, named, rfl⟩ := parseRecords_iff.mp parse
    obtain ⟨seen, through_, h⟩ := Option.bind_eq_some_iff.mp h
    obtain ⟨e, collected, h⟩ := Option.bind_eq_some_iff.mp h
    obtain ⟨_, valid, h⟩ := Option.bind_eq_some_iff.mp h
    cases h
    obtain ⟨rfl, through_⟩ := (phases _).mp through_
    exact ⟨guard_iff.mp range, table, named, through_, e, collected, guard_iff.mp valid, rfl⟩
  · rintro ⟨range, table, named, through_, e, collected, valid, rfl⟩
    refine Option.bind_eq_some_iff.mpr ⟨(), guard_iff.mpr range, ?_⟩
    refine Option.bind_eq_some_iff.mpr ⟨_, parseRecords_iff.mpr ⟨table, named, rfl⟩, ?_⟩
    refine Option.bind_eq_some_iff.mpr ⟨_, through_, ?_⟩
    refine Option.bind_eq_some_iff.mpr ⟨e, collected, ?_⟩
    exact Option.bind_eq_some_iff.mpr ⟨(), guard_iff.mpr valid, rfl⟩

/-- Exactly these logs are accepted. -/
theorem renders_iff : (commandRender address log status through).isSome ↔
    Renders address log status through := by
  rw [Option.isSome_iff_exists]
  have other : ∀ r ∈ log.records.filter fun r => !r.isHost, r.isHost = false := fun r mem => by
    simpa using (List.mem_filter.mp mem).2
  constructor
  · rintro ⟨result, rendered⟩
    obtain ⟨range, table, named, gate, e, collected, valid, -⟩ := commandRender_iff.mp rendered
    obtain ⟨collects, fit⟩ := collect_collects collected
    exact ⟨range, table, named, throughPhases_eq.mp gate,
      (accepted_rest named).mp (collects.accepted (fit valid))⟩
  · intro h
    obtain ⟨e, collected, valid⟩ := collect_some other ((accepted_rest h.hosts).mpr h.records)
    exact ⟨_, commandRender_iff.mpr ⟨h.status, h.table, h.hosts, throughPhases_eq.mpr h.gate, e,
      collected, valid, rfl⟩⟩

lemma lookup_of_mem {α β : Type} [BEq α] [LawfulBEq α] {l : List (α × β)} {a : α} {b : β}
    (distinct : (l.map Prod.fst).Nodup) (mem : (a, b) ∈ l) : l.lookup a = some b := by
  obtain ⟨before, after, rfl⟩ := List.append_of_mem mem
  refine List.lookup_eq_some_iff.mpr ⟨before, after, rfl, fun g there => ?_⟩
  rw [List.map_append, List.nodup_append] at distinct
  exact bne_iff_ne.mpr fun same =>
    distinct.2.2 g.1 (List.mem_map_of_mem there) a (by simp) same.symm

lemma recap_bounded {phase host : String} {c : Counters}
    (accepted : Accepted address operation phases hosts records)
    (mem : c ∈ recapsOf records phase host) : c.bounded = true := by
  obtain ⟨r, there, same⟩ := List.mem_filterMap.mp mem
  have fit := accepted.fits r there
  cases r with
  | recap p h counters =>
    obtain ⟨-, ⟨⟩⟩ := Option.ite_none_right_eq_some.mp same
    simp only [fits, Bool.and_eq_true] at fit
    exact fit.1.2
  | _ => cases same

/-- The evidence is complete exactly for complete success. -/
theorem complete_iff (collects : Collects hosts records e) (valid : e.invalid = false)
    (accepted : Accepted address operation phases hosts records)
    (distinct : (hosts.map Prod.fst).Nodup)
    (first : ∀ role, ∃ phase ∈ phases, applicable role phase = true)
    (failover : operation ∈ failoverOperations → ∀ phase ∈ phases, ∀ role, applicable role phase = true) :
    e.complete operation phases hosts status = true ↔
      status = 0 ∧ Established operation phases hosts ∧ Succeeds operation phases hosts records := by
  have known : ∀ h ∈ hosts, (hosts.lookup h.1).isSome = true := fun h mem => by
    rw [lookup_of_mem distinct mem]
    rfl
  have done : ∀ phase, e.phaseStatus.lookup phase = some (some 0) ↔
      marksOf records phase = [none, some 0] := by
    intro phase
    rw [collects.phases]
    rcases e.phaseStatus.lookup phase with _ | _ | n <;> simp [marks]
  have recaps : ∀ h ∈ hosts, ∀ phase,
      (∃ c, e.recaps.lookup (phase, h.1) = some c ∧ c.fails operation phase = false) ↔
        ∃ c, recapsOf records phase h.1 = [c] ∧ Sound operation phase c := by
    intro h mem phase
    have same := collects.recaps phase h.1 (known h mem)
    have bounded : ∀ c ∈ recapsOf records phase h.1, c.bounded = true := fun c => recap_bounded accepted
    rw [same] at bounded ⊢
    cases found : e.recaps.lookup (phase, h.1) with
    | none => simp
    | some c => simpa using sound_iff (bounded c (by simp [found]))
  have reports : ∀ h ∈ hosts, ∀ phase, reportFails phase (e.failoverResults.lookup h.1) = false ↔
      ∃ r, reportsOf records h.1 = [r] ∧ Reported phase r := by
    intro h _ phase
    rw [collects.reports, reported_iff]
    cases e.failoverResults.lookup h.1 <;> simp
  have results : ∀ h ∈ hosts, e.hostResult operation phases status h.1 h.2 = .pass ↔
      h.2 ≠ "N/A" ∧ status = 0 ∧ ∀ phase ∈ phases, applicable h.2 phase = true →
        marksOf records phase = [none, some 0] ∧ (phase ≠ "inventory" →
          (∃ c, recapsOf records phase h.1 = [c] ∧ Sound operation phase c) ∧
          (operation ∈ failoverOperations → ∃ r, reportsOf records h.1 = [r] ∧ Reported phase r)) := by
    intro h mem
    rw [hostResult_pass (first h.2)]
    refine and_congr_right fun _ => and_congr_right fun _ => forall₃_congr fun phase _ applies => ?_
    rw [phaseResult_pass applies, done, recaps h mem, reports h mem]
  have size : rightSize operation hosts = true ↔ (operation ∈ openbaoOperations →
      hosts.length = if operation ∈ openbaoPkiOperations then 1 else 3) ∧
      (operation = "storage-apply" ∨ operation ∈ openbaoStorageOperations → hosts.length = 1) := by
    simp only [rightSize, Bool.and_eq_true, Bool.or_eq_true, decide_eq_true_eq]
    tauto
  have server : (!phases.any (startsWith · "rke2-deployment-runners-") ||
      hosts.any (·.2 = "server")) = true ↔
      ((∃ phase ∈ phases, startsWith phase "rke2-deployment-runners-" = true) →
        ∃ h ∈ hosts, h.2 = "server") := by
    rw [← List.any_eq_true, Bool.or_eq_true, Bool.not_eq_true', ← Bool.not_eq_true, ← imp_iff_not_or]
    simp
  unfold Evidence.complete
  simp only [valid, Bool.not_false, Bool.and_true, Bool.and_eq_true, decide_eq_true_eq,
    List.all_eq_true, size, server, done]
  constructor
  · rintro ⟨⟨⟨⟨⟨⟨some_, zero⟩, size⟩, server⟩, roles⟩, passed⟩, done⟩
    have passed := fun h mem => (results h mem).mp (passed h mem)
    refine ⟨zero, ⟨some_, size.1, size.2, roles, server⟩, done, ?_, ?_⟩
    · intro h mem phase listed other applies
      exact (((passed h mem).2.2 phase listed applies).2 other).1
    · intro failing h mem phase listed other
      exact (((passed h mem).2.2 phase listed (failover failing phase listed h.2)).2 other).2 failing
  · rintro ⟨zero, established, succeeds⟩
    refine ⟨⟨⟨⟨⟨⟨established.some, zero⟩, established.openbao, established.storage⟩,
      established.server⟩, established.roles⟩, fun h mem => (results h mem).mpr
        ⟨established.roles h mem, zero, fun phase listed applies => ⟨succeeds.done phase listed,
          fun other => ⟨succeeds.recaps h mem phase listed other applies,
            fun failover => succeeds.reports failover h mem phase listed other⟩⟩⟩⟩, succeeds.done⟩

/-- A rendering that reports a pass, and returns 0. -/
def Passes (address : String → Bool) (log : Log) (status : ℤ) (through : Option String) : Prop :=
  ∃ summary, commandRender address log status through = some (summary, 0) ∧ summary.overall = true

lemma passes_iff : Passes address log status through ↔ Renders address log status through ∧
    status = 0 ∧ Established log.operation (log.rendered through) (hostsOf log.records) ∧
    Succeeds log.operation (log.rendered through) (hostsOf log.records) log.records := by
  obtain ⟨marks, recaps, reports⟩ := @rest_eq log
  have same : Succeeds log.operation (log.rendered through) (hostsOf log.records)
      (log.records.filter fun r => !r.isHost) ↔
      Succeeds log.operation (log.rendered through) (hostsOf log.records) log.records := by
    refine ⟨fun h => ⟨fun p => marks p ▸ h.done p, fun g mem p => recaps p g.1 ▸ h.recaps g mem p,
      fun failover g mem => reports g.1 ▸ h.reports failover g mem⟩,
      fun h => ⟨fun p => (marks p).symm ▸ h.done p, fun g mem p => (recaps p g.1).symm ▸ h.recaps g mem p,
      fun failover g mem => (reports g.1).symm ▸ h.reports failover g mem⟩⟩
  have complete : ∀ e, collect address log.operation (log.rendered through) (hostsOf log.records)
      (log.records.filter fun r => !r.isHost) = some e → e.invalid = false →
      Renders address log status through →
      (e.complete log.operation (log.rendered through) (hostsOf log.records) status = true ↔
        status = 0 ∧ Established log.operation (log.rendered through) (hostsOf log.records) ∧
        Succeeds log.operation (log.rendered through) (hostsOf log.records) log.records) := by
    intro e collected valid renders
    rw [complete_iff (collect_collects collected).1 valid ((accepted_rest renders.hosts).mpr renders.records)
      renders.hosts.distinct (rendered_first renders.table.2 (throughPhases_eq.mpr renders.gate))
      (failover_applicable renders.table.2), same]
  constructor
  · rintro ⟨summary, rendered, passed⟩
    have renders := renders_iff.mp (Option.isSome_iff_exists.mpr ⟨_, rendered⟩)
    obtain ⟨-, -, -, -, e, collected, valid, result⟩ := commandRender_iff.mp rendered
    obtain ⟨rfl, -⟩ := Prod.mk.inj result
    exact ⟨renders, (complete e collected valid renders).mp passed⟩
  · rintro ⟨renders, succeeds⟩
    obtain ⟨result, rendered⟩ := Option.isSome_iff_exists.mp (renders_iff.mpr renders)
    obtain ⟨-, -, -, -, e, collected, valid, rfl⟩ := commandRender_iff.mp rendered
    have passed := (complete e collected valid renders).mpr succeeds
    rw [if_pos (.inr passed)] at rendered
    exact ⟨_, rendered, passed⟩

/-! ## The order of the records -/

lemma Ordered.perm {m m' : List (Option ℤ)} (h : Ordered m) (h' : Ordered m') (perm : m.Perm m') :
    m = m' := by
  have length := perm.length_eq
  rcases h with rfl | rfl | ⟨n, rfl⟩
  · exact (List.length_eq_zero_iff.mp length.symm).symm
  · exact (List.singleton_perm.mp perm)
  · rcases h' with rfl | rfl | ⟨n', rfl⟩
    · cases length
    · cases length
    · have mem : some n ∈ [none, some n'] := perm.subset (by simp)
      simp at mem
      rw [mem]

lemma Established.perm {hosts' : Hosts} (h : Established operation phases hosts) (perm : hosts.Perm hosts') :
    Established operation phases hosts' := by
  refine ⟨fun none_ => h.some (List.perm_nil.mp (none_ ▸ perm)), ?_, ?_, ?_, fun needed => ?_⟩
  · rw [← perm.length_eq]
    exact h.openbao
  · rw [← perm.length_eq]
    exact h.storage
  · exact fun g mem => h.roles g (perm.mem_iff.mpr mem)
  · obtain ⟨g, mem, server⟩ := h.server needed
    exact ⟨g, perm.mem_iff.mp mem, server⟩

lemma Succeeds.perm {hosts' : Hosts} {records' : List Record} (h : Succeeds operation phases hosts records)
    (perm : records.Perm records') (same : hosts.Perm hosts')
    (ordered : ∀ phase, Ordered (marksOf records' phase)) :
    Succeeds operation phases hosts' records' := by
  refine ⟨fun phase listed => ?_, fun g mem phase listed other applies => ?_,
    fun failover g mem phase listed other => ?_⟩
  · have marks := h.done phase listed
    rw [← marks]
    refine (Ordered.perm ?_ (ordered phase) (perm.filterMap _)).symm
    exact .inr (.inr ⟨0, marks⟩)
  · obtain ⟨c, one, sound⟩ := h.recaps g (same.mem_iff.mpr mem) phase listed other applies
    have moved : (recapsOf records phase g.1).Perm (recapsOf records' phase g.1) := perm.filterMap _
    rw [one] at moved
    exact ⟨c, (List.singleton_perm.mp moved).symm, sound⟩
  · obtain ⟨r, one, reported⟩ := h.reports failover g (same.mem_iff.mpr mem) phase listed other
    have moved : (reportsOf records g.1).Perm (reportsOf records' g.1) := perm.filterMap _
    rw [one] at moved
    exact ⟨r, (List.singleton_perm.mp moved).symm, reported⟩

lemma passes_perm {records : List Record} (perm : log.records.Perm records)
    (accepted : Renders address { log with records := records } status through)
    (passes : Passes address log status through) :
    Passes address { log with records := records } status through := by
  obtain ⟨-, zero, established, succeeds⟩ := passes_iff.mp passes
  have hosts : (hostsOf log.records).Perm (hostsOf records) := perm.filterMap _
  exact passes_iff.mpr ⟨accepted, zero, established.perm hosts,
    succeeds.perm perm hosts accepted.records.phases⟩

/-- The verdict is a pass, with 0 as what is returned, exactly for a log that is accepted under
status 0, with the hosts that the operation requires and complete success, whatever the order of
the records: two accepted logs with the same records in another order have the same verdict. -/
theorem overall_pass_iff (address : String → Bool) (log : Log) (status : ℤ) (through : Option String) :
    (Passes address log status through ↔
      (commandRender address log status through).isSome ∧ status = 0 ∧
      Established log.operation (log.rendered through) (hostsOf log.records) ∧
      Succeeds log.operation (log.rendered through) (hostsOf log.records) log.records) ∧
    ∀ records, log.records.Perm records →
      (commandRender address log status through).isSome →
      (commandRender address { log with records := records } status through).isSome →
      (Passes address log status through ↔
        Passes address { log with records := records } status through) := by
  refine ⟨?_, fun records perm first second => ⟨?_, ?_⟩⟩
  · rw [renders_iff]
    exact passes_iff
  · exact passes_perm perm (renders_iff.mp second)
  · exact @passes_perm _ { log with records := records } _ _ _ perm.symm (renders_iff.mp first)

end PlatformConfig.Operation
