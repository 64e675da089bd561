import PlatformConfig.StoragePreflight

/-!
# What the storage checks guarantee

The rows of a volume group ask for whole extents: a missing volume for its rounded size, a volume at
its source size for what it grows by. Over the integers the tables of the preflight count each row
that reuses its volume group once. They are exact as long as no running total reaches `2 ^ 63`, and
the free space that passes holds every request in any order and the largest required free space,
unless a row shares the volume group without reusing it.
-/
namespace PlatformConfig.StorageHeadroom

open StorageRows ExtentArithmetic StoragePreflight

/-! ## Tables -/

theorem lookup_filter_ne {t : Table} {key vg : String} (other : vg ≠ key) :
    (t.filter fun p => p.1 ≠ key).lookup vg = t.lookup vg := by
  induction t with
  | nil => rfl
  | cons p t ih =>
    by_cases same : p.1 = key
    · have differs : (vg == p.1) = false := by simp [same, other]
      rw [List.filter_cons_of_neg (by simpa using same), ih, List.lookup_cons, differs]
    · rw [List.filter_cons_of_pos (by simpa using same), List.lookup_cons, List.lookup_cons, ih]

@[simp]
theorem amount_put (t : Table) (key vg : String) (n : ℤ) :
    (t.put key n).amount vg = if vg = key then n else t.amount vg := by
  by_cases same : vg = key
  · simp [Table.put, Table.amount, same]
  · have : (vg == key) = false := by simpa using same
    rw [if_neg same, Table.amount, Table.put, List.lookup_cons, this, lookup_filter_ne same]
    rfl

@[simp]
theorem mem_keys_put (t : Table) (key vg : String) (n : ℤ) :
    vg ∈ (t.put key n).keys ↔ vg = key ∨ vg ∈ t.keys := by
  by_cases same : vg = key <;> simp [Table.keys, Table.put, same]

/-! ## Sizes -/

def gibBytes (gib : ℕ) : ℕ := gib * 2 ^ 30

theorem gibBytes_lt {gib : ℕ} (h : gib ≤ 1000000) : gibBytes gib < 2 ^ 51 := by
  simp only [gibBytes]
  omega

theorem requested_exact {gib : ℕ} (h : gib ≤ 1000000) :
    (requestedBytes gib).Unwrapped ∧ (requestedBytes gib).value = gibBytes gib := by
  have unwrapped : (requestedBytes gib).Unwrapped := by
    simp only [requestedBytes, Expr.Unwrapped, Expr.exact, InRange]
    omega
  refine ⟨unwrapped, ?_⟩
  rw [Expr.value_exact unwrapped]
  simp only [requestedBytes, Expr.exact, gibBytes]
  push_cast
  ring

theorem rounded_exact {n extent : ℕ} (size : n < 2 ^ 51) (positive : 0 < extent)
    (below : extent < 2 ^ 60) :
    (roundedBytes n extent).Unwrapped ∧ (roundedBytes n extent).value = roundUp n extent := by
  have shifted : (n + extent - 1 : ℤ) = (n + extent - 1 : ℕ) := by omega
  have quotient : ((n + extent - 1 : ℕ) : ℤ).tdiv extent = ((n + extent - 1) / extent : ℕ) :=
    Int.ofNat_tdiv _ _
  have bound : (n + extent - 1) / extent ≤ n + extent - 1 := Nat.div_le_self _ _
  have rounded := roundUp_lt n positive
  have unwrapped : (roundedBytes n extent).Unwrapped := by
    have product : (((n + extent - 1) / extent : ℕ) : ℤ) * extent = (roundUp n extent : ℕ) :=
      (Nat.cast_mul _ _).symm
    simp only [roundedBytes, Expr.Unwrapped, Expr.exact, InRange, shifted, quotient, product]
    generalize (n + extent - 1) / extent = extents at bound
    omega
  refine ⟨unwrapped, ?_⟩
  rw [Expr.value_exact unwrapped]
  simp only [roundedBytes, Expr.exact, shifted, quotient, roundUp]
  push_cast
  rfl

def AllUnwrapped (log : List Expr) : Prop := ∀ e ∈ log, e.Unwrapped

@[simp]
theorem allUnwrapped_nil : AllUnwrapped [] := by simp [AllUnwrapped]

@[simp]
theorem allUnwrapped_append {log log' : List Expr} :
    AllUnwrapped (log ++ log') ↔ AllUnwrapped log ∧ AllUnwrapped log' := List.forall_mem_append

@[simp]
theorem allUnwrapped_singleton {e : Expr} : AllUnwrapped [e] ↔ e.Unwrapped := by simp [AllUnwrapped]

theorem rounding_exact {gib extent : ℕ} (size : gib ≤ 1000000) (below : extent < 2 ^ 60) :
    AllUnwrapped (rounding gib extent).2 ∧
      (rounding gib extent).1 = if 0 < extent then roundUp (gibBytes gib) extent else 0 := by
  obtain ⟨unwrapped, value⟩ := requested_exact size
  by_cases positive : 0 < extent
  · obtain ⟨unwrapped', value'⟩ := rounded_exact (gibBytes_lt size) positive below
    have : (0 : ℤ) < extent := by omega
    simp only [rounding, if_pos this, if_pos positive, value]
    refine ⟨?_, value'⟩
    simp [AllUnwrapped, unwrapped, unwrapped']
  · have : ¬ (0 : ℤ) < extent := by omega
    simp [rounding, positive, unwrapped]

@[simp]
theorem reported_eq (s : Sectors) : s.reported = s.bytes := by
  have below := s.below
  have whole : 512 ∣ s.bytes := Dvd.intro _ rfl
  have exact : printed s.bytes = s.bytes := printed_sectors whole (by simp only [Sectors.bytes]; omega)
  rw [Sectors.reported, exact, wrap_of_inRange]
  simp only [InRange, Sectors.bytes]
  omega

/-! ## What the rows ask for -/

/-- A row that is looked at, with the extent noted for its volume group by then, 0 without one. -/
abbrev Entry := Row × ℕ

/-- The rounded size. -/
def target (k : Entry) : ℕ := roundUp (gibBytes k.1.sizeGib) k.2

/-- The rounded size before a reviewed growth. -/
def source (k : Entry) : ℕ :=
  if k.1.growthFromSizeGib ≠ 0 then roundUp (gibBytes k.1.growthFromSizeGib) k.2 else target k

def lvBytes (host : Host) (row : Row) : Option ℕ := (host.lvSize (lvPath row)).map Sectors.bytes

def Missing (host : Host) (row : Row) : Prop := host.exists? (lvPath row) = false

/-- An existing volume is at its source size, below its rounded size. -/
def AtSource (host : Host) (k : Entry) : Prop :=
  ¬ Missing host k.1 ∧ lvBytes host k.1 = some (source k) ∧ source k < target k

instance (host : Host) (row : Row) : Decidable (Missing host row) := by
  unfold Missing; infer_instance

instance (host : Host) (k : Entry) : Decidable (AtSource host k) := by
  unfold AtSource; infer_instance

/-- What the preflight counts for a missing volume. -/
def missingOf (host : Host) (k : Entry) : ℕ :=
  if k.1.reuse = true ∧ Missing host k.1 ∧ k.1.growthFromSizeGib = 0 ∧ 0 < k.2 then target k else 0

/-- The preflight counts the growth of a volume. -/
def Grows (host : Host) (k : Entry) : Prop := k.1.reuse = true ∧ 0 < k.2 ∧ AtSource host k

instance (host : Host) (k : Entry) : Decidable (Grows host k) := by
  unfold Grows; infer_instance

def growthOf (host : Host) (k : Entry) : ℕ := if Grows host k then target k - source k else 0

/-- The sum of a volume group. -/
def total (f : Entry → ℕ) (ks : List Entry) (vg : String) : ℕ :=
  ((ks.filter fun k => k.1.vg = vg).map f).sum

/-- The largest required free space. -/
def largest : List Row → ℕ
  | [] => 0
  | row :: rows => max (gibBytes row.requiredFreeGib) (largest rows)

/-- The largest required free space among the rows that reuse a volume group. -/
def reserve (rows : List Row) (vg : String) : ℕ :=
  largest (rows.filter fun row => row.vg = vg ∧ row.reuse = true)

theorem total_snoc (f : Entry → ℕ) (ks : List Entry) (k : Entry) (vg : String) :
    total f (ks ++ [k]) vg = total f ks vg + if vg = k.1.vg then f k else 0 := by
  by_cases same : k.1.vg = vg
  · simp [total, same]
  · have : vg ≠ k.1.vg := fun h => same h.symm
    simp [total, same, this]

theorem largest_append (rows rows' : List Row) :
    largest (rows ++ rows') = max (largest rows) (largest rows') := by
  induction rows with
  | nil => simp [largest]
  | cons row rows ih => simp [largest, ih, max_assoc]

theorem reserve_append (rows rows' : List Row) (vg : String) :
    reserve (rows ++ rows') vg = max (reserve rows vg) (reserve rows' vg) := by
  simp only [reserve, List.filter_append, largest_append]

theorem reserve_singleton (row : Row) (vg : String) : reserve [row] vg =
    if row.vg = vg ∧ row.reuse = true then gibBytes row.requiredFreeGib else 0 := by
  by_cases own : row.vg = vg ∧ row.reuse = true
  · simp [reserve, own, largest]
  · rw [reserve, List.filter_cons_of_neg (by simpa using own), if_neg own]
    rfl

theorem largest_le_iff {rows : List Row} {n : ℕ} :
    largest rows ≤ n ↔ ∀ row ∈ rows, gibBytes row.requiredFreeGib ≤ n := by
  induction rows with
  | nil => simp [largest]
  | cons row rows ih => simp [largest, ih]

/-! ## The rows that are looked at -/

/-- The devices and extents behind a row. -/
def look (host : Host) (seen : List String × Table) (row : Row) : List String × Table :=
  if row.device ∈ seen.1 then seen
  else (row.device :: seen.1, match (deviceLayout host row).2 with
    | none => seen.2
    | some extent => seen.2.put row.vg extent)

def entries (host : Host) (chain : List String) : List String × Table → List Row → List Entry
  | _, [] => []
  | seen, row :: rows =>
    if (reach host chain row).2 then
      let seen := look host seen row
      (row, (seen.2.amount row.vg).toNat) :: entries host chain seen rows
    else entries host chain seen rows

/-- The rows of a run that are not skipped, with their extents. -/
def lookedAt (host : Host) (rows : List Row) : List Entry :=
  ((rootDiscovery host).2.map fun chain => entries host chain ([], []) rows).getD []

/-- The extents of a table are those of the host. -/
def Noted (host : Host) (t : Table) : Prop :=
  ∀ vg, t.amount vg = 0 ∨ ∃ s, host.vgExtent vg = some s ∧ 0 < s.bytes ∧ t.amount vg = s.bytes

theorem deviceLayout_extent {host : Host} {row : Row} {extent : ℤ}
    (h : (deviceLayout host row).2 = some extent) :
    row.reuse = true ∧ ∃ s, host.vgExtent row.vg = some s ∧ 0 < s.bytes ∧ extent = s.bytes := by
  have owned : row.reuse = true ∧ ownedExtent host row = some extent := by
    simp only [deviceLayout, existingLayout] at h
    grind
  refine ⟨owned.1, ?_⟩
  have found := owned.2
  simp only [ownedExtent] at found
  split_ifs at found
  obtain ⟨reported, positive⟩ := Option.filter_eq_some_iff.mp found
  obtain ⟨s, group, same⟩ := Option.map_eq_some_iff.mp reported
  rw [reported_eq] at same
  have := of_decide_eq_true positive
  exact ⟨s, group, by omega, same.symm⟩

theorem look_noted {host : Host} {seen : List String × Table} {row : Row} (h : Noted host seen.2) :
    Noted host (look host seen row).2 := by
  simp only [look]
  split
  · exact h
  · cases found : (deviceLayout host row).2 with
    | none => exact h
    | some extent =>
      intro vg
      obtain ⟨_, s, group, positive, same⟩ := deviceLayout_extent found
      by_cases own : vg = row.vg
      · right
        subst own
        exact ⟨s, group, positive, by simp [same]⟩
      · simpa [own] using h vg

theorem noted_toNat {host : Host} {t : Table} (h : Noted host t) (vg : String) :
    ((t.amount vg).toNat : ℤ) = t.amount vg ∧ (t.amount vg).toNat < 2 ^ 60 := by
  obtain zero | ⟨s, _, _, same⟩ := h vg
  · simp [zero]
  · have := s.below
    simp only [same, Sectors.bytes]
    omega

/-! ## One row -/

/-- No total of the counted rows reaches `2 ^ 63` with one more row. -/
def Fits (host : Host) (ks : List Entry) (k : Entry) : Prop :=
  (missingOf host k ≠ 0 → total (missingOf host) ks k.1.vg + missingOf host k < 2 ^ 63) ∧
    (Grows host k → total (growthOf host) ks k.1.vg + target k < 2 ^ 63)

/-- The tables count the rows. -/
structure Counted (host : Host) (b : Books) (ks : List Entry) : Prop where
  missing : ∀ vg, b.missing.amount vg = total (missingOf host) ks vg
  growth : ∀ vg, b.growth.amount vg = total (growthOf host) ks vg

/-- The headroom is the largest one of the rows that reuse a volume group. -/
structure Reserved (b : Books) (ks : List Entry) : Prop where
  amount : ∀ vg, b.headroom.amount vg = reserve (ks.map Prod.fst) vg
  keys : ∀ vg, vg ∈ b.headroom.keys ↔ ∃ k ∈ ks, k.1.vg = vg ∧ k.1.reuse = true

theorem added_unwrapped {m n : ℕ} :
    (Expr.add (.num m) (.num n)).Unwrapped ↔ m + n < 2 ^ 63 := by
  simp only [Expr.Unwrapped, Expr.exact, InRange]
  omega

theorem grown_unwrapped {current rounded size : ℕ} (h : size ≤ rounded) :
    (grownBytes current rounded size).Unwrapped ↔ current + rounded < 2 ^ 63 := by
  simp only [grownBytes, Expr.Unwrapped, Expr.exact, InRange]
  omega

theorem target_pos {k : Entry} (h : 0 < k.2) : 0 < target k := by
  have := le_roundUp (gibBytes k.1.sizeGib) h
  have := k.1.size_pos
  simp only [target, gibBytes] at *
  omega

theorem sizes_le (row : Row) : row.sizeGib ≤ 1000000 ∧ row.requiredFreeGib ≤ 1000000 ∧
    row.growthFromSizeGib ≤ 1000000 := by
  have capacity := row.capacity_le
  have size := row.size_le
  rcases row.growth_lt with none | ⟨less, _⟩ <;> omega

theorem sourceRounding_exact (row : Row) {extent : ℕ} (below : extent < 2 ^ 60) :
    AllUnwrapped (sourceRounding row extent).2 ∧
      (sourceRounding row extent).1 = if 0 < extent then source (row, extent) else 0 := by
  obtain ⟨size, _, growth⟩ := sizes_le row
  obtain ⟨_, rounded⟩ := rounding_exact size below
  obtain ⟨unwrapped, grown⟩ := rounding_exact growth below
  by_cases reviewed : row.growthFromSizeGib ≠ 0
  · by_cases positive : 0 < extent
    · simp only [if_pos positive] at grown ⊢
      simp [sourceRounding, source, reviewed, positive, unwrapped, grown]
    · simp [sourceRounding, reviewed, positive]
  · simp [sourceRounding, source, target, reviewed, rounded]

section Row

variable {host : Host} {b : Books} {ks : List Entry} {row : Row} {extent : ℕ}

/-- Nothing is counted for an existing volume but its growth. -/
theorem reviewSize_exact (counted : Counted host b ks) (noted : b.extent.amount row.vg = extent)
    (below : extent < 2 ^ 60) (present : ¬ Missing host row) :
    (AllUnwrapped (reviewSize host b row).2.log ↔ AllUnwrapped b.log ∧ Fits host ks (row, extent)) ∧
      (Fits host ks (row, extent) → Counted host (reviewSize host b row).2 (ks ++ [(row, extent)])) := by
  have unmissed : missingOf host (row, extent) = 0 := by simp [missingOf, present]
  obtain ⟨size, _, _⟩ := sizes_le row
  obtain ⟨unwrapped, rounded⟩ := rounding_exact size below
  obtain ⟨unwrapped', sourced⟩ := sourceRounding_exact row below
  have uncounted (still : ¬ Grows host (row, extent)) (b' : Books)
      (missing : b'.missing = b.missing) (growth : b'.growth = b.growth) :
      Counted host b' (ks ++ [(row, extent)]) := by
    constructor <;> intro vg
    · simp [missing, counted.missing, total_snoc, unmissed]
    · simp [growth, counted.growth, total_snoc, growthOf, still]
  have free (still : ¬ Grows host (row, extent)) : Fits host ks (row, extent) := by
    simp [Fits, unmissed, still]
  by_cases reuse : row.reuse = true
  · cases size : host.lvSize (lvPath row) with
    | none =>
      have still : ¬ Grows host (row, extent) := by simp [Grows, AtSource, lvBytes, size]
      simp only [reviewSize, if_pos reuse, noted, size, Option.map_none]
      exact ⟨by simp [unwrapped, unwrapped', free still], fun _ => uncounted still _ rfl rfl⟩
    | some s =>
      simp only [reviewSize, if_pos reuse, noted, size, Option.map_some, reported_eq]
      by_cases grows : Grows host (row, extent)
      · obtain ⟨-, positive, -, same, less⟩ := id grows
        have source_eq : s.bytes = source (row, extent) := by simpa [lvBytes, size] using same
        rw [if_pos positive] at rounded sourced
        have rounded_eq : (rounding row.sizeGib extent).1 = target (row, extent) := rounded
        have grown := counted.growth row.vg
        have fits : Fits host ks (row, extent) ↔
            (grownBytes (total (growthOf host) ks row.vg) (target (row, extent)) s.bytes).Unwrapped := by
          rw [grown_unwrapped (by omega)]
          simp [Fits, unmissed, grows]
        have first : 0 < (target (row, extent) : ℤ) ∧ ((s.bytes : ℤ) = source (row, extent) ∨
            (s.bytes : ℤ) = target (row, extent)) := by omega
        have second : (s.bytes : ℤ) = source (row, extent) ∧
            (source (row, extent) : ℤ) < target (row, extent) := by omega
        rw [rounded_eq, sourced, if_pos first, if_pos second, grown, fits]
        refine ⟨by simp [unwrapped, unwrapped'], fun fitting => ⟨fun vg => ?_, fun vg => ?_⟩⟩
        · simp [counted.missing, total_snoc, unmissed]
        · rw [Expr.value_exact fitting, amount_put, counted.growth, total_snoc]
          by_cases own : vg = row.vg
          · simp only [own, if_true, growthOf, if_pos grows, grownBytes, Expr.exact]
            omega
          · simp [own]
      · have inner : 0 < (rounding row.sizeGib extent).1 →
            ¬ ((s.bytes : ℤ) = (sourceRounding row extent).1 ∧
              (sourceRounding row extent).1 < (rounding row.sizeGib extent).1) := by
          rw [rounded, sourced]
          rintro positive ⟨same, less⟩
          have known : 0 < extent := by
            by_contra none
            simp [none] at positive
          rw [if_pos known] at same less
          rw [if_pos known] at less
          refine grows ⟨reuse, known, present, ?_, ?_⟩
          · simp only [lvBytes, size, Option.map_some]
            exact congrArg some (by exact_mod_cast same)
          · exact_mod_cast less
        split_ifs with outer both
        · exact absurd both (inner outer.1)
        · exact ⟨by simp [unwrapped, unwrapped', free grows], fun _ => uncounted grows _ rfl rfl⟩
        · exact ⟨by simp [unwrapped, unwrapped', free grows], fun _ => uncounted grows _ rfl rfl⟩
  · have still : ¬ Grows host (row, extent) := by simp [Grows, reuse]
    simp only [reviewSize, if_neg reuse]
    exact ⟨by simp [free still], fun _ => uncounted still _ rfl rfl⟩

/-- A missing volume is counted with its rounded size. -/
theorem reviewMissing_exact (counted : Counted host b ks) (noted : b.extent.amount row.vg = extent)
    (below : extent < 2 ^ 60) (missing : Missing host row) :
    (AllUnwrapped (reviewMissing b row).2.log ↔ AllUnwrapped b.log ∧ Fits host ks (row, extent)) ∧
      (Fits host ks (row, extent) → Counted host (reviewMissing b row).2 (ks ++ [(row, extent)])) := by
  have still : ¬ Grows host (row, extent) := fun h => h.2.2.1 missing
  obtain ⟨size, _, _⟩ := sizes_le row
  obtain ⟨unwrapped, rounded⟩ := rounding_exact size below
  have uncounted (none : missingOf host (row, extent) = 0) (b' : Books)
      (same : b'.missing = b.missing) (growth : b'.growth = b.growth) :
      Counted host b' (ks ++ [(row, extent)]) := by
    constructor <;> intro vg
    · simp [same, counted.missing, total_snoc, none]
    · simp [growth, counted.growth, total_snoc, growthOf, still]
  by_cases asked : row.reuse = true ∧ row.growthFromSizeGib = 0
  · by_cases positive : 0 < extent
    · have counts : missingOf host (row, extent) = target (row, extent) := by
        simp [missingOf, asked, missing, positive]
      have known : (0 : ℤ) < extent := by omega
      have rounded_eq : (rounding row.sizeGib extent).1 = target (row, extent) := by
        rw [rounded, if_pos positive]
        rfl
      have nonzero : 0 < target (row, extent) := target_pos positive
      have fits : Fits host ks (row, extent) ↔ (Expr.add (.num (total (missingOf host) ks row.vg))
          (.num (target (row, extent)))).Unwrapped := by
        rw [added_unwrapped]
        simp only [Fits, counts, still, false_implies, and_true]
        omega
      simp only [reviewMissing, if_pos asked, noted, if_pos known, rounded_eq, counted.missing]
      refine ⟨by simp [unwrapped, fits], fun fitting => ⟨fun vg => ?_, fun vg => ?_⟩⟩
      · rw [Expr.value_exact (fits.mp fitting), amount_put, counted.missing, total_snoc, counts]
        by_cases own : vg = row.vg
        · simp [own, Expr.exact]
        · simp [own]
      · simp [counted.growth, total_snoc, growthOf, still]
    · have none : missingOf host (row, extent) = 0 := by simp [missingOf, positive]
      have unknown : ¬ (0 : ℤ) < extent := by omega
      simp only [reviewMissing, if_pos asked, noted, if_neg unknown]
      exact ⟨by simp [unwrapped, Fits, none, still], fun _ => uncounted none _ rfl rfl⟩
  · have none : missingOf host (row, extent) = 0 := by
      rw [missingOf, if_neg]
      exact fun h => asked ⟨h.1, h.2.2.1⟩
    simp only [reviewMissing, if_neg asked]
    exact ⟨by simp [Fits, none, still], fun _ => uncounted none _ rfl rfl⟩

theorem reviewVolume_exact (counted : Counted host b ks) (noted : b.extent.amount row.vg = extent)
    (below : extent < 2 ^ 60) :
    (AllUnwrapped (reviewVolume host b row).2.1.log ↔
        AllUnwrapped b.log ∧ Fits host ks (row, extent)) ∧
      (Fits host ks (row, extent) →
        Counted host (reviewVolume host b row).2.1 (ks ++ [(row, extent)])) := by
  by_cases present : host.exists? (lvPath row) = true
  · simp only [reviewVolume, if_pos present]
    exact reviewSize_exact counted noted below (by simp [Missing, present])
  · simp only [reviewVolume, if_neg present]
    exact reviewMissing_exact counted noted below (by simpa [Missing] using present)

/-- The volumes leave the devices, the extents and the headroom alone. -/
theorem reviewVolume_frame (host : Host) (b : Books) (row : Row) :
    (reviewVolume host b row).2.1.checked = b.checked ∧
      (reviewVolume host b row).2.1.extent = b.extent ∧
      (reviewVolume host b row).2.1.headroom = b.headroom := by
  simp only [reviewVolume, reviewSize, reviewMissing]
  split_ifs <;> grind

/-- What the device of a row adds to the books. -/
structure Opened (host : Host) (b b' : Books) (row : Row) : Prop where
  seen : (b'.checked, b'.extent) = look host (b.checked, b.extent) row
  missing : b'.missing = b.missing
  growth : b'.growth = b.growth
  amount : ∀ vg, b'.headroom.amount vg = b.headroom.amount vg
  kept : ∀ vg ∈ b.headroom.keys, vg ∈ b'.headroom.keys
  added : ∀ vg ∈ b'.headroom.keys, vg ∈ b.headroom.keys ∨ vg = row.vg ∧ row.reuse = true
  log : AllUnwrapped b'.log ↔ AllUnwrapped b.log

theorem reviewDevice_opened (host : Host) (b : Books) (row : Row) :
    Opened host b (reviewDevice host b row).2 row := by
  by_cases seen : row.device ∈ b.checked
  · simp only [reviewDevice, if_pos seen]
    constructor <;> simp +contextual [look, seen]
  · have unwrapped := (requested_exact row.capacity_le).1
    cases found : (deviceLayout host row).2 with
    | none =>
      simp only [reviewDevice, if_neg seen, found, Books.note]
      constructor <;> simp +contextual [look, seen, found, unwrapped]
    | some extent =>
      have reuse := (deviceLayout_extent found).1
      simp only [reviewDevice, if_neg seen, found, Books.note]
      constructor
      case added =>
        intro vg member
        rcases (mem_keys_put ..).mp member with own | old
        · exact Or.inr ⟨own, reuse⟩
        · exact Or.inl old
      all_goals simp +contextual [look, seen, found, unwrapped]

/-- A row that reuses its volume group raises the headroom to what it requires. -/
theorem reviewHeadroom_reserved {b' : Books} (reserved : Reserved b ks)
    (amount : ∀ vg, b'.headroom.amount vg = b.headroom.amount vg)
    (kept : ∀ vg ∈ b.headroom.keys, vg ∈ b'.headroom.keys)
    (added : ∀ vg ∈ b'.headroom.keys, vg ∈ b.headroom.keys ∨ vg = row.vg ∧ row.reuse = true) :
    Reserved (reviewHeadroom b' row) (ks ++ [(row, extent)]) := by
  obtain ⟨_, free, _⟩ := sizes_le row
  have required := (requested_exact free).2
  by_cases reuse : row.reuse = true
  · simp only [reviewHeadroom, if_pos reuse]
    constructor <;> intro vg
    · rw [amount_put, amount, amount, reserved.amount, reserved.amount, required, List.map_append,
        reserve_append]
      by_cases own : vg = row.vg
      · subst own
        have last : reserve (List.map Prod.fst [(row, extent)]) row.vg = gibBytes row.requiredFreeGib := by
          simp [reserve_singleton, reuse]
        rw [if_pos rfl, last]
        split <;> omega
      · have : ¬ (row.vg = vg ∧ row.reuse = true) := fun h => own h.1.symm
        rw [List.map_singleton, reserve_singleton, if_neg this, if_neg own, max_eq_left (Nat.zero_le _)]
    · rw [mem_keys_put]
      have old := reserved.keys vg
      constructor
      · rintro (own | member)
        · exact ⟨(row, extent), by simp, own.symm, reuse⟩
        · rcases added vg member with before | ⟨own, _⟩
          · obtain ⟨k, inside, group⟩ := old.mp before
            exact ⟨k, by simp [inside], group⟩
          · exact ⟨(row, extent), by simp, own.symm, reuse⟩
      · rintro ⟨k, inside, group, used⟩
        rcases List.mem_append.mp inside with before | last
        · exact Or.inr (kept vg (old.mpr ⟨k, before, group, used⟩))
        · rw [List.mem_singleton.mp last] at group
          exact Or.inl group.symm
  · simp only [reviewHeadroom, if_neg reuse]
    constructor <;> intro vg
    · rw [amount, reserved.amount, List.map_append, reserve_append]
      simp [reserve_singleton, reuse]
    · have old := reserved.keys vg
      have same : vg ∈ b'.headroom.keys ↔ vg ∈ b.headroom.keys := by
        constructor
        · intro member
          simpa [reuse] using added vg member
        · exact kept vg
      rw [same, old]
      simp [reuse]

section Reached

variable {chain : List String} (reached : (reach host chain row).2 = true)

include reached

theorem reviewRow_books : (reviewRow host chain b row).2 =
    reviewHeadroom (reviewVolume host (reviewDevice host b row).2 row).2.1 row := by
  simp only [reviewRow, reached, if_true]

/-- The devices and extents behind a row do not depend on what was counted. -/
theorem reviewRow_seen : ((reviewRow host chain b row).2.checked, (reviewRow host chain b row).2.extent) =
    look host (b.checked, b.extent) row := by
  obtain ⟨checked, extents, _⟩ := reviewVolume_frame host (reviewDevice host b row).2 row
  rw [reviewRow_books reached, ← (reviewDevice_opened host b row).seen, ← checked, ← extents,
    reviewHeadroom]
  split <;> rfl

theorem reviewRow_noted (noted : Noted host b.extent) :
    Noted host (reviewRow host chain b row).2.extent := by
  have extents : (reviewRow host chain b row).2.extent = (look host (b.checked, b.extent) row).2 :=
    congrArg Prod.snd (reviewRow_seen reached)
  rw [extents]
  exact look_noted noted

theorem reviewRow_reserved (reserved : Reserved b ks) (extent : ℕ) :
    Reserved (reviewRow host chain b row).2 (ks ++ [(row, extent)]) := by
  have opened := reviewDevice_opened host b row
  obtain ⟨_, _, headroom⟩ := reviewVolume_frame host (reviewDevice host b row).2 row
  rw [reviewRow_books reached]
  apply reviewHeadroom_reserved reserved
  · rw [headroom]
    exact opened.amount
  · rw [headroom]
    exact opened.kept
  · rw [headroom]
    exact opened.added

/-- The expressions of a row are exact if and only if it fits, and then it is counted. -/
theorem reviewRow_counted (counted : Counted host b ks) (noted : Noted host b.extent) :
    let k : Entry := (row, ((look host (b.checked, b.extent) row).2.amount row.vg).toNat)
    (AllUnwrapped (reviewRow host chain b row).2.log ↔ AllUnwrapped b.log ∧ Fits host ks k) ∧
      (Fits host ks k → Counted host (reviewRow host chain b row).2 (ks ++ [k])) := by
  intro k
  have opened := reviewDevice_opened host b row
  have extents : (reviewDevice host b row).2.extent = (look host (b.checked, b.extent) row).2 :=
    congrArg Prod.snd opened.seen
  have noted' : Noted host (look host (b.checked, b.extent) row).2 := look_noted noted
  obtain ⟨cast, below⟩ := noted_toNat noted' row.vg
  have counted' : Counted host (reviewDevice host b row).2 ks := by
    constructor
    · rw [opened.missing]
      exact counted.missing
    · rw [opened.growth]
      exact counted.growth
  have entry : (reviewDevice host b row).2.extent.amount row.vg = (k.2 : ℤ) := by rw [extents, cast]
  obtain ⟨log, count⟩ := reviewVolume_exact counted' entry below
  obtain ⟨_, free, _⟩ := sizes_le row
  have unwrapped := (requested_exact free).1
  rw [reviewRow_books reached, ← opened.log, ← log, reviewHeadroom]
  split
  · refine ⟨by simp [unwrapped], fun fits => ?_⟩
    exact ⟨(count fits).missing, (count fits).growth⟩
  · exact ⟨Iff.rfl, count⟩

end Reached

theorem reviewVolume_log (h : AllUnwrapped (reviewVolume host b row).2.1.log) :
    AllUnwrapped b.log := by
  simp only [reviewVolume, reviewSize, reviewMissing] at h
  grind [allUnwrapped_append]

theorem reviewRow_log {chain : List String} (h : AllUnwrapped (reviewRow host chain b row).2.log) :
    AllUnwrapped b.log := by
  by_cases reached : (reach host chain row).2 = true
  · rw [← (reviewDevice_opened host b row).log]
    simp only [reviewRow, reached, if_true, reviewHeadroom] at h
    split at h
    · exact reviewVolume_log (allUnwrapped_append.mp h).1
    · exact reviewVolume_log h
  · simpa [reviewRow, reached] using h

end Row

/-! ## All rows -/

def RunFits (host : Host) : List Entry → List Entry → Prop
  | _, [] => True
  | ks, k :: rest => Fits host ks k ∧ RunFits host (ks ++ [k]) rest

section Run

variable {host : Host} {chain : List String}

theorem reviewRows_log {rows : List Row} {b : Books}
    (h : AllUnwrapped (reviewRows host chain b rows).2.log) : AllUnwrapped b.log := by
  induction rows generalizing b with
  | nil => exact h
  | cons row rows ih => exact reviewRow_log (ih h)

/-- The expressions of a run are exact if and only if every row fits behind those before it. -/
theorem reviewRows_exact (rows : List Row) {b : Books} {ks : List Entry}
    (counted : AllUnwrapped b.log → Counted host b ks) (reserved : Reserved b ks)
    (noted : Noted host b.extent) :
    let ks' := entries host chain (b.checked, b.extent) rows
    let after := (reviewRows host chain b rows).2
    (AllUnwrapped after.log ↔ AllUnwrapped b.log ∧ RunFits host ks ks') ∧
      (AllUnwrapped after.log → Counted host after (ks ++ ks')) ∧ Reserved after (ks ++ ks') := by
  induction rows generalizing b ks with
  | nil => simpa [entries, reviewRows, RunFits] using And.intro counted reserved
  | cons row rows ih =>
    by_cases reached : (reach host chain row).2 = true
    · let k : Entry := (row, ((look host (b.checked, b.extent) row).2.amount row.vg).toNat)
      have reserved' := reviewRow_reserved reached reserved k.2
      have noted' := reviewRow_noted reached noted
      have step : AllUnwrapped (reviewRow host chain b row).2.log ↔
          AllUnwrapped b.log ∧ Fits host ks k := by
        by_cases exact_before : AllUnwrapped b.log
        · exact (reviewRow_counted reached (counted exact_before) noted).1
        · constructor
          · intro h
            exact absurd (reviewRow_log h) exact_before
          · intro h
            exact absurd h.1 exact_before
      have counted' : AllUnwrapped (reviewRow host chain b row).2.log →
          Counted host (reviewRow host chain b row).2 (ks ++ [k]) := by
        intro h
        obtain ⟨exact_before, fits⟩ := step.mp h
        exact (reviewRow_counted reached (counted exact_before) noted).2 fits
      obtain ⟨log, count, reserve⟩ := ih counted' reserved' noted'
      rw [step, and_assoc, reviewRow_seen reached] at log
      rw [reviewRow_seen reached, List.append_assoc] at count reserve
      simp only [entries, reached, if_true, RunFits, reviewRows]
      exact ⟨log, count, reserve⟩
    · have same : (reviewRow host chain b row).2 = b := by simp [reviewRow, reached]
      simp only [entries, reached, reviewRows, same]
      exact ih counted reserved noted

end Run

/-- What the free space of a volume group has to hold, over the integers. -/
def need (host : Host) (rows : List Row) (vg : String) : ℕ :=
  total (missingOf host) (lookedAt host rows) vg + total (growthOf host) (lookedAt host rows) vg +
    reserve ((lookedAt host rows).map Prod.fst) vg

/-- No running total and no requirement reaches `2 ^ 63` bytes. -/
def Bounded (host : Host) (rows : List Row) : Prop :=
  RunFits host [] (lookedAt host rows) ∧ ∀ vg, need host rows vg < 2 ^ 63

/-- The loop over the rows, which runs behind a root source only. -/
def reviewed (host : Host) (rows : List Row) : List (Row × List Finding) × Books :=
  ((rootDiscovery host).2.map fun chain => reviewRows host chain .empty rows).getD ([], .empty)

theorem total_eq_zero (host : Host) {ks : List Entry} {vg : String}
    (none : ¬ ∃ k ∈ ks, k.1.vg = vg ∧ k.1.reuse = true) :
    total (missingOf host) ks vg = 0 ∧ total (growthOf host) ks vg = 0 ∧
      reserve (ks.map Prod.fst) vg = 0 := by
  simp only [not_exists, not_and] at none
  refine ⟨?_, ?_, ?_⟩
  · apply List.sum_eq_zero
    simp only [List.mem_map, List.mem_filter, decide_eq_true_eq]
    rintro n ⟨k, ⟨inside, group⟩, rfl⟩
    simp [missingOf, none k inside group]
  · apply List.sum_eq_zero
    simp only [List.mem_map, List.mem_filter, decide_eq_true_eq]
    rintro n ⟨k, ⟨inside, group⟩, rfl⟩
    simp [growthOf, Grows, none k inside group]
  · apply Nat.le_zero.mp
    rw [reserve, largest_le_iff]
    intro row member
    simp only [List.mem_filter, List.mem_map, decide_eq_true_eq] at member
    obtain ⟨⟨k, inside, rfl⟩, group, reuse⟩ := member
    exact absurd reuse (none k inside group)

theorem empty_counted (host : Host) : Counted host .empty [] := by
  constructor <;> intro vg <;> rfl

theorem empty_reserved : Reserved .empty [] := by
  constructor <;> intro vg
  · rfl
  · simp [Books.empty, Table.keys]

theorem empty_noted (host : Host) : Noted host Books.empty.extent := fun _ => Or.inl rfl

section Review

variable {host : Host} {rows : List Row}

/-- The books behind the loop: exact if and only if every row fits. -/
theorem reviewed_exact (host : Host) (rows : List Row) :
    (AllUnwrapped (reviewed host rows).2.log ↔ RunFits host [] (lookedAt host rows)) ∧
      (AllUnwrapped (reviewed host rows).2.log →
        Counted host (reviewed host rows).2 (lookedAt host rows)) ∧
      Reserved (reviewed host rows).2 (lookedAt host rows) := by
  cases found : (rootDiscovery host).2 with
  | none =>
    simp only [reviewed, lookedAt, found, Option.map_none, Option.getD_none]
    exact ⟨by simp [Books.empty, RunFits], fun _ => empty_counted host, empty_reserved⟩
  | some chain =>
    obtain ⟨log, count, reserve⟩ := @reviewRows_exact host chain rows _ _
      (fun _ => empty_counted host) empty_reserved (empty_noted host)
    simp only [reviewed, lookedAt, found, Option.map_some, Option.getD_some]
    refine ⟨?_, count, reserve⟩
    rw [log]
    simp [Books.empty]

theorem required_unwrapped {b : Books} {ks : List Entry} (counted : Counted host b ks)
    (reserved : Reserved b ks) (vg : String) :
    ((requiredBytes b vg).Unwrapped ↔ total (missingOf host) ks vg + total (growthOf host) ks vg +
      reserve (ks.map Prod.fst) vg < 2 ^ 63) ∧
    (requiredBytes b vg).exact = (total (missingOf host) ks vg + total (growthOf host) ks vg +
      reserve (ks.map Prod.fst) vg : ℕ) := by
  simp only [requiredBytes, Expr.Unwrapped, Expr.exact, InRange, counted.missing, counted.growth,
    reserved.amount]
  push_cast
  omega

/-- No step of the shell's arithmetic wraps if and only if the exact totals are bounded. -/
theorem review_unwrapped (free : String → Option Sectors) :
    AllUnwrapped (review host free rows).log ↔ Bounded host rows := by
  obtain ⟨log, count, reserved⟩ := reviewed_exact host rows
  have split : AllUnwrapped (review host free rows).log ↔ AllUnwrapped (reviewed host rows).2.log ∧
      ∀ vg ∈ (reviewed host rows).2.headroom.keys, (requiredBytes (reviewed host rows).2 vg).Unwrapped := by
    simp only [review, reviewed, AllUnwrapped, List.forall_mem_append, List.forall_mem_map]
  rw [split, log, Bounded]
  apply and_congr_right
  intro fits
  have counted := count (log.mpr fits)
  constructor
  · intro exact_groups vg
    by_cases member : vg ∈ (reviewed host rows).2.headroom.keys
    · exact (required_unwrapped counted reserved vg).1.mp (exact_groups vg member)
    · obtain ⟨missing, growth, headroom⟩ := total_eq_zero host (mt (reserved.keys vg).mpr member)
      simp [need, missing, growth, headroom]
  · intro bounded vg _
    exact (required_unwrapped counted reserved vg).1.mpr (bounded vg)

end Review

/-! ## Rows whose checks pass -/

def Passes (findings : List Finding) : Prop := ∀ f ∈ findings, f.passed = true

theorem passes_append {findings findings' : List Finding} :
    Passes (findings ++ findings') ↔ Passes findings ∧ Passes findings' := List.forall_mem_append

theorem not_passes_fail (findings : List Finding) (check message : String) :
    ¬ Passes (findings ++ [fail check message]) := by
  simp [Passes, fail]

/-- A row that is skipped has a failed check. -/
theorem reach_of_passes {host : Host} {chain : List String} {row : Row} :
    Passes (reach host chain row).1 → (reach host chain row).2 = true := by
  simp only [reach]
  split_ifs with block stable real
  · exact fun h => absurd h (not_passes_fail [] _ _)
  · exact fun h => absurd h (not_passes_fail [] _ _)
  · exact fun h => absurd h (not_passes_fail [] _ _)
  · split
    · exact fun h => absurd h (not_passes_fail [] _ _)
    · exact fun h => absurd h (not_passes_fail [] _ _)
    · split
      · exact fun h => absurd h (not_passes_fail _ _ _)
      · exact fun _ => rfl

section Pass

variable {host : Host} {chain : List String} {b : Books} {row : Row}

theorem rounding_zero {gib : ℕ} {extent : ℤ} (h : ¬ 0 < extent) : (rounding gib extent).1 = 0 := by
  simp [rounding, h]

theorem reviewSize_known (reuse : row.reuse = true) (h : Passes (reviewSize host b row).1) :
    0 < b.extent.amount row.vg := by
  by_contra unknown
  simp only [reviewSize, if_pos reuse, rounding_zero unknown, lt_irrefl, false_and, if_false] at h
  split at h
  · exact not_passes_fail [] _ _ h
  · exact not_passes_fail [] _ _ h

theorem reviewMissing_known (reuse : row.reuse = true) (none : row.growthFromSizeGib = 0)
    (h : Passes (reviewMissing b row).1) : 0 < b.extent.amount row.vg := by
  by_contra unknown
  simp only [reviewMissing, reuse, none, and_self, if_true, if_neg unknown] at h
  exact not_passes_fail [] _ _ h

/-- A row that passes and reuses its volume group knows its extent, and only a volume without growth
is missing. -/
theorem reviewRow_passes (h : Passes (reviewRow host chain b row).1) :
    (reach host chain row).2 = true ∧ (row.reuse = true →
      0 < (look host (b.checked, b.extent) row).2.amount row.vg ∧
        (Missing host row → row.growthFromSizeGib = 0)) := by
  have reached : (reach host chain row).2 = true := by
    by_contra skipped
    simp only [reviewRow, skipped] at h
    exact skipped (reach_of_passes h)
  refine ⟨reached, fun reuse => ?_⟩
  have extents : (reviewDevice host b row).2.extent = (look host (b.checked, b.extent) row).2 :=
    congrArg Prod.snd (reviewDevice_opened host b row).seen
  simp only [reviewRow, reached, if_true, passes_append] at h
  have volume := h.1.2
  rw [← extents]
  by_cases present : host.exists? (lvPath row) = true
  · simp only [reviewVolume, if_pos present] at volume
    have sizes : Passes (reviewSize host (reviewDevice host b row).2 row).1 := by
      intro f member
      exact volume f (by simp [member])
    exact ⟨reviewSize_known reuse sizes, by simp [Missing, present]⟩
  · simp only [reviewVolume, if_neg present] at volume
    have none : row.growthFromSizeGib = 0 := by
      by_contra reviewed
      have := volume (missingFinding row) (by simp)
      simp [missingFinding, reviewed, fail] at this
    have missing : Passes (reviewMissing (reviewDevice host b row).2 row).1 := by
      intro f member
      exact volume f (by simp [member])
    exact ⟨reviewMissing_known reuse none missing, fun _ => none⟩

end Pass

/-- The checks of a volume group's rows pass, behind a root source. -/
def RowsPass (host : Host) (rows : List Row) (vg : String) : Prop :=
  (rootDiscovery host).1.passed = true ∧
    ∀ p ∈ (reviewed host rows).1, p.1.vg = vg → Passes p.2

def extentBytes (host : Host) (vg : String) : ℕ := ((host.vgExtent vg).map Sectors.bytes).getD 0

/-- What a row asks its volume group for: the rounded size of a missing volume, what a volume at its
source size grows by, and nothing for a finished one. -/
def request (host : Host) (row : Row) : ℕ :=
  let k : Entry := (row, extentBytes host row.vg)
  if Missing host row then target k else if AtSource host k then target k - source k else 0

def requests (host : Host) (rows : List Row) (vg : String) : List ℕ :=
  (rows.filter fun row => row.vg = vg).map (request host)

theorem noted_known {host : Host} {t : Table} {vg : String} (noted : Noted host t)
    (positive : 0 < t.amount vg) :
    (t.amount vg).toNat = extentBytes host vg ∧ 0 < (t.amount vg).toNat := by
  rcases noted vg with zero | ⟨s, group, _, same⟩
  · omega
  · simp only [extentBytes, group, Option.map_some, Option.getD_some]
    omega

/-- The entries of a volume group whose rows pass are its rows, with its extent where they reuse it. -/
theorem entries_pass {host : Host} {chain : List String} {rows : List Row} {b : Books} {vg : String}
    (noted : Noted host b.extent)
    (h : ∀ p ∈ (reviewRows host chain b rows).1, p.1.vg = vg → Passes p.2) :
    let ks := (entries host chain (b.checked, b.extent) rows).filter fun k => k.1.vg = vg
    ks.map Prod.fst = (rows.filter fun row => row.vg = vg) ∧
      ∀ k ∈ ks, k.1.reuse = true → k.2 = extentBytes host vg ∧ 0 < k.2 ∧
        (Missing host k.1 → k.1.growthFromSizeGib = 0) := by
  induction rows generalizing b with
  | nil => simp [entries]
  | cons row rows ih =>
    simp only [reviewRows, List.forall_mem_cons] at h
    by_cases reached : (reach host chain row).2 = true
    · have rest := ih (reviewRow_noted reached noted) h.2
      rw [reviewRow_seen reached] at rest
      by_cases own : row.vg = vg
      · obtain ⟨_, known⟩ := reviewRow_passes (h.1 own)
        have noted' : Noted host (look host (b.checked, b.extent) row).2 := look_noted noted
        simp only [entries, reached, if_true, List.filter_cons, own, decide_true, List.map_cons,
          List.forall_mem_cons]
        refine ⟨congrArg (row :: ·) rest.1, fun reuse => ?_, rest.2⟩
        obtain ⟨positive, ungrown⟩ := known reuse
        rw [own] at positive
        obtain ⟨same, above⟩ := noted_known noted' positive
        exact ⟨same, above, ungrown⟩
      · simpa [entries, reached, own] using rest
    · have same : (reviewRow host chain b row).2 = b := by simp [reviewRow, reached]
      have other : row.vg ≠ vg := fun own => reached (reviewRow_passes (h.1 own)).1
      rw [same] at h
      simpa [entries, reached, other] using ih noted h.2

/-- Some row reuses the volume group. -/
def Reused (rows : List Row) (vg : String) : Prop := ∃ row ∈ rows, row.vg = vg ∧ row.reuse = true

/-- Every check for a volume group passes. -/
def ChecksPass (host : Host) (free : String → Option Sectors) (rows : List Row) (vg : String) : Prop :=
  (review host free rows).root.passed = true ∧
    (∀ p ∈ (review host free rows).rows, p.1.vg = vg → Passes p.2) ∧
      ∀ p ∈ (review host free rows).groups, p.1 = vg → p.2.passed = true

/-- The free space holds every request of a volume group, in any order, and leaves the largest
required free space. -/
def Roomy (host : Host) (free : String → Option Sectors) (rows : List Row) (vg : String) : Prop :=
  Room (((free vg).map Sectors.bytes).getD 0) (largest (rows.filter fun row => row.vg = vg))
    (requests host rows vg)

/-- A row that shares a volume group without reusing it has its volume, and requires no more free
space than the rows that reuse it. -/
def Covered (host : Host) (rows : List Row) (vg : String) : Prop :=
  ∀ row ∈ rows, row.vg = vg → row.reuse = true ∨
    (¬ Missing host row ∧ gibBytes row.requiredFreeGib ≤ reserve rows vg)

theorem rootDiscovery_fails {host : Host} (h : (rootDiscovery host).2 = none) :
    (rootDiscovery host).1.passed = false := by
  simp only [rootDiscovery] at *
  grind [fail]

section Group

variable {host : Host} {rows : List Row} {vg : String}

theorem lookedAt_pass (pass : RowsPass host rows vg) :
    let ks := (lookedAt host rows).filter fun k => k.1.vg = vg
    ks.map Prod.fst = (rows.filter fun row => row.vg = vg) ∧
      ∀ k ∈ ks, k.1.reuse = true → k.2 = extentBytes host vg ∧ 0 < k.2 ∧
        (Missing host k.1 → k.1.growthFromSizeGib = 0) := by
  obtain ⟨root, findings⟩ := pass
  cases found : (rootDiscovery host).2 with
  | none =>
    rw [rootDiscovery_fails found] at root
    cases root
  | some chain =>
    simp only [reviewed, found, Option.map_some, Option.getD_some] at findings
    simp only [lookedAt, found, Option.map_some, Option.getD_some]
    exact entries_pass (empty_noted host) findings

/-- What is counted for a row that reuses its volume group is what it asks for. -/
theorem counted_eq {k : Entry} (group : k.1.vg = vg) (known : k.1.reuse = true →
    k.2 = extentBytes host vg ∧ 0 < k.2 ∧ (Missing host k.1 → k.1.growthFromSizeGib = 0)) :
    missingOf host k + growthOf host k = if k.1.reuse = true then request host k.1 else 0 := by
  obtain ⟨row, extent⟩ := k
  by_cases reuse : row.reuse = true
  · obtain ⟨same, positive, ungrown⟩ := known reuse
    simp only at same positive group ungrown
    have own : (row, extentBytes host row.vg) = (row, extent) := by rw [group, same]
    by_cases missing : Missing host row
    · simp [missingOf, growthOf, Grows, AtSource, request, reuse, missing, ungrown missing, positive, own]
    · simp [missingOf, growthOf, Grows, request, reuse, missing, positive, own]
  · simp [missingOf, growthOf, Grows, reuse]

/-- The counted amounts are the requests of the rows that reuse the volume group. -/
theorem counted_sum (pass : RowsPass host rows vg) :
    total (missingOf host) (lookedAt host rows) vg + total (growthOf host) (lookedAt host rows) vg =
      ((rows.filter fun row => row.vg = vg).map fun row =>
        if row.reuse = true then request host row else 0).sum := by
  obtain ⟨same, known⟩ := lookedAt_pass pass
  rw [← same, List.map_map, total, total, ← List.sum_map_add]
  congr 1
  apply List.map_congr_left
  intro k member
  exact counted_eq (by simpa using (List.mem_filter.mp member).2) (known k member)

/-- The headroom is that of the rows that reuse the volume group. -/
theorem reserve_lookedAt (pass : RowsPass host rows vg) :
    reserve ((lookedAt host rows).map Prod.fst) vg = reserve rows vg := by
  have narrow (l : List Row) : reserve l vg =
      largest ((l.filter fun row => row.vg = vg).filter fun row => row.reuse = true) := by
    rw [List.filter_filter, reserve]
    congr 1
    apply List.filter_congr
    simp [and_comm]
  rw [narrow, narrow rows, ← (lookedAt_pass pass).1, List.filter_map]
  rfl

theorem used_keys (pass : RowsPass host rows vg) (used : Reused rows vg) :
    vg ∈ (reviewed host rows).2.headroom.keys ∧ 0 < extentBytes host vg := by
  obtain ⟨row, inside, group, reuse⟩ := used
  obtain ⟨same, known⟩ := lookedAt_pass pass
  have member : row ∈ rows.filter fun row => row.vg = vg := by simp [inside, group]
  rw [← same] at member
  obtain ⟨k, looked, rfl⟩ := List.mem_map.mp member
  obtain ⟨extent, positive, _⟩ := known k looked reuse
  refine ⟨?_, by omega⟩
  exact ((reviewed_exact host rows).2.2.keys vg).mpr ⟨k, (List.mem_filter.mp looked).1, group, reuse⟩

/-- In exact arithmetic the checks pass where the rows do and the free space holds the need. -/
theorem checksPass_iff (bounded : Bounded host rows) (used : Reused rows vg)
    (free : String → Option Sectors) : ChecksPass host free rows vg ↔
      RowsPass host rows vg ∧ ∃ s, free vg = some s ∧ need host rows vg ≤ s.bytes := by
  obtain ⟨log, count, reserved⟩ := reviewed_exact host rows
  have counted := count (log.mpr bounded.1)
  obtain ⟨unwrapped, value⟩ := required_unwrapped counted reserved vg
  have required : (requiredBytes (reviewed host rows).2 vg).value = need host rows vg := by
    rw [Expr.value_exact (unwrapped.mpr (bounded.2 vg)), value]
    rfl
  have verdict : (headroomFinding free (reviewed host rows).2 vg).passed = true ↔
      ∃ s, free vg = some s ∧ need host rows vg ≤ s.bytes := by
    cases found : free vg with
    | none => simp [headroomFinding, found, fail]
    | some s =>
      have bytes : (need host rows vg : ℤ) ≤ s.bytes ↔ need host rows vg ≤ s.bytes := Nat.cast_le
      simp only [headroomFinding, found, Option.map_some, required, reported_eq, bytes]
      split
      case isTrue enough => exact iff_of_true rfl ⟨s, rfl, enough⟩
      case isFalse short =>
        refine iff_of_false Bool.false_ne_true ?_
        rintro ⟨t, same, enough⟩
        cases same
        exact short enough
  rw [← verdict]
  have groups : (∀ p ∈ (review host free rows).groups, p.1 = vg → p.2.passed = true) ↔
      (vg ∈ (reviewed host rows).2.headroom.keys →
        (headroomFinding free (reviewed host rows).2 vg).passed = true) := by
    simp only [review, List.forall_mem_map]
    constructor
    · exact fun h member => h vg member rfl
    · rintro h key member rfl
      exact h member
  rw [ChecksPass, groups]
  constructor
  · intro h
    have pass : RowsPass host rows vg := ⟨h.1, h.2.1⟩
    exact ⟨pass, h.2.2 (used_keys pass used).1⟩
  · intro h
    exact ⟨h.1.1, h.1.2, fun _ => h.2⟩

/-- The requests are what is counted and what the rows ask for that do not reuse the group. -/
theorem requests_sum (pass : RowsPass host rows vg) : (requests host rows vg).sum =
    total (missingOf host) (lookedAt host rows) vg + total (growthOf host) (lookedAt host rows) vg +
      ((rows.filter fun row => row.vg = vg).map fun row =>
        if row.reuse = true then 0 else request host row).sum := by
  rw [counted_sum pass, ← List.sum_map_add, requests]
  congr 1
  apply List.map_congr_left
  intro row _
  split <;> simp

/-- A row that does not reuse its group asks for nothing if and only if its volume exists. -/
theorem request_unused {row : Row} (unused : row.reuse ≠ true) (positive : 0 < extentBytes host row.vg) :
    request host row = 0 ↔ ¬ Missing host row := by
  have ungrown : row.growthFromSizeGib = 0 := by
    rcases row.growth_lt with none | ⟨_, reuse⟩
    · exact none
    · exact absurd reuse unused
  have above : 0 < target (row, extentBytes host row.vg) := target_pos positive
  by_cases missing : Missing host row
  · have asked : request host row = target (row, extentBytes host row.vg) := if_pos missing
    rw [asked]
    exact iff_of_false above.ne' (not_not.mpr missing)
  · simp [request, missing, AtSource, source, ungrown]

/-- The need leaves room for every request if and only if the group is covered. -/
theorem covered_iff (pass : RowsPass host rows vg) (used : Reused rows vg) : Covered host rows vg ↔
    (requests host rows vg).sum + largest (rows.filter fun row => row.vg = vg) ≤ need host rows vg := by
  have positive := (used_keys pass used).2
  rw [requests_sum pass, need, reserve_lookedAt pass]
  have below : reserve rows vg ≤ largest (rows.filter fun row => row.vg = vg) := by
    rw [reserve, largest_le_iff]
    intro row member
    obtain ⟨inside, group, _⟩ := by simpa using member
    exact largest_le_iff.mp le_rfl row (by simp [inside, group])
  have reused : ∀ row ∈ rows, row.vg = vg → row.reuse = true →
      gibBytes row.requiredFreeGib ≤ reserve rows vg := by
    intro row inside group reuse
    exact largest_le_iff.mp le_rfl row (by simp [inside, group, reuse])
  constructor
  · intro covered
    have asked : ((rows.filter fun row => row.vg = vg).map fun row =>
        if row.reuse = true then 0 else request host row).sum = 0 := by
      apply List.sum_eq_zero
      intro n member
      obtain ⟨row, inside, rfl⟩ := List.mem_map.mp member
      obtain ⟨inside, group⟩ : row ∈ rows ∧ row.vg = vg := by simpa using inside
      split
      · rfl
      · rename_i unused
        refine (request_unused unused (by rwa [group])).mpr ?_
        exact ((covered row inside group).resolve_left unused).1
    have above : largest (rows.filter fun row => row.vg = vg) ≤ reserve rows vg := by
      rw [largest_le_iff]
      intro row member
      obtain ⟨inside, group⟩ : row ∈ rows ∧ row.vg = vg := by simpa using member
      rcases covered row inside group with reuse | ⟨_, enough⟩
      · exact reused row inside group reuse
      · exact enough
    omega
  · intro room row inside group
    by_cases reuse : row.reuse = true
    · exact Or.inl reuse
    · have member : row ∈ rows.filter fun row => row.vg = vg := by simp [inside, group]
      have free := largest_le_iff.mp le_rfl row member
      have asked : request host row ≤ ((rows.filter fun row => row.vg = vg).map fun row =>
          if row.reuse = true then 0 else request host row).sum := by
        apply List.single_le_sum (fun _ _ => Nat.zero_le _)
        exact List.mem_map.mpr ⟨row, member, if_neg reuse⟩
      have present := (request_unused reuse (by rwa [group])).mp (by omega)
      exact Or.inr ⟨present, by omega⟩

theorem dvd_roundUp_of_dvd {unit extent : ℕ} (h : unit ∣ extent) (n : ℕ) : unit ∣ roundUp n extent :=
  h.trans (dvd_roundUp n extent)

/-- What a volume group needs is a whole number of sectors. -/
theorem need_sectors (pass : RowsPass host rows vg) : 512 ∣ need host rows vg := by
  have whole : 512 ∣ extentBytes host vg := by
    cases found : host.vgExtent vg with
    | none => simp [extentBytes, found]
    | some s => simp [extentBytes, found, Sectors.bytes]
  have rounded (row : Row) (group : row.vg = vg) : 512 ∣ request host row := by
    simp only [request, target, source, group]
    split_ifs
    · exact dvd_roundUp_of_dvd whole _
    · exact Nat.dvd_sub (dvd_roundUp_of_dvd whole _) (dvd_roundUp_of_dvd whole _)
    · exact Nat.dvd_sub (dvd_roundUp_of_dvd whole _) (dvd_roundUp_of_dvd whole _)
    · exact dvd_zero _
  have headroom (l : List Row) : 512 ∣ largest l := by
    induction l with
    | nil => exact dvd_zero _
    | cons row l ih =>
      have free : 512 ∣ gibBytes row.requiredFreeGib := Dvd.dvd.mul_left (by norm_num) _
      rcases max_choice (gibBytes row.requiredFreeGib) (largest l) with same | same
      · rwa [largest, same]
      · rwa [largest, same]
  rw [need, counted_sum pass, reserve_lookedAt pass]
  refine Dvd.dvd.add (List.dvd_sum ?_) (headroom _)
  intro n member
  obtain ⟨row, inside, rfl⟩ := List.mem_map.mp member
  have group : row.vg = vg := by simpa using (List.mem_filter.mp inside).2
  split
  · exact rounded row group
  · exact dvd_zero _

/-- Where the totals are bounded, checks that pass leave room if and only if the group is covered, or
no free space passes them. -/
theorem roomy_iff (bounded : Bounded host rows) (used : Reused rows vg) :
    (∀ free, ChecksPass host free rows vg → Roomy host free rows vg) ↔
      (RowsPass host rows vg → need host rows vg < 2 ^ 60 → Covered host rows vg) := by
  constructor
  · intro roomy pass below
    obtain ⟨sectors, same⟩ := need_sectors pass
    let s : Sectors := ⟨sectors, by omega⟩
    have bytes : s.bytes = need host rows vg := same.symm
    have checks : ChecksPass host (fun _ => some s) rows vg :=
      (checksPass_iff bounded used _).mpr ⟨pass, s, rfl, bytes.ge⟩
    have room := room_iff.mp (roomy _ checks)
    rw [covered_iff pass used, ← bytes]
    exact room
  · intro covered free checks
    obtain ⟨pass, s, found, enough⟩ := (checksPass_iff bounded used free).mp checks
    have below : need host rows vg < 2 ^ 60 := lt_of_le_of_lt enough s.below
    have room := (covered_iff pass used).mp (covered pass below)
    rw [Roomy, found, room_iff]
    exact room.trans enough

end Group

/-- For every accepted inventory and host: nothing wraps and checks that pass leave room, whatever
free space is reported, if and only if the exact totals stay below `2 ^ 63` and the rows that share a
reused volume group without reusing it add nothing. -/
theorem headroom_guaranteed (selected : CanonicalJson.Json) (host : Host) :
    ∀ rows ∈ storageRows selected,
      ((∀ free, AllUnwrapped (review host free rows).log) ∧ ∀ vg, Reused rows vg →
        ∀ free, ChecksPass host free rows vg → Roomy host free rows vg) ↔
      Bounded host rows ∧ ∀ vg, Reused rows vg → RowsPass host rows vg →
        need host rows vg < 2 ^ 60 → Covered host rows vg := by
  intro rows _
  simp only [review_unwrapped, forall_const]
  apply and_congr_right
  intro bounded
  apply forall_congr'
  intro vg
  apply imp_congr_right
  exact fun used => roomy_iff bounded used

/-! ## A shared volume group -/

instance (findings : List Finding) : Decidable (Passes findings) := by
  unfold Passes; infer_instance

instance (rows : List Row) (vg : String) : Decidable (Reused rows vg) := by
  unfold Reused; infer_instance

instance (host : Host) (free : String → Option Sectors) (rows : List Row) (vg : String) :
    Decidable (ChecksPass host free rows vg) := by
  unfold ChecksPass; infer_instance

section Shared

open CanonicalJson

def sharedDevice : String := "/dev/disk/by-id/disk"

/-- Two layouts on one device and volume group, of which the first reuses it. -/
def sharedInventory : Json := .obj [
  ("storage_layouts", .arr [
    .obj [("name", .str "data"), ("device", .str sharedDevice), ("vg_name", .str "data"),
      ("initialize", .bool false), ("reuse_existing_vg", .bool true), ("capacity_gib", .int 100),
      ("required_free_gib", .int 10)],
    .obj [("name", .str "logs"), ("device", .str sharedDevice), ("vg_name", .str "data"),
      ("capacity_gib", .int 100)]]),
  ("storage_volumes", .arr [
    .obj [("layout", .str "data"), ("mountpoint", .str "/srv/data"), ("lv_name", .str "data"),
      ("size_gib", .int 10)],
    .obj [("layout", .str "logs"), ("mountpoint", .str "/srv/logs"), ("lv_name", .str "logs"),
      ("size_gib", .int 50)]])]

def sharedRows : List Row := (storageRows sharedInventory).getD []

/-- A host with extents of 4 MiB, on which no volume exists. -/
def sharedHost : Host where
  rootSource := some "/dev/root"
  ancestors path := some [path]
  realpath := some
  rootVg := "root"
  isBlock _ := true
  diskBytes _ := some (200 * 2 ^ 30)
  topology _ := some "disk part"
  wipefs _ := some ""
  blkid _ := (2, "")
  lvmTools := true
  partition _ := ⟨"part", "disk/by-id/disk", "1"⟩
  pvVg _ := "data"
  pvCount _ := 1
  vgExtent _ := some ⟨8192, by norm_num⟩
  exists? _ := false
  isLink _ := false
  isDirectory _ := false
  fstypeOf _ := ""
  lvSize _ := none
  mountTargets _ := (1, [])
  mountRecord _ := (1, none)
  identity _ := ""
  content _ := (0, "")

/-- 20 GiB are free. -/
def sharedFree (_ : String) : Option Sectors := some ⟨20 * 2 ^ 21, by norm_num⟩

theorem shared_accepted : sharedRows ∈ storageRows sharedInventory := by decide +kernel

/-- Every check passes, and the second volume alone is larger than the free space. -/
theorem shared_group_overcommitted : sharedRows ∈ storageRows sharedInventory ∧
    Reused sharedRows "data" ∧ ChecksPass sharedHost sharedFree sharedRows "data" ∧
      ¬ Roomy sharedHost sharedFree sharedRows "data" := by
  refine ⟨shared_accepted, by decide +kernel, by decide +kernel, ?_⟩
  rw [Roomy, room_iff]
  decide +kernel

theorem shared_guarantee : sharedRows ∈ storageRows sharedInventory ∧
    (((∀ free, AllUnwrapped (review sharedHost free sharedRows).log) ∧ ∀ vg, Reused sharedRows vg →
        ∀ free, ChecksPass sharedHost free sharedRows vg → Roomy sharedHost free sharedRows vg) ↔
      Bounded sharedHost sharedRows ∧ ∀ vg, Reused sharedRows vg → RowsPass sharedHost sharedRows vg →
        need sharedHost sharedRows vg < 2 ^ 60 → Covered sharedHost sharedRows vg) :=
  ⟨shared_accepted, headroom_guaranteed sharedInventory sharedHost sharedRows shared_accepted⟩

end Shared

end PlatformConfig.StorageHeadroom
