import PlatformConfig.JsonText

/-!
# Keys of what is read

In a value that `json.loads` reads with a hook that refuses a key twice, no object has a key twice.
-/
namespace PlatformConfig.JsonText

open CanonicalJson

mutual

/-- No object of the value has a key twice. -/
def Keyed : Json → Prop
  | .arr xs => ElementsKeyed xs
  | .obj fs => (fs.map Prod.fst).Nodup ∧ FieldsKeyed fs
  | _ => True

def ElementsKeyed : List Json → Prop
  | [] => True
  | x :: xs => Keyed x ∧ ElementsKeyed xs

def FieldsKeyed : List (String × Json) → Prop
  | [] => True
  | (_, v) :: fs => Keyed v ∧ FieldsKeyed fs

end

lemma fieldsKeyed_iff {fs : List (String × Json)} : FieldsKeyed fs ↔ ∀ f ∈ fs, Keyed f.2 := by
  induction fs with
  | nil => simp [FieldsKeyed]
  | cons f fs ih =>
    obtain ⟨k, v⟩ := f
    rw [FieldsKeyed, ih, List.forall_mem_cons]

lemma dictionary_keyed {fs : List (String × Json)} {j : Json} (keyed : FieldsKeyed fs)
    (read : dictionary fs = some j) : Keyed j := by
  simp only [dictionary, Option.ite_none_right_eq_some, Option.some.injEq] at read
  obtain ⟨distinct, rfl⟩ := read
  have same := List.perm_insertionSort (fun f g : String × Json => f.1 ≤ g.1) fs
  refine ⟨((same.map Prod.fst).nodup_iff).mpr distinct, fieldsKeyed_iff.mpr fun f mem => ?_⟩
  exact fieldsKeyed_iff.mp keyed f (same.mem_iff.mp mem)

section Reading
variable {float : List Char → Option FloatText}

lemma readScalar_keyed {t r : List Char} {j : Json} (read : readScalar float t = some (j, r)) : Keyed j := by
  unfold readScalar at read
  split at read
  · cases read
    trivial
  · cases read
    trivial
  · cases read
    trivial
  · obtain ⟨x, number, same⟩ := Option.map_eq_some_iff.mp read
    cases same
    unfold readNumber at number
    split at number
    · cases number
      trivial
    · obtain ⟨-, f, -, rfl⟩ := by simpa only [Option.ite_none_right_eq_some, Option.map_eq_some_iff] using number
      trivial

lemma reads_keyed (n : ℕ) : (∀ t j r, readValue float n t = some (j, r) → Keyed j) ∧
    (∀ t xs r, readElements float n t = some (xs, r) → ElementsKeyed xs) ∧
    (∀ t fs r, readFields float n t = some (fs, r) → FieldsKeyed fs) := by
  induction n with
  | zero =>
    refine ⟨fun t j r read => ?_, fun t xs r read => ?_, fun t fs r read => ?_⟩
    · cases read
    · cases read
    · simp [readFields] at read
  | succ n ih =>
    obtain ⟨values, elements_, fields_⟩ := ih
    refine ⟨fun t j r read => ?_, fun t xs r read => ?_, fun t fs r read => ?_⟩
    · unfold readValue at read
      split at read
      · obtain ⟨p, -, same⟩ := Option.map_eq_some_iff.mp read
        cases same
        trivial
      · split at read
        · cases read
          trivial
        · obtain ⟨p, inside, same⟩ := Option.map_eq_some_iff.mp read
          cases same
          exact elements_ _ _ _ inside
      · split at read
        · cases read
          exact ⟨List.nodup_nil, trivial⟩
        · obtain ⟨p, inside, whole⟩ := Option.bind_eq_some_iff.mp read
          obtain ⟨d, made, same⟩ := Option.map_eq_some_iff.mp whole
          cases same
          exact dictionary_keyed (fields_ _ _ _ inside) made
      · exact readScalar_keyed read
    · simp only [readElements, Option.bind_eq_bind, Option.bind_eq_some_iff] at read
      obtain ⟨p, first, read⟩ := read
      split at read
      · cases read
        exact ⟨values _ _ _ first, trivial⟩
      · obtain ⟨q, rest, same⟩ := Option.map_eq_some_iff.mp read
        cases same
        exact ⟨values _ _ _ first, elements_ _ _ _ rest⟩
      · cases read
    · unfold readFields at read
      split at read
      · next m u same =>
        cases same
        simp only [Option.bind_eq_bind, Option.bind_eq_some_iff] at read
        obtain ⟨k, -, read⟩ := read
        split at read
        · simp only [Option.bind_eq_some_iff] at read
          obtain ⟨v, first, read⟩ := read
          split at read
          · cases read
            exact ⟨values _ _ _ first, trivial⟩
          · obtain ⟨q, rest, same⟩ := Option.map_eq_some_iff.mp read
            cases same
            exact ⟨values _ _ _ first, fields_ _ _ _ rest⟩
          · cases read
        · cases read
      · cases read

/-- No object of a value that has been read has a key twice. -/
theorem loads_keyed {t : List Char} {j : Json} (read : loads float t = some j) : Keyed j := by
  obtain ⟨p, whole, same⟩ := Option.bind_eq_some_iff.mp read
  obtain ⟨-, value⟩ := Option.ite_none_right_eq_some.mp same
  cases value
  exact (reads_keyed _).1 _ _ _ whole

end Reading

lemma Keyed.get {j v : Json} {key : String} (keyed : Keyed j) (there : j.get? key = some v) : Keyed v := by
  cases j with
  | obj fs =>
    have mem : (key, v) ∈ fs := by
      change fs.lookup key = some v at there
      obtain ⟨l₁, l₂, whole, -⟩ := List.lookup_eq_some_iff.mp there
      rw [whole]
      simp
    exact fieldsKeyed_iff.mp keyed.2 _ mem
  | _ => cases there

end PlatformConfig.JsonText
