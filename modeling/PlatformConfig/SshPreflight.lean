import PlatformConfig.Fallible
import PlatformConfig.SshPatterns

/-!
# The SSH arguments of the self-bootstrap preflight

`gitlab-runner-self-bootstrap-preflight` searches the SSH arguments of the inventory with two patterns
and reads the `-o` options of the inventory and of the environment in a loop of its own. What ssh reads
from arguments that pass is permitted exactly where each option that is not permitted is one that the
loop reads too, as a keyword and an equals sign.
-/
namespace PlatformConfig.SshPreflight

open ShellWords SshOptions SshPatterns

/-! ## The checks -/

inductive Refusal
  | unsafeSetting
  | quoting
  | missingValue
  | strictHostKeyChecking
  | userKnownHostsFile

def strictKeyword : Text := "stricthostkeychecking".toList

def knownHostsKeyword : Text := "userknownhostsfile".toList

def permitted : List Text := ["yes".toList, "true".toList, "ask".toList]

def mounted : Text := "/tmp/platform-home/.ssh/known_hosts".toList

/-- `unsafe_patterns` -/
def unsafePatterns (value : Text) : Bool :=
  search (settingAt ["strict".toList, "host".toList, "key".toList, "checking".toList]
    ["no".toList, "false".toList, "off".toList, "0".toList, "accept-new".toList]) value ||
  search (settingAt ["user".toList, "known".toList, "hosts".toList, "file".toList]
    ["/dev/null".toList, "none".toList]) value

/-- An option that the loop has found. -/
def checkOption (other : Folding) (option : Text) : Except Refusal Unit :=
  if option = [] then .ok ()
  else
    let key := lower other [] (option.takeWhile (· ≠ '='))
    let separated := option.dropWhile (· ≠ '=')
    let value := lower other [] separated.tail
    if key = strictKeyword ∧ (separated = [] ∨ !permitted.contains value) then .error .strictHostKeyChecking
    else if key = knownHostsKeyword ∧ (separated = [] ∨ value ≠ mounted) then .error .userKnownHostsFile
    else .ok ()

/-- The loop over the words. -/
def tokenLoop (other : Folding) : List Text → Except Refusal Unit
  | [] => .ok ()
  | token :: rest =>
    match token with
    | ['-', 'o'] =>
      match rest with
      | [] => .error .missingValue
      | option :: rest => do
        checkOption other option
        tokenLoop other rest
    | '-' :: 'o' :: option => do
      checkOption other option
      tokenLoop other rest
    | _ => tokenLoop other rest

/-- The check of one inventory variable. -/
def checkInventory (other : Folding) (raw : Text) : Except Refusal Unit :=
  if unsafePatterns (lower other [] raw) then .error .unsafeSetting
  else
    match split raw with
    | none => .error .quoting
    | some tokens => tokenLoop other tokens

def inventoryNames : List String := ["ansible_ssh_args", "ansible_ssh_common_args", "ansible_ssh_extra_args"]

/-- The inventory, with the name that a message shows. -/
def inventory (other : Folding) (values : String → Text) : Except (String × Refusal) Unit :=
  inventoryNames.forM fun name => (checkInventory other (values name)).mapError fun r => (name, r)

def environmentNames : List String := ["ANSIBLE_SSH_ARGS", "ANSIBLE_SSH_COMMON_ARGS", "ANSIBLE_SSH_EXTRA_ARGS"]

/-- The environment; what fails is not told apart. -/
def environment (other : Folding) (values : String → Text) : Bool :=
  environmentNames.all fun name =>
    match split (values name) with
    | none => false
    | some tokens => (tokenLoop other tokens).isOk

/-- A source with these arguments passes. -/
def Accepted (other : Folding) (raw : Text) : Prop :=
  (∃ values, ∃ name ∈ inventoryNames, inventory other values = .ok () ∧ values name = raw) ∨
    ∃ values, ∃ name ∈ environmentNames, environment other values = true ∧ values name = raw

theorem mapError_ok {α : Type} {x : Except Refusal α} {name : String} {a : α}
    (h : x.mapError (fun r => (name, r)) = .ok a) : x = .ok a := by
  cases x with
  | error r => cases h
  | ok b =>
    cases h
    rfl

/-- Accepted arguments have words, and the loop passes over them. -/
theorem accepted_loop {other : Folding} {raw : Text} (h : Accepted other raw) :
    ∃ tokens, split raw = some tokens ∧ tokenLoop other tokens = .ok () := by
  rcases h with ⟨values, name, member, passed, rfl⟩ | ⟨values, name, member, passed, rfl⟩
  · have own := mapError_ok (Fallible.forM_ok.mp passed name member)
    unfold checkInventory at own
    split at own
    · cases own
    split at own
    · cases own
    · rename_i tokens read
      exact ⟨tokens, read, own⟩
  · have own := List.all_eq_true.mp passed name member
    split at own
    · cases own
    · rename_i tokens read
      refine ⟨tokens, read, ?_⟩
      cases loop : tokenLoop other tokens with
      | error r => simp [loop, Except.isOk, Except.toBool] at own
      | ok => rfl

/-! ## What the loop reads -/

/-- The options that the loop finds. -/
def readTexts : List Text → List Text
  | [] => []
  | token :: rest =>
    match token with
    | ['-', 'o'] =>
      match rest with
      | [] => []
      | option :: rest => option :: readTexts rest
    | '-' :: 'o' :: option => option :: readTexts rest
    | _ => readTexts rest

theorem tokenLoop_checks {other : Folding} {tokens : List Text} (passed : tokenLoop other tokens = .ok ()) :
    ∀ option ∈ readTexts tokens, checkOption other option = .ok () := by
  have both {option : Text} {rest : Except Refusal Unit}
      (h : (do checkOption other option; rest) = (.ok () : Except Refusal Unit)) :
      checkOption other option = .ok () ∧ rest = .ok () := by
    cases checked : checkOption other option with
    | error r =>
      rw [checked] at h
      cases h
    | ok =>
      rw [checked] at h
      exact ⟨rfl, h⟩
  fun_induction readTexts tokens with
  | case1 => simp
  | case2 => cases passed
  | case3 option rest ih =>
    rw [tokenLoop] at passed
    exact List.forall_mem_cons.mpr ⟨(both passed).1, ih (both passed).2⟩
  | case4 rest option attached ih =>
    have step : tokenLoop other (('-' :: 'o' :: option) :: rest) =
        (do checkOption other option; tokenLoop other rest) := by
      simp [tokenLoop]
    rw [step] at passed
    exact List.forall_mem_cons.mpr ⟨(both passed).1, ih (both passed).2⟩
  | case5 token rest single none ih =>
    have step : tokenLoop other (token :: rest) = tokenLoop other rest := by
      simp [tokenLoop]
    exact ih (step ▸ passed)

/-- The options that the loop finds among the words of a line. -/
def loopTexts (raw : Text) : List Text :=
  match split raw with
  | none => []
  | some tokens => readTexts tokens

/-! ## What ssh reads -/

def refused : List Text := ["no".toList, "off".toList, "false".toList, "accept-new".toList]

/-- An option that sets another host-key check or other known hosts than permitted. -/
def offends (text : Text) : Bool :=
  match readOption text with
  | none => false
  | some (keyword, arguments) =>
    keyword = strictKeyword && (arguments.take 1).any (fun v => refused.contains (v.map Char.toLower)) ||
    keyword = knownHostsKeyword && arguments.any (· ≠ mounted)

/-- One of the two keywords directly before an equals sign; the known hosts without capitals. -/
def Direct (other : Folding) (text : Text) : Prop :=
  ∃ key value, text = key ++ '=' :: value ∧ '=' ∉ key ∧
    (key.map Char.toLower = strictKeyword ∨
      key.map Char.toLower = knownHostsKeyword ∧ lower other [] value = value)

/-- A blank, a quote, a backslash or a form feed. -/
def isSpecial (c : Char) : Bool := isBlank c || isQuote c || isEscape c || c.toNat = 12

theorem special_lower {c : Char} (h : isSpecial c = true) : c.toNat < 128 ∧ c.toLower = c := by
  have low : c.toNat < 128 := by
    simp only [isSpecial, isBlank, isQuote, isEscape, Bool.or_eq_true, decide_eq_true_eq] at h
    rcases h with (((((rfl | rfl) | rfl) | rfl) | rfl | quote) | rfl) | feed <;> first | decide | omega
  have table : ∀ n < 128, isSpecial (Char.ofNat n) = true → (Char.ofNat n).toLower = Char.ofNat n := by decide
  have same : Char.ofNat c.toNat = c := Char.ofNat_toNat c
  refine ⟨low, ?_⟩
  rw [← same]
  exact table c.toNat low (by rwa [same])

/-- A text is free of special characters where it is in lower case. -/
theorem free_of_lower {other : Folding} {before t : Text}
    (free : (lower other before t).all (fun c => !isSpecial c) = true) : ∀ c ∈ t, isSpecial c = false := by
  induction t generalizing before with
  | nil => simp
  | cons c t ih =>
    rw [lower, List.all_append, Bool.and_eq_true] at free
    refine List.forall_mem_cons.mpr ⟨?_, ih free.2⟩
    by_contra special
    obtain ⟨low, same⟩ := special_lower (eq_true_of_ne_false special)
    simp [low, same, special] at free

theorem values_free : (strictKeyword :: knownHostsKeyword :: mounted :: permitted).all
    (fun t => t.all fun c => !isSpecial c) = true := by
  decide +kernel

theorem keywords_differ : strictKeyword ≠ knownHostsKeyword ∧ strictKeyword ≠ [] ∧ knownHostsKeyword ≠ [] := by
  decide +kernel

/-- What stands before the first equals sign, and what behind it. -/
theorem cut_sign {key : Text} (free : '=' ∉ key) (value : Text) :
    (key ++ '=' :: value).takeWhile (· ≠ '=') = key ∧
      (key ++ '=' :: value).dropWhile (· ≠ '=') = '=' :: value := by
  have before : ∀ c ∈ key, decide (c ≠ '=') = true := by
    intro c member
    rw [decide_eq_true_eq]
    rintro rfl
    exact free member
  rw [List.takeWhile_append_of_pos before, List.dropWhile_append_of_pos before]
  simp

/-- An option with a keyword directly before an equals sign has at most what is behind it for an argument. -/
theorem readOption_direct {key value keyword : Text} {arguments : List Text} (free : '=' ∉ key) (some_ : key ≠ [])
    (plain : ∀ c ∈ key ++ '=' :: value, isSpecial c = false)
    (read : readOption (key ++ '=' :: value) = some (keyword, arguments)) :
    keyword = key.map Char.toLower ∧ ∀ v ∈ arguments, v = value := by
  have bare : Bare (key ++ '=' :: value) := by
    intro c member
    have own := plain c member
    simp only [isSpecial, Bool.or_eq_false_iff] at own
    exact ⟨own.1.1.1, own.1.1.2, own.1.2⟩
  obtain ⟨pre, key', value', tail, same, sign, free', _, named, only, feeds⟩ := readOption_bare bare read
  have none_ : pre = [] := by
    rcases sign with empty | equals
    · exact empty
    · obtain ⟨c, u, rfl⟩ := List.exists_cons_of_ne_nil some_
      rw [equals] at same
      obtain ⟨rfl, _⟩ := List.cons.inj same
      exact absurd List.mem_cons_self free
  subst none_
  rw [List.nil_append] at same
  have first : key = key' := by rw [← (cut_sign free value).1, same, (cut_sign free' _).1]
  subst first
  have rest := (List.cons.inj (List.append_cancel_left same)).2
  have bare_tail : tail = [] := by
    cases tail with
    | nil => rfl
    | cons c tail =>
      have special := plain c (by simp [rest])
      simp [isSpecial, feeds c List.mem_cons_self] at special
  subst bare_tail
  rw [List.append_nil] at rest
  exact ⟨named.symm, fun v member => (only v member).trans rest.symm⟩

theorem free_of_listed {t : Text} (listed : t ∈ strictKeyword :: knownHostsKeyword :: mounted :: permitted) :
    t.all (fun c => !isSpecial c) = true :=
  List.all_eq_true.mp values_free t listed

theorem ascii_listed : (strictKeyword :: knownHostsKeyword :: refused).all (fun t => t.all fun c => c.toNat < 128) = true := by
  decide +kernel

theorem refused_not_permitted : refused.all (fun t => !permitted.contains t) = true := by
  decide +kernel

/-- An option that the loop passes is permitted where it is direct. -/
theorem direct_permitted {other : Folding} {text : Text} (checked : checkOption other text = .ok ())
    (direct : Direct other text) : offends text = false := by
  obtain ⟨key, value, rfl, free, named⟩ := direct
  have ascii (t : Text) (h : t ∈ strictKeyword :: knownHostsKeyword :: refused) : ∀ c ∈ t, c.toNat < 128 := by
    simpa using List.all_eq_true.mp ascii_listed t h
  obtain ⟨front, back⟩ := cut_sign free value
  have lowered (kw : Text) (h : kw ∈ strictKeyword :: knownHostsKeyword :: refused)
      (same : key.map Char.toLower = kw) : lower other [] key = kw := by
    rw [lower_eq_map (ascii_of_map same (ascii kw h)), same]
  -- The keyword and the value hold nothing that ssh would not take as it is.
  have plain (kw v : Text) (h : lower other [] key = kw) (h' : lower other [] value = v)
      (listed : kw ∈ strictKeyword :: knownHostsKeyword :: mounted :: permitted)
      (listed' : v ∈ strictKeyword :: knownHostsKeyword :: mounted :: permitted) :
      ∀ c ∈ key ++ '=' :: value, isSpecial c = false := by
    intro c member
    rcases List.mem_append.mp member with inside | inside
    · exact free_of_lower (h ▸ free_of_listed listed) c inside
    · rcases List.mem_cons.mp inside with rfl | inside
      · decide
      · exact free_of_lower (h' ▸ free_of_listed listed') c inside
  simp only [checkOption, front, back] at checked
  rw [if_neg (by simp)] at checked
  obtain ⟨differ, some_, some_'⟩ := keywords_differ
  unfold offends
  split
  · rfl
  rename_i keyword arguments read
  rcases named with strict | ⟨known, folded⟩
  · have own := lowered strictKeyword (by simp) strict
    have passes : permitted.contains (lower other [] value) = true := by
      by_contra fails
      rw [if_pos ⟨own, Or.inr (by simpa using fails)⟩] at checked
      cases checked
    have listed : lower other [] value ∈ strictKeyword :: knownHostsKeyword :: mounted :: permitted := by
      have permitted_ := List.contains_iff_mem.mp passes
      simp only [List.mem_cons]
      exact Or.inr (Or.inr (Or.inr permitted_))
    have key_ : key ≠ [] := by
      rintro rfl
      exact some_ strict.symm
    obtain ⟨rfl, only⟩ := readOption_direct free key_ (plain _ _ own rfl (by simp) listed) read
    rw [strict]
    simp only [differ, decide_true, decide_false, Bool.true_and, Bool.false_and, Bool.or_false]
    apply List.any_eq_false.mpr
    intro v member off
    rw [only v (List.mem_of_mem_take member)] at off
    have off := List.contains_iff_mem.mp off
    have plain_value : ∀ c ∈ value, c.toNat < 128 := ascii_of_map rfl (ascii (value.map Char.toLower) (by simp [off]))
    have same : lower other [] value = value.map Char.toLower := lower_eq_map plain_value []
    have never := List.all_eq_true.mp refused_not_permitted _ off
    rw [← same, passes] at never
    cases never
  · have own := lowered knownHostsKeyword (by simp) known
    have path : value = mounted := by
      by_contra other_
      simp [own, folded, other_, differ.symm] at checked
    have key_ : key ≠ [] := by
      rintro rfl
      exact some_' known.symm
    obtain ⟨rfl, only⟩ := readOption_direct free key_
      (plain _ _ own (folded.trans path) (by simp) (by simp)) read
    rw [known]
    simp only [differ.symm, decide_true, decide_false, Bool.true_and, Bool.false_and, Bool.false_or]
    apply List.any_eq_false.mpr
    intro v member off
    simp [only v member, path] at off

/-- Accepted arguments set what is permitted exactly where each option that does not is one that the loop
reads as well, with its keyword directly before an equals sign. -/
theorem preflight_vetting_sound (flags : Flags) (other : Folding) (raw : Text) (accepted : Accepted other raw) :
    (∀ text ∈ options flags raw, offends text = false) ↔
      ∀ text ∈ options flags raw, offends text = true → text ∈ loopTexts raw ∧ Direct other text := by
  obtain ⟨tokens, read, passed⟩ := accepted_loop accepted
  constructor
  · intro sound text member offended
    rw [sound text member] at offended
    cases offended
  · intro seen text member
    by_contra offended
    obtain ⟨found, direct⟩ := seen text member (eq_true_of_ne_false offended)
    rw [loopTexts, read] at found
    exact offended (direct_permitted (tokenLoop_checks passed text found) direct)

/-- Words that are options `-o` and nothing else. -/
def onlyOptions : List Text → Bool
  | [] => true
  | token :: rest =>
    match token with
    | ['-', 'o'] =>
      match rest with
      | [] => false
      | _ :: rest => onlyOptions rest
    | '-' :: 'o' :: _ => onlyOptions rest
    | _ => false

/-- Where there are no other words, ssh reads what the loop reads. -/
theorem options_alike {flags : Flags} (takes : flags 'o' = some true) {tokens : List Text}
    (only : onlyOptions tokens = true) : optionTexts flags false tokens = readTexts tokens := by
  fun_induction onlyOptions tokens with
  | case1 => rfl
  | case2 => cases only
  | case3 option rest ih => simp [optionTexts, readCluster, takes, readTexts, given, ih only]
  | case4 rest option attached ih =>
    cases option with
    | nil => exact (attached rfl).elim
    | cons c option => simp [optionTexts, readCluster, takes, readTexts, given, ih only]
  | case5 => cases only

/-! ## A blank in quotes -/

/-- `-o "StrictHostKeyChecking no"` -/
def blankOption : Text := "-o \"StrictHostKeyChecking no\"".toList

def blankSetting : Text := "StrictHostKeyChecking no".toList

def noFolding : Folding := fun _ c _ => [c]

/-- An option with a blank passes in every source, and ssh reads it. -/
theorem blank_option_passes :
    inventory noFolding (fun _ => blankOption) = .ok () ∧ environment noFolding (fun _ => blankOption) = true ∧
      options sshFlags blankOption = [blankSetting] ∧
      readOption blankSetting = some (strictKeyword, ["no".toList]) ∧
      offends blankSetting = true := by
  have clear : unsafePatterns (lower noFolding [] blankOption) = false := by decide +kernel
  have words : split blankOption = some [['-', 'o'], blankSetting] := by decide +kernel
  have passed : tokenLoop noFolding [['-', 'o'], blankSetting] = .ok () := by rfl
  have read : options sshFlags blankOption = [blankSetting] := by decide +kernel
  have set : readOption blankSetting = some (strictKeyword, ["no".toList]) := by
    decide +kernel
  have off : offends blankSetting = true := by decide +kernel
  refine ⟨Fallible.forM_ok.mpr ?_, ?_, read, set, off⟩
  · intro name _
    simp [checkInventory, clear, words, passed, Except.mapError]
  · simp [environment, words, passed, Except.isOk, Except.toBool]

/-- `-o StrictHostKeyChecking=yes` -/
def strictOption : Text := "-o StrictHostKeyChecking=yes".toList

def strictSetting : Text := "StrictHostKeyChecking=yes".toList

theorem strict_option_permitted :
    (∀ text ∈ options sshFlags strictOption, offends text = false) ↔
      ∀ text ∈ options sshFlags strictOption, offends text = true →
        text ∈ loopTexts strictOption ∧ Direct noFolding text := by
  have words : split strictOption = some [['-', 'o'], strictSetting] := by decide +kernel
  have passed : tokenLoop noFolding [['-', 'o'], strictSetting] = .ok () := by rfl
  apply preflight_vetting_sound sshFlags noFolding strictOption
  refine Or.inr ⟨fun _ => strictOption, "ANSIBLE_SSH_ARGS", by simp [environmentNames], ?_, rfl⟩
  simp [environment, words, passed, Except.isOk, Except.toBool]

end PlatformConfig.SshPreflight
