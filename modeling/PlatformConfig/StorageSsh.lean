import PlatformConfig.Fallible
import PlatformConfig.SshPatterns

/-!
# The SSH arguments of the storage test

`storage-volume-test` refuses SSH arguments of the inventory, of the environment and of the effective
configuration in which a pattern finds a weakened host-key check. What ssh reads from arguments that
pass is safe exactly where each weakening option would stand in them as it is, without quotes.
-/
namespace PlatformConfig.StorageSsh

open ShellWords SshOptions SshPatterns

def strictKeyword : List Text := ["strict".toList, "host".toList, "key".toList, "checking".toList]

def strictValues : List Text := ["no".toList, "false".toList, "off".toList, "0".toList]

def knownHostsKeyword : List Text := ["user".toList, "known".toList, "hosts".toList, "file".toList]

def nullDevice : Text := "/dev/null".toList

def knownHostsValues : List Text := [nullDevice]

/-- `unsafe` -/
def isUnsafe (other : Folding) (value : Text) : Bool :=
  let value := lower other [] value
  search (settingAt strictKeyword strictValues) value || search (settingAt knownHostsKeyword knownHostsValues) value

/-! ## The sources -/

inductive Argument
  | args
  | commonArgs
  | extraArgs

def Argument.all : List Argument := [args, commonArgs, extraArgs]

def Argument.option : Argument → String
  | args => "ssh_args"
  | commonArgs => "ssh_common_args"
  | extraArgs => "ssh_extra_args"

def Argument.inventoryName : Argument → String
  | args => "inventory ansible_ssh_args"
  | commonArgs => "inventory ansible_ssh_common_args"
  | extraArgs => "inventory ansible_ssh_extra_args"

def Argument.environmentName : Argument → String
  | args => "environment ANSIBLE_SSH_ARGS"
  | commonArgs => "environment ANSIBLE_SSH_COMMON_ARGS"
  | extraArgs => "environment ANSIBLE_SSH_EXTRA_ARGS"

def sources (inventory environment : Argument → Text) : List (String × Text) :=
  Argument.all.map (fun a => (a.inventoryName, inventory a)) ++
    Argument.all.map fun a => (a.environmentName, environment a)

def checkSources (other : Folding) (sources : List (String × Text)) : Except String Unit :=
  sources.forM fun s =>
    if isUnsafe other s.2 then .error ("unsafe SSH host-key option in " ++ s.1) else .ok ()

/-- The effective configuration of the connection plugin. -/
def checkEffective (other : Folding) (values : Argument → Option Text) : Except String Unit :=
  Argument.all.forM fun a =>
    match values a with
    | none => .error ("effective Ansible SSH option is unavailable: " ++ a.option)
    | some value =>
      if isUnsafe other value then .error ("unsafe effective Ansible SSH option: " ++ a.option) else .ok ()

/-- A source with these arguments passes. -/
def Accepted (other : Folding) (raw : Text) : Prop :=
  (∃ inventory environment name, checkSources other (sources inventory environment) = .ok () ∧
    (name, raw) ∈ sources inventory environment) ∨
  ∃ values a, checkEffective other values = .ok () ∧ values a = some raw

theorem accepted_safe {other : Folding} {raw : Text} (h : Accepted other raw) : isUnsafe other raw = false := by
  rcases h with ⟨inventory, environment, name, passed, member⟩ | ⟨values, a, passed, value⟩
  · have own := Fallible.forM_ok.mp passed _ member
    simp only at own
    split at own
    · cases own
    · rename_i safe
      exact eq_false_of_ne_true safe
  · have member : a ∈ Argument.all := by cases a <;> simp [Argument.all]
    have own := Fallible.forM_ok.mp passed a member
    simp only [value] at own
    split at own
    · cases own
    · rename_i safe
      exact eq_false_of_ne_true safe

/-! ## What ssh reads -/

def offValues : List Text := ["no".toList, "off".toList, "false".toList]

/-- An option that turns the host-key check off, or drops the known hosts. -/
def weakens (text : Text) : Bool :=
  match readOption text with
  | none => false
  | some (keyword, arguments) =>
    keyword = strictKeyword.flatten &&
      (arguments.take 1).any (fun v => offValues.contains (v.map Char.toLower)) ||
    keyword = knownHostsKeyword.flatten && arguments.contains nullDevice

/-- Text of ASCII that opens with no white space. -/
def isPlain (p : Text) : Bool := p.head?.any (fun c => !isSpace c) && p.all fun c => c.toNat < 128

theorem patterns_plain :
    (strictKeyword ++ knownHostsKeyword ++ strictValues ++ knownHostsValues).all isPlain = true := by
  decide +kernel

theorem solid_of_plain {t : Text} (h : isPlain t = true) : Solid t ∧ ∀ c ∈ t, c.toNat < 128 := by
  simp only [isPlain, Bool.and_eq_true, List.all_eq_true, decide_eq_true_eq] at h
  refine ⟨?_, h.2⟩
  cases t with
  | nil => simp at h
  | cons c t => exact ⟨c, t, rfl, by simpa using h.1⟩

/-- A weakening option is refused where it stands as it is. -/
theorem standing_refused {other : Folding} {raw text : Text} (weak : weakens text = true) (bare : Bare text)
    (stands : Stands text raw) : isUnsafe other raw = true := by
  have plain (p : Text) (h : p ∈ strictKeyword ++ knownHostsKeyword ++ strictValues ++ knownHostsValues) :=
    solid_of_plain (List.all_eq_true.mp patterns_plain p h)
  unfold weakens at weak
  split at weak
  · cases weak
  rename_i keyword arguments read
  simp only [isUnsafe, Bool.or_eq_true]
  simp only [Bool.or_eq_true, Bool.and_eq_true, decide_eq_true_eq] at weak
  rcases weak with ⟨rfl, off⟩ | ⟨rfl, dropped⟩
  · left
    obtain ⟨v, first, listed⟩ := List.any_eq_true.mp off
    have covered : ∀ v ∈ offValues, v ∈ strictValues := by simp [offValues, strictValues]
    have value := covered _ (List.contains_iff_mem.mp listed)
    apply search_option (by simp [strictKeyword]) _ _ _ _ bare stands read (List.mem_of_mem_take first) value
    · exact fun p member => (plain p (by simp [member])).1
    · exact fun p member => (plain p (by simp [member])).1
    · exact fun p member => (plain p (by simp [member])).2
    · exact fun p member => (plain p (by simp [member])).2
  · right
    have lowered : nullDevice.map Char.toLower = nullDevice := by decide +kernel
    have null : nullDevice.map Char.toLower ∈ knownHostsValues := by simp [lowered, knownHostsValues]
    apply search_option (by simp [knownHostsKeyword]) _ _ _ _ bare stands read (List.contains_iff_mem.mp dropped) null
    · exact fun p member => (plain p (by simp [member])).1
    · exact fun p member => (plain p (by simp [member])).1
    · exact fun p member => (plain p (by simp [member])).2
    · exact fun p member => (plain p (by simp [member])).2

/-- Accepted arguments set no weakening option exactly where each of them would stand in the arguments as
it is, with a blank or the end behind it; so they do where they hold no quote and no backslash. -/
theorem storage_vetting_sound (flags : Flags) (other : Folding) (raw : Text) (accepted : Accepted other raw) :
    ((∀ text ∈ options flags raw, weakens text = false) ↔
      ∀ text ∈ options flags raw, weakens text = true → Bare text ∧ Stands text raw) ∧
    (Unquoted raw → ∀ text ∈ options flags raw, Bare text ∧ Stands text raw) := by
  have safe := accepted_safe accepted
  refine ⟨⟨?_, ?_⟩, fun plain text => options_unquoted plain⟩
  · intro sound text member weak
    rw [sound text member] at weak
    cases weak
  · intro visible text member
    by_contra strong
    have weak := eq_true_of_ne_false strong
    obtain ⟨bare, stands⟩ := visible text member weak
    rw [standing_refused weak bare stands] at safe
    cases safe

/-! ## Quotes -/

/-- `-o "StrictHostKeyChecking=no"` -/
def quotedOption : Text := "-o \"StrictHostKeyChecking=no\"".toList

def noFolding : Folding := fun _ c _ => [c]

/-- A quoted option passes in every source, and ssh reads it. -/
theorem quoted_option_passes :
    checkSources noFolding (sources (fun _ => quotedOption) fun _ => quotedOption) = .ok () ∧
      checkEffective noFolding (fun _ => some quotedOption) = .ok () ∧
      options sshFlags quotedOption = ["StrictHostKeyChecking=no".toList] ∧
      weakens "StrictHostKeyChecking=no".toList = true := by
  have safe : isUnsafe noFolding quotedOption = false := by decide +kernel
  have read : options sshFlags quotedOption = ["StrictHostKeyChecking=no".toList] := by decide +kernel
  have weak : weakens "StrictHostKeyChecking=no".toList = true := by decide +kernel
  refine ⟨Fallible.forM_ok.mpr ?_, Fallible.forM_ok.mpr ?_, read, weak⟩
  · intro s member
    have same : s.2 = quotedOption := by
      rcases List.mem_append.mp member with inside | inside
      · obtain ⟨a, _, rfl⟩ := List.mem_map.mp inside
        rfl
      · obtain ⟨a, _, rfl⟩ := List.mem_map.mp inside
        rfl
    simp [same, safe]
  · intro a _
    simp [safe]

/-- `-o StrictHostKeyChecking=yes` -/
def strictOption : Text := "-o StrictHostKeyChecking=yes".toList

theorem strict_option_sound :
    (∀ text ∈ options sshFlags strictOption, weakens text = false) ↔
      ∀ text ∈ options sshFlags strictOption, weakens text = true → Bare text ∧ Stands text strictOption := by
  have safe : isUnsafe noFolding strictOption = false := by decide +kernel
  have passed : checkEffective noFolding (fun _ => some strictOption) = .ok () := by
    apply Fallible.forM_ok.mpr
    intro a _
    simp [safe]
  exact (storage_vetting_sound sshFlags noFolding strictOption (Or.inr ⟨_, .args, passed, rfl⟩)).1

end PlatformConfig.StorageSsh
