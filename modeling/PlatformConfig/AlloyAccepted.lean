import PlatformConfig.AlloyBlocks
import PlatformConfig.JsonText

/-!
# Accepted inputs on the target

The context that the controller builds from accepted variables passes the target's check, and so does
a configuration with the blocks that the template renders from them, within what the target's narrow
recognizer reads.
-/
namespace PlatformConfig.AlloyAccepted

open CanonicalJson TextScan UrlText AlloyConfig AlloyInputs AlloyBlocks
open FailoverPlan (bind_ok checked_ok)
open GuardPlan (hasStr matchesHex isLowerHex isNameChar)

variable {nfkc : Text → Text} {v : Vars} {p : Plan} {n : WriterName} {w : Writer}

section Accepted

/-- What the filter has checked of a declared writer. -/
structure Declared (nfkc : Text → Text) (v : Vars) (n : WriterName) (w : Writer) (f : Fields) : Prop where
  read : fieldsOf v n = some f
  service : isIdentity w.service = true
  trustId : isIdentity w.trustId = true
  path : isPath w.caFile = true
  inside : "/etc/alloy/pki/".toList <+: w.caFile.toList
  same : w.caFile = f.caFile
  digest : matchesHex 64 w.caSha256 = true
  host : ∃ host, urlHost nfkc f.url.toList = some host ∧ host ≠ []
  server : isDns f.serverName.toList = true
  version : ∃ r, versionId n.versionsRoot f.clientCertFile.toList = some r ∧
    f.clientKeyFile.toList = n.versionsRoot.toList ++ '/' :: r ++ "/tls.key".toList

lemma textOf_hasStr {j : Json} {key : String} {q : String → Bool} (h : hasStr j key q = true) :
    q (textOf j key) = true := by
  simp only [hasStr, Option.any_eq_true] at h
  obtain ⟨s, read, holds⟩ := h
  rw [textOf, read]
  exact holds

lemma declaredWriter_spec {f : Fields} {j : Json} (read : fieldsOf v n = some f)
    (h : declaredWriter nfkc false n f j = some w) : Declared nfkc v n w f := by
  simp only [declaredWriter, Option.bind_eq_bind, Option.bind_eq_some_iff, Option.ite_none_right_eq_some,
    Bool.false_or, Bool.and_eq_true, decide_eq_true_eq, Option.any_eq_true, Option.pure_def, Option.some.injEq] at h
  obtain ⟨host, url, ⟨⟨⟨⟨⟨⟨⟨⟨⟨-, service⟩, trust⟩, path⟩, inside⟩, same⟩, digest⟩, some_⟩, server⟩, r, version, key⟩,
    rfl⟩ := h
  exact ⟨read, textOf_hasStr service, textOf_hasStr trust, textOf_hasStr path, inside, same, textOf_hasStr digest,
    ⟨host, url, some_⟩, server, r, version, key⟩

/-- The writers that one name contributes: none, or the one that is declared. -/
lemma writer_spec {declared : Json} {ws : List (WriterName × Writer)}
    (h : writer nfkc v false declared n = some ws) :
    (declared.get? n.text = none ∧ ws = []) ∨ ∃ w f, ws = [(n, w)] ∧ Declared nfkc v n w f := by
  simp only [writer, Option.bind_eq_bind, Option.bind_eq_some_iff] at h
  obtain ⟨f, read, h⟩ := h
  cases there : declared.get? n.text with
  | none =>
    rw [there] at h
    simp only [Option.ite_none_right_eq_some, Option.pure_def, Option.some.injEq] at h
    exact .inl ⟨rfl, h.2.symm⟩
  | some j =>
    rw [there] at h
    simp only [Option.bind_eq_some_iff, Option.pure_def, Option.some.injEq] at h
    obtain ⟨w, made, rfl⟩ := h
    exact .inr ⟨w, f, rfl, declaredWriter_spec read made⟩

/-- What the filter has checked of the variables of a host. -/
structure Accepted (nfkc : Text → Text) (v : Vars) (p : Plan) : Prop where
  host : validHost v = true
  target : isTarget p.target = true
  names : p.writers.map Prod.fst ∈ [[WriterName.loki], [.mimir], [.loki, .mimir]]
  writers : ∀ w ∈ p.writers, ∃ f, Declared nfkc v w.1 w.2 f
  services : (p.writers.map (·.2.service)).Nodup

lemma lookup_isSome {α : Type} {l : List (String × α)} {key : String} {a : α} (mem : (key, a) ∈ l) :
    l.lookup key ≠ none := by
  intro none_
  rw [List.lookup_eq_none_iff] at none_
  simpa using none_ _ mem

/-- A declaration names a writer. -/
lemma declaration_names {declared : Json} (h : isDeclaration declared = true) :
    ∃ n : WriterName, declared.get? n.text ≠ none := by
  cases declared with
  | obj fs =>
    simp only [isDeclaration, Bool.and_eq_true, decide_eq_true_eq, List.all_eq_true] at h
    obtain ⟨⟨key, j⟩, mem⟩ := List.exists_mem_of_ne_nil fs h.1
    obtain ⟨n, named⟩ := Option.isSome_iff_exists.mp (h.2 _ mem)
    have text := List.find?_some named
    simp only [decide_eq_true_eq] at text
    exact ⟨n, by rw [text]; exact lookup_isSome mem⟩
  | null | bool | int | float | str | arr => cases h

lemma validate_spec (h : validate nfkc v false = some p) : Accepted nfkc v p := by
  simp only [validate, Option.ite_none_left_eq_some, Bool.not_eq_true', Bool.not_eq_false, Option.bind_eq_bind,
    Option.bind_eq_some_iff, Option.ite_none_right_eq_some, Option.pure_def, Option.some.injEq,
    Bool.and_eq_true, decide_eq_true_eq, Option.filter_eq_some_iff] at h
  obtain ⟨host, target, ⟨-, named⟩, declared, ⟨-, declaration⟩, loki, first, mimir, second, ⟨services, -⟩, rfl⟩ := h
  obtain ⟨n, some_⟩ := declaration_names declaration
  have writers : ∀ w ∈ loki ++ mimir, ∃ f, Declared nfkc v w.1 w.2 f := by
    intro w mem
    rcases List.mem_append.mp mem with mem | mem
    · rcases writer_spec first with ⟨-, rfl⟩ | ⟨w', f, rfl, declared⟩
      · cases mem
      · obtain rfl := List.mem_singleton.mp mem
        exact ⟨f, declared⟩
    · rcases writer_spec second with ⟨-, rfl⟩ | ⟨w', f, rfl, declared⟩
      · cases mem
      · obtain rfl := List.mem_singleton.mp mem
        exact ⟨f, declared⟩
  refine ⟨host, named, ?_, writers, services⟩
  rcases writer_spec first with ⟨none_, rfl⟩ | ⟨w, f, rfl, -⟩ <;>
    rcases writer_spec second with ⟨none_', rfl⟩ | ⟨w', f', rfl, -⟩
  · cases n <;> contradiction
  all_goals simp

end Accepted

section Context

/-- The context that the target reads. -/
def context (p : Plan) (d : Sources) : Context := ⟨p.target, d.inventory, d.platformPki, d.lifecycle, p.writers⟩

variable (float : Text → Option FloatText) {d : Sources}

lemma writerJson_wellFormed (n : WriterName) (w : Writer) : JsonText.WellFormed float (writerJson n w) := by
  have keys : writerKeys.Pairwise (· < ·) := by decide +kernel
  exact ⟨keys, trivial, trivial, trivial, trivial, trivial, trivial, trivial, trivial⟩

lemma writers_wellFormed (ws : List (WriterName × Writer)) :
    JsonText.FieldsWellFormed float (ws.map fun w => (w.1.text, writerJson w.1 w.2)) := by
  induction ws with
  | nil => trivial
  | cons w ws ih => exact ⟨writerJson_wellFormed float w.1 w.2, ih⟩

/-- The target reads the context that the controller has built. -/
lemma contextText_read (accepted : Accepted nfkc v p) : JsonText.loads float (contextText p d) = some (contextJson p d) := by
  refine JsonText.loads_canonical ?_ (by simp [JsonText.isBlank])
  have keys : contextKeys.Pairwise (· < ·) := by decide +kernel
  have names : ((p.writers.map fun w => (w.1.text, writerJson w.1 w.2)).map Prod.fst).Pairwise (· < ·) := by
    have ordered : ∀ ns ∈ [[WriterName.loki], [.mimir], [.loki, .mimir]], (ns.map WriterName.text).Pairwise (· < ·) := by
      decide +kernel
    have same : (p.writers.map fun w => (w.1.text, writerJson w.1 w.2)).map Prod.fst =
        (p.writers.map Prod.fst).map WriterName.text := by simp
    rw [same]
    exact ordered _ accepted.names
  exact ⟨keys, trivial, trivial, trivial, trivial, trivial, trivial, trivial, trivial, trivial, trivial, trivial,
    trivial, ⟨names, writers_wellFormed float p.writers⟩, trivial⟩

lemma hasStr_eq {j : Json} {key s : String} (read : j.get? key = some (.str s)) (q : String → Bool) :
    hasStr j key q = q s := by
  rw [hasStr, read]
  rfl

lemma textOf_eq {j : Json} {key s : String} (read : j.get? key = some (.str s)) : textOf j key = s := by
  rw [textOf, read]
  rfl

lemma validateWriter_json {f : Fields} (h : Declared nfkc v n w f) : validateWriter n (writerJson n w) = .ok w := by
  have keys : (writerJson n w).keys? = some writerKeys := rfl
  have read (key s : String) (q : String → Bool) (there : (writerJson n w).get? key = some (.str s)) :=
    hasStr_eq there q
  have inside : decide ("/etc/alloy/pki/".toList <+: w.caFile.toList) = true := decide_eq_true h.inside
  rw [validateWriter, keys, read "service" w.service _ rfl, read "trust_id" w.trustId _ rfl,
    read "state_root" n.stateRoot _ rfl, read "pending_root" n.pendingRoot _ rfl,
    read "versions_root" n.versionsRoot _ rfl, read "ca_file" w.caFile _ rfl, read "ca_sha256" w.caSha256 _ rfl,
    textOf_eq (s := w.caFile) rfl, textOf_eq (s := w.service) rfl, textOf_eq (s := w.trustId) rfl,
    textOf_eq (s := w.caSha256) rfl, h.service, h.trustId, h.path, inside, h.digest]
  simp

lemma validateWriters_json {ws : List (WriterName × Writer)} (h : ∀ w ∈ ws, ∃ f, Declared nfkc v w.1 w.2 f) :
    validateWriters (ws.map fun w => (w.1.text, writerJson w.1 w.2)) = .ok ws := by
  induction ws with
  | nil => rfl
  | cons w ws ih =>
    obtain ⟨f, first⟩ := h w List.mem_cons_self
    have named : writerNamed w.1.text = some w.1 := by
      cases w.1 <;> decide +kernel
    have rest := ih fun w' mem => h w' (List.mem_cons_of_mem w mem)
    simp only [List.map_cons, validateWriters, named, validateWriter_json first, rest]
    rfl

/-- The target accepts the context that the controller has built. -/
theorem validateContext_json (accepted : Accepted nfkc v p) : validateContext (contextJson p d) = .ok (context p d) := by
  have keys : (contextJson p d).keys? = some contextKeys := rfl
  have schema : ((contextJson p d).get? "schema").bind Json.int? = some 1 := rfl
  have read (key s : String) (q : String → Bool) (there : (contextJson p d).get? key = some (.str s)) :=
    hasStr_eq there q
  have paths : contextPaths.all (fun x => hasStr (contextJson p d) x.1 (· = x.2)) = true := by
    simp only [contextPaths, List.all_cons, List.all_nil, read "config_path" configPath _ rfl,
      read "dropin_path" dropinPath _ rfl, read "state_root" statePath _ rfl,
      read "lifecycle_helper_path" helperPath _ rfl, read "platform_pki_path" pkiPath _ rfl,
      read "inventory_path" inventoryPath _ rfl, decide_true, Bool.and_self]
  have digests : ["inventory_sha256", "platform_pki_sha256", "lifecycle_helper_sha256"].all (fun key =>
      hasStr (contextJson p d) key (matchesHex 64)) = true := by
    simp only [List.all_cons, List.all_nil, read "inventory_sha256" d.inventory _ rfl,
      read "platform_pki_sha256" d.platformPki _ rfl, read "lifecycle_helper_sha256" d.lifecycle _ rfl,
      d.inventory.2, d.platformPki.2, d.lifecycle.2, Bool.and_self]
  have writers : (contextJson p d).get? "writers" =
      some (.obj (p.writers.map fun w => (w.1.text, writerJson w.1 w.2))) := rfl
  have some_ : p.writers ≠ [] := by
    intro none_
    have names := accepted.names
    simp [none_] at names
  have named : ∀ w : WriterName × Writer, (writerNamed w.1.text).isSome = true := by
    intro w
    cases w.1 <;> decide +kernel
  rw [validateContext, keys, schema, read "target" p.target _ rfl, paths, digests, read "package_nevra" nevra _ rfl,
    writers, textOf_eq (s := p.target) rfl, textOf_eq (s := d.inventory) rfl, textOf_eq (s := d.platformPki) rfl,
    textOf_eq (s := d.lifecycle) rfl, accepted.target]
  simp [some_, named, validateWriters_json accepted.writers]
  exact if_pos accepted.services

end Context

section Names

lemma isLabel_spec {t : Text} (h : isLabel t = true) : (∀ c ∈ t, c.isAlphanum = true ∨ c = '-' ∨ c = '.') ∧
    ∃ c, t.getLast? = some c ∧ c.isAlphanum = true := by
  simp only [isLabel, Bool.and_eq_true, decide_eq_true_eq, Option.any_eq_true, List.all_eq_true, Bool.or_eq_true] at h
  obtain ⟨⟨-, last⟩, chars⟩ := h
  exact ⟨fun c mem => (chars c mem).imp_right .inl, last⟩

lemma intercalate_labels {ls : List Text} (some_ : ls ≠ []) (labels : ∀ l ∈ ls, isLabel l = true) :
    (∀ c ∈ ['.'].intercalate ls, c.isAlphanum = true ∨ c = '-' ∨ c = '.') ∧
    ∃ c, (['.'].intercalate ls).getLast? = some c ∧ c.isAlphanum = true := by
  induction ls with
  | nil => exact absurd rfl some_
  | cons l ls ih =>
    have first := isLabel_spec (labels l List.mem_cons_self)
    cases ls with
    | nil => simpa [List.intercalate] using first
    | cons m ms =>
      obtain ⟨chars, c, last, alnum⟩ := ih (by simp) fun l' mem => labels l' (List.mem_cons_of_mem l mem)
      rw [List.intercalate_cons_cons, List.append_assoc, List.singleton_append]
      refine ⟨fun d mem => ?_, c, ?_, alnum⟩
      · rcases List.mem_append.mp mem with mem | mem
        · exact first.1 d mem
        · rcases List.mem_cons.mp mem with rfl | mem
          · exact .inr (.inr rfl)
          · exact chars d mem
      · rw [List.getLast?_append, List.getLast?_cons, last]
        rfl

lemma isDns_spec {t : Text} (h : isDns t = true) : (∀ c ∈ t, c.isAlphanum = true ∨ c = '-' ∨ c = '.') ∧
    ∃ c, t.getLast? = some c ∧ c.isAlphanum = true := by
  simp only [isDns, Bool.and_eq_true, List.all_eq_true] at h
  have whole := intercalate_labels (List.splitOn_ne_nil '.' t) h.1
  rwa [List.intercalate_splitOn] at whole

lemma plain_alphanum {c : Char} (h : c.isAlphanum = true) : Plain c := by
  simp only [Char.isAlphanum, Char.isAlpha, Char.isUpper, Char.isLower, Char.isDigit, Bool.or_eq_true,
    Bool.and_eq_true, decide_eq_true_eq, ge_iff_le, UInt32.le_iff_toNat_le] at h
  change ((65 ≤ c.toNat ∧ c.toNat ≤ 90) ∨ 97 ≤ c.toNat ∧ c.toNat ≤ 122) ∨ 48 ≤ c.toNat ∧ c.toNat ≤ 57 at h
  refine ⟨by omega, by omega, ?_, ?_⟩
  · rintro rfl
    revert h
    decide
  · rintro rfl
    revert h
    decide

lemma isDns_plain {t : Text} (h : isDns t = true) : ∀ c ∈ t, Plain c := by
  intro c mem
  rcases (isDns_spec h).1 c mem with alnum | rfl | rfl
  · exact plain_alphanum alnum
  · exact ⟨by decide, by decide, by decide, by decide⟩
  · exact ⟨by decide, by decide, by decide, by decide⟩

/-- The target accepts the names that the controller accepts, addresses of version 4 apart. -/
lemma validateDns_ok {t : Text} (h : isDns t = true) (name : isIPv4 t = false) (label : String) :
    validateDns t label = .ok () := by
  have plain := isDns_plain h
  obtain ⟨chars, c, last, alnum⟩ := isDns_spec h
  have ascii : isAscii t = true := by
    simp only [isAscii, List.all_eq_true, decide_eq_true_eq]
    intro c mem
    have upper := (plain c mem).upper
    omega
  have bare : ':' ∉ t := by
    intro mem
    have colon := chars ':' mem
    revert colon
    decide
  have ends : t.getLast? ≠ some '.' := by
    rintro dot
    rw [last] at dot
    obtain rfl := Option.some.inj dot
    revert alnum
    decide
  have address : isAddress t = false := by rw [isAddress, name, isIPv6_eq_false bare]; rfl
  simp only [isDns, Bool.and_eq_true, decide_eq_true_eq] at h
  simp [validateDns, ascii, h.1, h.2, ends, address]

/-- The target reads the host of an accepted URL. -/
lemma endpointHost_ok {url host : Text} (h : urlHost nfkc url = some host) :
    endpointHost nfkc url = .ok host ∧ isDns host = true := by
  simp only [urlHost, Option.bind_eq_bind, Option.bind_eq_some_iff, Option.ite_none_right_eq_some, Bool.and_eq_true,
    decide_eq_true_eq, Option.pure_def, Option.some.injEq] at h
  obtain ⟨u, split, _, read, port, number, ⟨⟨⟨⟨⟨⟨https, user⟩, query⟩, fragment⟩, -⟩, range⟩, dns⟩, rfl⟩ := h
  simp only [isHttps, Bool.and_eq_true, decide_eq_true_eq] at https
  have scheme := urlsplit_scheme https.1.1 split
  refine ⟨?_, dns⟩
  rw [endpointHost, split]
  simp only [read, scheme, number, user, query, fragment]
  simp [range]

end Names

section Configuration

/-- A configuration in which the block of each writer is the template's rendering, and nothing else is
a write component or a credential setting. -/
structure Renders (v : Vars) (p : Plan) (t : Text) : Prop where
  blocks : ∀ w ∈ p.writers, block v w.1 <:+: t
  components : (finditer (bounded writeComponent) t).length = p.writers.length
  certs : (finditer (bounded (credential "cert_file".toList)) t).length = p.writers.length
  keys : (finditer (bounded (credential "key_file".toList)) t).length = p.writers.length

/-- What the helper's recognizer asks of a configuration besides: ASCII without comments, in which
each version path occurs once. -/
structure Recognizable (v : Vars) (p : Plan) (t : Text) : Prop where
  ascii : ∀ c ∈ t, c.toNat < 128
  uncommented : commented t = false
  once : ∀ w ∈ p.writers, occurrences (toJson v (fieldName w.1 "client_cert_file")) t = 1 ∧
    occurrences (toJson v (fieldName w.1 "client_key_file")) t = 1

/-- Variables whose texts `to_json` prints as they are, with an integer port, and whose hosts and
server names are no addresses of version 4. -/
structure Regular (nfkc : Text → Text) (v : Vars) (p : Plan) : Prop where
  port : v "grafana_alloy_http_listen_port" = some (.int 12345)
  urls : ∀ w ∈ p.writers, ∀ url, strOf v (fieldName w.1 "url") = some url → (∀ c ∈ url.toList, Plain c) ∧
    ∀ host, urlHost nfkc url.toList = some host → isIPv4 host = false
  servers : ∀ w ∈ p.writers, ∀ name, strOf v (fieldName w.1 "server_name") = some name → isIPv4 name.toList = false
  labels : (∃ w ∈ p.writers, w.1 = .mimir) →
    ∀ l ∈ (labels v).getD [], (∀ c ∈ l.1.toList, Plain c) ∧ ∀ c ∈ l.2.toList, Plain c

lemma versionId_spec {root : String} {cert r : Text} (h : versionId root cert = some r) :
    cert = root.toList ++ '/' :: r ++ "/fullchain.crt".toList ∧ ∀ c ∈ r, isLowerHex c = true := by
  simp only [versionId, Option.ite_none_right_eq_some, Option.some.injEq] at h
  obtain ⟨⟨⟨rest, rfl⟩, -, hex, last⟩, rfl⟩ := h
  rw [List.drop_left] at hex ⊢
  rw [← List.drop_drop, List.drop_left] at last
  refine ⟨?_, List.all_eq_true.mp hex⟩
  rw [← last]
  simp

lemma plain_nameChar {c : Char} (h : isNameChar c = true) : Plain c := by
  simp only [isNameChar, Bool.or_eq_true, decide_eq_true_eq] at h
  rcases h with ((alnum | rfl) | rfl) | rfl
  · exact plain_alphanum alnum
  · exact ⟨by decide, by decide, by decide, by decide⟩
  · exact ⟨by decide, by decide, by decide, by decide⟩
  · exact ⟨by decide, by decide, by decide, by decide⟩

lemma plain_slash : Plain '/' := ⟨by decide, by decide, by decide, by decide⟩

lemma plain_hex {c : Char} (h : isLowerHex c = true) : Plain c := by
  simp only [isLowerHex, Bool.or_eq_true, Bool.and_eq_true, decide_eq_true_eq] at h
  rcases h with digit | ⟨low, high⟩
  · exact plain_digit digit
  · refine plain_alphanum ?_
    have lower : c.isLower = true := by
      simp only [Char.isLower, Bool.and_eq_true, decide_eq_true_eq, ge_iff_le]
      exact ⟨low, le_trans high (by decide)⟩
    simp [Char.isAlphanum, Char.isAlpha, lower]

lemma isPath_plain {s : String} (h : isPath s = true) : ∀ c ∈ s.toList, Plain c := by
  simp only [isPath] at h
  split at h
  · next t text =>
    simp only [Bool.and_eq_true, List.all_eq_true, Bool.or_eq_true, decide_eq_true_eq] at h
    obtain ⟨⟨⟨-, chars⟩, -⟩, -⟩ := h
    rw [text]
    intro c mem
    rcases List.mem_cons.mp mem with rfl | mem
    · exact plain_slash
    · rcases chars c mem with name | rfl
      · exact plain_nameChar name
      · exact plain_slash
  · cases h

/-- The texts of a version path are plain. -/
lemma plain_version (n : WriterName) {r file : Text} (hex : ∀ c ∈ r, isLowerHex c = true) (plain : ∀ c ∈ file, Plain c) :
    ∀ c ∈ n.versionsRoot.toList ++ '/' :: r ++ file, Plain c := by
  have root : ∀ n : WriterName, isPath n.versionsRoot = true := by
    intro n
    cases n <;> decide +kernel
  intro c mem
  simp only [List.append_assoc, List.cons_append, List.mem_append, List.mem_cons] at mem
  rcases mem with there | rfl | there | there
  · exact isPath_plain (root n) c there
  · exact plain_slash
  · exact plain_hex (hex c there)
  · exact plain c there

lemma Declared.printable {f : Fields} (h : Declared nfkc v n w f) (url : ∀ c ∈ f.url.toList, Plain c) :
    Printable v n f := by
  obtain ⟨r, version, key⟩ := h.version
  obtain ⟨cert, hex⟩ := versionId_spec version
  have fullchain : ∀ c ∈ "/fullchain.crt".toList, Plain c := fun c mem =>
    isPath_plain (s := "/fullchain.crt") (by decide +kernel) c mem
  have tlsKey : ∀ c ∈ "/tls.key".toList, Plain c := fun c mem =>
    isPath_plain (s := "/tls.key") (by decide +kernel) c mem
  have caFile : ∀ c ∈ f.caFile.toList, Plain c := h.same ▸ isPath_plain h.path
  refine ⟨h.read, ⟨?_, ?_, ?_⟩, url, caFile, isDns_plain h.server, ?_, ?_⟩
  · rintro none_
    obtain ⟨host, accepted, -⟩ := h.host
    rw [none_] at accepted
    simp [urlHost, isHttps] at accepted
  · rintro none_
    have inside := h.inside
    rw [h.same, none_] at inside
    revert inside
    decide
  · rintro none_
    rw [none_] at cert
    simp at cert
  · rw [cert]
    exact plain_version n hex fullchain
  · rw [key]
    exact plain_version n hex tlsKey

lemma isStr_spec {j : Option Json} {q : String → Bool} (h : isStr j q = true) : ∃ s, j = some (.str s) ∧ q s = true := by
  simp only [isStr, Option.any_eq_true] at h
  obtain ⟨s, read, holds⟩ := h
  obtain ⟨j, rfl, text⟩ := Option.bind_eq_some_iff.mp read
  cases j with
  | str s' =>
    cases text
    exact ⟨s, rfl, holds⟩
  | null | bool | int | float | arr | obj => cases text

/-- The rendered drop-in is the one that the helper expects. -/
lemma dropin_expected (host : validHost v = true)
    (port : v "grafana_alloy_http_listen_port" = some (.int 12345)) : dropin v = expectedDropin := by
  have each : fixed.all (fun f => isStr (v ("grafana_alloy_" ++ f.1)) (· = f.2)) = true := by
    simp only [validHost, Bool.and_eq_true] at host
    exact host.1.1.1.1.1.2
  have read (key s : String) (mem : (key, s) ∈ fixed) : v ("grafana_alloy_" ++ key) = some (.str s) := by
    obtain ⟨s', text, same⟩ := isStr_spec (List.all_eq_true.mp each _ mem)
    rw [text, of_decide_eq_true same]
  have path : v "grafana_alloy_config_path" = some (.str configPath) := read "config_path" _ (by simp [fixed])
  have storage : v "grafana_alloy_storage_dir" = some (.str "/var/lib/alloy/data") :=
    read "storage_dir" _ (by simp [fixed])
  have address : v "grafana_alloy_http_listen_address" = some (.str "127.0.0.1") :=
    read "http_listen_address" _ (by simp [fixed])
  unfold dropin printed
  simp only [path, storage, address, port]
  decide +kernel

lemma measured (host : validHost v = true)
    (plain : ∀ l ∈ (labels v).getD [], (∀ c ∈ l.1.toList, Plain c) ∧ ∀ c ∈ l.2.toList, Plain c) :
    ∃ wal, Measured v wal := by
  simp only [validHost, Bool.and_eq_true] at host
  obtain ⟨⟨-, keepalive⟩, bearer⟩ := host
  obtain ⟨wal, read, duration⟩ := isStr_spec keepalive
  obtain ⟨token, read', none_⟩ := isStr_spec bearer
  have name : fieldName .mimir "bearer_token_file" = "grafana_alloy_prometheus_remote_write_bearer_token_file" := by
    decide +kernel
  refine ⟨wal, plain, ?_, duration, ?_⟩
  · rw [strOf, read]
    rfl
  · rw [isEmpty, name, strOf, read', of_decide_eq_true none_]
    rfl

variable {ca : String → Option (ℕ × String)} {t : Text} {f : Fields}

/-- The helper accepts a writer whose block it has found once. -/
lemma checkWriter_ok (h : Declared nfkc v n w f) (found : finditer (fun _ => pattern n) t = [made f])
    (hosts : ∀ host, urlHost nfkc f.url.toList = some host → isIPv4 host = false)
    (server : isIPv4 f.serverName.toList = false)
    (once : occurrences (quote f.clientCertFile) t = 1 ∧ occurrences (quote f.clientKeyFile) t = 1)
    (file : ∃ mode, (mode = 0o600 ∨ mode = 0o644) ∧ ca w.caFile = some (mode, w.caSha256)) :
    ∃ r, checkWriter nfkc ca t n w = .ok r := by
  obtain ⟨host, read, -⟩ := h.host
  obtain ⟨ok, dns⟩ := endpointHost_ok read
  obtain ⟨r, version, key⟩ := h.version
  obtain ⟨mode, allowed, there⟩ := file
  refine ⟨r, ?_⟩
  have same : (decide (mode = 0o600) || decide (mode = 0o644)) = true := by simpa using allowed
  have path : f.caFile.toList = w.caFile.toList := by rw [h.same]
  have written : decide (occurrences (quote (String.ofList f.clientCertFile.toList)) t = 1) = true ∧
      decide (occurrences (quote (String.ofList f.clientKeyFile.toList)) t = 1) = true := by
    simpa only [String.ofList_toList, decide_eq_true_eq] using once
  rw [checkWriter, found]
  refine bind_ok.mpr ⟨host, ok, bind_ok.mpr ⟨(), validateDns_ok dns (hosts host read) _, bind_ok.mpr ⟨(),
    validateDns_ok h.server server _, checked_ok.mpr ⟨decide_eq_true path, ?_⟩⟩⟩⟩
  rw [there]
  refine checked_ok.mpr ⟨same, checked_ok.mpr ⟨decide_eq_true rfl, ?_⟩⟩
  have found' : versionId n.versionsRoot (made f).cert = some r := version
  rw [found']
  exact checked_ok.mpr ⟨decide_eq_true key, checked_ok.mpr ⟨Bool.and_eq_true_iff.mpr written, rfl⟩⟩

lemma checkWriters_ok {ws : List (WriterName × Writer)} (h : ∀ w ∈ ws, ∃ r, checkWriter nfkc ca t w.1 w.2 = .ok r) :
    ∃ requests, checkWriters nfkc ca t ws = .ok requests := by
  induction ws with
  | nil => exact ⟨[], rfl⟩
  | cons w ws ih =>
    obtain ⟨r, first⟩ := h w List.mem_cons_self
    obtain ⟨rs, rest⟩ := ih fun w' mem => h w' (List.mem_cons_of_mem w mem)
    exact ⟨(w.1, r) :: rs, bind_ok.mpr ⟨r, first, bind_ok.mpr ⟨rs, rest, rfl⟩⟩⟩

/-- The block of each writer is found once. -/
lemma blocks_found (accepted : Accepted nfkc v p) (regular : Regular nfkc v p) (renders : Renders v p t)
    {w : WriterName × Writer} (mem : w ∈ p.writers) {f : Fields} (h : Declared nfkc v w.1 w.2 f) :
    finditer (fun _ => pattern w.1) t = [made f] := by
  have taken {w : WriterName × Writer} (mem : w ∈ p.writers) {f : Fields} (h : Declared nfkc v w.1 w.2 f) :
      Takes (pattern w.1) (block v w.1) (made f) :=
    takes_block (h.printable (regular.urls w mem _ (fieldsOf_spec h.read).1).1) fun mimir =>
      measured accepted.host (regular.labels ⟨w, mem, mimir⟩)
  have distinct : (p.writers.map Prod.fst).Nodup := by
    have each : ∀ ns ∈ [[WriterName.loki], [.mimir], [.loki, .mimir]], ns.Nodup := by decide
    exact each _ accepted.names
  have places : ∀ n, ∃ q, n ∈ p.writers.map Prod.fst → ∃ s x, t = q ++ s ∧ (pattern n).run s = some x ∧
      ∃ r, s = block v n ++ r := by
    intro n
    by_cases there : n ∈ p.writers.map Prod.fst
    · obtain ⟨w, mem, rfl⟩ := List.mem_map.mp there
      obtain ⟨q, r, text⟩ := renders.blocks w mem
      obtain ⟨f, h⟩ := accepted.writers w mem
      exact ⟨q, fun _ => ⟨block v w.1 ++ r, _, by rw [← text, List.append_assoc], taken mem h r, r, rfl⟩⟩
    · exact ⟨[], fun mem => absurd mem there⟩
  choose pre at_ using places
  have certs : (finditer (bounded (credential "cert_file".toList)) t).length = (p.writers.map Prod.fst).length := by
    rw [renders.certs, List.length_map]
  obtain ⟨s, x, text, -, r, rfl⟩ := at_ w.1 (List.mem_map_of_mem mem)
  refine finditer_pattern distinct certs (fun n mem => ?_) text (taken mem h r)
  obtain ⟨s, x, text, ran, -⟩ := at_ n mem
  exact ⟨s, x, text, ran⟩

/-- The configuration of accepted variables passes the target's boundary. -/
theorem boundary_accepts (accepted : Accepted nfkc v p) (regular : Regular nfkc v p) (renders : Renders v p t)
    (recognizable : Recognizable v p t) (d : Sources)
    (files : ∀ w ∈ p.writers, ∃ mode, (mode = 0o600 ∨ mode = 0o644) ∧ ca w.2.caFile = some (mode, w.2.caSha256)) :
    ∃ requests, configBoundary nfkc ca (context p d) (RecordText.encode t) (RecordText.encode (dropin v)) =
      .ok requests := by
  have writers : ∀ w ∈ p.writers, ∃ r, checkWriter nfkc ca t w.1 w.2 = .ok r := by
    intro w mem
    obtain ⟨f, h⟩ := accepted.writers w mem
    obtain ⟨url, -, server, cert, key⟩ := fieldsOf_spec h.read
    have once := recognizable.once w mem
    rw [toJson, toJson, cert, key] at once
    exact checkWriter_ok h (blocks_found accepted regular renders mem h) (regular.urls w mem _ url).2
      (regular.servers w mem _ server) once (files w mem)
  obtain ⟨requests, checked⟩ := checkWriters_ok writers
  refine ⟨requests, ?_⟩
  rw [configBoundary, RecordText.decode_encode recognizable.ascii, dropin_expected accepted.host regular.port]
  refine checked_ok.mpr ⟨decide_eq_true rfl, checked_ok.mpr ⟨by rw [recognizable.uncommented]; rfl, checked_ok.mpr
    ⟨decide_eq_true renders.components, checked_ok.mpr ⟨?_, checked⟩⟩⟩⟩
  exact Bool.and_eq_true_iff.mpr ⟨decide_eq_true renders.certs, decide_eq_true renders.keys⟩

/-- What the controller accepts is accepted on the target: the context always, and the configuration
within what the recognizer reads. -/
theorem alloy_inputs_accepted (float : Text → Option FloatText) (accepted : validate nfkc v false = some p)
    (d : Sources) : ∃ j c, JsonText.loads float (contextText p d) = some j ∧ validateContext j = .ok c ∧
      ∀ (ca : String → Option (ℕ × String)) (t : Text), Regular nfkc v p → Renders v p t → Recognizable v p t →
        (∀ w ∈ p.writers, ∃ mode, (mode = 0o600 ∨ mode = 0o644) ∧ ca w.2.caFile = some (mode, w.2.caSha256)) →
        ∃ requests, configBoundary nfkc ca c (RecordText.encode t) (RecordText.encode (dropin v)) = .ok requests := by
  have spec := validate_spec accepted
  exact ⟨contextJson p d, context p d, contextText_read float spec, validateContext_json spec,
    fun ca t regular renders recognizable files => boundary_accepts spec regular renders recognizable d files⟩

end Configuration

section Sample

def sampleDigest : String := "0123456789abcdef0123456789abcdef0123456789abcdef0123456789abcdef"

lemma sampleDigest_hex : matchesHex 64 sampleDigest = true := by decide +kernel

def sampleSources : Sources := ⟨⟨_, sampleDigest_hex⟩, ⟨_, sampleDigest_hex⟩, ⟨_, sampleDigest_hex⟩⟩

def sampleWriter : Writer := ⟨"loki-client", "reviewed-v1", "/etc/alloy/pki/ca.crt", sampleDigest⟩

def samplePlan : Plan := ⟨"web-01", [(.loki, sampleWriter)], templateVars .loki⟩

/-- The variables of a host with one log writer. -/
def sampleVars : Vars := fun key => [
  ("grafana_alloy_enabled", Json.bool true), ("grafana_alloy_service_enabled", .bool true),
  ("grafana_alloy_service_state", .str "started"), ("grafana_alloy_service_name", .str "alloy.service"),
  ("grafana_alloy_config_dir", .str "/etc/alloy"), ("grafana_alloy_config_path", .str configPath),
  ("grafana_alloy_storage_dir", .str "/var/lib/alloy/data"),
  ("grafana_alloy_http_listen_address", .str "127.0.0.1"), ("grafana_alloy_http_listen_port", .int 12345),
  ("grafana_alloy_package_nevra", .str nevra), ("grafana_alloy_version", .str "1.18.1"),
  ("grafana_alloy_arch", .str "amd64"),
  ("grafana_alloy_config_validate_command", .str "/usr/bin/alloy validate %s"),
  ("grafana_alloy_environment", .str "lab"), ("grafana_alloy_vm_name", .str "web"), ("grafana_alloy_ip", .str ""),
  ("grafana_alloy_platform_role", .str ""), ("grafana_alloy_feature_config", .str ""),
  ("grafana_alloy_journal_max_age", .str "12h"), ("grafana_alloy_external_labels", .obj []),
  ("grafana_alloy_prometheus_wal_max_keepalive_time", .str "5m"), ("inventory_hostname", .str "web-01"),
  ("grafana_alloy_prometheus_remote_write_bearer_token_file", .str ""),
  ("grafana_alloy_initial_writers", .obj [("loki", .obj [("ca_file", .str sampleWriter.caFile),
    ("ca_sha256", .str sampleDigest), ("service", .str sampleWriter.service),
    ("trust_id", .str sampleWriter.trustId)])]),
  ("grafana_alloy_loki_url", .str "https://loki.example.org/push"),
  ("grafana_alloy_loki_ca_file", .str sampleWriter.caFile),
  ("grafana_alloy_loki_server_name", .str "loki.example.org"),
  ("grafana_alloy_loki_client_cert_file",
    .str "/etc/alloy/pki/loki/tls-versions/0123456789abcdef0123456789abcdef/fullchain.crt"),
  ("grafana_alloy_loki_client_key_file",
    .str "/etc/alloy/pki/loki/tls-versions/0123456789abcdef0123456789abcdef/tls.key"),
  ("grafana_alloy_prometheus_remote_write_url", .str ""),
  ("grafana_alloy_prometheus_remote_write_ca_file", .str ""),
  ("grafana_alloy_prometheus_remote_write_server_name", .str ""),
  ("grafana_alloy_prometheus_remote_write_client_cert_file", .str ""),
  ("grafana_alloy_prometheus_remote_write_client_key_file", .str "")].lookup key

def sampleCa : String → Option (ℕ × String) := fun _ => some (0o600, sampleDigest)

lemma sample_files : ∀ w ∈ samplePlan.writers, ∃ mode, (mode = 0o600 ∨ mode = 0o644) ∧
    sampleCa w.2.caFile = some (mode, w.2.caSha256) := by
  intro w mem
  obtain rfl := List.mem_singleton.mp mem
  exact ⟨0o600, .inl rfl, rfl⟩

def sampleVersion : Text := "/etc/alloy/pki/loki/".toList ++ "tls-versions/".toList ++
  "0123456789abcdef".toList ++ "0123456789abcdef".toList

/-- The block of the log writer. -/
def sampleConfig : Text := "loki.write \"default\" \x7b\n".toList ++ "  endpoint \x7b\n    url = \"".toList ++
  "https://loki.example.org/push\"\n".toList ++ "    follow_redirects = false\n\n".toList ++
  "    tls_config \x7b\n".toList ++ "      ca_file              = \"".toList ++
  "/etc/alloy/pki/ca.crt\"\n".toList ++ "      server_name          = \"".toList ++
  "loki.example.org\"\n".toList ++ "      insecure_skip_verify = false\n".toList ++
  "      min_version          = ".toList ++ "\"TLS12\"\n".toList ++
  "      cert_file = \"".toList ++ sampleVersion ++ "/fullchain.crt\"\n".toList ++
  "      key_file  = \"".toList ++ sampleVersion ++ "/tls.key\"\n    \x7d\n  \x7d\n\x7d".toList

/-- The block of the log writer and a note behind it. -/
def sampleNoted : Text := sampleConfig ++ "\n// a note\n".toList

/-- A configuration of one write component with one client certificate. -/
def Single (t : Text) : Prop := (finditer (bounded writeComponent) t).length = 1 ∧
  (finditer (bounded (credential "cert_file".toList)) t).length = 1 ∧
  (finditer (bounded (credential "key_file".toList)) t).length = 1

/-- What the sample evaluates to; the kernel evaluates all of it together. -/
lemma sample_facts : validate id sampleVars false = some samplePlan ∧ block sampleVars .loki = sampleConfig ∧
    (Single sampleConfig ∧ isAscii sampleConfig = true ∧ commented sampleConfig = false) ∧
    (Single sampleNoted ∧ isAscii sampleNoted = true ∧ commented sampleNoted = true) ∧
    occurrences (toJson sampleVars (fieldName .loki "client_cert_file")) sampleConfig = 1 ∧
    occurrences (toJson sampleVars (fieldName .loki "client_key_file")) sampleConfig = 1 := by
  unfold Single
  decide +kernel

lemma sample_validated : validate id sampleVars false = some samplePlan := sample_facts.1

lemma sample_block : block sampleVars .loki = sampleConfig := sample_facts.2.1

lemma renders_of {r : Text} (single : Single (sampleConfig ++ r)) : Renders sampleVars samplePlan (sampleConfig ++ r) := by
  refine ⟨fun w mem => ?_, single.1, single.2.1, single.2.2⟩
  obtain rfl := List.mem_singleton.mp mem
  change block sampleVars .loki <:+: _
  rw [sample_block]
  exact (List.prefix_append sampleConfig r).isInfix

lemma ascii_of {t : Text} (ascii : isAscii t = true) : ∀ c ∈ t, c.toNat < 128 := by
  simpa [isAscii] using ascii

lemma sample_regular : Regular id sampleVars samplePlan := by
  have url : strOf sampleVars (fieldName .loki "url") = some "https://loki.example.org/push" := by decide +kernel
  have host : urlHost id "https://loki.example.org/push".toList = some "loki.example.org".toList := by decide +kernel
  have name : strOf sampleVars (fieldName .loki "server_name") = some "loki.example.org" := by decide +kernel
  have named : isIPv4 "loki.example.org".toList = false := by decide +kernel
  have plain : "https://loki.example.org/push".toList.all (fun c =>
      32 ≤ c.toNat && c.toNat ≤ 126 && c ≠ '"' && c ≠ '\\') = true := by decide +kernel
  simp only [List.all_eq_true, Bool.and_eq_true, decide_eq_true_eq] at plain
  refine ⟨rfl, fun w mem url' read => ?_, fun w mem name' read => ?_, fun metrics => ?_⟩
  · obtain rfl := List.mem_singleton.mp mem
    obtain rfl := Option.some.inj (url.symm.trans read)
    refine ⟨fun c mem => ?_, fun host' read' => ?_⟩
    · obtain ⟨⟨⟨low, high⟩, quote_⟩, backslash⟩ := plain c mem
      exact ⟨low, high, quote_, backslash⟩
    · obtain rfl := Option.some.inj (host.symm.trans read')
      exact named
  · obtain rfl := List.mem_singleton.mp mem
    obtain rfl := Option.some.inj (name.symm.trans read)
    exact named
  · obtain ⟨w, mem, other⟩ := metrics
    obtain rfl := List.mem_singleton.mp mem
    cases other

/-- The log writer's variables and their block are accepted. -/
theorem sample_accepted : ∃ j c, JsonText.loads (fun _ => none) (contextText samplePlan sampleSources) = some j ∧
    validateContext j = .ok c ∧ ∃ requests, configBoundary id sampleCa c (RecordText.encode sampleConfig)
      (RecordText.encode (dropin sampleVars)) = .ok requests := by
  obtain ⟨j, c, read, valid, accepts⟩ := alloy_inputs_accepted (fun _ => none) sample_validated sampleSources
  obtain ⟨-, -, ⟨single, ascii, uncommented⟩, -⟩ := sample_facts
  have renders : Renders sampleVars samplePlan sampleConfig := by
    have whole := renders_of (r := []) (by rwa [List.append_nil])
    rwa [List.append_nil] at whole
  refine ⟨j, c, read, valid, accepts sampleCa sampleConfig sample_regular renders ⟨ascii_of ascii, uncommented,
    fun w mem => ?_⟩ sample_files⟩
  obtain rfl := List.mem_singleton.mp mem
  exact sample_facts.2.2.2.2

/-- A comment line behind the block, which the recognizer refuses. -/
theorem noted_configuration_refused : ¬∀ (nfkc : Text → Text) (v : Vars) (p : Plan) (d : Sources) (j : Json)
    (c : Context) (ca : String → Option (ℕ × String)) (t : Text), validate nfkc v false = some p →
    JsonText.loads (fun _ => none) (contextText p d) = some j → validateContext j = .ok c → Renders v p t →
    (∀ w ∈ p.writers, ∃ mode, (mode = 0o600 ∨ mode = 0o644) ∧ ca w.2.caFile = some (mode, w.2.caSha256)) →
    ∃ requests, configBoundary nfkc ca c (RecordText.encode t) (RecordText.encode (dropin v)) = .ok requests := by
  intro accepted
  have spec := validate_spec sample_validated
  obtain ⟨-, -, -, ⟨single, ascii, comment⟩, -⟩ := sample_facts
  obtain ⟨requests, passed⟩ := accepted id sampleVars samplePlan sampleSources _ _ sampleCa sampleNoted
    sample_validated (contextText_read _ spec) (validateContext_json spec) (renders_of single) sample_files
  rw [configBoundary, RecordText.decode_encode (ascii_of ascii)] at passed
  have uncommented := (checked_ok.mp (checked_ok.mp passed).2).1
  rw [comment] at uncommented
  cases uncommented

end Sample

end PlatformConfig.AlloyAccepted
