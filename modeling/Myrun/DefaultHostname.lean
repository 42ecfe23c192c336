import Myrun.ConfigValidate

namespace Myrun

/-!
# The default host name

A configuration without a host name gets one from the container's name, or else
from its short identifier.  Names and identifiers may contain an underscore,
host names may not, so a derived host name is not always one that validation
accepts.
-/

/-- The host name checks of `finalize_and_validate`. -/
def checkHostname (hostname : String) : Result Unit := do
  requireConfig (byteLen hostname ≤ 64)
    "hostname must be at most 64 characters"
  requireConfig (hostname.toList.all isHostnameChar = true)
    ("hostname " ++ debugStr hostname ++ " contains invalid characters")

private theorem checkHostname_eq_ok {hostname : String} :
    checkHostname hostname = .ok () ↔
      byteLen hostname ≤ 64 ∧ hostname.toList.all isHostnameChar = true := by
  simp only [checkHostname, Result.bind_eq_ok]
  constructor
  · rintro ⟨_, short, chars⟩
    exact ⟨requireConfig_eq_ok.mp short, requireConfig_eq_ok.mp chars⟩
  · rintro ⟨short, chars⟩
    exact ⟨(), requireConfig_eq_ok.mpr short, requireConfig_eq_ok.mpr chars⟩

private theorem validateId_eq_ok {id : String} :
    validateId id = .ok () ↔
      (id.isEmpty = false ∧ byteLen id ≤ 64) ∧
        id.toList.all isIdChar = true ∧ startsWithChar '.' id = false := by
  simp only [validateId, Result.bind_eq_ok]
  constructor
  · rintro ⟨_, size, _, chars, start⟩
    exact ⟨requireConfig_eq_ok.mp size, requireConfig_eq_ok.mp chars,
      requireConfig_eq_ok.mp start⟩
  · rintro ⟨size, chars, start⟩
    exact ⟨(), requireConfig_eq_ok.mpr size, (),
      requireConfig_eq_ok.mpr chars, requireConfig_eq_ok.mpr start⟩

/-- A character of an identifier is one of a host name, or an underscore. -/
theorem isIdChar_iff (c : Char) :
    isIdChar c = true ↔ isHostnameChar c = true ∨ c = '_' := by
  simp only [isIdChar, isHostnameChar, Bool.or_eq_true, decide_eq_true_eq]
  tauto

private theorem isHostnameChar_underscore : isHostnameChar '_' = false := by
  decide

private theorem utf8Len_take_le
    (count : Nat)
    (cs : List Char) :
    utf8Len (cs.take count) ≤ utf8Len cs := by
  calc utf8Len (cs.take count)
      ≤ utf8Len (cs.take count) + utf8Len (cs.drop count) :=
        Nat.le_add_right _ _
    _ = utf8Len (cs.take count ++ cs.drop count) := by
        simp only [utf8Len, List.map_append, List.sum_append]
    _ = utf8Len cs := by
        rw [List.take_append_drop]

namespace ContainerConfig

/-- The identity of a configuration without a host name is checked. -/
structure Unnamed (c : ContainerConfig) : Prop where
  hostname : c.hostname = ""
  id : validateId c.id = .ok ()
  name : ∀ name, c.name = some name → validateId name = .ok ()

variable {c : ContainerConfig}

private theorem Unnamed.derived (unnamed : c.Unnamed) :
    c.derivedHostname = c.name.getD (shortId c.id) := by
  rw [derivedHostname, unnamed.hostname]
  rfl

/-- A derived host name is short enough and made of identifier characters. -/
theorem Unnamed.derived_checked (unnamed : c.Unnamed) :
    byteLen c.derivedHostname ≤ 64 ∧
      c.derivedHostname.toList.all isIdChar = true := by
  rw [unnamed.derived]
  cases named : c.name with
  | some name =>
      obtain ⟨⟨_, short⟩, chars, _⟩ :=
        validateId_eq_ok.mp (unnamed.name name named)
      exact ⟨short, chars⟩
  | none =>
      obtain ⟨⟨_, short⟩, chars, _⟩ := validateId_eq_ok.mp unnamed.id
      refine ⟨?_, ?_⟩
      · simp only [Option.getD_none, shortId, byteLen, String.toList_ofList]
        exact (utf8Len_take_le 12 c.id.toList).trans short
      · simp only [Option.getD_none, shortId, String.toList_ofList]
        rw [List.all_eq_true] at chars ⊢
        exact fun ch member => chars ch (List.mem_of_mem_take member)

/-- The underscore is all that can be wrong with a derived host name. -/
theorem Unnamed.checkHostname_iff (unnamed : c.Unnamed) :
    checkHostname c.derivedHostname = .ok () ↔
      '_' ∉ c.derivedHostname.toList := by
  obtain ⟨short, chars⟩ := unnamed.derived_checked
  rw [checkHostname_eq_ok]
  rw [List.all_eq_true] at chars ⊢
  constructor
  · intro checked member
    have accepted := checked.2 '_' member
    rw [isHostnameChar_underscore] at accepted
    cases accepted
  · intro free
    refine ⟨short, fun ch member => ?_⟩
    rcases (isIdChar_iff ch).mp (chars ch member) with host | underscore
    · exact host
    · exact (free (underscore ▸ member)).elim

/-- Past the identifiers, the identity checks are those of the host name. -/
theorem validateIdentity_eq
    (id : validateId c.id = .ok ())
    (name : ∀ name, c.name = some name → validateId name = .ok ()) :
    c.validateIdentity = checkHostname c.derivedHostname := by
  rw [validateIdentity, id]
  cases named : c.name with
  | none =>
      rfl
  | some given =>
      simp only [name given named]
      rfl

/-- Two configurations that the later checks cannot tell apart. -/
structure Alike (c d : ContainerConfig) : Prop where
  command : d.command = c.command
  cwd : d.cwd = c.cwd
  rootfs : d.rootfs = c.rootfs
  mounts : d.mounts = c.mounts
  resources : d.resources = c.resources
  network : d.network = c.network
  namespaces : d.namespaces = c.namespaces
  security : d.security = c.security

private theorem Alike.symm
    {d : ContainerConfig}
    (alike : Alike c d) :
    Alike d c :=
  ⟨alike.command.symm, alike.cwd.symm, alike.rootfs.symm, alike.mounts.symm,
    alike.resources.symm, alike.network.symm, alike.namespaces.symm,
    alike.security.symm⟩

private theorem Alike.finalize
    {d done : ContainerConfig}
    (alike : Alike c d)
    {host : ConfigHost}
    {requireRootfs : Bool}
    (accepted : c.finalize host requireRootfs = .ok done) :
    ∃ done, d.finalize host requireRootfs = .ok done := by
  have command : d.validateCommand = c.validateCommand := by
    rw [validateCommand, validateCommand, alike.command, alike.cwd]
  have root : d.finalRootfs host requireRootfs =
      c.finalRootfs host requireRootfs := by
    rw [finalRootfs, finalRootfs, validateRootfs, validateRootfs, alike.rootfs]
  have network : d.validateNetwork = c.validateNetwork := by
    rw [validateNetwork, validateNetwork, alike.network, alike.namespaces]
  unfold ContainerConfig.finalize at accepted ⊢
  rw [command, root, alike.mounts, alike.resources, network, alike.network,
    alike.security]
  simp only [Result.bind_eq_ok, Result.pure_eq_ok] at accepted ⊢
  obtain ⟨_, command, rootfs, root, _, mounts, _, resources, namespaces,
    network, _, mtu, mask, capabilities, -⟩ := accepted
  exact ⟨_, (), command, rootfs, root, (), mounts, (), resources, namespaces,
    network, (), mtu, mask, capabilities, rfl⟩

private theorem alike_hostname
    (c : ContainerConfig)
    (hostname : String) :
    Alike c.withHostname
      ({ c with hostname } : ContainerConfig).withHostname :=
  ⟨rfl, rfl, rfl, rfl, rfl, rfl, rfl, rfl⟩

private theorem isEmpty_eq_false
    {text : String}
    (given : text ≠ "") :
    text.isEmpty = false := by
  rw [Bool.eq_false_iff, Ne, String.isEmpty_iff]
  exact given

private theorem withId_of_valid
    (host : ConfigHost)
    (id : validateId c.id = .ok ()) :
    c.withId host = c := by
  obtain ⟨⟨present, -⟩, -⟩ := validateId_eq_ok.mp id
  rw [withId, present]
  rfl

/-- Validation of a configuration whose identifiers are fine. -/
theorem finalizeAndValidate_identified
    (host : ConfigHost)
    (requireRootfs : Bool)
    (id : validateId c.id = .ok ())
    (name : ∀ name, c.name = some name → validateId name = .ok ()) :
    c.finalizeAndValidate host requireRootfs = (do
      checkHostname c.derivedHostname
      c.withHostname.finalize host requireRootfs) := by
  rw [finalizeAndValidate, withId_of_valid host id, validateIdentity_eq id name]

/-- A host name that can be asked for. -/
def ValidHostname (hostname : String) : Prop :=
  hostname ≠ "" ∧ checkHostname hostname = .ok ()

private theorem derivedHostname_given
    {hostname : String}
    (given : hostname ≠ "") :
    ({ c with hostname } : ContainerConfig).derivedHostname = hostname := by
  simp only [derivedHostname, isEmpty_eq_false given]
  rfl

/-- Nothing but the host name separates the configuration from the same one
with a host name. -/
theorem Unnamed.accepted_iff
    {host : ConfigHost}
    {requireRootfs : Bool}
    (unnamed : c.Unnamed)
    {hostname : String}
    (valid : ValidHostname hostname) :
    (∃ done, ({ c with hostname } : ContainerConfig).finalizeAndValidate host
      requireRootfs = .ok done) ↔
      ∃ done, c.withHostname.finalize host requireRootfs = .ok done := by
  have asked := @finalizeAndValidate_identified
    ({ c with hostname } : ContainerConfig) host requireRootfs unnamed.id
    unnamed.name
  rw [derivedHostname_given valid.1, valid.2] at asked
  constructor
  · intro ⟨done, accepted⟩
    rw [asked] at accepted
    exact (alike_hostname c hostname).symm.finalize accepted
  · intro ⟨done, accepted⟩
    obtain ⟨done', accepted'⟩ :=
      (alike_hostname c hostname).finalize accepted
    exact ⟨done', asked.trans accepted'⟩

/-- The host name that is derived is not empty. -/
theorem Unnamed.derived_ne_empty (unnamed : c.Unnamed) :
    c.derivedHostname ≠ "" := by
  rw [unnamed.derived]
  cases named : c.name with
  | some name =>
      have given := (validateId_eq_ok.mp (unnamed.name name named)).1.1
      rintro rfl
      cases given
  | none =>
      obtain ⟨⟨given, -⟩, -⟩ := validateId_eq_ok.mp unnamed.id
      intro empty
      rw [Option.getD_none, shortId, String.ofList_eq_empty_iff,
        List.take_eq_nil_iff] at empty
      have noId : c.id = "" := by
        rw [← String.toList_eq_nil_iff]
        exact empty.resolve_left (by decide)
      rw [noId] at given
      cases given

/--
What a default host name should do: validation does not fail because of it, and
it succeeds exactly when it does for some host name that is asked for.
-/
def DefaultAcceptable (host : ConfigHost) (requireRootfs : Bool)
    (c : ContainerConfig) : Prop :=
  (∀ e, checkHostname c.derivedHostname = .error e →
    c.finalizeAndValidate host requireRootfs ≠ .error e) ∧
  ((∃ done, c.finalizeAndValidate host requireRootfs = .ok done) ↔
    ∃ hostname, ValidHostname hostname ∧
      ∃ done, ({ c with hostname } : ContainerConfig).finalizeAndValidate host
        requireRootfs = .ok done)

private theorem Unnamed.defaultAcceptable
    {host : ConfigHost}
    {requireRootfs : Bool}
    (unnamed : c.Unnamed)
    (checked : checkHostname c.derivedHostname = .ok ()) :
    DefaultAcceptable host requireRootfs c := by
  have own := finalizeAndValidate_identified host requireRootfs unnamed.id
    unnamed.name
  rw [checked] at own
  have validDefault : ValidHostname c.derivedHostname :=
    ⟨unnamed.derived_ne_empty, checked⟩
  refine ⟨fun e failed => ?_, ?_, ?_⟩
  · rw [checked] at failed
    cases failed
  · intro ⟨done, accepted⟩
    rw [own] at accepted
    exact ⟨_, validDefault, (unnamed.accepted_iff validDefault).mpr
      ⟨done, accepted⟩⟩
  · intro ⟨hostname, valid, accepted⟩
    rw [own]
    exact (unnamed.accepted_iff valid).mp accepted

/--
The default host name of a configuration whose identifier and name are fine is
acceptable exactly when there is no underscore in the name, or, without a name,
in the first twelve characters of the identifier.
-/
theorem default_hostname_acceptable_iff
    {host : ConfigHost}
    {requireRootfs : Bool}
    (unnamed : c.Unnamed) :
    DefaultAcceptable host requireRootfs c ↔
      '_' ∉ (c.name.getD (shortId c.id)).toList := by
  rw [← unnamed.derived, ← unnamed.checkHostname_iff]
  constructor
  · intro ⟨noFailure, _⟩
    cases checked : checkHostname c.derivedHostname with
    | ok done =>
        rfl
    | error e =>
        have own := finalizeAndValidate_identified host requireRootfs
          unnamed.id unnamed.name
        rw [checked] at own
        exact (noFailure e checked own).elim
  · exact unnamed.defaultAcceptable

/-- A host on which every path is a directory. -/
def roomyHost : ConfigHost where
  generateId := "0123456789abcdef0123456789abcdef"
  canonicalize := fun path => .ok path
  isDir := fun _ => true
  pathExists := fun _ => true

/-- A container with a name and no host name. -/
def named (name : String) : ContainerConfig :=
  { id := "4f2a"
    name := some name
    rootfs := "/srv/web"
    command := ["/bin/httpd"] }

private theorem named_unnamed
    {name : String}
    (valid : validateId name = .ok ()) :
    (named name).Unnamed where
  hostname := rfl
  id := by
    change validateId "4f2a" = .ok ()
    exact validateId_eq_ok.mpr (by decide)
  name := by
    intro given same
    obtain rfl : name = given := Option.some.inj same
    exact valid

theorem web_app_acceptable :
    DefaultAcceptable roomyHost true (named "web-app") :=
  (default_hostname_acceptable_iff
    (named_unnamed (validateId_eq_ok.mpr (by decide)))).mpr (by decide)

theorem underscore_rejected :
    (named "web_app").Unnamed ∧
      (∃ e, checkHostname (named "web_app").derivedHostname = .error e ∧
        (named "web_app").finalizeAndValidate roomyHost true = .error e) ∧
      ValidHostname "web" ∧
      ∃ done, ({ named "web_app" with hostname := "web" } :
        ContainerConfig).finalizeAndValidate roomyHost true = .ok done := by
  have unnamed : (named "web_app").Unnamed :=
    named_unnamed (validateId_eq_ok.mpr (by decide))
  have failed : ∃ e,
      checkHostname (named "web_app").derivedHostname = .error e := by
    cases checked : checkHostname (named "web_app").derivedHostname with
    | error e =>
        exact ⟨e, rfl⟩
    | ok done =>
        exact (unnamed.checkHostname_iff.mp checked (by decide)).elim
  obtain ⟨e, failed⟩ := failed
  have own := finalizeAndValidate_identified roomyHost true unnamed.id
    unnamed.name
  rw [failed] at own
  have valid : ValidHostname "web" :=
    ⟨by decide, checkHostname_eq_ok.mpr (by decide)⟩
  have passes : (({ named "web_app" with hostname := "web" } :
      ContainerConfig).finalizeAndValidate roomyHost true).toBool = true := by
    decide +kernel
  refine ⟨unnamed, ⟨e, failed, own⟩, valid, ?_⟩
  cases done : ({ named "web_app" with hostname := "web" } :
      ContainerConfig).finalizeAndValidate roomyHost true with
  | error e =>
      rw [done] at passes
      cases passes
  | ok c =>
      exact ⟨c, rfl⟩

end ContainerConfig

end Myrun
