import RosettaMq.Setup.Defs

/-!
# The working directory

Relative paths of the configuration are resolved in the directory of the configuration file. So the
working directory only matters for where that file is found: naming the file by its absolute path
gives the same setup in any other working directory (`setup_ignores_cwd`).
-/

open UnixPath (isAbsolute join lookup names parent)

namespace RosettaMq

variable {FileDescriptorSet Message Json Certificate PrivateKey : Type}
  {host : Host FileDescriptorSet Message Json Certificate PrivateKey}
  {cwd cwd' dir dir' path : String}

theorem resolvePath_eq_join (dir path : String) : resolvePath dir path = join dir path := by
  unfold resolvePath
  split_ifs with h
  · rw [UnixPath.join_of_isAbsolute h]
  · rfl

/-- What the operating system and the compiler of schemas make of paths: a path that has to be a
directory is no file and no schema. A schema is compiled from what its path and the include paths
lead to, if its own directory is the first of them. -/
structure Host.Lawful (host : Host FileDescriptorSet Message Json Certificate PrivateKey) :
    Prop where
  files_directory : ∀ l, l.directory = true → (host.files l).toOption = none
  compile_directory : ∀ cwd file includes, (lookup cwd file).directory = true →
    (host.compile cwd file includes).toOption = none
  compile_lookup : ∀ cwd cwd' file file' includes includes',
    lookup cwd file = lookup cwd' file' →
    includes.map (fun path => (lookup cwd path).names) =
      includes'.map (fun path => (lookup cwd' path).names) →
    includes.head? = parent file → includes'.head? = parent file' →
    (host.compile cwd file includes).toOption = (host.compile cwd' file' includes').toOption

/-- The directory `dir` is the same in the one working directory as `dir'` in the other. -/
def SameDir (cwd cwd' dir dir' : String) : Prop := (lookup cwd dir).names = (lookup cwd' dir').names

/-! ## Paths -/

/-- The flag of a path does not depend on where it is looked up. -/
theorem directory_lookup (cwd cwd' path : String) :
    (lookup cwd path).directory = (lookup cwd' path).directory := rfl

theorem SameDir.lookup_eq (h : SameDir cwd cwd' dir dir') (path : String) :
    lookup cwd (resolvePath dir path) = lookup cwd' (resolvePath dir' path) := by
  rw [resolvePath_eq_join, resolvePath_eq_join, UnixPath.lookup_join, UnixPath.lookup_join, h,
    directory_lookup cwd cwd']

/-- A path without names has to be a directory. -/
theorem directory_of_names_eq_nil (h : names path = []) : (lookup cwd path).directory = true := by
  have hlast :
      ¬ UnixPath.IsName ((UnixPath.segments path).getLast (UnixPath.segments_ne_nil _)) := by
    intro hname
    have hmem : _ ∈ names path := List.mem_filter.mpr
      ⟨List.getLast_mem (UnixPath.segments_ne_nil path), by simpa using hname⟩
    rw [h] at hmem
    cases hmem
  simpa [lookup] using hlast

/-- Parents of the same file are the same directory. -/
theorem sameDir_parent {file file' : String} (hfile : names file ≠ []) (hfile' : names file' ≠ [])
    (h : lookup cwd file = lookup cwd' file') :
    ∃ dir dir', parent file = some dir ∧ parent file' = some dir' ∧ SameDir cwd cwd' dir dir' := by
  obtain ⟨dir, hparent, habs, hnames⟩ := UnixPath.exists_parent hfile
  obtain ⟨dir', hparent', habs', hnames'⟩ := UnixPath.exists_parent hfile'
  refine ⟨dir, dir', hparent, hparent', ?_⟩
  -- dropping the last name of the looked-up paths drops the last names of the files
  have hdrop : ∀ {cwd file dir}, names file ≠ [] → isAbsolute dir = isAbsolute file →
      names dir = (names file).dropLast →
      (lookup cwd dir).names = (lookup cwd file).names.dropLast := by
    intro cwd file dir hne habs hnames
    simp only [lookup, UnixPath.names_join_eq, habs, hnames]
    split_ifs
    · rfl
    · rw [List.dropLast_append_of_ne_nil hne]
  rw [SameDir, hdrop hfile habs hnames, hdrop hfile' habs' hnames', h]

/-- The absolute path leads to the same file. -/
theorem lookup_join_cwd (hcwd : isAbsolute cwd = true) (cwd' path : String) :
    lookup cwd' (join cwd path) = lookup cwd path := by
  have hnames : (lookup cwd' cwd).names = names cwd := by
    rw [lookup, UnixPath.join_of_isAbsolute hcwd]
  rw [UnixPath.lookup_join, hnames, ← UnixPath.names_join_eq, directory_lookup cwd' cwd]
  rfl

/-! ## The parts of the setup -/

/-- Two results with the same success are the same or both errors. -/
theorem toOption_cases {ε α : Type} {x y : Except ε α} (h : x.toOption = y.toOption) :
    (∃ a, x = .ok a ∧ y = .ok a) ∨ ∃ e e', x = .error e ∧ y = .error e' := by
  cases x with
  | error e =>
    cases y with
    | error e' => exact Or.inr ⟨e, e', rfl, rfl⟩
    | ok b => cases h
  | ok a =>
    cases y with
    | error e' => cases h
    | ok b => exact Or.inl ⟨b, congrArg Except.ok (Option.some.inj h), rfl⟩

namespace SameDir

variable (h : SameDir cwd cwd' dir dir')
include h

variable (host) in
theorem read (file : String) :
    (AuthConfig.read host cwd dir file).toOption =
      (AuthConfig.read host cwd' dir' file).toOption := by
  simp only [AuthConfig.read, Host.read, h.lookup_eq]
  cases host.files (lookup cwd' (resolvePath dir' file)) <;> rfl

variable (host) in
theorem resolveAuth (auth : Option AuthConfig) :
    (resolveAuth host cwd dir auth).toOption = (resolveAuth host cwd' dir' auth).toOption := by
  cases auth with
  | none => rfl
  | some authCfg =>
    cases authCfg with
    | userPass => rfl
    | mtls caFile certFile keyFile =>
      simp only [RosettaMq.resolveAuth, AuthConfig.build]
      rcases toOption_cases (h.read host caFile) with
        ⟨ca, hca, hca'⟩ | ⟨_, _, hca, hca'⟩
      · rcases toOption_cases (h.read host certFile) with
          ⟨cert, hcert, hcert'⟩ | ⟨_, _, hcert, hcert'⟩
        · rcases toOption_cases (h.read host keyFile) with
            ⟨key, hkey, hkey'⟩ | ⟨_, _, hkey, hkey'⟩
          · simp only [hca, hca', hcert, hcert', hkey, hkey']
          · simp only [hca, hca', hcert, hcert', hkey, hkey']
            rfl
        · simp only [hca, hca', hcert, hcert']
          rfl
      · simp only [hca, hca']
        rfl

/-- The compiler is given the same schema and the same include paths. -/
theorem compile (hhost : host.Lawful) (cfg : ProtobufConfig) :
    (host.compile cwd (resolvePath dir cfg.protoFile) (cfg.includes dir)).toOption =
      (host.compile cwd' (resolvePath dir' cfg.protoFile) (cfg.includes dir')).toOption := by
  have hfile := h.lookup_eq cfg.protoFile
  by_cases hdir : (lookup cwd (resolvePath dir cfg.protoFile)).directory = true
  · have hdir' := hdir
    rw [hfile] at hdir'
    rw [hhost.compile_directory _ _ _ hdir, hhost.compile_directory _ _ _ hdir']
  · -- the schema has a name, so its directory is the first of the include paths
    have hne : names (resolvePath dir cfg.protoFile) ≠ [] := fun hnil =>
      hdir (directory_of_names_eq_nil hnil)
    have hne' : names (resolvePath dir' cfg.protoFile) ≠ [] := by
      rw [hfile] at hdir
      exact fun hnil => hdir (directory_of_names_eq_nil hnil)
    obtain ⟨parent, parent', hparent, hparent', hsame⟩ := sameDir_parent hne hne' hfile
    refine hhost.compile_lookup _ _ _ _ _ _ hfile ?_ ?_ ?_
    · simp only [ProtobufConfig.includes, hparent, hparent', Option.getD_some, List.map_cons,
        List.map_map, Function.comp_def, h.lookup_eq]
      rw [hsame]
    · rw [ProtobufConfig.includes, hparent]
      rfl
    · rw [ProtobufConfig.includes, hparent']
      rfl

/-- A decoder is built from the same parts. -/
theorem build (hhost : host.Lawful) (config : DecoderConfig) :
    (config.build (host.toolchain cwd) dir).toOption =
      (config.build (host.toolchain cwd') dir').toOption := by
  cases config with
  | hexdump | utf8 | template => rfl
  | protobuf cfg =>
    simp only [DecoderConfig.build, Host.toolchain, ProtobufDecoder.fromConfig]
    rcases toOption_cases (h.compile hhost cfg) with ⟨set, hset, hset'⟩ | ⟨_, _, hset, hset'⟩
    · simp only [hset, hset']
    · simp only [hset, hset']
      rfl

theorem registerTopic (hhost : host.Lawful) (config : Config) (mapping : TopicMapping)
    (builder : DecoderRegistryBuilder) :
    (config.registerTopic (host.toolchain cwd) dir mapping builder).toOption =
      (config.registerTopic (host.toolchain cwd') dir' mapping builder).toOption := by
  unfold Config.registerTopic
  cases mapping.decoder with
  | none => rfl
  | some decoderRef =>
    dsimp only
    cases decoderRef.resolve config.decoders with
    | none => rfl
    | some decoderConfig =>
      dsimp only
      rcases toOption_cases (h.build hhost decoderConfig) with ⟨d, hd, hd'⟩ | ⟨_, _, hd, hd'⟩
      · simp only [hd, hd']
      · simp only [hd, hd']
        rfl

theorem registerTopics (hhost : host.Lawful) (config : Config) : ∀ (mappings : List TopicMapping)
    (builder : DecoderRegistryBuilder),
    (config.registerTopics (host.toolchain cwd) dir mappings builder).toOption =
      (config.registerTopics (host.toolchain cwd') dir' mappings builder).toOption
  | [], _ => rfl
  | mapping :: mappings, builder => by
      simp only [Config.registerTopics]
      rcases toOption_cases (h.registerTopic hhost config mapping builder) with
        ⟨b, hb, hb'⟩ | ⟨_, _, hb, hb'⟩
      · simp only [hb, hb']
        exact registerTopics hhost config mappings b
      · simp only [hb, hb']
        rfl

theorem buildRegistry (hhost : host.Lawful) (config : Config) :
    (config.buildRegistry (host.toolchain cwd) dir).toOption =
      (config.buildRegistry (host.toolchain cwd') dir').toOption := by
  simp only [Config.buildRegistry]
  rcases toOption_cases (h.registerTopics hhost config config.topics .new) with
    ⟨b, hb, hb'⟩ | ⟨_, _, hb, hb'⟩
  · simp only [hb, hb']
  · simp only [hb, hb']
    rfl

end SameDir

/-! ## The result -/

theorem read_join_cwd (hcwd : isAbsolute cwd = true) (cwd' path : String) :
    host.read cwd' (join cwd path) = host.read cwd path := by
  rw [Host.read, Host.read, lookup_join_cwd hcwd]

variable (host) in
theorem toOption_load_join_cwd (hcwd : isAbsolute cwd = true) (cwd' path : String) :
    (Config.load host cwd' (join cwd path)).toOption = (Config.load host cwd path).toOption := by
  unfold Config.load
  rw [read_join_cwd hcwd]
  cases host.read cwd path with
  | error => rfl
  | ok bytes =>
    dsimp only
    cases fromUtf8 bytes with
    | error => rfl
    | ok raw => rfl

/-- The directory of the configuration file is the same one for its absolute path. -/
theorem sameDir_baseDirOf (hcwd : isAbsolute cwd = true) (cwd' : String)
    (hfile : (lookup cwd path).directory = false) :
    SameDir cwd' cwd (baseDirOf (join cwd path)) (baseDirOf path) := by
  have hlookup := lookup_join_cwd hcwd cwd' path
  have hne : names path ≠ [] := fun hnil => by
    rw [directory_of_names_eq_nil hnil] at hfile
    cases hfile
  have hne' : names (join cwd path) ≠ [] := fun hnil => by
    rw [← hlookup, directory_of_names_eq_nil hnil] at hfile
    cases hfile
  obtain ⟨dir, dir', hdir, hdir', hsame⟩ := sameDir_parent hne' hne hlookup
  rwa [baseDirOf, hdir, baseDirOf, hdir']

/-- The working directory matters for the path of the configuration file alone. If `main` is given
the absolute path instead, it is set up in the same way in every working directory, or nowhere. -/
theorem setup_ignores_cwd (hhost : host.Lawful) (hcwd : isAbsolute cwd = true)
    (cwd' configPath : String) :
    (setup host cwd' (join cwd configPath)).toOption =
      (setup host cwd configPath).toOption := by
  unfold setup
  rcases toOption_cases (toOption_load_join_cwd host hcwd cwd' configPath) with
    ⟨config, hload, hload'⟩ | ⟨_, _, hload, hload'⟩
  · -- what could be loaded is no directory
    have hfile : (lookup cwd configPath).directory = false := by
      by_contra hdir
      have hnone := hhost.files_directory _ (eq_true_of_ne_false hdir)
      cases hread : host.read cwd configPath with
      | error => simp [Config.load, hread] at hload'
      | ok bytes =>
        rw [Host.read] at hread
        rw [hread] at hnone
        cases hnone
    have hsame := sameDir_baseDirOf hcwd cwd' hfile
    simp only [hload, hload']
    rcases toOption_cases (hsame.buildRegistry hhost config) with
      ⟨registry, hreg, hreg'⟩ | ⟨_, _, hreg, hreg'⟩
    · simp only [hreg, hreg']
      rcases toOption_cases (hsame.resolveAuth host config.connection.auth) with
        ⟨auth, hauth, hauth'⟩ | ⟨_, _, hauth, hauth'⟩
      · simp only [hauth, hauth']
      · simp only [hauth, hauth']
        rfl
    · simp only [hreg, hreg']
      rfl
  · simp only [hload, hload']
    rfl

/-! ## A host -/

/-- A configuration with a client certificate in files beside it. -/
def mtlsDocument : Table :=
  [("connection", .table [("host", .string "broker.local"), ("port", .integer 8883),
    ("client_id", .string "rosetta-mq"), ("tls", .boolean true),
    ("auth", .table [("method", .string "mtls"), ("ca_file", .string "ca.pem"),
      ("cert_file", .string "cert.pem"), ("key_file", .string "./tls//key.pem")])])]

/-- It has that configuration and those files in `/etc`. -/
def mtlsHost : Host Unit Unit Unit (List UInt8) (List UInt8) where
  files l :=
    if l = ⟨["etc", "mq.toml"], false⟩ then .ok []
    else if l = ⟨["etc", "ca.pem"], false⟩ then .ok [1]
    else if l = ⟨["etc", "cert.pem"], false⟩ then .ok [2]
    else if l = ⟨["etc", "tls", "key.pem"], false⟩ then .ok [3]
    else .error "No such file or directory (os error 2)"
  var _ := .error "environment variable not found"
  toml _ := some mtlsDocument
  compile _ _ _ := .error "file not found"
  messages _ := .ok fun _ => none
  addTemplate _ := .error "syntax error"
  debug s := s
  rustls := ⟨fun pem => .ok [pem], fun pem => .ok (some pem), ([], []), fun _ => true,
    fun _ _ => .ok ()⟩

theorem lawful_mtlsHost : mtlsHost.Lawful where
  files_directory l hl := by
    obtain ⟨names, directory⟩ := l
    obtain rfl : directory = true := hl
    simp [mtlsHost, Except.toOption]
  compile_directory _ _ _ _ := rfl
  compile_lookup _ _ _ _ _ _ _ _ _ _ := rfl

/-- It is set up in that directory, and from anywhere by the absolute path. -/
theorem setup_ignores_cwd_mtlsHost :
    (setup mtlsHost "/home" "/etc/mq.toml").toOption =
        (setup mtlsHost "/etc" "mq.toml").toOption ∧
      (setup mtlsHost "/etc" "mq.toml").toOption.map (·.auth) =
        some (.mtls [1] [2] [3]) := by
  refine ⟨?_, by decide +kernel⟩
  have hpath : join "/etc" "mq.toml" = "/etc/mq.toml" := by
    decide
  rw [← hpath]
  exact setup_ignores_cwd lawful_mtlsHost rfl "/home" "mq.toml"

end RosettaMq
