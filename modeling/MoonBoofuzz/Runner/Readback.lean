import MoonBoofuzz.Runner.Launch

namespace MoonBoofuzz

namespace Options

variable {ω : Type} {options : Options ω} {endpoint : Endpoint}

def writtenKeys : List Text :=
  ["transport", "endpoint", "policies", "case_limit", "combinatorial", "max_depth",
    "sleep_between_ms", "crash_threshold_request",
    "crash_threshold_element"].map Text.ofAscii

def unwrittenKeys : List Text :=
  ["variables", "check_data_received", "receive_data_after_fuzz",
    "ignore_connection_reset", "target_command", "target_start_delay_ms",
    "target_stop_delay_ms", "ignore_connection_aborted",
    "ignore_connection_issues_when_sending_fuzz_data", "restart_threshold",
    "restart_timeout_ms", "restart_sleep_ms", "udp_server",
    "udp_broadcast"].map Text.ofAscii

theorem writtenKeys_nodup : (writtenKeys ++ unwrittenKeys).Nodup := by
  rw [writtenKeys, unwrittenKeys, ← List.map_append]
  simp only [List.cons_append, List.nil_append, List.map_cons, List.map_nil]
  -- each literal is turned into its characters before anything is compared
  iterate 23 rw [Text.ofAscii_ofList]
  decide +kernel

theorem not_writtenKeys {key : Text} (hkey : key ∈ unwrittenKeys) : key ∉ writtenKeys :=
  fun hwritten => List.disjoint_of_nodup_append writtenKeys_nodup hwritten hkey

def settingKeys : List Text :=
  ["sleep_between_ms", "crash_threshold_request", "crash_threshold_element"].map Text.ofAscii

theorem nodup_leading : (["transport", "endpoint", "policies", "case_limit",
    "combinatorial", "max_depth"].map Text.ofAscii ++ settingKeys).Nodup :=
  (List.nodup_append.mp writtenKeys_nodup).1

theorem settingKeys_nodup : settingKeys.Nodup := (List.nodup_append.mp nodup_leading).2.1

theorem settingKeys_distinct :
    Text.ofAscii "sleep_between_ms" ≠ Text.ofAscii "crash_threshold_request" ∧
      Text.ofAscii "sleep_between_ms" ≠ Text.ofAscii "crash_threshold_element" ∧
      Text.ofAscii "crash_threshold_request" ≠ Text.ofAscii "crash_threshold_element" := by
  have hpairs := settingKeys_nodup
  simp only [settingKeys, List.map_cons, List.map_nil, List.nodup_cons, List.mem_cons,
    not_or] at hpairs
  exact ⟨hpairs.1.1, hpairs.1.2.1, hpairs.2.1.1⟩

theorem not_leading {name : Text} (hname : name ∈ settingKeys) :
    name ∉ ["transport", "endpoint", "policies", "case_limit", "combinatorial",
      "max_depth"].map Text.ofAscii :=
  fun hlead => List.disjoint_of_nodup_append nodup_leading hlead hname

theorem setting_key {name : String} {value default : Int32} {key : Text}
    (hkey : key ∈ (setting name value default).map Prod.fst) : key = Text.ofAscii name := by
  unfold setting at hkey
  split at hkey
  · simpa using hkey
  · cases hkey

theorem enumeration_key {key : Text} (hkey : key ∈ options.enumeration.map Prod.fst) :
    key = Text.ofAscii "combinatorial" ∨ key = Text.ofAscii "max_depth" := by
  unfold enumeration at hkey
  split at hkey
  · rw [List.map_cons, List.mem_cons] at hkey
    rcases hkey with hcombinatorial | hdepth
    · exact .inl hcombinatorial
    · obtain ⟨entry, hentry, rfl⟩ := List.mem_map.mp hdepth
      obtain ⟨depth, -, hpair⟩ := Option.map_eq_some_iff.mp (Option.mem_toList.mp hentry)
      exact .inr (congrArg Prod.fst hpair.symm)
  · cases hkey

theorem configMap_key {key : Text}
    (hkey : key ∈ (options.configMap endpoint).map Prod.fst) : key ∈ writtenKeys := by
  simp only [configMap, List.map_append, List.mem_append] at hkey
  rcases hkey with (((hhead | henumeration) | hsleep) | hrequest) | helement
  · exact List.mem_append_left _ hhead
  · rcases enumeration_key henumeration with rfl | rfl <;> simp [writtenKeys]
  · rw [setting_key hsleep]
    simp [writtenKeys]
  · rw [setting_key hrequest]
    simp [writtenKeys]
  · rw [setting_key helement]
    simp [writtenKeys]

theorem requireKeys_configMap :
    (Json.object (options.configMap endpoint)).requireKeys ExecutionConfig.keys = .ok () := by
  apply Json.requireKeys_object
  intro key hkey
  have hsub : writtenKeys ⊆ ExecutionConfig.keys := List.map_subset _ (by simp)
  exact hsub (configMap_key hkey)

theorem field_absent {name : Text} (hname : name ∉ writtenKeys) :
    (Json.object (options.configMap endpoint)).field name = none := by
  apply List.lookup_eq_none_iff.mpr
  intro entry hentry
  have hkey : entry.1 ∈ writtenKeys := configMap_key (List.mem_map_of_mem hentry)
  simp only [bne_iff_ne]
  intro hsame
  exact hname (hsame ▸ hkey)

theorem lookup_setting (name : String) (value default : Int32) (key : Text) :
    (setting name value default).lookup key =
      if key = Text.ofAscii name ∧ value ≠ default then some (.ofInt value) else none := by
  unfold setting
  by_cases hvalue : value = default
  · simp [hvalue]
  · by_cases hkey : key = Text.ofAscii name
    · simp [hvalue, hkey]
    · have hne : (key == Text.ofAscii name) = false := by simpa using hkey
      simp [hvalue, hkey, List.lookup_cons, hne]

theorem lookup_leading {name : Text} (hname : name ∉
      ["transport", "endpoint", "policies", "case_limit"].map Text.ofAscii) :
    (options.leading endpoint).lookup name = none := by
  apply List.lookup_eq_none_iff.mpr
  intro entry hentry
  rw [bne_iff_ne]
  rintro rfl
  exact hname (List.mem_map_of_mem (f := Prod.fst) hentry)

theorem field_setting {name : Text} (hname : name ∈ settingKeys) :
    (Json.object (options.configMap endpoint)).field name =
      ((setting "sleep_between_ms" options.sleepBetweenMs 0).lookup name).or
        (((setting "crash_threshold_request" options.crashThresholdRequest 12).lookup
          name).or
            ((setting "crash_threshold_element" options.crashThresholdElement 3).lookup
              name)) := by
  have hlead := not_leading hname
  have hhead : (options.leading endpoint).lookup name = none :=
    lookup_leading fun hkey => hlead (List.mem_append_left _ hkey)
  have hmiddle : options.enumeration.lookup name = none := by
    apply List.lookup_eq_none_iff.mpr
    intro entry hentry
    rw [bne_iff_ne]
    rintro rfl
    apply hlead
    rcases enumeration_key (List.mem_map_of_mem hentry) with hkey | hkey <;> rw [hkey] <;>
      simp
  rw [Json.field, configMap, List.lookup_append, List.lookup_append, List.lookup_append,
    List.lookup_append, hhead, hmiddle]
  simp only [Option.none_or, Option.or_assoc]

theorem jsonInt_field {reader : IntReader} {json : Json} {name : String}
    {value default : Int32}
    (hfield : json.field (Text.ofAscii name) =
      if value ≠ default then some (.ofInt value) else none) :
    ExecutionConfig.jsonInt reader json name default = .ok value := by
  rw [ExecutionConfig.jsonInt, hfield]
  by_cases hvalue : value = default
  · rw [if_neg (not_not.mpr hvalue), hvalue]
  · rw [if_pos hvalue]
    simp only [Json.toInt_ofInt, ExecutionConfig.decoded]

variable {reader : EndpointReader}

theorem jsonInt_sleep : ExecutionConfig.jsonInt reader.toIntReader
    (.object (options.configMap endpoint)) "sleep_between_ms" 0 =
      .ok options.sleepBetweenMs := by
  apply jsonInt_field
  obtain ⟨hrequest, helement, -⟩ := settingKeys_distinct
  rw [field_setting (by simp [settingKeys]), lookup_setting, lookup_setting, lookup_setting]
  simp [hrequest, helement]

theorem jsonInt_crashRequest : ExecutionConfig.jsonInt reader.toIntReader
    (.object (options.configMap endpoint)) "crash_threshold_request" 12 =
      .ok options.crashThresholdRequest := by
  apply jsonInt_field
  obtain ⟨hsleep, -, helement⟩ := settingKeys_distinct
  rw [field_setting (by simp [settingKeys]), lookup_setting, lookup_setting, lookup_setting]
  simp [hsleep.symm, helement]

theorem jsonInt_crashElement : ExecutionConfig.jsonInt reader.toIntReader
    (.object (options.configMap endpoint)) "crash_threshold_element" 3 =
      .ok options.crashThresholdElement := by
  apply jsonInt_field
  obtain ⟨-, hsleep, hrequest⟩ := settingKeys_distinct
  rw [field_setting (by simp [settingKeys]), lookup_setting, lookup_setting, lookup_setting]
  simp [hsleep.symm, hrequest.symm]

theorem booleanJson_absent (name : String) {default : Bool}
    (hname : Text.ofAscii name ∈ unwrittenKeys) :
    ExecutionConfig.booleanJson (.object (options.configMap endpoint)) name default =
      .ok default := by
  rw [ExecutionConfig.booleanJson, field_absent (not_writtenKeys hname)]

theorem jsonInt_absent (name : String) {default : Int32}
    (hname : Text.ofAscii name ∈ unwrittenKeys) :
    ExecutionConfig.jsonInt reader.toIntReader (.object (options.configMap endpoint)) name
      default = .ok default := by
  rw [ExecutionConfig.jsonInt, field_absent (not_writtenKeys hname)]

theorem optionalInt_absent (name : String) {least : Int} {refusal : Text}
    (hname : Text.ofAscii name ∈ unwrittenKeys) :
    ExecutionConfig.optionalInt reader.toIntReader (.object (options.configMap endpoint))
      name least refusal = .ok none := by
  rw [ExecutionConfig.optionalInt, field_absent (not_writtenKeys hname)]

theorem field_enumeration {name : Text} (hname : name ∈
      ["combinatorial", "max_depth"].map Text.ofAscii) :
    (Json.object (options.configMap endpoint)).field name =
      options.enumeration.lookup name := by
  have hlead : name ∈ ["transport", "endpoint", "policies", "case_limit", "combinatorial",
      "max_depth"].map Text.ofAscii :=
    List.mem_append_right (["transport", "endpoint", "policies", "case_limit"].map _) hname
  have hothers : ∀ entry ∈ setting "sleep_between_ms" options.sleepBetweenMs 0 ++
      (setting "crash_threshold_request" options.crashThresholdRequest 12 ++
        setting "crash_threshold_element" options.crashThresholdElement 3),
      entry.1 ≠ name := by
    intro entry hentry hsame
    refine not_leading ?_ hlead
    rw [← hsame]
    simp only [List.mem_append] at hentry
    rcases hentry with hsleep | hrequest | helement
    · rw [setting_key (List.mem_map_of_mem hsleep)]
      simp [settingKeys]
    · rw [setting_key (List.mem_map_of_mem hrequest)]
      simp [settingKeys]
    · rw [setting_key (List.mem_map_of_mem helement)]
      simp [settingKeys]
  have hhead : (options.leading endpoint).lookup name = none := by
    apply lookup_leading
    intro hkey
    have hnodup := (List.nodup_append.mp nodup_leading).1
    exact @List.disjoint_of_nodup_append _ (["transport", "endpoint", "policies",
      "case_limit"].map Text.ofAscii) _ hnodup _ hkey hname
  have hrest := List.lookup_eq_none_iff.mpr fun entry hentry =>
    bne_iff_ne.mpr (hothers entry hentry).symm
  rw [Json.field, configMap, List.append_assoc, List.append_assoc, List.append_assoc,
    List.lookup_append, hhead, List.lookup_append, hrest, Option.none_or, Option.or_none]

theorem booleanJson_combinatorial :
    ExecutionConfig.booleanJson (.object (options.configMap endpoint)) "combinatorial" true =
      .ok true := by
  rw [ExecutionConfig.booleanJson, field_enumeration (by simp), enumeration]
  split
  · rename_i flag hfield
    split at hfield
    · cases hfield
      rfl
    · cases hfield
  · rfl

theorem field_maxDepth :
    (Json.object (options.configMap endpoint)).field (Text.ofAscii "max_depth") =
      if options.combinatorial then options.maxDepth.map Json.ofInt else none := by
  rw [field_enumeration (by simp), enumeration]
  split
  · cases options.maxDepth <;> rfl
  · rfl

theorem optionalInt_maxDepth (refusal : Text) : ExecutionConfig.optionalInt
    reader.toIntReader (.object (options.configMap endpoint)) "max_depth" 1 refusal =
      if options.combinatorial then
        match options.maxDepth with
        | some depth => if 1 ≤ depth.toInt then .ok (some depth)
            else ExecutionConfig.invalid refusal
        | none => .ok none
      else .ok none := by
  rw [ExecutionConfig.optionalInt, field_maxDepth]
  by_cases hcombinatorial : options.combinatorial = true
  · rw [if_pos hcombinatorial, if_pos hcombinatorial]
    cases options.maxDepth with
    | none => rfl
    | some depth =>
        change (ExecutionConfig.decoded ((Json.ofInt depth).toInt reader.toIntReader) >>=
          fun parsed => _) = _
        rw [Json.toInt_ofInt]
        rfl
  · rw [if_neg hcombinatorial, if_neg hcombinatorial]

theorem parseKind_client (hserver : options.udpServer = false)
    (hbroadcast : options.udpBroadcast = false) :
    ExecutionConfig.parseKind (.object (options.configMap endpoint)) =
      .ok (if options.udp then Text.ofAscii "udp" else Text.ofAscii "tcp") := by
  have hfield : (Json.object (options.configMap endpoint)).field (Text.ofAscii "transport") =
      some (.string options.transport) := rfl
  have htransport : options.transport =
      if options.udp then Text.ofAscii "udp" else Text.ofAscii "tcp" := by
    simp [transport, hserver, hbroadcast]
  rw [ExecutionConfig.parseKind, hfield, htransport]
  cases options.udp with
  | true => rfl
  | false => rfl

theorem parseEndpoint_client {kind : Text} (hkind : kind ≠ Text.ofAscii "file")
    (hserver : endpoint.Accepted server) :
    ExecutionConfig.parseEndpoint reader (.object (options.configMap endpoint)) kind false =
      if endpoint.host ≠ [] ∧ 0 < endpoint.port.toInt then .ok endpoint
      else .error (.transport Endpoint.unexpected) := by
  have hfield : (Json.object (options.configMap endpoint)).field (Text.ofAscii "endpoint") =
      some endpoint.toJson := rfl
  have hkeys : endpoint.toJson.requireKeys WireEndpoint.keys = .ok () := by
    apply Json.requireKeys_object
    have hsame : ["host", "port", "connect_timeout_ms", "send_timeout_ms",
        "receive_timeout_ms", "max_receive"].map Text.ofAscii = WireEndpoint.keys := rfl
    intro key hkey
    exact hsame ▸ hkey
  rw [ExecutionConfig.parseEndpoint, if_neg hkind, hfield]
  change (ExecutionConfig.lift (endpoint.toJson.requireKeys WireEndpoint.keys) .record >>=
    fun _ => _) = _
  rw [hkeys]
  change (ExecutionConfig.decoded (reader.endpoint endpoint.toJson) >>= fun _ => _) = _
  rw [reader.endpoint_toJson]
  change ExecutionConfig.lift (Endpoint.new endpoint.host endpoint.port
    endpoint.connectTimeoutMs endpoint.sendTimeoutMs endpoint.receiveTimeoutMs
    endpoint.maxReceive false) .transport = _
  rw [Endpoint.new, if_pos hserver.bounds]
  by_cases hhost : endpoint.host = []
  · rw [if_neg (fun h => absurd hhost (h.2.resolve_left (by decide))),
      if_neg (fun h => h.1 hhost)]
    rfl
  · rw [if_pos ⟨hserver.host.1, .inr hhost⟩]
    by_cases hport : 0 < endpoint.port.toInt
    · rw [if_pos ⟨hserver.port.1, hserver.port.2.1, .inr hport⟩, if_pos ⟨hhost, hport⟩]
      rfl
    · rw [if_neg (fun h => hport (h.2.2.resolve_left (by decide))),
        if_neg (fun h => hport h.2)]
      rfl

/-! The policies. -/

def policyJson : ReadPolicy → Json
  | .noResponse => .object [(Text.ofAscii "kind", .string (Text.ofAscii "none"))]
  | .fixed length => .object [(Text.ofAscii "kind", .string (Text.ofAscii "fixed")),
      (Text.ofAscii "length", .number (Text.integer length))]
  | .untilDelimiter delimiter =>
      .object [(Text.ofAscii "kind", .string (Text.ofAscii "until")),
        (Text.ofAscii "delimiter_hex", .string (Bytes.hexEncode delimiter))]
  | .datagram => .object [(Text.ofAscii "kind", .string (Text.ofAscii "datagram"))]

theorem policyConfig_eq (policies : List (Text × ReadPolicy)) :
    Settings.policyConfig policies =
      .object (policies.map fun entry => (entry.1, policyJson entry.2)) := by
  unfold Settings.policyConfig
  congr 1

theorem parsePolicy_policyJson {reader : IntReader} {policy : ReadPolicy} {limit : Int}
    (hvalid : validatePolicy policy limit = .ok ()) (hlimit : limit ≤ 1048576) :
    ExecutionConfig.parsePolicy reader (policyJson policy) = .ok policy := by
  cases policy with
  | noResponse => rfl
  | datagram => rfl
  | untilDelimiter delimiter =>
      change (ExecutionConfig.lift (Bytes.hexDecode (Bytes.hexEncode delimiter)) .record >>=
        fun parsed => Except.ok (ReadPolicy.untilDelimiter parsed)) = _
      rw [Bytes.hexDecode_hexEncode]
      rfl
  | fixed length =>
      have hbounds : 0 ≤ length ∧ length ≤ limit := by
        unfold validatePolicy at hvalid
        dsimp only at hvalid
        split at hvalid
        · assumption
        · cases hvalid
      have hlength : (Int32.ofInt length).toInt = length :=
        Int32.toInt_ofInt_of_le (by omega) (by omega)
      have hread : reader.read (Text.integer length) = some (Int32.ofInt length) := by
        rw [← reader.read_integer, hlength]
      change (ExecutionConfig.decoded (reader.read (Text.integer length)) >>=
        fun parsed => Except.ok (ReadPolicy.fixed parsed.toInt)) = _
      rw [hread]
      change Except.ok (ReadPolicy.fixed (Int32.ofInt length).toInt) = _
      rw [hlength]

theorem checkTransport_ok {udp : Bool} {policy : ReadPolicy}
    (hdatagram : udp = false ∨ policy = .noResponse ∨ policy = .datagram)
    (hstream : udp = true ∨ policy ≠ .datagram) :
    ExecutionConfig.checkTransport
      (if udp then Text.ofAscii "udp" else Text.ofAscii "tcp") policy = .ok () := by
  have hfile : Text.ofAscii "udp" ≠ Text.ofAscii "file" ∧
      Text.ofAscii "tcp" ≠ Text.ofAscii "file" ∧
      Text.ofAscii "tcp" ≠ Text.ofAscii "udp" := by decide +kernel
  cases udp with
  | true =>
      have hpolicy := (hdatagram.resolve_left (by decide)).symm
      change ExecutionConfig.checkTransport (Text.ofAscii "udp") policy = _
      rw [ExecutionConfig.checkTransport, if_pos fun _ => hpolicy,
        if_pos fun h => absurd h.symm hfile.2.2, if_pos fun h => absurd h hfile.1]
  | false =>
      have hpolicy := hstream.resolve_left (by decide)
      change ExecutionConfig.checkTransport (Text.ofAscii "tcp") policy = _
      rw [ExecutionConfig.checkTransport, if_pos fun h => absurd h hfile.2.2,
        if_pos fun _ => hpolicy, if_pos fun h => absurd h hfile.2.1]

theorem parsePolicies_policyConfig {reader : IntReader} {settings : Settings ω}
    {names : List Text} {udp : Bool} {policies : List (Text × ReadPolicy)}
    (hkinds : Runner.checkKinds udp policies = .ok ())
    (hpolicies : Runner.checkPolicies settings names policies = .ok ())
    (hlimit : settings.receiveLimit.toInt ≤ 1048576) :
    ExecutionConfig.parsePolicies reader
      (if udp then Text.ofAscii "udp" else Text.ofAscii "tcp") settings.receiveLimit.toInt
      (policies.map fun entry => (entry.1, policyJson entry.2)) = .ok policies := by
  induction policies with
  | nil => rfl
  | cons entry rest ih =>
      obtain ⟨name, policy⟩ := entry
      rw [Runner.checkKinds] at hkinds
      split at hkinds
      case isFalse => cases hkinds
      rename_i hdatagram
      split at hkinds
      case isFalse => cases hkinds
      rename_i hstream
      rw [Runner.checkPolicies] at hpolicies
      split at hpolicies
      case isFalse => cases hpolicies
      cases hvalid : validatePolicy policy settings.receiveLimit.toInt with
      | error error =>
          rw [hvalid] at hpolicies
          cases hpolicies
      | ok token =>
          rw [hvalid] at hpolicies
          rw [List.map_cons, ExecutionConfig.parsePolicies,
            parsePolicy_policyJson hvalid hlimit]
          change (ExecutionConfig.lift (validatePolicy policy _) .run >>= fun _ => _) = _
          rw [hvalid]
          change (ExecutionConfig.checkTransport _ policy >>= fun _ => _) = _
          rw [checkTransport_ok hdatagram hstream]
          change (ExecutionConfig.parsePolicies reader _ _ _ >>= fun parsed =>
            Except.ok ((name, policy) :: parsed)) = _
          rw [ih hkinds hpolicies]
          rfl

def readConfig (options : Options ω) (endpoint : Endpoint) (maxDepth : Option Int32) :
    ExecutionConfig where
  endpoint := endpoint
  udp := options.udp
  udpServer := false
  udpBroadcast := false
  policies := options.policies
  limit := options.limit
  combinatorial := true
  maxDepth := maxDepth
  vars := []
  checkDataReceived := false
  receiveDataAfterFuzz := false
  ignoreConnectionReset := false
  ignoreConnectionAborted := false
  ignoreConnectionIssuesWhenSendingFuzzData := true
  restartThreshold := none
  restartTimeoutMs := none
  restartSleepMs := 5000
  sleepBetweenMs := options.sleepBetweenMs
  crashThresholdRequest := options.crashThresholdRequest
  crashThresholdElement := options.crashThresholdElement
  targetCommand := none
  targetStartDelayMs := 1000
  targetStopDelayMs := 500
  filePath := none

theorem parseLimit_configMap (hlimit : 0 ≤ options.limit.toInt) :
    ExecutionConfig.parseLimit reader.toIntReader (.object (options.configMap endpoint)) =
      .ok options.limit := by
  have hfield : (Json.object (options.configMap endpoint)).field
      (Text.ofAscii "case_limit") = some (.ofInt options.limit) := rfl
  rw [ExecutionConfig.parseLimit, ExecutionConfig.jsonInt, hfield]
  change (ExecutionConfig.decoded ((Json.ofInt options.limit).toInt reader.toIntReader) >>=
    fun _ => _) = _
  rw [Json.toInt_ofInt]
  exact if_pos hlimit

theorem policiesConfig_configMap {settings : Settings ω} {names : List Text}
    (hkinds : Runner.checkKinds options.udp options.policies = .ok ())
    (hpolicies : Runner.checkPolicies settings names options.policies = .ok ())
    (hlimit : settings.receiveLimit.toInt ≤ 1048576) :
    ExecutionConfig.policiesConfig reader.toIntReader (.object (options.configMap endpoint))
      (if options.udp then Text.ofAscii "udp" else Text.ofAscii "tcp")
      settings.receiveLimit.toInt = .ok options.policies := by
  have hfield : (Json.object (options.configMap endpoint)).field
      (Text.ofAscii "policies") = some (Settings.policyConfig options.policies) := rfl
  rw [ExecutionConfig.policiesConfig, hfield, policyConfig_eq]
  exact parsePolicies_policyConfig hkinds hpolicies hlimit

theorem parse_configMap {server : Bool} (hserver : options.udpServer = false)
    (hbroadcast : options.udpBroadcast = false) (haccepted : endpoint.Accepted server)
    (hlimit : 0 ≤ options.limit.toInt)
    (hpolicies : ExecutionConfig.policiesConfig reader.toIntReader
      (.object (options.configMap endpoint))
      (if options.udp then Text.ofAscii "udp" else Text.ofAscii "tcp")
      endpoint.maxReceive.toInt = .ok options.policies) :
    ExecutionConfig.parse reader (.object (options.configMap endpoint)) =
      if endpoint.host ≠ [] ∧ 0 < endpoint.port.toInt then
        (ExecutionConfig.optionalInt reader.toIntReader
          (.object (options.configMap endpoint)) "max_depth" 1
          (Text.ofAscii "max_depth must be at least 1")).map (options.readConfig endpoint)
      else .error (.transport Endpoint.unexpected) := by
  generalize hkind : (if options.udp then Text.ofAscii "udp" else Text.ofAscii "tcp") = kind
    at hpolicies
  have hparsed : ExecutionConfig.parseKind (.object (options.configMap endpoint)) = _ :=
    parseKind_client hserver hbroadcast
  rw [hkind] at hparsed
  have hne : kind ≠ Text.ofAscii "file" := by
    rw [← hkind]
    cases options.udp <;> decide +kernel
  have hudp : decide (kind = Text.ofAscii "udp") = options.udp := by
    rw [← hkind]
    cases options.udp <;> decide +kernel
  have hendpoint : ExecutionConfig.parseEndpoint reader
      (.object (options.configMap endpoint)) kind false = _ :=
    parseEndpoint_client hne haccepted
  have hlimit' : ExecutionConfig.parseLimit reader.toIntReader
      (.object (options.configMap endpoint)) = _ :=
    parseLimit_configMap hlimit
  have hfile : ExecutionConfig.parseFilePath (.object (options.configMap endpoint)) kind =
      .ok none := if_neg hne
  have hvars : ExecutionConfig.varsConfig (.object (options.configMap endpoint)) = .ok [] := by
    rw [ExecutionConfig.varsConfig, field_absent (not_writtenKeys (by simp [unwrittenKeys]))]
  have hrestart : ExecutionConfig.restartThresholdConfig reader.toIntReader
      (.object (options.configMap endpoint)) = .ok none := by
    rw [ExecutionConfig.restartThresholdConfig,
      optionalInt_absent "restart_threshold" (by simp [unwrittenKeys])]
    rfl
  have htarget : ExecutionConfig.optionalText (.object (options.configMap endpoint))
      "target_command" = .ok none := by
    rw [ExecutionConfig.optionalText, field_absent (not_writtenKeys (by simp [unwrittenKeys]))]
  unfold ExecutionConfig.parse
  simp only [requireKeys_configMap, ExecutionConfig.lift, Except.mapError, bind, Except.bind,
    hparsed, hfile, booleanJson_absent "udp_server" (by simp [unwrittenKeys]),
    booleanJson_absent "udp_broadcast" (by simp [unwrittenKeys]), hendpoint,
    and_self, or_true, if_true]
  by_cases hclient : endpoint.host ≠ [] ∧ 0 < endpoint.port.toInt
  · rw [if_pos hclient, if_pos hclient]
    simp only [hlimit', hpolicies, booleanJson_combinatorial, hvars, hrestart, htarget,
      booleanJson_absent "check_data_received" (by simp [unwrittenKeys]),
      booleanJson_absent "receive_data_after_fuzz" (by simp [unwrittenKeys]),
      booleanJson_absent "ignore_connection_reset" (by simp [unwrittenKeys]),
      booleanJson_absent "ignore_connection_aborted" (by simp [unwrittenKeys]),
      booleanJson_absent "ignore_connection_issues_when_sending_fuzz_data"
        (by simp [unwrittenKeys]),
      optionalInt_absent "restart_timeout_ms" (by simp [unwrittenKeys]),
      jsonInt_absent "restart_sleep_ms" (by simp [unwrittenKeys]),
      jsonInt_absent "target_start_delay_ms" (by simp [unwrittenKeys]),
      jsonInt_absent "target_stop_delay_ms" (by simp [unwrittenKeys]),
      jsonInt_sleep, jsonInt_crashRequest, jsonInt_crashElement, hudp]
    cases ExecutionConfig.optionalInt reader.toIntReader
      (.object (options.configMap endpoint)) "max_depth" 1
      (Text.ofAscii "max_depth must be at least 1") with
    | error error => rfl
    | ok depth => rfl
  · rw [if_neg hclient, if_neg hclient]

end Options

namespace Runner

variable {ω : Type} {reader : EndpointReader} {platform : Platform ω}
  {paths : List (SessionPath (EdgeCallback ω))} {endpoint : Endpoint} {options : Options ω}
  {runner : Configured ω}

theorem new_ok (hnew : new platform paths endpoint options = .ok runner) :
    checkKinds options.udp options.policies = .ok () ∧
      checkPolicies (options.settings platform endpoint) (paths.flatMap (·.names))
        options.policies = .ok () ∧
      0 ≤ options.limit.toInt ∧
      runner.config = .object (options.configMap endpoint) := by
  unfold new at hnew
  cases hkinds : checkKinds options.udp options.policies with
  | error error =>
      rw [hkinds] at hnew
      cases hnew
  | ok token =>
      rw [hkinds] at hnew
      change (withDialer paths (options.settings platform endpoint) >>= fun runner =>
        Except.ok (⟨runner, .object (options.configMap endpoint)⟩ : Configured ω)) = _ at hnew
      unfold withDialer at hnew
      split at hnew
      case isFalse => cases hnew
      rename_i hbounds
      cases hpolicies : checkPolicies (options.settings platform endpoint)
          (paths.flatMap (·.names)) (options.settings platform endpoint).policies with
      | error error =>
          rw [hpolicies] at hnew
          cases hnew
      | ok token' =>
          rw [hpolicies] at hnew
          cases hnew
          exact ⟨rfl, hpolicies, hbounds.1, rfl⟩

/-- The configuration says what the runner was built from. -/
structure Restores (config : ExecutionConfig) (endpoint : Endpoint) (options : Options ω) :
    Prop where
  endpoint : config.endpoint = endpoint
  udp : config.udp = options.udp
  policies : config.policies = options.policies
  limit : config.limit = options.limit
  combinatorial : config.combinatorial = options.combinatorial
  maxDepth : options.combinatorial = true → config.maxDepth = options.maxDepth
  sleepBetweenMs : config.sleepBetweenMs = options.sleepBetweenMs
  crashThresholdRequest : config.crashThresholdRequest = options.crashThresholdRequest
  crashThresholdElement : config.crashThresholdElement = options.crashThresholdElement

/-- The recorded configuration is read back, and the replay of a record gets past it. -/
structure ReadsBack (reader : EndpointReader) (platform : Platform ω)
    (endpoint : Endpoint) (options : Options ω) (runner : Configured ω) : Prop where
  parses : ∃ config, ExecutionConfig.parse reader runner.config = .ok config ∧
    Restores config endpoint options
  replays : ∀ result fuel world error last, (runner.record result).validate = .ok () →
    (runner.record result).replay reader platform none fuel world ≠
      (.done (.error error), last)

theorem replaySequence_valid {record : CaseRecord} {config : ReplayConfig}
    {dial : Attempt TransportError ω (Channel ω)} {clock : Clock ω} {fuel : Nat}
    {answer : Except RecordError ReplayResult} {world last : ω}
    (hvalid : record.validate = .ok ())
    (hreplay : record.replaySequence config dial clock fuel world = (.done answer, last)) :
    ∃ result, answer = .ok result := by
  unfold CaseRecord.replaySequence at hreplay
  rw [hvalid] at hreplay
  simp only [Act.bind_perform] at hreplay
  cases hdial : (dial world).1 with
  | error error =>
      rw [hdial] at hreplay
      cases hreplay
      exact ⟨_, rfl⟩
  | ok channel =>
      rw [hdial] at hreplay
      simp only [Act.deferring, Prod.mk.injEq] at hreplay
      obtain ⟨result, middle, -, hpure⟩ := Act.bind_eq_done.mp (Prod.ext hreplay.1 rfl)
      cases hpure
      exact ⟨result, rfl⟩

theorem replay_parsed {record : CaseRecord} {config : ExecutionConfig}
    (hvalid : record.validate = .ok ())
    (hparse : ExecutionConfig.parse reader record.config = .ok config) {fuel : Nat}
    {error : ConfigError} {world last : ω} :
    record.replay reader platform none fuel world ≠ (.done (.error error), last) := by
  intro hreplay
  unfold CaseRecord.replay at hreplay
  simp only [hvalid, hparse, ExecutionConfig.lift, Except.mapError, bind, Except.bind,
    CaseRecord.retarget] at hreplay
  obtain ⟨answer, middle, hsequence, hpure⟩ := Act.bind_eq_done.mp hreplay
  obtain ⟨result, rfl⟩ := replaySequence_valid hvalid hsequence
  cases hpure

theorem parse_new {host : Text} {port connect send receive maxReceive : Int32}
    {server : Bool}
    (hendpoint : Endpoint.new host port connect send receive maxReceive server =
      .ok endpoint)
    (hserver : options.udpServer = false) (hbroadcast : options.udpBroadcast = false)
    (hnew : new platform paths endpoint options = .ok runner) :
    ExecutionConfig.parse reader runner.config =
      if endpoint.host ≠ [] ∧ 0 < endpoint.port.toInt then
        (ExecutionConfig.optionalInt reader.toIntReader
          (.object (options.configMap endpoint)) "max_depth" 1
          (Text.ofAscii "max_depth must be at least 1")).map (options.readConfig endpoint)
      else .error (.transport Endpoint.unexpected) := by
  obtain ⟨-, haccepted⟩ := Endpoint.new_ok.mp hendpoint
  obtain ⟨hkinds, hpolicies, hlimit, hconfig⟩ := new_ok hnew
  rw [hconfig]
  exact Options.parse_configMap hserver hbroadcast haccepted hlimit
    (Options.policiesConfig_configMap hkinds hpolicies haccepted.bounds.2.2.2.2)

theorem readsBack_iff {host : Text} {port connect send receive maxReceive : Int32}
    {server : Bool}
    (hendpoint : Endpoint.new host port connect send receive maxReceive server =
      .ok endpoint)
    (hserver : options.udpServer = false) (hbroadcast : options.udpBroadcast = false)
    (hnew : new platform paths endpoint options = .ok runner) :
    ReadsBack reader platform endpoint options runner ↔
      options.combinatorial = true ∧
        (∀ depth, options.maxDepth = some depth → 1 ≤ depth.toInt) ∧
        endpoint.host ≠ [] ∧ 0 < endpoint.port.toInt := by
  have hparse : ExecutionConfig.parse reader runner.config = _ :=
    parse_new hendpoint hserver hbroadcast hnew
  have hdepth : ExecutionConfig.optionalInt reader.toIntReader
      (.object (options.configMap endpoint)) "max_depth" 1 _ = _ :=
    Options.optionalInt_maxDepth (Text.ofAscii "max_depth must be at least 1")
  constructor
  · intro hreads
    obtain ⟨config, hread, hrestores⟩ := hreads.parses
    rw [hparse] at hread
    split at hread
    case isFalse => cases hread
    rename_i hclient
    have hcombinatorial : options.combinatorial = true := by
      rw [← hrestores.combinatorial]
      cases hfound : ExecutionConfig.optionalInt reader.toIntReader
          (.object (options.configMap endpoint)) "max_depth" 1
          (Text.ofAscii "max_depth must be at least 1") with
      | error error =>
          rw [hfound] at hread
          cases hread
      | ok found =>
          rw [hfound] at hread
          cases hread
          rfl
    refine ⟨hcombinatorial, ?_, hclient⟩
    intro depth hmaxDepth
    rw [if_pos hcombinatorial, hmaxDepth] at hdepth
    by_contra hsmall
    simp only [if_neg hsmall] at hdepth
    rw [hdepth] at hread
    cases hread
  · rintro ⟨hcombinatorial, hdepths, hclient⟩
    have hread : ExecutionConfig.parse reader runner.config =
        .ok (options.readConfig endpoint options.maxDepth) := by
      rw [if_pos hcombinatorial] at hdepth
      rw [hparse, if_pos hclient, hdepth]
      cases hmaxDepth : options.maxDepth with
      | none => rfl
      | some depth =>
          simp only [if_pos (hdepths depth hmaxDepth)]
          rfl
    constructor
    · exact ⟨_, hread, rfl, rfl, rfl, rfl, hcombinatorial.symm, fun _ => rfl, rfl, rfl, rfl⟩
    · intro result fuel world error last hvalid
      exact replay_parsed hvalid hread

/-! A runner over one path. -/

def linerPlatform : Platform (List Call) where
  tcp _ _ := (.ok Peer.liner.channel, [])
  udp _ _ := (.ok Peer.liner.channel, [])
  udpServer _ _ := (.ok Peer.liner.channel, [])
  udpBroadcast _ _ := (.ok Peer.liner.channel, [])
  clock := Peer.clock
  debug := ⟨fun _ => [], fun _ => []⟩

def localEndpoint : Endpoint :=
  ⟨Text.ofAscii "localhost", 8080, 5000, 5000, 5000, 64⟩

def linerOptions (combinatorial : Bool) : Options (List Call) where
  udp := false
  udpServer := false
  udpBroadcast := false
  policies := [(Text.ofAscii "r", .untilDelimiter [10])]
  limit := 1
  monitor := Settings.linerSettings.monitor
  combinatorial := combinatorial
  maxDepth := some 2
  vars := none
  checkDataReceived := false
  receiveDataAfterFuzz := false
  ignoreConnectionReset := false
  ignoreConnectionAborted := false
  ignoreConnectionIssuesWhenSendingFuzzData := true
  restartThreshold := none
  restartTimeoutMs := none
  restartSleepMs := 5000
  sleepBetweenMs := 10
  crashThresholdRequest := 12
  crashThresholdElement := 3
  start := 0
  endIndex := none

def linerConfigured (combinatorial : Bool) : Configured (List Call) where
  runner := {
    paths := [Settings.linerPath]
    settings := (linerOptions combinatorial).settings linerPlatform localEndpoint
    streams := [none]
    pathFailures := [0]
    elementFailures := []
    pending := none
    skip := 0
    position := 0
    index := 0
    executed := 0
    state := .running }
  config := .object ((linerOptions combinatorial).configMap localEndpoint)

theorem localEndpoint_new :
    Endpoint.new (Text.ofAscii "localhost") 8080 5000 5000 5000 64 false =
      .ok localEndpoint := rfl

theorem localEndpoint_client :
    localEndpoint.host ≠ [] ∧ 0 < localEndpoint.port.toInt := by
  constructor
  · rw [localEndpoint, Text.ofAscii_ofList]
    decide
  · decide

theorem linerConfigured_new (combinatorial : Bool) :
    new linerPlatform [Settings.linerPath] localEndpoint (linerOptions combinatorial) =
      .ok (linerConfigured combinatorial) := by
  have hkinds : checkKinds false (linerOptions combinatorial).policies = .ok () := rfl
  have hrunner : withDialer [Settings.linerPath]
      ((linerOptions combinatorial).settings linerPlatform localEndpoint) =
        .ok (linerConfigured combinatorial).runner := rfl
  unfold new
  rw [show (linerOptions combinatorial).udp = false from rfl, hkinds, hrunner]
  rfl

theorem combinatorial_readsBack :
    ReadsBack .plain linerPlatform localEndpoint (linerOptions true)
      (linerConfigured true) :=
  (readsBack_iff localEndpoint_new rfl rfl (linerConfigured_new true)).mpr
    ⟨rfl, fun depth hdepth => by cases hdepth; decide, localEndpoint_client⟩

/-- A sequential run is read back as a combinatorial one. -/
theorem sequential_not_readsBack :
    Endpoint.new (Text.ofAscii "localhost") 8080 5000 5000 5000 64 false =
        .ok localEndpoint ∧
      new linerPlatform [Settings.linerPath] localEndpoint (linerOptions false) =
        .ok (linerConfigured false) ∧
      ¬ ReadsBack .plain linerPlatform localEndpoint (linerOptions false)
        (linerConfigured false) := by
  refine ⟨localEndpoint_new, linerConfigured_new false, fun hreads => ?_⟩
  obtain ⟨config, hparse, hrestores⟩ := hreads.parses
  have hread : ExecutionConfig.parse .plain (linerConfigured false).config =
      .ok ((linerOptions false).readConfig localEndpoint none) := by
    rw [parse_new localEndpoint_new rfl rfl (linerConfigured_new false),
      if_pos localEndpoint_client, Options.optionalInt_maxDepth]
    rfl
  rw [hread] at hparse
  cases hparse
  exact absurd hrestores.combinatorial (by decide)

end Runner

end MoonBoofuzz
