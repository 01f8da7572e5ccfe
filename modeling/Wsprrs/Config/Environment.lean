import Wsprrs.Config
import Wsprrs.Foundation.IpAddress
import Wsprrs.Foundation.Loader

/-! The whole of `Config::from_env`: fifteen variables, read one after the other. The resolver of the
system and the quoting of a text in a message are parameters. -/
namespace Wsprrs
open Loader Radix

/-- All of `Config`. -/
structure Settings extends Config where
  multicastAddr : IpAddr
  multicastPort : UInt16
  statusPort : UInt16
  localAddr : IpAddr
  tempDir : Text
  wsprdPath : Text
  outputFile : Option Text
  wisdomFile : Text
  clickhouseUrl : Option Text
  clickhouseDb : Text
  clickhouseTable : Text
  clickhouseUser : Option Text
  clickhousePassword : Option Text

/-- `trim_start_matches` with a pattern of two characters. -/
def trimStartMatches (a b : Char) : Text → Text
  | c::d::s => if c = a ∧ d = b then trimStartMatches a b s else c::d::s
  | s => s

namespace Settings

section
variable (lookup : Text → Except Text (List IpAddr)) (quote : Text → Text)

def resolveHost (s : Text) : Except (List Text) IpAddr :=
  match IpAddr.fromStr s with
  | some ip => .ok ip
  | none =>
    match lookup s with
    | .error e => .error ["could not resolve host ".toList ++ quote s, e]
    | .ok [] => .error [quote s ++ " resolved to no addresses".toList]
    | .ok (ip::_) => .ok ip

def parsePort (name : String) (s : Text) : Except (List Text) UInt16 :=
  context (named name " is not a valid port number") ((parseU16 s).mapError (fun e => [e.display]))

def loadMulticastAddr : Loader IpAddr := fun env => do
  let s ← required "WSPR_MULTICAST_ADDR" env
  context (named "WSPR_MULTICAST_ADDR" " is not a valid IP address or resolvable hostname")
    (resolveHost lookup quote s)

def loadMulticastPort : Loader UInt16 := fun env => do
  let s ← required "WSPR_MULTICAST_PORT" env
  parsePort "WSPR_MULTICAST_PORT" s

def loadStatusPort : Loader UInt16 := fun env =>
  parsePort "WSPR_STATUS_PORT" (orDefault "WSPR_STATUS_PORT" "5006" env)

def parseLocalAddr (s : Text) : Except (List Text) IpAddr :=
  context (named "WSPR_LOCAL_ADDR" " is not a valid IP address")
    (match IpAddr.fromStr s with
    | some ip => .ok ip
    | none => .error ["invalid IP address syntax".toList])

def loadLocalAddr : Loader IpAddr := fun env =>
  parseLocalAddr (orDefault "WSPR_LOCAL_ADDR" "0.0.0.0" env)

/-- With or without a prefix. -/
def parseSsrc (s : Text) : Except (List Text) UInt32 :=
  let hex := trimStartMatches '0' 'X' (trimStartMatches '0' 'x' s)
  context (named "WSPR_SSRC" " is not a valid hex u32") ((parseU32 16 hex).mapError (fun e => [e.display]))

def loadSsrcFilter : Loader (Option UInt32) := fun env =>
  match env "WSPR_SSRC" with
  | .ok s => do
    let v ← parseSsrc s
    return some v
  | .error _ => .ok none

def parseCaptureSeconds (s : Text) : Except (List Text) UInt32 :=
  context (named "WSPR_CAPTURE_SECONDS" " is not a valid u32")
    ((parseU32 10 s).mapError (fun e => [e.display]))

def checkCaptureSeconds (ssrcFilter : Option UInt32) (s : Text) : Except (List Text) Config := do
  let captureSeconds ← parseCaptureSeconds s
  (Config.fromEnv ssrcFilter captureSeconds).mapError (fun message => [message.toList])

def loadConfig (ssrcFilter : Option UInt32) : Loader Config := fun env =>
  checkCaptureSeconds ssrcFilter (orDefault "WSPR_CAPTURE_SECONDS" "116" env)

/-- `from_env` -/
def fromEnv : Loader Settings := fun env => do
  let multicastAddr ← loadMulticastAddr lookup quote env
  let multicastPort ← loadMulticastPort env
  let statusPort ← loadStatusPort env
  let localAddr ← loadLocalAddr env
  let ssrcFilter ← loadSsrcFilter env
  let config ← loadConfig ssrcFilter env
  return { config with
    multicastAddr, multicastPort, statusPort, localAddr
    tempDir := orDefault "WSPR_TEMP_DIR" "/tmp" env
    wsprdPath := orDefault "WSPR_WSPRD_PATH" "wsprd" env
    outputFile := (env "WSPR_OUTPUT_FILE").toOption
    wisdomFile := orDefault "WSPR_WISDOM_FILE" "wspr_wisdom.dat" env
    clickhouseUrl := (env "WSPR_CLICKHOUSE_URL").toOption
    clickhouseDb := orDefault "WSPR_CLICKHOUSE_DB" "default" env
    clickhouseTable := orDefault "WSPR_CLICKHOUSE_TABLE" "wspr_spots" env
    clickhouseUser := (env "WSPR_CLICKHOUSE_USER").toOption
    clickhousePassword := (env "WSPR_CLICKHOUSE_PASSWORD").toOption }

end

/-- An address, or a name that the system resolves to it. -/
def Names (lookup : Text → Except Text (List IpAddr)) (s : Text) (ip : IpAddr) : Prop :=
  IpAddr.fromStr s = some ip ∨ IpAddr.fromStr s = none ∧ ∃ rest, lookup s = .ok (ip::rest)

/-- A hexadecimal number behind any number of prefixes. -/
def SpellsHex (s : Text) (n : ℕ) : Prop :=
  ∃ k l body, s = (List.replicate k ['0','x']).flatten ++ ((List.replicate l ['0','X']).flatten ++ body) ∧
    Spells 16 body n

/-- What an environment says about a configuration: for each variable the default and the meaning. -/
structure Describes (lookup : Text → Except Text (List IpAddr)) (env : Environment) (cfg : Settings) :
    Prop where
  multicastAddr : Says env "WSPR_MULTICAST_ADDR" none (Names lookup) cfg.multicastAddr
  multicastPort : Says env "WSPR_MULTICAST_PORT" none (fun s p => Spells 10 s p.toNat) cfg.multicastPort
  statusPort : Says env "WSPR_STATUS_PORT" (some 5006) (fun s p => Spells 10 s p.toNat) cfg.statusPort
  localAddr : Says env "WSPR_LOCAL_ADDR" (some (.v4 0 0 0 0)) (fun s ip => IpAddr.fromStr s = some ip)
    cfg.localAddr
  ssrcFilter : Says env "WSPR_SSRC" (some none) (fun s f => ∃ v, SpellsHex s v.toNat ∧ f = some v)
    cfg.ssrcFilter
  captureSeconds : Says env "WSPR_CAPTURE_SECONDS" (some 116) (fun s n => Spells 10 s n.toNat)
    cfg.captureSeconds
  tempDir : Says env "WSPR_TEMP_DIR" (some "/tmp".toList) Eq cfg.tempDir
  wsprdPath : Says env "WSPR_WSPRD_PATH" (some "wsprd".toList) Eq cfg.wsprdPath
  outputFile : Says env "WSPR_OUTPUT_FILE" (some none) (fun s o => o = some s) cfg.outputFile
  wisdomFile : Says env "WSPR_WISDOM_FILE" (some "wspr_wisdom.dat".toList) Eq cfg.wisdomFile
  clickhouseUrl : Says env "WSPR_CLICKHOUSE_URL" (some none) (fun s o => o = some s) cfg.clickhouseUrl
  clickhouseDb : Says env "WSPR_CLICKHOUSE_DB" (some "default".toList) Eq cfg.clickhouseDb
  clickhouseTable : Says env "WSPR_CLICKHOUSE_TABLE" (some "wspr_spots".toList) Eq cfg.clickhouseTable
  clickhouseUser : Says env "WSPR_CLICKHOUSE_USER" (some none) (fun s o => o = some s) cfg.clickhouseUser
  clickhousePassword : Says env "WSPR_CLICKHOUSE_PASSWORD" (some none) (fun s o => o = some s)
    cfg.clickhousePassword

section
variable {lookup : Text → Except Text (List IpAddr)} {quote : Text → Text} {env : Environment}

theorem resolveHost_eq_ok {s : Text} {ip : IpAddr} :
    resolveHost lookup quote s = .ok ip ↔ Names lookup s ip := by
  unfold resolveHost Names
  split
  · next ip' hip => simp [hip]
  · next hip =>
    simp only [hip]
    split
    · next e hlookup => simp [hlookup]
    · next hlookup => simp [hlookup]
    · next ip' rest hlookup => simp [hlookup]

theorem parsePort_eq_ok {name : String} {s : Text} {p : UInt16} :
    parsePort name s = .ok p ↔ Spells 10 s p.toNat := by
  rw [parsePort, context_eq_ok, mapError_eq_ok, parseU16_eq_ok]

theorem parseLocalAddr_eq_ok {s : Text} {ip : IpAddr} :
    parseLocalAddr s = .ok ip ↔ IpAddr.fromStr s = some ip := by
  rw [parseLocalAddr, context_eq_ok]
  cases IpAddr.fromStr s with
  | none => simp
  | some ip' => simp

theorem parseCaptureSeconds_eq_ok {s : Text} {n : UInt32} :
    parseCaptureSeconds s = .ok n ↔ Spells 10 s n.toNat := by
  rw [parseCaptureSeconds, context_eq_ok, mapError_eq_ok, parseU32_eq_ok]

/-- As many copies of the pattern as there are. -/
theorem trimStartMatches_spec (a b : Char) (s : Text) :
    ∃ k, s = (List.replicate k [a, b]).flatten ++ trimStartMatches a b s := by
  fun_induction trimStartMatches a b s with
  | case1 c d s heq ih =>
    obtain ⟨rfl, rfl⟩ := heq
    obtain ⟨k, hk⟩ := ih
    refine ⟨k+1, ?_⟩
    rw [List.replicate_succ, List.flatten_cons, List.append_assoc, ← hk]
    rfl
  | case2 c d s hne => exact ⟨0, rfl⟩
  | case3 s h => exact ⟨0, rfl⟩

theorem trimStartMatches_append {a b : Char} (k : ℕ) {s : Text} (h : ¬[a, b] <+: s) :
    trimStartMatches a b ((List.replicate k [a, b]).flatten ++ s) = s := by
  induction k with
  | zero =>
    rw [List.replicate_zero, List.flatten_nil, List.nil_append]
    unfold trimStartMatches
    split
    · next c d s =>
      refine if_neg ?_
      rintro ⟨rfl, rfl⟩
      exact h ⟨s, rfl⟩
    · rfl
  | succ k ih =>
    rw [List.replicate_succ, List.flatten_cons, List.append_assoc]
    exact (if_pos ⟨rfl, rfl⟩).trans ih

/-- A number does not start with a prefix. -/
theorem not_hex_start {body : Text} {n : ℕ} (h : Spells 16 body n) {a b : Char}
    (hb : b = 'x' ∨ b = 'X') : ¬[a, b] <+: body := by
  intro hstart
  have hmem := h.mem (hstart.subset (List.mem_cons_of_mem a List.mem_cons_self))
  obtain rfl | rfl := hb
  · exact absurd hmem (by decide)
  · exact absurd hmem (by decide)

theorem parseSsrc_eq_ok {s : Text} {v : UInt32} : parseSsrc s = .ok v ↔ SpellsHex s v.toNat := by
  simp only [parseSsrc, context_eq_ok, mapError_eq_ok, parseU32_eq_ok]
  constructor
  · intro h
    obtain ⟨k, hk⟩ := trimStartMatches_spec '0' 'x' s
    obtain ⟨l, hl⟩ := trimStartMatches_spec '0' 'X' (trimStartMatches '0' 'x' s)
    exact ⟨k, l, _, by rw [← hl]; exact hk, h⟩
  · rintro ⟨k, l, body, rfl, h⟩
    have hupper : ¬['0','X'] <+: body := not_hex_start h (.inr rfl)
    have hlower : ¬['0','x'] <+: (List.replicate l ['0','X']).flatten ++ body := by
      cases l with
      | zero => exact not_hex_start h (.inl rfl)
      | succ l => simp [List.replicate_succ]
    rw [trimStartMatches_append k hlower, trimStartMatches_append l hupper]
    exact h

example : parseSsrc ['0','x','D','e','A','d'] = .ok 0xDEAD ∧
    parseSsrc ['0','X','0','x','1'] = .error ["WSPR_SSRC is not a valid hex u32".toList,
      "invalid digit found in string".toList] := by
  decide

theorem loadMulticastAddr_eq_ok {ip : IpAddr} : loadMulticastAddr lookup quote env = .ok ip ↔
    Says env "WSPR_MULTICAST_ADDR" none (Names lookup) ip :=
  required_eq_ok (fun s ip => by rw [context_eq_ok, resolveHost_eq_ok])

theorem loadMulticastPort_eq_ok {p : UInt16} : loadMulticastPort env = .ok p ↔
    Says env "WSPR_MULTICAST_PORT" none (fun s p => Spells 10 s p.toNat) p :=
  required_eq_ok (fun _ _ => parsePort_eq_ok)

theorem loadStatusPort_eq_ok {p : UInt16} : loadStatusPort env = .ok p ↔
    Says env "WSPR_STATUS_PORT" (some 5006) (fun s p => Spells 10 s p.toNat) p :=
  orDefault_eq_ok (fun _ _ => parsePort_eq_ok) rfl

theorem loadLocalAddr_eq_ok {ip : IpAddr} : loadLocalAddr env = .ok ip ↔
    Says env "WSPR_LOCAL_ADDR" (some (.v4 0 0 0 0)) (fun s ip => IpAddr.fromStr s = some ip) ip :=
  orDefault_eq_ok (fun _ _ => parseLocalAddr_eq_ok) rfl

theorem loadSsrcFilter_eq_ok {f : Option UInt32} : loadSsrcFilter env = .ok f ↔
    Says env "WSPR_SSRC" (some none) (fun s f => ∃ v, SpellsHex s v.toNat ∧ f = some v) f := by
  unfold loadSsrcFilter Says
  cases env "WSPR_SSRC" with
  | error e => simp
  | ok s =>
    simp only [bind_eq_ok, parseSsrc_eq_ok, pure, Except.pure, Except.ok.injEq]
    exact exists_congr (fun v => and_congr_right (fun _ => eq_comm))

theorem fromEnv_eq_ok_iff {f : Option UInt32} {n : UInt32} {config : Config} :
    Config.fromEnv f n = .ok config ↔ config.ssrcFilter = f ∧ config.captureSeconds = n := by
  constructor
  · intro h
    by_cases hge : n ≥ 111
    · rw [Config.fromEnv, dif_pos hge] at h
      obtain rfl := Except.ok.inj h
      exact ⟨rfl, rfl⟩
    · rw [Config.fromEnv, dif_neg hge] at h
      contradiction
  · rintro ⟨rfl, rfl⟩
    exact config.fromEnv_eq_ok

theorem loadConfig_eq_ok {f : Option UInt32} {config : Config} : loadConfig f env = .ok config ↔
    config.ssrcFilter = f ∧ Says env "WSPR_CAPTURE_SECONDS" (some 116) (fun s n => Spells 10 s n.toNat)
      config.captureSeconds := by
  have hsays : parseCaptureSeconds (orDefault "WSPR_CAPTURE_SECONDS" "116" env) = .ok config.captureSeconds ↔
      Says env "WSPR_CAPTURE_SECONDS" (some 116) (fun s n => Spells 10 s n.toNat) config.captureSeconds :=
    orDefault_eq_ok (fun _ _ => parseCaptureSeconds_eq_ok) rfl
  rw [← hsays]
  simp only [loadConfig, checkCaptureSeconds, bind_eq_ok, mapError_eq_ok, fromEnv_eq_ok_iff]
  constructor
  · rintro ⟨n, hn, rfl, rfl⟩
    exact ⟨rfl, hn⟩
  · rintro ⟨rfl, hn⟩
    exact ⟨_, hn, rfl, rfl⟩

end

/-- Loading succeeds with the configurations that the environment describes, and with no others. -/
theorem fromEnv_describes (lookup : Text → Except Text (List IpAddr)) (quote : Text → Text)
    (env : Environment) (cfg : Settings) :
    fromEnv lookup quote env = .ok cfg ↔ Describes lookup env cfg := by
  simp only [fromEnv, bind_eq_ok, loadMulticastAddr_eq_ok, loadMulticastPort_eq_ok, loadStatusPort_eq_ok,
    loadLocalAddr_eq_ok, loadSsrcFilter_eq_ok, loadConfig_eq_ok, pure, Except.pure, Except.ok.injEq]
  constructor
  · rintro ⟨multicastAddr, haddr, multicastPort, hport, statusPort, hstatus, localAddr, hlocal, _, hssrc, config,
      ⟨rfl, hcapture⟩, rfl⟩
    exact ⟨haddr, hport, hstatus, hlocal, hssrc, hcapture, orDefault_eq.mp rfl, orDefault_eq.mp rfl,
      toOption_eq.mp rfl, orDefault_eq.mp rfl, toOption_eq.mp rfl, orDefault_eq.mp rfl, orDefault_eq.mp rfl,
      toOption_eq.mp rfl, toOption_eq.mp rfl⟩
  · intro h
    refine ⟨_, h.multicastAddr, _, h.multicastPort, _, h.statusPort, _, h.localAddr, _, h.ssrcFilter,
      cfg.toConfig, ⟨rfl, h.captureSeconds⟩, ?_⟩
    simp only [orDefault_eq.mpr h.tempDir, orDefault_eq.mpr h.wsprdPath, toOption_eq.mpr h.outputFile,
      orDefault_eq.mpr h.wisdomFile, toOption_eq.mpr h.clickhouseUrl, orDefault_eq.mpr h.clickhouseDb,
      orDefault_eq.mpr h.clickhouseTable, toOption_eq.mpr h.clickhouseUser,
      toOption_eq.mpr h.clickhousePassword]

/-- The variables in the order in which they are read, and what has to hold of each. -/
def checks (lookup : Text → Except Text (List IpAddr)) : List Check :=
  [("WSPR_MULTICAST_ADDR", fun env => ∃ ip, Says env "WSPR_MULTICAST_ADDR" none (Names lookup) ip),
    ("WSPR_MULTICAST_PORT", fun env =>
      ∃ p : UInt16, Says env "WSPR_MULTICAST_PORT" none (fun s p => Spells 10 s p.toNat) p),
    ("WSPR_STATUS_PORT", fun env =>
      ∃ p : UInt16, Says env "WSPR_STATUS_PORT" (some 5006) (fun s p => Spells 10 s p.toNat) p),
    ("WSPR_LOCAL_ADDR", fun env =>
      ∃ ip, Says env "WSPR_LOCAL_ADDR" (some (.v4 0 0 0 0)) (fun s ip => IpAddr.fromStr s = some ip) ip),
    ("WSPR_SSRC", fun env =>
      ∃ f : Option UInt32, Says env "WSPR_SSRC" (some none) (fun s f => ∃ v, SpellsHex s v.toNat ∧ f = some v) f),
    ("WSPR_CAPTURE_SECONDS", fun env =>
      ∃ n : UInt32, n ≥ 111 ∧
        Says env "WSPR_CAPTURE_SECONDS" (some 116) (fun s n => Spells 10 s n.toNat) n),
    ("WSPR_TEMP_DIR", fun _ => True), ("WSPR_WSPRD_PATH", fun _ => True), ("WSPR_OUTPUT_FILE", fun _ => True),
    ("WSPR_WISDOM_FILE", fun _ => True), ("WSPR_CLICKHOUSE_URL", fun _ => True),
    ("WSPR_CLICKHOUSE_DB", fun _ => True), ("WSPR_CLICKHOUSE_TABLE", fun _ => True),
    ("WSPR_CLICKHOUSE_USER", fun _ => True), ("WSPR_CLICKHOUSE_PASSWORD", fun _ => True)]

theorem blames_parsePort (name : String) : Blames name (parsePort name) := blames_context
theorem blames_parseLocalAddr : Blames "WSPR_LOCAL_ADDR" parseLocalAddr := blames_context
theorem blames_parseSsrc : Blames "WSPR_SSRC" parseSsrc := blames_context
theorem blames_parseCaptureSeconds : Blames "WSPR_CAPTURE_SECONDS" parseCaptureSeconds := blames_context

theorem blames_checkCaptureSeconds (ssrcFilter : Option UInt32) :
    Blames "WSPR_CAPTURE_SECONDS" (checkCaptureSeconds ssrcFilter) := by
  intro s contexts h
  obtain hparse | ⟨captureSeconds, -, hcheck⟩ := bind_eq_error.mp h
  · exact blames_parseCaptureSeconds s contexts hparse
  · by_cases hge : captureSeconds ≥ 111
    · rw [Config.fromEnv, dif_pos hge] at hcheck
      contradiction
    · rw [Config.fromEnv, dif_neg hge] at hcheck
      obtain rfl := Except.error.inj hcheck
      refine ⟨_, [], rfl, ?_⟩
      have hname : "WSPR_CAPTURE_SECONDS must be >= 111 (got " =
        "WSPR_CAPTURE_SECONDS" ++ " must be >= 111 (got " := by decide
      rw [hname]
      simp only [toString, String.toList_append, List.append_assoc]
      exact List.prefix_append _ _

theorem careful_loadSsrcFilter : Careful [("WSPR_SSRC", fun env => ∃ f : Option UInt32,
    Says env "WSPR_SSRC" (some none) (fun s f => ∃ v, SpellsHex s v.toNat ∧ f = some v) f)] loadSsrcFilter := by
  apply careful_single
  · intro env env' hagree
    simp only [loadSsrcFilter, hagree]
  · intro env
    exact exists_congr (fun f => loadSsrcFilter_eq_ok.symm)
  · intro env contexts h
    unfold loadSsrcFilter at h
    cases hvalue : env "WSPR_SSRC" with
    | error e => simp [hvalue] at h
    | ok s =>
      simp only [hvalue] at h
      obtain hparse | ⟨v, -, hv⟩ := bind_eq_error.mp h
      · exact blames_parseSsrc s contexts hparse
      · contradiction

theorem careful_loadConfig (ssrcFilter : Option UInt32) : Careful [("WSPR_CAPTURE_SECONDS", fun env =>
    ∃ n : UInt32, n ≥ 111 ∧ Says env "WSPR_CAPTURE_SECONDS" (some 116) (fun s n => Spells 10 s n.toNat) n)]
    (loadConfig ssrcFilter) := by
  apply careful_single
  · intro env env' hagree
    simp only [loadConfig, orDefault, hagree]
  · intro env
    constructor
    · rintro ⟨n, hge, hn⟩
      exact ⟨⟨ssrcFilter, n, hge⟩, loadConfig_eq_ok.mpr ⟨rfl, hn⟩⟩
    · rintro ⟨config, h⟩
      exact ⟨config.captureSeconds, config.captureSeconds_ge, (loadConfig_eq_ok.mp h).2⟩
  · intro env contexts h
    exact blames_checkCaptureSeconds ssrcFilter _ contexts h

/-- Loading reads these variables only. It fails where a check does, and then the error starts with the
name of the first variable with a failing check, and does not depend on the variables behind it. -/
theorem fromEnv_careful (lookup : Text → Except Text (List IpAddr)) (quote : Text → Text) :
    Careful (checks lookup) (fromEnv lookup quote) := by
  refine (careful_required blames_context (fun _ _ => ?_)).bind (fun multicastAddr => ?_)
  · rw [context_eq_ok, resolveHost_eq_ok]
  refine (careful_required (blames_parsePort _) (fun _ _ => parsePort_eq_ok)).bind (fun multicastPort => ?_)
  refine (careful_orDefault (blames_parsePort _) (fun _ _ => parsePort_eq_ok) rfl).bind (fun statusPort => ?_)
  refine (careful_orDefault blames_parseLocalAddr (fun _ _ => parseLocalAddr_eq_ok) rfl).bind
    (fun localAddr => ?_)
  refine careful_loadSsrcFilter.bind (fun ssrcFilter => ?_)
  refine (careful_loadConfig ssrcFilter).bind (fun config => ?_)
  apply careful_total
  · intro env env' h
    simp only [List.map_cons, List.map_nil, Agree, List.forall_mem_cons] at h
    obtain ⟨htemp, hwsprd, houtput, hwisdom, hurl, hdb, htable, huser, hpassword, -⟩ := h
    simp only [orDefault, htemp, hwsprd, houtput, hwisdom, hurl, hdb, htable, huser, hpassword]
  · simp

end Settings
end Wsprrs
