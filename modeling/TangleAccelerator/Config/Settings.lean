import TangleAccelerator.Bytes.Decimal
import TangleAccelerator.Core.SerHelper
import TangleAccelerator.Fold.History

/-!
# Settings

`config.c` and `cli_info.h`: the defaults, the configuration file and the command line, which set
the same fields through `cli_core_set`.

Options are matched by number.  The numbers are those of `ta_cli_arg_value_t` in the table of
options and, but for one, in the cases of `cli_core_set`: between the two, `config.h` defines
`HEALTH_TRACK_PERIOD` as a macro.

What `getopt_long` and the YAML scanner return is the input.  Paths and host names fit in their
buffers.  The fields and cases of `MQTT_ENABLE` and `DB_ENABLE` are there.
-/

namespace TangleAccelerator.Config

open Fold Bytes

/-! ## Options -/

/-- `ta_cli_arg_value_t`. -/
inductive CliArgValue where
  | taHost
  | taPort
  | runtimeCli
  | nodeHost
  | nodePort
  | nodeAddress
  | mqttHost
  | mqttRoot
  | redisHost
  | redisPort
  | dbHost
  | milestoneDepth
  | mwm
  | seed
  | cache
  | conf
  | proxyApi
  | healthTrackPeriod
  | noGtta
  | bufferList
  | completeList
  | httpThreads
  | cacheCapacity
  | ipc
  | quiet
  | caPem
  deriving DecidableEq

/-- The number of an enumerator. -/
def CliArgValue.val : CliArgValue → Int
  | taHost => 127
  | taPort => 128
  | runtimeCli => 129
  | nodeHost => 130
  | nodePort => 131
  | nodeAddress => 132
  | mqttHost => 133
  | mqttRoot => 134
  | redisHost => 135
  | redisPort => 136
  | dbHost => 137
  | milestoneDepth => 138
  | mwm => 139
  | seed => 140
  | cache => 141
  | conf => 142
  | proxyApi => 143
  | healthTrackPeriod => 144
  | noGtta => 145
  | bufferList => 146
  | completeList => 147
  | httpThreads => 148
  | cacheCapacity => 149
  | ipc => 150
  | quiet => 151
  | caPem => 152

/-- The macro `HEALTH_TRACK_PERIOD` of `config.h`, which is defined after `ta_cli_arg_value_t`. -/
def healthTrackPeriod : Int := 1800

/-- `MAX_NODE_LIST_ELEMENTS`. -/
def maxNodeListElements : Nat := 5

/-- The first slot of the lists. -/
def firstSlot : Fin maxNodeListElements := ⟨0, by decide⟩

/-- The options `help` and `version`. -/
def helpKey : Int := 104

@[inherit_doc helpKey] def versionKey : Int := 118

/-- The names and numbers of `ta_cli_arguments_g`. -/
def taCliArguments : List (String × Int) :=
  [("help", helpKey), ("version", versionKey), ("ta_host", CliArgValue.taHost.val),
    ("ta_port", CliArgValue.taPort.val), ("http_threads", CliArgValue.httpThreads.val),
    ("node_host", CliArgValue.nodeHost.val), ("node_port", CliArgValue.nodePort.val),
    ("CA_PEM", CliArgValue.caPem.val), ("mqtt_host", CliArgValue.mqttHost.val),
    ("mqtt_root", CliArgValue.mqttRoot.val), ("node_address", CliArgValue.nodeAddress.val),
    ("redis_host", CliArgValue.redisHost.val), ("redis_port", CliArgValue.redisPort.val),
    ("db_host", CliArgValue.dbHost.val), ("milestone_depth", CliArgValue.milestoneDepth.val),
    ("mwm", CliArgValue.mwm.val), ("seed", CliArgValue.seed.val),
    ("cache", CliArgValue.cache.val), ("ipc", CliArgValue.ipc.val),
    ("config", CliArgValue.conf.val), ("proxy_passthrough", CliArgValue.proxyApi.val),
    ("health_track_period", CliArgValue.healthTrackPeriod.val),
    ("no-gtta", CliArgValue.noGtta.val), ("buffer_list", CliArgValue.bufferList.val),
    ("complete_list", CliArgValue.completeList.val),
    ("cache_capacity", CliArgValue.cacheCapacity.val), ("quiet", CliArgValue.quiet.val),
    ("runtime_cli", CliArgValue.runtimeCli.val)]

/-- `get_conf_key`. -/
def getConfKey (key : String) : Int := (taCliArguments.lookup key).getD 0

/-- The case labels of `cli_core_set`.  Where `config.c` is compiled, `HEALTH_TRACK_PERIOD` is the
macro.  `NODE_ADDRESS_CLI` has no case. -/
def labels : List (Int × CliArgValue) :=
  [(CliArgValue.taHost.val, .taHost), (CliArgValue.taPort.val, .taPort),
    (CliArgValue.httpThreads.val, .httpThreads), (CliArgValue.nodeHost.val, .nodeHost),
    (CliArgValue.nodePort.val, .nodePort), (CliArgValue.caPem.val, .caPem),
    (healthTrackPeriod, .healthTrackPeriod), (CliArgValue.cache.val, .cache),
    (CliArgValue.ipc.val, .ipc), (CliArgValue.mqttHost.val, .mqttHost),
    (CliArgValue.mqttRoot.val, .mqttRoot), (CliArgValue.redisHost.val, .redisHost),
    (CliArgValue.redisPort.val, .redisPort), (CliArgValue.cacheCapacity.val, .cacheCapacity),
    (CliArgValue.dbHost.val, .dbHost), (CliArgValue.milestoneDepth.val, .milestoneDepth),
    (CliArgValue.mwm.val, .mwm), (CliArgValue.seed.val, .seed),
    (CliArgValue.bufferList.val, .bufferList), (CliArgValue.completeList.val, .completeList),
    (CliArgValue.quiet.val, .quiet), (CliArgValue.proxyApi.val, .proxyApi),
    (CliArgValue.noGtta.val, .noGtta), (CliArgValue.runtimeCli.val, .runtimeCli),
    (CliArgValue.conf.val, .conf)]

/-- The options `cli_core_set` takes without a value. -/
def noArgument : List Int :=
  [CliArgValue.cache.val, CliArgValue.proxyApi.val, CliArgValue.quiet.val,
    CliArgValue.noGtta.val, CliArgValue.runtimeCli.val]

/-! ## The fields -/

/-- What the machine and the libraries give. -/
structure Env where
  /-- `HOST_MAX_LEN`. -/
  hostMaxLen : Nat
  /-- `MAX_HTTP_TPOOL_SIZE`. -/
  maxHttpTpoolSize : Nat
  /-- `DEFAULT_CA_PEM`. -/
  defaultCaPem : String
  /-- `read_ca_pem`: the text of a file. -/
  readCaPem : String → String

/-- The bits of `cli_options`. -/
def cliProxyPassthrough : Nat := 1 <<< 0

@[inherit_doc cliProxyPassthrough] def cliGtta : Nat := 1 <<< 1

@[inherit_doc cliProxyPassthrough] def cliRuntimeCli : Nat := 1 <<< 2

@[inherit_doc cliProxyPassthrough] def cliQuietMode : Nat := 1 <<< 3

/-- The fields of `ta_core_t` that options set, and `errno`. -/
structure Core where
  host : String
  port : Int
  httpTpoolSize : Int
  iotaHostList : Fin maxNodeListElements → Option String
  iotaPortList : Fin maxNodeListElements → Int
  /-- `iota_service.http`. -/
  httpHost : String
  httpPort : Int
  caPem : String
  healthTrackPeriod : Int
  socket : String
  mqttHost : String
  mqttTopicRoot : String
  cacheHost : String
  cachePort : Int
  cacheState : Bool
  bufferListName : String
  completeListName : String
  capacity : Int
  dbHost : String
  milestoneDepth : Int
  mwm : Int
  seed : String
  cliOptions : Nat
  confFile : String
  /-- Whether `errno` is `ERANGE`, which nothing resets. -/
  erange : Bool

/-- `is_option_enabled`. -/
def isOptionEnabled (core : Core) (option : Nat) : Bool := core.cliOptions &&& option != 0

/-- `ta_core_default_init`. -/
def taCoreDefaultInit (env : Env) : Core where
  host := "localhost"
  port := 8000
  httpTpoolSize := 4
  iotaHostList _ := none
  iotaPortList _ := 443
  httpHost := "localhost"
  httpPort := 443
  caPem := env.defaultCaPem
  healthTrackPeriod := healthTrackPeriod
  socket := "/tmp/tangle-accelerator-socket"
  mqttHost := "localhost"
  mqttTopicRoot := "root/topics"
  cacheHost := "localhost"
  cachePort := 6379
  cacheState := false
  bufferListName := "txn_buff_list"
  completeListName := "complete_txn_buff_list"
  capacity := 170 * 1024 * 1024
  dbHost := "localhost"
  milestoneDepth := 3
  mwm := 14
  seed := "AMRWQP9BUMJALJHBXUCHOD9HFFD9LGTGEAWMJWWXSDVOF9PI9YGJAPBQLQUOMNYEQCZPGCTHGVNNAPGHA"
  cliOptions := cliGtta
  confFile := ""
  erange := false

/-! ## Values -/

/-- The limits of `int`. -/
def intMin : Int := -2 ^ 31

@[inherit_doc intMin] def intMax : Int := 2 ^ 31 - 1

/-- The bytes of a text. -/
def bytes (text : String) : List UInt8 := text.toUTF8.data.toList

/-- The number in a text. -/
def number (text : String) : Int := strtol (bytes text)

/-- The texts `strtok` finds between commas. -/
def items (text : String) : List String :=
  ((text.toList.splitOnP (· = ',')).filter (· ≠ [])).map String.ofList

/-- The cases for numbers: a field is set where `strtol` and the check after it succeed.  Only some
cases hand `strtol` the pointer for the end of the number; in the others the comparison with it
always holds. -/
def setNumber (core : Core) (checksEnd : Bool) (lo hi : Int) (value : String)
    (set : Core → Int → Core) : Core :=
  let core := { core with erange := core.erange || overflows (bytes value) }
  if (!checksEnd || hasDigits (bytes value)) && !core.erange && decide (lo ≤ number value) &&
      decide (number value ≤ hi) then
    set core (number value)
  else core

/-- The loop of the cases for lists.  Slots after the last text keep what they hold. -/
def setSlots (set : Core → Fin maxNodeListElements → String → Core) (core : Core) :
    Nat → List String → Core
  | _, [] => core
  | idx, p :: ps =>
      if h : idx < maxNodeListElements then setSlots set (set core ⟨idx, h⟩ p) (idx + 1) ps
      else core

/-- The loop of `NODE_HOST_CLI`. -/
def setHosts (core : Core) (value : String) : Core :=
  setSlots (fun core idx p =>
    { core with iotaHostList := Function.update core.iotaHostList idx (some p) })
    core 0 (items value)

/-- The loop of `NODE_PORT_CLI`. -/
def setPorts (core : Core) (value : String) : Core :=
  setSlots (fun core idx p => setNumber core true 0 65535 p fun core port =>
    { core with iotaPortList := Function.update core.iotaPortList idx port })
    core 0 (items value)

/-- The cases of `cli_core_set`.  A value without any host would have a null pointer copied, which
is left out. -/
def setCase (env : Env) (core : Core) (value : String) : CliArgValue → Core
  | .taHost => { core with host := value }
  | .taPort => setNumber core true intMin intMax value fun core n => { core with port := n }
  | .httpThreads => setNumber core true 0 255 value fun core n =>
      { core with httpTpoolSize :=
          if (env.maxHttpTpoolSize : Int) < n then env.maxHttpTpoolSize % 256 else n }
  | .nodeHost =>
      let core := setHosts core value
      { core with httpHost := strncpy ((core.iotaHostList firstSlot).getD "") (env.hostMaxLen - 1) }
  | .nodePort =>
      let core := setPorts core value
      { core with httpPort := core.iotaPortList firstSlot }
  | .caPem => { core with caPem := env.readCaPem value }
  | .healthTrackPeriod => setNumber core false intMin intMax value fun core n =>
      { core with healthTrackPeriod := n }
  | .cache => { core with cacheState := !core.cacheState }
  | .ipc => { core with socket := value }
  | .mqttHost => { core with mqttHost := value }
  | .mqttRoot => { core with mqttTopicRoot := value }
  | .redisHost => { core with cacheHost := value }
  | .redisPort => setNumber core false intMin intMax value fun core n =>
      { core with cachePort := n % 2 ^ 16 }
  | .cacheCapacity => setNumber core false intMin intMax value fun core n =>
      if n ≤ 0 then core else { core with capacity := n }
  | .dbHost => { core with dbHost := value }
  | .milestoneDepth => setNumber core false intMin intMax value fun core n =>
      { core with milestoneDepth := n % 2 ^ 8 }
  | .mwm => setNumber core false intMin intMax value fun core n => { core with mwm := n % 2 ^ 8 }
  | .seed => { core with seed := value }
  | .bufferList => { core with bufferListName := value }
  | .completeList => { core with completeListName := value }
  | .quiet => { core with cliOptions := core.cliOptions ||| cliQuietMode }
  | .proxyApi => { core with cliOptions := core.cliOptions ||| cliProxyPassthrough }
  | .noGtta => { core with cliOptions := core.cliOptions ||| cliGtta }
  | .runtimeCli => { core with cliOptions := core.cliOptions ||| cliRuntimeCli }
  | .conf => { core with confFile := value }
  | .nodeAddress => core

/-- `cli_core_set`. -/
def cliCoreSet (env : Env) (core : Core) (key : Int) (value : Option String) :
    Except Status Core :=
  if value = none ∧ key ∉ noArgument then .error .null
  else
    match labels.lookup key with
    | none => .ok core
    | some arg => .ok (setCase env core (value.getD "") arg)

/-! ## The file -/

/-- What the YAML scanner returns, up to the end of the stream. -/
inductive Token where
  | key
  | value
  | scalar (text : String)
  | other
  | scanError

/-- The loop over the tokens.  `state` is whether a value is expected. -/
def readTokens (env : Env) (core : Core) (state : Bool) (key : Int) :
    List Token → Core × Except Status Unit
  | [] => (core, .ok ())
  | .scanError :: _ => (core, .error .confParserError)
  | .key :: tokens => readTokens env core false key tokens
  | .value :: tokens => readTokens env core true key tokens
  | .other :: tokens => readTokens env core state key tokens
  | .scalar arg :: tokens =>
      if state then
        match cliCoreSet env core key (some arg) with
        | .ok core => readTokens env core state key tokens
        | .error e => (core, .error e)
      else readTokens env core state (getConfKey arg) tokens

/-- What `getopt_long` returns, up to `-1`. -/
inductive Opt where
  | missingArgument
  | unknownOption
  | option (key : Int) (optarg : Option String)

/-- The first loop over the arguments, which looks for the configuration file. -/
def findConfFile (env : Env) : Core → Except Status Unit → List Opt → Core
  | core, _, [] => core
  | core, _, .missingArgument :: _ => core
  | core, _, .unknownOption :: opts => findConfFile env core (.error .confUnknownOption) opts
  | core, ret, .option key optarg :: opts =>
      if key = CliArgValue.conf.val then
        match cliCoreSet env core key optarg with
        | .ok core => findConfFile env core (.ok ()) opts
        | .error _ => core
      else
        match ret with
        | .ok () => findConfFile env core ret opts
        | .error _ => core

/-- `ta_core_file_init`. -/
def taCoreFileInit (env : Env) (fopen : String → Option (List Token)) (core : Core)
    (opts : List Opt) : Core × Except Status Unit :=
  let core := findConfFile env { core with confFile := "" } (.ok ()) opts
  if core.confFile.length = 0 then (core, .ok ())
  else
    match fopen core.confFile with
    | none => (core, .error .confFopenError)
    | some tokens => readTokens env core false (-1) tokens

/-! ## The command line -/

/-- The loop of `ta_core_cli_init`.  Nothing is returned where the process exits. -/
def readOpts (env : Env) : Core → Except Status Unit → List Opt → Option (Core × Except Status Unit)
  | core, ret, [] => some (core, ret)
  | core, _, .missingArgument :: _ => some (core, .error .confMissingArgument)
  | core, _, .unknownOption :: opts => readOpts env core (.error .confUnknownOption) opts
  | core, ret, .option key optarg :: opts =>
      if key = helpKey ∨ key = versionKey then none
      else if key = CliArgValue.conf.val then
        match ret with
        | .ok () => readOpts env core ret opts
        | .error e => some (core, .error e)
      else
        match cliCoreSet env core key optarg with
        | .ok core => readOpts env core (.ok ()) opts
        | .error e => some (core, .error e)

/-- `ta_core_cli_init`. -/
def taCoreCliInit (env : Env) (core : Core) (opts : List Opt) :
    Option (Core × Except Status Unit) :=
  readOpts env core (.ok ()) opts

/-- The start of `main`: the defaults, the file and the command line, in this order.  Nothing is
returned where one of them fails. -/
def configure (env : Env) (fopen : String → Option (List Token)) (opts : List Opt) : Option Core :=
  match taCoreFileInit env fopen (taCoreDefaultInit env) opts with
  | (_, .error _) => none
  | (core, .ok ()) =>
      match taCoreCliInit env core opts with
      | some (core, .ok ()) => some core
      | _ => none

end TangleAccelerator.Config
