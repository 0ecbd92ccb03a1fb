import TangleAccelerator.Config.Settings

/-!
# One occurrence of a setting

What an occurrence of a setting does to the configuration (`applied`), with the loops over the file
and the command line as folds of it.

An occurrence changes no setting but its own (`get_applied_of_ne`).  Most settings it overwrites
(`get_applied_self`).  The lists it overlays (`setHosts_eq`, `setPorts_eq`).  A value that is well
formed leaves `errno` alone, so that it is no obstacle for later ones (`erange_applied`).
-/

namespace TangleAccelerator.Config

open Fold Bytes

variable {env : Env}

/-! ## Occurrences -/

/-- An occurrence of a setting, with its value. -/
abbrev Occurrence := CliArgValue × Option String

/-- The name of a setting. -/
def CliArgValue.name : CliArgValue → String
  | taHost => "ta_host"
  | taPort => "ta_port"
  | runtimeCli => "runtime_cli"
  | nodeHost => "node_host"
  | nodePort => "node_port"
  | nodeAddress => "node_address"
  | mqttHost => "mqtt_host"
  | mqttRoot => "mqtt_root"
  | redisHost => "redis_host"
  | redisPort => "redis_port"
  | dbHost => "db_host"
  | milestoneDepth => "milestone_depth"
  | mwm => "mwm"
  | seed => "seed"
  | cache => "cache"
  | conf => "config"
  | proxyApi => "proxy_passthrough"
  | healthTrackPeriod => "health_track_period"
  | noGtta => "no-gtta"
  | bufferList => "buffer_list"
  | completeList => "complete_list"
  | httpThreads => "http_threads"
  | cacheCapacity => "cache_capacity"
  | ipc => "ipc"
  | quiet => "quiet"
  | caPem => "CA_PEM"

/-- The tokens of a setting in the file. -/
def tokensOf (setting : CliArgValue × String) : List Token :=
  [.key, .scalar setting.1.name, .value, .scalar setting.2]

/-- What `getopt_long` returns for a setting. -/
def optOf (o : Occurrence) : Opt := .option o.1.val o.2

/-- What an occurrence leaves. -/
def applied (env : Env) (core : Core) (o : Occurrence) : Core :=
  if o.1 = .healthTrackPeriod then core else setCase env core (o.2.getD "") o.1

theorem getConfKey_name (arg : CliArgValue) : getConfKey arg.name = arg.val := by
  cases arg <;> decide

/-- The option of the period has the number of no case, and those of the others have that of their
own. -/
theorem lookup_labels (arg : CliArgValue) : labels.lookup arg.val =
    if arg = .healthTrackPeriod ∨ arg = .nodeAddress then none else some arg := by
  cases arg <;> decide

theorem cliCoreSet_val (core : Core) {arg : CliArgValue} {value : Option String}
    (h : value = none → arg.val ∈ noArgument) :
    cliCoreSet env core arg.val value = .ok (applied env core (arg, value)) := by
  have hnull : ¬(value = none ∧ arg.val ∉ noArgument) := fun hn => hn.2 (h hn.1)
  rw [cliCoreSet, if_neg hnull, lookup_labels]
  cases arg <;> rfl

theorem val_ne_help (arg : CliArgValue) : ¬(arg.val = helpKey ∨ arg.val = versionKey) := by
  cases arg <;> decide

theorem val_eq_conf_iff (arg : CliArgValue) : arg.val = CliArgValue.conf.val ↔ arg = .conf := by
  cases arg <;> decide

/-! ## The loops -/

theorem readTokens_settings (core : Core) (state : Bool) (key : Int) :
    ∀ file : List (CliArgValue × String), readTokens env core state key (file.flatMap tokensOf) =
      ((file.map fun s => (s.1, some s.2)).foldl (applied env) core, .ok ())
  | [] => rfl
  | s :: file => by
      have hset : cliCoreSet env core s.1.val (some s.2) = .ok (applied env core (s.1, some s.2)) :=
        cliCoreSet_val core (by intro h; cases h)
      rw [List.flatMap_cons, tokensOf]
      simp only [List.cons_append, List.nil_append, readTokens, getConfKey_name, hset, if_true,
        Bool.false_eq_true, if_false, List.map_cons, List.foldl_cons]
      exact readTokens_settings _ _ _ file

/-- A value is there, unless the option takes none. -/
def Present (o : Occurrence) : Prop := o.2 = none → o.1.val ∈ noArgument

/-- The occurrences that the first loop looks at. -/
def confApplied (env : Env) (core : Core) (o : Occurrence) : Core :=
  if o.1 = .conf then applied env core o else core

/-- The occurrences that the second loop looks at. -/
def optApplied (env : Env) (core : Core) (o : Occurrence) : Core :=
  if o.1 = .conf then core else applied env core o

theorem findConfFile_settings (core : Core) : ∀ {argv : List Occurrence}, (∀ o ∈ argv, Present o) →
    findConfFile env core (.ok ()) (argv.map optOf) = argv.foldl (confApplied env) core
  | [], _ => rfl
  | o :: argv, h => by
      have ih := fun core =>
        findConfFile_settings core fun o' ho' => h o' (List.mem_cons_of_mem o ho')
      rw [List.map_cons, List.foldl_cons, optOf, findConfFile, confApplied]
      simp only [val_eq_conf_iff, cliCoreSet_val core (h o List.mem_cons_self)]
      split
      · exact ih _
      · exact ih _

theorem readOpts_settings (core : Core) : ∀ {argv : List Occurrence}, (∀ o ∈ argv, Present o) →
    readOpts env core (.ok ()) (argv.map optOf) =
      some (argv.foldl (optApplied env) core, .ok ())
  | [], _ => rfl
  | o :: argv, h => by
      have ih := fun core => readOpts_settings core fun o' ho' => h o' (List.mem_cons_of_mem o ho')
      rw [List.map_cons, List.foldl_cons, optOf, readOpts, if_neg (val_ne_help o.1), optApplied]
      simp only [val_eq_conf_iff, cliCoreSet_val core (h o List.mem_cons_self)]
      split
      · exact ih _
      · exact ih _

/-! ## Values of settings -/

/-- The value of a setting. -/
inductive Value where
  | text (text : String)
  | number (n : Int)
  | switch (on : Bool)
  /-- The slots, and the host the service is bound to. -/
  | hosts (slots : Fin maxNodeListElements → Option String) (bound : String)
  | ports (slots : Fin maxNodeListElements → Int) (bound : Int)

/-- The value of a setting in a configuration.  Nothing holds that of `node_address`. -/
def get (core : Core) : CliArgValue → Value
  | .taHost => .text core.host
  | .taPort => .number core.port
  | .runtimeCli => .switch (isOptionEnabled core cliRuntimeCli)
  | .nodeHost => .hosts core.iotaHostList core.httpHost
  | .nodePort => .ports core.iotaPortList core.httpPort
  | .nodeAddress => .text ""
  | .mqttHost => .text core.mqttHost
  | .mqttRoot => .text core.mqttTopicRoot
  | .redisHost => .text core.cacheHost
  | .redisPort => .number core.cachePort
  | .dbHost => .text core.dbHost
  | .milestoneDepth => .number core.milestoneDepth
  | .mwm => .number core.mwm
  | .seed => .text core.seed
  | .cache => .switch core.cacheState
  | .conf => .text core.confFile
  | .proxyApi => .switch (isOptionEnabled core cliProxyPassthrough)
  | .healthTrackPeriod => .number core.healthTrackPeriod
  | .noGtta => .switch (!isOptionEnabled core cliGtta)
  | .bufferList => .text core.bufferListName
  | .completeList => .text core.completeListName
  | .httpThreads => .number core.httpTpoolSize
  | .cacheCapacity => .number core.capacity
  | .ipc => .text core.socket
  | .quiet => .switch (isOptionEnabled core cliQuietMode)
  | .caPem => .text core.caPem

/-- A text is a number within limits. -/
def IsNumber (text : String) (lo hi : Int) : Prop :=
  hasDigits (bytes text) = true ∧ lo ≤ number text ∧ number text ≤ hi

/-- A value is well formed: a number fits in its field, and a list has an entry. -/
def Valid (env : Env) : CliArgValue → String → Prop
  | .taPort, text => IsNumber text intMin intMax
  | .healthTrackPeriod, text => IsNumber text intMin intMax
  | .httpThreads, text => IsNumber text 0 255
  | .redisPort, text => IsNumber text 0 65535
  | .cacheCapacity, text => IsNumber text 1 intMax
  | .milestoneDepth, text => IsNumber text 0 255
  | .mwm, text => IsNumber text 0 255
  | .nodeHost, text => items text ≠ [] ∧ ∀ host ∈ items text, host.length ≤ env.hostMaxLen - 1
  | .nodePort, text => items text ≠ [] ∧ ∀ port ∈ items text, IsNumber port 0 65535
  | _, _ => True

/-- An occurrence is well formed. -/
def WellFormed (env : Env) (o : Occurrence) : Prop := Present o ∧ Valid env o.1 (o.2.getD "")

/-- What an occurrence asks for.  `word` reads the words for a switch; an option without a value
turns it on. -/
def meaning (env : Env) (word : CliArgValue → String → Bool) (arg : CliArgValue)
    (value : Option String) : Value :=
  let text := value.getD ""
  match arg with
  | .taPort | .healthTrackPeriod | .redisPort | .cacheCapacity | .milestoneDepth | .mwm =>
      .number (number text)
  | .httpThreads => .number (min (number text) env.maxHttpTpoolSize)
  | .nodeHost => .hosts (overlay ((items text).map some) fun _ => none) ((items text).headD "")
  | .nodePort =>
      .ports (overlay ((items text).map number) fun _ => 443) (number ((items text).headD ""))
  | .caPem => .text (env.readCaPem text)
  | .cache | .quiet | .proxyApi | .noGtta | .runtimeCli => .switch (value.elim true (word arg))
  | _ => .text text

/-! ## One occurrence -/

section Applied

variable {core : Core} {arg arg' : CliArgValue} {value : Option String}

theorem isOptionEnabled_of_disjoint (core : Core) {bits option : Nat} (h : bits &&& option = 0) :
    isOptionEnabled { core with cliOptions := core.cliOptions ||| bits } option =
      isOptionEnabled core option := by
  rw [isOptionEnabled, isOptionEnabled, Nat.and_or_distrib_right, h, Nat.or_zero]

theorem isOptionEnabled_self (core : Core) {option : Nat} (h : option ≠ 0) :
    isOptionEnabled { core with cliOptions := core.cliOptions ||| option } option = true := by
  rw [isOptionEnabled, Nat.and_or_distrib_right, Nat.and_self, bne_iff_ne]
  intro hzero
  exact h (Nat.or_eq_zero_iff.mp hzero).2

theorem get_erange (core : Core) (b : Bool) (arg : CliArgValue) :
    get { core with erange := b } arg = get core arg := by
  cases arg <;> rfl

theorem get_setNumber {checksEnd : Bool} {lo hi : Int} {text : String} {set : Core → Int → Core}
    (h : ∀ core n, get (set core n) arg = get core arg) (core : Core) :
    get (setNumber core checksEnd lo hi text set) arg = get core arg := by
  unfold setNumber
  dsimp only
  split
  · rw [h, get_erange]
  · rw [get_erange]

theorem get_setSlots {set : Core → Fin maxNodeListElements → String → Core}
    (h : ∀ core i p, get (set core i p) arg = get core arg) :
    ∀ (ps : List String) (core : Core) (idx : Nat),
      get (setSlots set core idx ps) arg = get core arg
  | [], _, _ => rfl
  | p :: ps, core, idx => by
      rw [setSlots]
      split
      · rw [get_setSlots h ps, h]
      · rfl

/-- A case changes no setting but its own. -/
theorem get_setCase_of_ne (h : arg' ≠ arg) (core : Core) (text : String) :
    get (setCase env core text arg) arg' = get core arg' := by
  cases arg with
  | taPort | redisPort | milestoneDepth | mwm | healthTrackPeriod | httpThreads =>
      refine get_setNumber (fun core n => ?_) core
      cases arg' <;> first | rfl | exact absurd rfl h
  | cacheCapacity =>
      refine get_setNumber (fun core n => ?_) core
      split <;> cases arg' <;> first | rfl | exact absurd rfl h
  | nodeHost =>
      have hslots : get (setHosts core text) arg' = get core arg' := by
        refine get_setSlots (fun core i p => ?_) _ core 0
        cases arg' <;> first | rfl | exact absurd rfl h
      rw [← hslots]
      cases arg' <;> first | rfl | exact absurd rfl h
  | nodePort =>
      have hslots : get (setPorts core text) arg' = get core arg' := by
        refine get_setSlots (fun core i p => get_setNumber (fun core n => ?_) core) _ core 0
        cases arg' <;> first | rfl | exact absurd rfl h
      rw [← hslots]
      cases arg' <;> first | rfl | exact absurd rfl h
  | quiet | proxyApi | noGtta | runtimeCli =>
      -- the switches share a field, in which each has a bit
      cases arg' <;> first
        | exact absurd rfl h
        | exact congrArg Value.switch (isOptionEnabled_of_disjoint core (by decide))
        | exact congrArg (fun on => Value.switch !on) (isOptionEnabled_of_disjoint core (by decide))
        | rfl
  | taHost | caPem | cache | ipc | mqttHost | mqttRoot | redisHost | dbHost | seed | bufferList
  | completeList | conf | nodeAddress =>
      cases arg' <;> first | rfl | exact absurd rfl h

theorem get_applied_of_ne (h : arg' ≠ arg) (core : Core) (value : Option String) :
    get (applied env core (arg, value)) arg' = get core arg' := by
  rw [applied]
  split
  · rfl
  · exact get_setCase_of_ne h core _

theorem IsNumber.mono {text : String} {lo hi lo' hi' : Int} (h : IsNumber text lo hi)
    (hlo : lo' ≤ lo) (hhi : hi ≤ hi') : IsNumber text lo' hi' :=
  ⟨h.1, hlo.trans h.2.1, h.2.2.trans hhi⟩

theorem IsNumber.overflows {text : String} (h : IsNumber text intMin intMax) :
    Bytes.overflows (bytes text) = false := by
  obtain ⟨-, hlo, hhi⟩ := h
  rw [number, intMin] at hlo
  rw [number, intMax] at hhi
  exact overflows_eq_false (by omega) (by omega)

/-- A number that is well formed is set. -/
theorem setNumber_of_isNumber {lo hi : Int} {text : String} (h : IsNumber text lo hi)
    (hint : IsNumber text intMin intMax) (hcore : core.erange = false) (checksEnd : Bool)
    (set : Core → Int → Core) :
    setNumber core checksEnd lo hi text set = set core (number text) := by
  have heq : { core with erange := core.erange || Bytes.overflows (bytes text) } = core := by
    rw [hint.overflows, Bool.or_false]
  rw [setNumber, heq]
  simp [h.1, hcore, h.2.1, h.2.2]

theorem setHosts_eq (core : Core) (text : String) : setHosts core text =
    { core with iotaHostList := overlay ((items text).map some) core.iotaHostList } := by
  have hloop : ∀ (ps : List String) (core : Core) (idx : Nat),
      setSlots (fun core idx p =>
        { core with iotaHostList := Function.update core.iotaHostList idx (some p) }) core idx ps =
      { core with iotaHostList := overlayFrom idx (ps.map some) core.iotaHostList } := by
    intro ps
    induction ps with
    | nil =>
        intro core idx
        rw [List.map_nil, overlayFrom_nil]
        rfl
    | cons p ps ih =>
        intro core idx
        rw [setSlots]
        split
        · rename_i h
          rw [ih, List.map_cons, overlayFrom_cons h]
        · rename_i h
          rw [overlayFrom_of_le (Nat.not_lt.mp h)]
  rw [setHosts, hloop, overlayFrom_zero]

theorem setPorts_eq (hcore : core.erange = false) {text : String}
    (h : ∀ port ∈ items text, IsNumber port 0 65535) : setPorts core text =
      { core with iotaPortList := overlay ((items text).map number) core.iotaPortList } := by
  have hloop : ∀ (ps : List String) (core : Core) (idx : Nat), core.erange = false →
      (∀ port ∈ ps, IsNumber port 0 65535) →
      setSlots (fun core idx p => setNumber core true 0 65535 p fun core port =>
        { core with iotaPortList := Function.update core.iotaPortList idx port }) core idx ps =
      { core with iotaPortList := overlayFrom idx (ps.map number) core.iotaPortList } := by
    intro ps
    induction ps with
    | nil =>
        intro core idx _ _
        rw [List.map_nil, overlayFrom_nil]
        rfl
    | cons p ps ih =>
        intro core idx hcore hps
        have hport := hps p List.mem_cons_self
        have hp := setNumber_of_isNumber hport (hport.mono (by decide) (by decide)) hcore true
        rw [setSlots]
        split
        · rename_i h
          rw [hp, ih _ _ (by exact hcore) fun q hq => hps q (List.mem_cons_of_mem p hq),
            List.map_cons, overlayFrom_cons h]
        · rename_i h
          rw [overlayFrom_of_le (Nat.not_lt.mp h)]
  rw [setPorts, hloop _ _ _ hcore h, overlayFrom_zero]

/-- The settings that each occurrence overwrites. -/
def Overwrites : CliArgValue → Prop
  | .healthTrackPeriod | .cache | .nodeHost | .nodePort | .conf | .nodeAddress => False
  | _ => True

/-- What an occurrence of such a setting leaves. -/
def effect (env : Env) (arg : CliArgValue) (value : Option String) : Value :=
  match arg with
  | .quiet | .proxyApi | .runtimeCli => .switch true
  | .noGtta => .switch false
  | arg => meaning env (fun _ _ => true) arg value

theorem applied_eq (harg : arg ≠ .healthTrackPeriod) (core : Core) (value : Option String) :
    applied env core (arg, value) = setCase env core (value.getD "") arg := if_neg harg

theorem get_applied_self (harg : Overwrites arg) (hcore : core.erange = false)
    (hvalid : Valid env arg (value.getD "")) :
    get (applied env core (arg, value)) arg = effect env arg value := by
  cases arg with
  | healthTrackPeriod | cache | nodeHost | nodePort | conf | nodeAddress => exact harg.elim
  | taPort =>
      rw [applied_eq (by decide), setCase, setNumber_of_isNumber hvalid hvalid hcore]
      rfl
  | httpThreads =>
      have hnumber : IsNumber (value.getD "") 0 255 := hvalid
      rw [applied_eq (by decide), setCase,
        setNumber_of_isNumber hnumber (hnumber.mono (by decide) (by decide)) hcore]
      refine congrArg Value.number ?_
      have hmax := hnumber.2.2
      split
      · rename_i hlt
        rw [min_eq_right hlt.le]
        exact Int.emod_eq_of_lt (Int.natCast_nonneg _) (by omega)
      · rename_i hge
        rw [min_eq_left (not_lt.mp hge)]
  | redisPort =>
      have hnumber : IsNumber (value.getD "") 0 65535 := hvalid
      have hint : IsNumber (value.getD "") intMin intMax := hnumber.mono (by decide) (by decide)
      have hmax := hnumber.2.2
      rw [applied_eq (by decide), setCase, setNumber_of_isNumber hint hint hcore]
      exact congrArg Value.number (Int.emod_eq_of_lt hnumber.2.1 (by omega))
  | milestoneDepth | mwm =>
      have hnumber : IsNumber (value.getD "") 0 255 := hvalid
      have hint : IsNumber (value.getD "") intMin intMax := hnumber.mono (by decide) (by decide)
      have hmax := hnumber.2.2
      rw [applied_eq (by decide), setCase, setNumber_of_isNumber hint hint hcore]
      exact congrArg Value.number (Int.emod_eq_of_lt hnumber.2.1 (by omega))
  | cacheCapacity =>
      have hnumber : IsNumber (value.getD "") 1 intMax := hvalid
      have hint : IsNumber (value.getD "") intMin intMax := hnumber.mono (by decide) le_rfl
      have hmin := hnumber.2.1
      rw [applied_eq (by decide), setCase, setNumber_of_isNumber hint hint hcore,
        if_neg (by omega)]
      rfl
  | quiet | proxyApi | runtimeCli =>
      exact congrArg Value.switch (isOptionEnabled_self core (by decide))
  | noGtta =>
      exact congrArg (fun on => Value.switch !on) (isOptionEnabled_self core (by decide))
  | taHost | caPem | ipc | mqttHost | mqttRoot | redisHost | dbHost | seed | bufferList
  | completeList => rfl

theorem erange_setNumber {lo hi : Int} {text : String} (h : IsNumber text intMin intMax)
    (hcore : core.erange = false) {checksEnd : Bool} {set : Core → Int → Core}
    (hset : ∀ core n, (set core n).erange = core.erange) :
    (setNumber core checksEnd lo hi text set).erange = false := by
  unfold setNumber
  dsimp only
  split
  · rw [hset, hcore, h.overflows]
    rfl
  · rw [hcore, h.overflows]
    rfl

theorem erange_applied (core : Core) (o : Occurrence) (ho : WellFormed env o)
    (hcore : core.erange = false) : (applied env core o).erange = false := by
  obtain ⟨arg, value⟩ := o
  have hvalid := ho.2
  cases arg with
  | taPort =>
      rw [applied_eq (by decide), setCase]
      exact erange_setNumber hvalid hcore fun _ _ => rfl
  | httpThreads | redisPort | milestoneDepth | mwm =>
      rw [applied_eq (by decide), setCase]
      exact erange_setNumber (hvalid.mono (by decide) (by decide)) hcore fun _ _ => rfl
  | cacheCapacity =>
      rw [applied_eq (by decide), setCase]
      refine erange_setNumber (hvalid.mono (by decide) le_rfl) hcore fun core n => ?_
      split <;> rfl
  | nodeHost =>
      rw [applied_eq (by decide), setCase, setHosts_eq]
      exact hcore
  | nodePort =>
      rw [applied_eq (by decide), setCase, setPorts_eq hcore hvalid.2]
      exact hcore
  | taHost | caPem | cache | ipc | mqttHost | mqttRoot | redisHost | dbHost | seed | bufferList
  | completeList | conf | nodeAddress | quiet | proxyApi | noGtta | runtimeCli
  | healthTrackPeriod => exact hcore

end Applied

end TangleAccelerator.Config
