import TangleAccelerator.Config.Occurrence

/-!
# Precedence of settings

A setting should have the value of its last occurrence on the command line, else in the file, else
its default, and earlier occurrences and other settings should not matter.

Other settings never matter (`get_applied_of_ne`).  Most settings are overwritten by each occurrence
(`Overwrites`).  The others are not:

* `health_track_period` never reaches its case;
* `cache` is inverted, whatever the value is;
* `node_host` and `node_port` fill as many slots as the value has entries, and the slots after them
  keep what earlier occurrences left there;
* `config` is set from the command line before the file is read.

A switch is on after any occurrence, and `no-gtta` leaves the bit it should clear set.  How a
value is read for a switch is a parameter.
-/

namespace TangleAccelerator.Config

open Fold

variable {env : Env}

/-! ## Inputs -/

/-- The path of the configuration file. -/
def confPath (argv : List Occurrence) : String :=
  (argv.filter (·.1 = .conf)).getLast?.elim "" (·.2.getD "")

/-- The settings in a file, as occurrences. -/
def fileOccurrences (file : List (CliArgValue × String)) : List Occurrence :=
  file.map fun s => (s.1, some s.2)

/-- Settings in a file, and settings on the command line that open it. -/
structure Input (env : Env) where
  file : List (CliArgValue × String)
  argv : List Occurrence
  fopen : String → Option (List Token)
  opened : if confPath argv = "" then file = [] else
    fopen (confPath argv) = some (file.flatMap tokensOf)
  wellFormed : ∀ o ∈ fileOccurrences file ++ argv, WellFormed env o

/-- The values of a setting, in the file and then on the command line. -/
def Input.values (i : Input env) (arg : CliArgValue) : List (Option String) :=
  ((fileOccurrences i.file ++ i.argv).filter (·.1 = arg)).map (·.2)

/-- The last occurrence on the command line, else in the file. -/
def Input.last (i : Input env) (arg : CliArgValue) : Option (Option String) :=
  (i.values arg).getLast?

/-- The configuration that an input leads to. -/
def Input.final (i : Input env) : Core :=
  let core := i.argv.foldl (confApplied env) (taCoreDefaultInit env)
  i.argv.foldl (optApplied env) ((fileOccurrences i.file).foldl (applied env) core)

theorem Input.wellFormed_file (i : Input env) : ∀ o ∈ fileOccurrences i.file, WellFormed env o :=
  fun o ho => i.wellFormed o (List.mem_append_left _ ho)

theorem Input.wellFormed_argv (i : Input env) : ∀ o ∈ i.argv, WellFormed env o :=
  fun o ho => i.wellFormed o (List.mem_append_right _ ho)

theorem erange_confApplied (core : Core) (o : Occurrence) (ho : WellFormed env o)
    (hcore : core.erange = false) : (confApplied env core o).erange = false := by
  rw [confApplied]
  split
  · exact erange_applied core o ho hcore
  · exact hcore

theorem erange_optApplied (core : Core) (o : Occurrence) (ho : WellFormed env o)
    (hcore : core.erange = false) : (optApplied env core o).erange = false := by
  rw [optApplied]
  split
  · exact hcore
  · exact erange_applied core o ho hcore

theorem Input.erange_file (i : Input env) :
    (i.argv.foldl (confApplied env) (taCoreDefaultInit env)).erange = false :=
  foldl_inv erange_confApplied i.wellFormed_argv rfl

theorem Input.erange_argv (i : Input env) : ((fileOccurrences i.file).foldl (applied env)
    (i.argv.foldl (confApplied env) (taCoreDefaultInit env))).erange = false :=
  foldl_inv erange_applied i.wellFormed_file i.erange_file

section Component

variable {β : Type} (i : Input env) (π : Core → β) (act : β → Option String → β) {arg : CliArgValue}

/-- A component that only one setting changes is the fold of its values, if it is not the path of
the file. -/
theorem Input.final_component (harg : arg ≠ .conf)
    (hself : ∀ core value, core.erange = false → Valid env arg (value.getD "") →
      π (applied env core (arg, value)) = act (π core) value)
    (hother : ∀ core arg' value, arg' ≠ arg → π (applied env core (arg', value)) = π core) :
    π i.final = (i.values arg).foldl act (π (taCoreDefaultInit env)) := by
  have hmine : ∀ (core : Core) (o : Occurrence), WellFormed env o → core.erange = false →
      decide (o.1 = arg) = true → π (applied env core o) = act (π core) o.2 := by
    rintro core ⟨arg', value⟩ ho hcore harg'
    cases of_decide_eq_true harg'
    exact hself core value hcore ho.2
  have hnot : ∀ (core : Core) (o : Occurrence), WellFormed env o → core.erange = false →
      decide (o.1 = arg) = false → π (applied env core o) = π core :=
    fun core o _ _ hne => hother core o.1 o.2 (of_decide_eq_false hne)
  -- before the file is read, only its path is set
  have hconf : π (i.argv.foldl (confApplied env) (taCoreDefaultInit env)) =
      π (taCoreDefaultInit env) := by
    rw [foldl_component π (fun b _ => b) (fun _ => false) erange_confApplied
      (fun _ _ _ _ h => by cases h) (fun core o _ _ _ => ?_) i.wellFormed_argv rfl]
    · rw [List.filter_false]
      rfl
    · rw [confApplied]
      split
      · rename_i hconf
        exact hother core o.1 o.2 (by rw [hconf]; exact harg.symm)
      · rfl
  have hfile := i.erange_file
  have hargv := i.erange_argv
  rw [Input.final, Input.values, List.filter_append, List.map_append, List.foldl_append,
    List.foldl_map, List.foldl_map]
  rw [foldl_component π (fun b o => act b o.2) (fun o => decide (o.1 = arg)) erange_optApplied
      (fun core o ho hcore hm => ?_) (fun core o ho hcore hm => ?_) i.wellFormed_argv hargv,
    foldl_component π (fun b o => act b o.2) (fun o => decide (o.1 = arg))
      erange_applied hmine hnot i.wellFormed_file hfile, hconf]
  · rw [optApplied, if_neg (by rw [of_decide_eq_true hm]; exact harg), hmine core o ho hcore hm]
  · rw [optApplied]
    split
    · rfl
    · exact hnot core o ho hcore hm

end Component

/-! ## The path of the file -/

theorem confFile_applied_of_ne {arg : CliArgValue} (h : arg ≠ .conf) (core : Core)
    (value : Option String) : (applied env core (arg, value)).confFile = core.confFile :=
  Value.text.inj (get_applied_of_ne h.symm core value)

theorem Input.confFile_find (i : Input env) :
    (i.argv.foldl (confApplied env) (taCoreDefaultInit env)).confFile = confPath i.argv := by
  rw [foldl_component Core.confFile (fun _ o => o.2.getD "") (fun o => decide (o.1 = .conf))
    erange_confApplied (fun core o _ _ hm => ?_) (fun core o _ _ hm => ?_) i.wellFormed_argv rfl,
    foldl_overwrite]
  · rfl
  · obtain ⟨arg, value⟩ := o
    cases of_decide_eq_true hm
    rfl
  · rw [confApplied, if_neg (of_decide_eq_false hm)]

/-- Both loops go through, and apply the occurrences in the file and then those on the command
line. -/
theorem Input.configure_eq (i : Input env) :
    configure env i.fopen (i.argv.map optOf) = some i.final := by
  have hpresent : ∀ o ∈ i.argv, Present o := fun o ho => (i.wellFormed_argv o ho).1
  have hfind : findConfFile env { taCoreDefaultInit env with confFile := "" } (.ok ())
      (i.argv.map optOf) = i.argv.foldl (confApplied env) (taCoreDefaultInit env) :=
    findConfFile_settings _ hpresent
  have hfile : taCoreFileInit env i.fopen (taCoreDefaultInit env) (i.argv.map optOf) =
      ((fileOccurrences i.file).foldl (applied env)
        (i.argv.foldl (confApplied env) (taCoreDefaultInit env)), .ok ()) := by
    have hopened := i.opened
    rw [taCoreFileInit, hfind, i.confFile_find]
    split at hopened
    · rename_i hpath
      rw [hpath, hopened]
      rfl
    · rename_i hpath
      rw [if_neg (by rwa [String.length_eq_zero_iff]), hopened]
      exact readTokens_settings _ _ _ i.file
  rw [configure, hfile]
  dsimp only
  rw [taCoreCliInit, readOpts_settings _ hpresent]
  rfl

/-- The last occurrence in the file. -/
def Input.fileLast (i : Input env) (arg : CliArgValue) : Option (Option String) :=
  (((fileOccurrences i.file).filter (·.1 = arg)).map (·.2)).getLast?

/-- The command line has set the path before the file is read, and does not set it again. -/
theorem Input.confFile_final (i : Input env) :
    i.final.confFile = (i.fileLast .conf).elim (confPath i.argv) (·.getD "") := by
  have hopt : i.final.confFile = ((fileOccurrences i.file).foldl (applied env)
      (i.argv.foldl (confApplied env) (taCoreDefaultInit env))).confFile := by
    rw [Input.final, foldl_component Core.confFile (fun b _ => b) (fun _ => false)
      erange_optApplied (fun _ _ _ _ h => by cases h) (fun core o _ _ _ => ?_) i.wellFormed_argv
      i.erange_argv]
    · rw [List.filter_false]
      rfl
    · rw [optApplied]
      split
      · rfl
      · rename_i hne
        exact confFile_applied_of_ne hne core o.2
  rw [hopt, foldl_component Core.confFile (fun _ o => o.2.getD "") (fun o => decide (o.1 = .conf))
    erange_applied (fun core o _ _ hm => ?_) (fun core o _ _ hm => ?_) i.wellFormed_file
    i.erange_file, foldl_overwrite, i.confFile_find, Input.fileLast, List.getLast?_map]
  · cases ((fileOccurrences i.file).filter (·.1 = .conf)).getLast? <;> rfl
  · obtain ⟨arg, value⟩ := o
    cases of_decide_eq_true hm
    rfl
  · exact confFile_applied_of_ne (of_decide_eq_false hm) core o.2

/-! ## What is left -/

section Left

variable (i : Input env)

/-- The entries of the values of a list. -/
def Input.lists (arg : CliArgValue) : List (List String) :=
  (i.values arg).map fun value => items (value.getD "")

/-- What the occurrences of a setting leave, where `value` is the last. -/
def Input.left (arg : CliArgValue) (value : Option String) : Value :=
  match arg with
  | .healthTrackPeriod => .number healthTrackPeriod
  | .cache => .switch (decide ((i.values .cache).length % 2 = 1))
  | .nodeHost => .hosts (fun slot => slotAt (i.lists .nodeHost) slot)
      ((items (value.getD "")).headD "")
  | .nodePort => .ports (fun slot => ((slotAt (i.lists .nodePort) slot).map number).getD 443)
      (number ((items (value.getD "")).headD ""))
  | .conf => .text (((i.fileLast .conf).getD value).getD "")
  | arg => effect env arg value

/-- Slots hold what the last value that reached them left there. -/
theorem Input.foldl_lists {α : Type} (arg : CliArgValue) (f : String → α) (d : α) :
    (i.values arg).foldl (fun slots value => overlay ((items (value.getD "")).map f) slots)
        (fun _ : Fin maxNodeListElements => d) =
      fun slot : Fin _ => ((slotAt (i.lists arg) slot).map f).getD d := by
  have hlists : (i.values arg).foldl
      (fun slots value => overlay ((items (value.getD "")).map f) slots) (fun _ => d) =
      ((i.lists arg).map (List.map f)).foldl (fun slots l => overlay l slots)
        (fun _ : Fin maxNodeListElements => d) := by
    rw [Input.lists, List.map_map, List.foldl_map]
    rfl
  funext slot
  rw [hlists, foldl_overlay, slotAt_map]

theorem Input.iotaHostList_final :
    i.final.iotaHostList = fun slot : Fin _ => slotAt (i.lists .nodeHost) slot := by
  have hfold : i.final.iotaHostList = (i.values .nodeHost).foldl
      (fun slots value => overlay ((items (value.getD "")).map some) slots) fun _ => none := by
    refine i.final_component Core.iotaHostList _ (by decide) (fun core value _ _ => ?_)
      fun core arg' value h => (Value.hosts.inj (get_applied_of_ne h.symm core value)).1
    rw [applied_eq (by decide), setCase, setHosts_eq]
  rw [hfold, i.foldl_lists]
  funext slot
  cases slotAt (i.lists .nodeHost) slot <;> rfl

theorem Input.iotaPortList_final : i.final.iotaPortList = fun slot : Fin _ =>
    ((slotAt (i.lists .nodePort) slot).map number).getD 443 := by
  rw [← i.foldl_lists]
  refine i.final_component Core.iotaPortList _ (by decide) (fun core value hcore hvalid => ?_)
    fun core arg' value h => (Value.ports.inj (get_applied_of_ne h.symm core value)).1
  rw [applied_eq (by decide), setCase, setPorts_eq hcore hvalid.2]

/-- The first entry is in the first slot. -/
theorem overlay_firstSlot {α : Type} {new : List α} {x : α} (h : new.head? = some x)
    (old : Fin maxNodeListElements → α) : overlay new old firstSlot = x := by
  have hget : new[(firstSlot : Fin maxNodeListElements).val]? = some x := by
    rw [← h, List.head?_eq_getElem?]
    rfl
  rw [overlay, hget, Option.getD_some]

theorem exists_head_items {text : String} (h : items text ≠ []) :
    ∃ item ∈ items text, (items text).head? = some item ∧ (items text).headD "" = item := by
  obtain ⟨item, rest, hitems⟩ := List.exists_cons_of_ne_nil h
  rw [hitems]
  exact ⟨item, List.mem_cons_self, rfl, rfl⟩

theorem Input.httpHost_final : i.final.httpHost =
    (i.last .nodeHost).elim "localhost" fun value => (items (value.getD "")).headD "" := by
  rw [Input.last, ← foldl_overwrite]
  refine i.final_component Core.httpHost _ (by decide) (fun core value _ hvalid => ?_)
    fun core arg' value h => (Value.hosts.inj (get_applied_of_ne h.symm core value)).2
  obtain ⟨host, hmem, hhead, hheadD⟩ := exists_head_items hvalid.1
  have hslot : overlay ((items (value.getD "")).map some) core.iotaHostList firstSlot =
      some host := overlay_firstSlot (by rw [List.head?_map, hhead]; rfl) _
  rw [applied_eq (by decide), setCase, setHosts_eq, hheadD]
  dsimp only
  rw [hslot]
  exact strncpy_of_length_le (hvalid.2 host hmem)

theorem Input.httpPort_final : i.final.httpPort =
    (i.last .nodePort).elim 443 fun value => number ((items (value.getD "")).headD "") := by
  rw [Input.last, ← foldl_overwrite]
  refine i.final_component Core.httpPort _ (by decide) (fun core value hcore hvalid => ?_)
    fun core arg' value h => (Value.ports.inj (get_applied_of_ne h.symm core value)).2
  obtain ⟨port, hmem, hhead, hheadD⟩ := exists_head_items hvalid.1
  rw [applied_eq (by decide), setCase, setPorts_eq hcore hvalid.2, hheadD]
  exact overlay_firstSlot (by rw [List.head?_map, hhead]; rfl) _

theorem Input.lists_eq_nil {arg : CliArgValue} (h : i.last arg = none) : i.lists arg = [] := by
  rw [Input.lists, List.getLast?_eq_none_iff.mp h]
  rfl

theorem Input.confPath_eq : confPath i.argv =
    ((i.argv.filter (·.1 = .conf)).map (·.2)).getLast?.elim "" (·.getD "") := by
  rw [confPath, List.getLast?_map]
  cases (i.argv.filter (·.1 = .conf)).getLast? <;> rfl

theorem Input.last_eq (arg : CliArgValue) : i.last arg =
    ((i.argv.filter (·.1 = arg)).map (·.2)).getLast?.or (i.fileLast arg) := by
  rw [Input.last, Input.values, List.filter_append, List.map_append, List.getLast?_append]
  rfl

/-- A setting that does not occur has its default, and the others have what their occurrences
leave. -/
theorem Input.get_final {arg : CliArgValue} (harg : arg ≠ .nodeAddress) :
    get i.final arg = (i.last arg).elim (get (taCoreDefaultInit env) arg) (i.left arg) := by
  -- the settings that are overwritten share one argument; the other five have their own
  have hoverwrites : Overwrites arg → i.left arg = effect env arg → get i.final arg =
      (i.last arg).elim (get (taCoreDefaultInit env) arg) (i.left arg) := by
    intro h hleft
    have hconf : arg ≠ .conf := by
      rintro rfl
      exact h
    rw [hleft, Input.last, ← foldl_overwrite]
    exact i.final_component (get · arg) _ hconf
      (fun _ _ hcore hvalid => get_applied_self h hcore hvalid)
      fun core _ value hne => get_applied_of_ne hne.symm core value
  cases arg with
  | nodeAddress => exact absurd rfl harg
  | healthTrackPeriod =>
      have hfinal := i.final_component (get · .healthTrackPeriod) (fun old _ => old) (by decide)
        (fun _ _ _ _ => rfl) fun core _ value hne => get_applied_of_ne hne.symm core value
      rw [List.foldl_fixed] at hfinal
      rw [hfinal]
      cases i.last .healthTrackPeriod <;> rfl
  | cache =>
      have hfinal : i.final.cacheState = (i.values .cache).foldl (fun on _ => !on) false :=
        i.final_component Core.cacheState _ (by decide) (fun _ _ _ _ => rfl)
          fun core _ value hne => Value.switch.inj (get_applied_of_ne hne.symm core value)
      rw [get, hfinal, foldl_not, Bool.false_xor]
      cases hlast : i.last .cache with
      | none =>
          rw [List.getLast?_eq_none_iff.mp hlast]
          rfl
      | some value => rfl
  | nodeHost =>
      rw [get, i.iotaHostList_final, i.httpHost_final]
      cases hlast : i.last .nodeHost with
      | none =>
          rw [i.lists_eq_nil hlast]
          rfl
      | some value => rfl
  | nodePort =>
      rw [get, i.iotaPortList_final, i.httpPort_final]
      cases hlast : i.last .nodePort with
      | none =>
          rw [i.lists_eq_nil hlast]
          rfl
      | some value => rfl
  | conf =>
      rw [get, i.confFile_final, i.confPath_eq, i.last_eq]
      have hleft : i.left .conf =
          fun value => .text (((i.fileLast .conf).getD value).getD "") := rfl
      rw [hleft]
      cases i.fileLast .conf <;>
        cases ((i.argv.filter (·.1 = .conf)).map (·.2)).getLast? <;> rfl
  | taHost | taPort | runtimeCli | mqttHost | mqttRoot | redisHost | redisPort | dbHost
  | milestoneDepth | mwm | seed | proxyApi | noGtta | bufferList | completeList | httpThreads
  | cacheCapacity | ipc | quiet | caPem => exact hoverwrites trivial rfl

end Left

/-! ## Precedence -/

/-- The value a setting should have. -/
def Input.expected (i : Input env) (word : CliArgValue → String → Bool) (arg : CliArgValue) :
    Value :=
  (i.last arg).elim (get (taCoreDefaultInit env) arg) (meaning env word arg)

/-- The last occurrence of a setting, if there is one, asks for what is left. -/
def Input.Keeps (i : Input env) (word : CliArgValue → String → Bool) (arg : CliArgValue) : Prop :=
  ∀ value, i.last arg = some value →
    match arg with
    | .healthTrackPeriod => number (value.getD "") = healthTrackPeriod
    | .cache => value.elim true (word .cache) = decide ((i.values .cache).length % 2 = 1)
    | .noGtta => value.elim true (word .noGtta) = false
    | .quiet => value.elim true (word .quiet) = true
    | .proxyApi => value.elim true (word .proxyApi) = true
    | .runtimeCli => value.elim true (word .runtimeCli) = true
    | .nodeHost => ∀ slot : Fin maxNodeListElements, (items (value.getD "")).length ≤ slot →
        ∀ hosts ∈ i.lists .nodeHost, hosts.length ≤ slot
    | .nodePort => ∀ slot : Fin maxNodeListElements, (items (value.getD "")).length ≤ slot →
        ∀ port, slotAt (i.lists .nodePort) slot = some port → number port = 443
    | .conf => ∀ path, i.fileLast .conf = some path → path.getD "" = value.getD ""
    | _ => True

theorem switch_eq_iff {on on' : Bool} : Value.switch on = Value.switch on' ↔ on' = on := by
  rw [Value.switch.injEq, eq_comm]

/-- The last value alone counts where the slots after its entries hold nothing but the default. -/
theorem Input.slots_eq_overlay_iff {α : Type} (i : Input env) {arg : CliArgValue}
    {value : Option String} (hlast : i.last arg = some value) (f : String → α) (d : α) :
    (fun slot : Fin maxNodeListElements => ((slotAt (i.lists arg) slot).map f).getD d) =
        overlay ((items (value.getD "")).map f) (fun _ => d) ↔
      ∀ slot : Fin maxNodeListElements, (items (value.getD "")).length ≤ slot →
        ∀ x, slotAt (i.lists arg) slot = some x → f x = d := by
  have hlists : ((i.lists arg).map (List.map f)).getLast? =
      some ((items (value.getD "")).map f) := by
    rw [Input.lists, List.map_map, List.getLast?_map, ← Input.last, hlast]
    rfl
  have hfold : (fun slot : Fin maxNodeListElements => ((slotAt (i.lists arg) slot).map f).getD d) =
      ((i.lists arg).map (List.map f)).foldl (fun slots l => overlay l slots) (fun _ => d) := by
    funext slot
    rw [foldl_overlay, slotAt_map]
  rw [hfold, foldl_overlay_eq_iff hlists]
  refine forall_congr' fun slot => ?_
  rw [List.length_map, slotAt_map]
  refine imp_congr_right fun _ => ?_
  cases slotAt (i.lists arg) slot <;> simp

theorem Input.hosts_left_iff (i : Input env) {value : Option String}
    (hlast : i.last .nodeHost = some value) :
    (fun slot : Fin maxNodeListElements => slotAt (i.lists .nodeHost) slot) =
        overlay ((items (value.getD "")).map some) (fun _ => none) ↔
      ∀ slot : Fin maxNodeListElements, (items (value.getD "")).length ≤ slot →
        ∀ hosts ∈ i.lists .nodeHost, hosts.length ≤ slot := by
  have hsome : (fun slot : Fin maxNodeListElements => slotAt (i.lists .nodeHost) slot) =
      fun slot : Fin _ => ((slotAt (i.lists .nodeHost) slot).map some).getD none := by
    funext slot
    cases slotAt (i.lists .nodeHost) slot <;> rfl
  rw [hsome, i.slots_eq_overlay_iff hlast]
  refine forall_congr' fun slot => imp_congr_right fun _ => ?_
  rw [← slotAt_eq_none_iff]
  cases slotAt (i.lists .nodeHost) slot <;> simp

/-- A setting has the value it should have exactly where its last occurrence asks for what is
left. -/
theorem Input.expected_iff_keeps (i : Input env) (word : CliArgValue → String → Bool)
    {arg : CliArgValue} (harg : arg ≠ .nodeAddress) :
    get i.final arg = i.expected word arg ↔ i.Keeps word arg := by
  rw [i.get_final harg, Input.expected, Input.Keeps]
  cases hlast : i.last arg with
  | none => exact iff_of_true rfl fun value h => by cases h
  | some value =>
      refine Iff.trans ?_ ⟨fun h value' h' => ?_, fun h => h value rfl⟩
      rotate_left
      · cases h'
        exact h
      cases arg with
      | nodeAddress => exact absurd rfl harg
      | healthTrackPeriod =>
          exact (Value.number.injEq _ _).to_iff.trans eq_comm
      | cache | noGtta | quiet | proxyApi | runtimeCli => exact switch_eq_iff
      | nodeHost =>
          exact (Value.hosts.injEq _ _ _ _).to_iff.trans
            ((and_iff_left rfl).trans (i.hosts_left_iff hlast))
      | nodePort =>
          exact (Value.ports.injEq _ _ _ _).to_iff.trans
            ((and_iff_left rfl).trans (i.slots_eq_overlay_iff hlast number 443))
      | conf =>
          refine (Value.text.injEq _ _).to_iff.trans ?_
          cases i.fileLast .conf <;> simp
      | taHost | taPort | mqttHost | mqttRoot | redisHost | redisPort | dbHost | milestoneDepth
      | mwm | seed | bufferList | completeList | httpThreads | cacheCapacity | ipc | caPem =>
          exact iff_of_true rfl trivial

theorem present_some (arg : CliArgValue) (text : String) : Present (arg, some text) := by
  intro h
  cases h

def sampleEnv : Env := ⟨64, 4, "", id⟩

/-- A reading of the words for a switch. -/
def sampleWord (_ : CliArgValue) (word : String) : Bool := word == "on"

/-- A setting in the file and on the command line. -/
def overridden : Input sampleEnv where
  file := [(.taHost, "a")]
  argv := [(.conf, some "f"), (.taHost, some "b")]
  fopen _ := some ([(CliArgValue.taHost, "a")].flatMap tokensOf)
  opened := by rw [if_neg (by decide)]
  wellFormed := by
    simp only [fileOccurrences, List.map_cons, List.map_nil, List.cons_append, List.nil_append,
      List.forall_mem_cons]
    exact ⟨⟨present_some _ _, trivial⟩, ⟨present_some _ _, trivial⟩, ⟨present_some _ _, trivial⟩,
      List.forall_mem_nil _⟩

/-- Settings that occur more than once, or should not have the default. -/
def repeated : Input sampleEnv where
  file := []
  argv := [(.cache, some "on"), (.cache, some "on"), (.noGtta, none), (.nodeHost, some "a,b"),
    (.nodeHost, some "c"), (.healthTrackPeriod, some "60")]
  fopen _ := none
  opened := Eq.mpr (if_pos rfl) rfl
  wellFormed := by
    simp only [fileOccurrences, List.map_nil, List.nil_append, List.forall_mem_cons]
    exact ⟨⟨present_some _ _, trivial⟩, ⟨present_some _ _, trivial⟩, ⟨fun _ => by decide, trivial⟩,
      ⟨present_some _ _, by decide, by decide⟩, ⟨present_some _ _, by decide, by decide⟩,
      ⟨present_some _ _, by decide, by decide, by decide⟩, List.forall_mem_nil _⟩

/-- The cache is turned on once. -/
def once : Input sampleEnv where
  file := []
  argv := [(.cache, some "on")]
  fopen _ := none
  opened := Eq.mpr (if_pos rfl) rfl
  wellFormed := by
    simp only [fileOccurrences, List.map_nil, List.nil_append, List.forall_mem_cons]
    exact ⟨⟨present_some _ _, trivial⟩, List.forall_mem_nil _⟩

end TangleAccelerator.Config
