import Tmee.Engine.Loader
import Tmee.StartUp.Settings

set_option relaxedAutoImplicit false
set_option autoImplicit false

/-!
# Strings built during start-up

The strings that `register_event_id`, the functions `pre_init` and the two subscribers' `init`
write, each with the size of its destination. A string fits if there is room for its characters and
the terminator. The block that `register_event_id` allocates for a new name has no room for the
terminator; names of files and interfaces come from the configuration and may be longer than the
buffers they are printed to.

## Main definitions

* `Tmee.StringCopy` — a string and the size of its destination.
* `Tmee.registerCopies`, `Tmee.fileNameBuf`, `Tmee.eventString`, `Tmee.bbCopies` — the strings.
* `Tmee.StartUpStep`, `Tmee.startUpCopies` — the steps of a start-up, in any order, and what they
  write.
* `Tmee.StartUpStep.Safe` — when the strings of a step fit.

## Main results

* `Tmee.startUpCopies_fit_iff` — when all strings of a start-up fit.
-/

namespace Tmee

/-! ## Strings and destinations -/

/-- A string that is written to a destination of the given size. -/
structure StringCopy where
  capacity : ℕ
  text : String
  deriving DecidableEq, Repr

/-- There is room for the characters and the terminator. -/
def StringCopy.Fits (copy : StringCopy) : Prop := copy.text.length + 1 ≤ copy.capacity

instance StringCopy.decidableFits (copy : StringCopy) : Decidable copy.Fits :=
  inferInstanceAs (Decidable (_ ≤ _))

/-- `register_event_id`: a name that is new, while there is room in the table, is copied to a block
of `strlen(event_name)` characters. -/
def registerCopies (e : Engine) (eventName : String) : List StringCopy :=
  match e.eventIds.find? (fun entry => entry.name = eventName) with
  | some _ => []
  | none => if e.eventIds.length ≥ maxEventIds then [] else [⟨eventName.length, eventName⟩]

/-- The strings of registrations one after the other. -/
def registrations : Engine → List String → List StringCopy
  | _, [] => []
  | e, name :: names => registerCopies e name ++ registrations (assignEventId e name).2 names

/-- `sprintf(file_name_buf, "%s_config", outputFile)`. -/
def fileNameBuf (outputFile : String) : StringCopy := ⟨256, outputFile ++ "_config"⟩

/-- `sprintf(event_string, "%s_%s", config_id, event_id)`. -/
def eventString (configId eventId : String) : StringCopy :=
  ⟨configId.length + eventId.length + 10, configId ++ "_" ++ eventId⟩

/-- `%.2x` and `%.4x`: lower-case digits, at least as many as the precision. -/
def hexText (precision n : ℕ) : String :=
  String.ofList ((Nat.toDigits 16 n).leftpad precision '0')

/-- The lines that the subscribers print to `bb` for the configuration of their output. -/
def bbCopies (s : SubscriberSettings) : List StringCopy :=
  [⟨1024, "eth=" ++ s.interface ++ "\nshm name=" ++ s.shmName ++ "\n"⟩] ++
    (s.dstMac.toList.map fun mac =>
      ⟨1024, "mac=" ++ ":".intercalate (mac.map fun b => hexText 2 b.toNat) ++ "\n"⟩) ++
    [⟨1024, "appid=" ++ hexText 4 s.appid ++ "\n"⟩]

/-! ## The functions of the modules -/

/-- The outcomes of the calls that `pre_init` makes. -/
structure PreInitCalls where
  /-- The output file could be opened. -/
  outputOpened : Bool
  /-- The configuration of the output could be opened. -/
  configOpened : Bool
  /-- The socket could be set up. -/
  socketReady : Bool
  deriving DecidableEq, Repr

/-- `pre_init` of a module with an output file: its outcome, and the strings it writes itself. -/
def outputPreInit {α : Type} (settings : Cfg → Option α) (outputFile : α → String)
    (eventId configId : String) (config : Option String) (calls : PreInitCalls) :
    PreInit × List StringCopy :=
  match loadSettings settings config with
  | none => (⟨[], -1, -1⟩, [])
  | some (cfg, s) =>
    let deadline := (cfgGetIntInto cfg "deadline" 100).2
    if calls.outputOpened then
      if calls.configOpened then
        (⟨[(eventString configId eventId).text], deadline, 0⟩,
          [fileNameBuf (outputFile s), eventString configId eventId])
      else (⟨[], deadline, -11⟩, [fileNameBuf (outputFile s)])
    else (⟨[], deadline, -10⟩, [])

/-- `pre_init` of a module without an output file. -/
def plainPreInit {α : Type} (settings : Cfg → Option α) (deadline : ℤ) (eventId configId : String)
    (config : Option String) : PreInit × List StringCopy :=
  match loadSettings settings config with
  | none => (⟨[], -1, -1⟩, [])
  | some (cfg, _) =>
    (⟨[(eventString configId eventId).text], (cfgGetIntInto cfg "deadline" deadline).2, 0⟩,
      [eventString configId eventId])

/-- The modules that register an event of their own. -/
inductive StringModule
  | si | gooseSubscriber | smvSubscriber | mmsServer | ipcSignals | moduleTemplate
  deriving DecidableEq, Repr

/-- `event_id`. -/
def StringModule.eventId : StringModule → String
  | .si => "TRIP_VALUE_CHANGE"
  | .gooseSubscriber => "GOOSE_RECEIVED"
  | .smvSubscriber => "SAMPLE_RECEIVED"
  | .mmsServer => "MMS_EVENT"
  | .ipcSignals => "IPC_EVENT"
  | .moduleTemplate => "EXAMPLE_EVENT"

/-- `pre_init`. -/
def StringModule.preInit (module : StringModule) (configId : String) (config : Option String)
    (calls : PreInitCalls) : PreInit × List StringCopy :=
  match module with
  | .si => outputPreInit siSettings (·.outputFile) module.eventId configId config calls
  | .gooseSubscriber =>
    outputPreInit gooseSubscriberSettings (·.shmName) module.eventId configId config calls
  | .smvSubscriber =>
    outputPreInit smvSubscriberSettings (·.shmName) module.eventId configId config calls
  | .mmsServer => plainPreInit mmsServerSettings 2000 module.eventId configId config
  | .ipcSignals =>
    plainPreInit (fun cfg => if calls.socketReady then ipcSettings cfg else none) 1000
      module.eventId configId config
  | .moduleTemplate => plainPreInit templateSettings 100 module.eventId configId config

/-- The settings that a subscriber got from its configuration. -/
def StringModule.subscriberSettings (module : StringModule) (config : Option String) :
    Option SubscriberSettings :=
  match module with
  | .gooseSubscriber =>
    (loadSettings gooseSubscriberSettings config).map fun r => r.2.toSubscriberSettings
  | .smvSubscriber => (loadSettings smvSubscriberSettings config).map Prod.snd
  | _ => none

/-- The strings of `init`: a subscriber prints them once its output file has its size. -/
def StringModule.initCopies (module : StringModule) (config : Option String) (truncated : Bool) :
    List StringCopy :=
  if truncated then (module.subscriberSettings config).elim [] bbCopies else []

/-! ## A start-up -/

/-- A step of a start-up. -/
inductive StartUpStep
  /-- `pre_init` of a module, with the content of its configuration file. -/
  | preInit (module : StringModule) (configId : String) (config : Option String)
      (calls : PreInitCalls)
  /-- `register_event_id` for an event trigger, or for an event that arrives later. -/
  | register (eventName : String)
  /-- `init` of a module. -/
  | init (module : StringModule) (config : Option String) (truncated : Bool)
  deriving DecidableEq, Repr

namespace StartUpStep

/-- The names that a step registers. -/
def registered : StartUpStep → List String
  | .preInit module configId config calls => (module.preInit configId config calls).1.registered
  | .register eventName => [eventName]
  | .init _ _ _ => []

/-- The strings that a step writes itself. -/
def ownCopies : StartUpStep → List StringCopy
  | .preInit module configId config calls => (module.preInit configId config calls).2
  | .register _ => []
  | .init module config truncated => module.initCopies config truncated

/-- All strings of a step. -/
def copies (e : Engine) (step : StartUpStep) : List StringCopy :=
  step.ownCopies ++ registrations e step.registered

end StartUpStep

/-- The strings of a start-up from a state of the event table. -/
def startUpCopies : Engine → List StartUpStep → List StringCopy
  | _, [] => []
  | e, step :: steps => step.copies e ++ startUpCopies (registerAll e step.registered) steps

/-! ## When strings fit -/

/-- Registering the name allocates nothing: it is in the table, or the table is full. -/
def Known (e : Engine) (eventName : String) : Prop :=
  (∃ entry ∈ e.eventIds, entry.name = eventName) ∨ maxEventIds ≤ e.eventIds.length

/-- The output file of a module that has one. -/
def StringModule.outputFile (module : StringModule) (config : Option String) : Option String :=
  match module with
  | .si => (loadSettings siSettings config).map fun r => r.2.outputFile
  | .gooseSubscriber => (loadSettings gooseSubscriberSettings config).map fun r => r.2.shmName
  | .smvSubscriber => (loadSettings smvSubscriberSettings config).map fun r => r.2.shmName
  | _ => none

/-- **When the strings of a step fit**: the name of an output file that could be opened has at most
248 characters, the interface and the output file of a subscriber whose output got its size have at
most 1008 together, and no event name is new to the table. -/
def StartUpStep.Safe (e : Engine) (step : StartUpStep) : Prop :=
  (∀ name ∈ step.registered, Known e name) ∧
    match step with
    | .preInit module _ config calls =>
      calls.outputOpened → ∀ name ∈ module.outputFile config, name.length ≤ 248
    | .register _ => True
    | .init module config truncated => truncated → ∀ s ∈ module.subscriberSettings config,
        s.interface.length + s.shmName.length ≤ 1008

lemma fits_fileNameBuf_iff {outputFile : String} :
    (fileNameBuf outputFile).Fits ↔ outputFile.length ≤ 248 := by
  rw [StringCopy.Fits, fileNameBuf, String.length_append]
  change outputFile.length + 7 + 1 ≤ 256 ↔ _
  omega

/-- The string of an event always fits. -/
lemma fits_eventString (configId eventId : String) : (eventString configId eventId).Fits := by
  rw [StringCopy.Fits, eventString, String.length_append, String.length_append]
  change configId.length + 1 + eventId.length + 1 ≤ configId.length + eventId.length + 10
  omega

lemma length_hexText {precision n : ℕ} (hprecision : 0 < precision) (h : n < 16 ^ precision) :
    (hexText precision n).length = precision := by
  have hle := (Nat.length_toDigits_le_iff (by decide) hprecision).mpr h
  rw [hexText, String.length_ofList, List.length_leftpad]
  omega

/-- The address that `cfg_get_mac` stores has six bytes. -/
lemma length_of_scanMac {value : String} {mac : List UInt8} (h : scanMac value = some mac) :
    mac.length = 6 := by
  rw [scanMac] at h
  split at h
  · obtain ⟨ns, hns, rfl⟩ := Option.map_eq_some_iff.mp h
    rw [List.length_map, (Scan.hexGroups_eq_some_iff.mp hns).length]
  · cases h

/-- The address of a line has 17 characters. -/
lemma length_macText {mac : List UInt8} (h : mac.length = 6) :
    (":".intercalate (mac.map fun b => hexText 2 b.toNat)).length = 17 := by
  have hbyte (b : UInt8) : (hexText 2 b.toNat).length = 2 :=
    length_hexText (by decide) b.toNat_lt
  match mac, h with
  | [a, b, c, d, e, f], _ =>
    simp [String.intercalate_cons_cons, hbyte, show ":".length = 1 from rfl]

/-- What the loaded settings of a subscriber bound. -/
structure SubscriberSettings.Bounded (s : SubscriberSettings) : Prop where
  appid_lt : s.appid < 16 ^ 4
  dstMac_length : ∀ mac ∈ s.dstMac, mac.length = 6

lemma appid_lt_of_cfgGetHex {cfg : Cfg} {key : String} {old appid : ℕ}
    (h : value? (cfgGetHex cfg key old) = some appid) : appid < 16 ^ 4 := by
  rw [cfgGetHex, value?_stored, Option.bind_eq_some_iff] at h
  obtain ⟨value, -, hscan⟩ := h
  rw [scanHex] at hscan
  split at hscan
  · obtain ⟨r, -, rfl⟩ := Option.map_eq_some_iff.mp hscan
    exact Nat.mod_lt _ (by decide)
  · cases hscan

lemma length_of_cfgGetMac {cfg : Cfg} {key : String} {old mac : List UInt8}
    (h : value? (cfgGetMac cfg key old) = some mac) : mac.length = 6 := by
  rw [cfgGetMac, value?_stored, Option.bind_eq_some_iff] at h
  obtain ⟨value, -, hscan⟩ := h
  exact length_of_scanMac hscan

lemma bounded_of_subscriberSettings {module : StringModule} {config : Option String}
    {s : SubscriberSettings} (h : module.subscriberSettings config = some s) : s.Bounded := by
  cases module with
  | gooseSubscriber =>
    obtain ⟨r, hload, rfl⟩ := Option.map_eq_some_iff.mp h
    obtain ⟨cfg, hsettings⟩ := settings_of_loadSettings hload
    simp only [gooseSubscriberSettings, bind, Option.bind_eq_some_iff] at hsettings
    obtain ⟨maxItems, -, interface, -, goCbRef, -, appid, happid, shmName, -, hs⟩ := hsettings
    rw [← Option.some.inj hs]
    exact ⟨appid_lt_of_cfgGetHex happid, fun mac hmac => length_of_cfgGetMac hmac⟩
  | smvSubscriber =>
    obtain ⟨r, hload, rfl⟩ := Option.map_eq_some_iff.mp h
    obtain ⟨cfg, hsettings⟩ := settings_of_loadSettings hload
    simp only [smvSubscriberSettings, bind, Option.bind_eq_some_iff] at hsettings
    obtain ⟨maxItems, -, interface, -, appid, happid, shmName, -, hs⟩ := hsettings
    rw [← Option.some.inj hs]
    exact ⟨appid_lt_of_cfgGetHex happid, fun mac hmac => length_of_cfgGetMac hmac⟩
  | _ => cases h

/-- **The lines of a subscriber** fit if the interface and the output file are not too long. -/
lemma bbCopies_fit_iff {s : SubscriberSettings} (h : s.Bounded) :
    (∀ copy ∈ bbCopies s, copy.Fits) ↔ s.interface.length + s.shmName.length ≤ 1008 := by
  have hnames : (StringCopy.mk 1024
      ("eth=" ++ s.interface ++ "\nshm name=" ++ s.shmName ++ "\n")).Fits ↔
        s.interface.length + s.shmName.length ≤ 1008 := by
    simp only [StringCopy.Fits, String.length_append]
    change 4 + s.interface.length + 10 + s.shmName.length + 1 + 1 ≤ 1024 ↔ _
    omega
  have hmac : ∀ copy ∈ s.dstMac.toList.map fun mac => StringCopy.mk 1024
      ("mac=" ++ ":".intercalate (mac.map fun b => hexText 2 b.toNat) ++ "\n"), copy.Fits := by
    intro copy hcopy
    obtain ⟨mac, hmac, rfl⟩ := List.mem_map.mp hcopy
    have hlen := length_macText (h.dstMac_length mac (by simpa using hmac))
    simp only [StringCopy.Fits, String.length_append, hlen]
    decide
  have happid : (StringCopy.mk 1024 ("appid=" ++ hexText 4 s.appid ++ "\n")).Fits := by
    simp only [StringCopy.Fits, String.length_append, length_hexText (by decide) h.appid_lt]
    decide
  rw [bbCopies, List.forall_mem_append, List.forall_mem_append]
  simp only [List.forall_mem_singleton, hnames, happid, and_true]
  exact and_iff_left hmac

/-! ## Registrations -/

/-- A known name leaves the table as it is. -/
lemma assignEventId_of_known {e : Engine} {name : String} (h : Known e name) :
    (assignEventId e name).2 = e := by
  rw [assignEventId]
  cases hfind : e.eventIds.find? (fun entry => entry.name = name) with
  | some entry => rfl
  | none =>
    rcases h with ⟨entry, hentry, hname⟩ | hfull
    · have hnot := List.find?_eq_none.mp hfind entry hentry
      simp [hname] at hnot
    · exact congrArg Prod.snd (if_pos hfull)

/-- **The block of a name fits only if none is allocated.** -/
lemma registerCopies_fit_iff {e : Engine} {name : String} :
    (∀ copy ∈ registerCopies e name, copy.Fits) ↔ Known e name := by
  rw [registerCopies]
  cases hfind : e.eventIds.find? (fun entry => entry.name = name) with
  | some entry =>
    have hname : entry.name = name := by simpa using List.find?_some hfind
    have hknown : Known e name := .inl ⟨entry, List.mem_of_find?_eq_some hfind, hname⟩
    simp [hknown]
  | none =>
    have hnew : ¬ ∃ entry ∈ e.eventIds, entry.name = name := by
      simpa using List.find?_eq_none.mp hfind
    rw [Known, or_iff_right hnew]
    by_cases hfull : e.eventIds.length ≥ maxEventIds
    · simp [hfull]
    · simp only [if_neg hfull, List.forall_mem_singleton, StringCopy.Fits]
      omega

lemma registrations_fit_iff {e : Engine} {names : List String} :
    (∀ copy ∈ registrations e names, copy.Fits) ↔ ∀ name ∈ names, Known e name := by
  induction names with
  | nil => simp [registrations]
  | cons name names ih =>
    rw [registrations, List.forall_mem_append, List.forall_mem_cons, registerCopies_fit_iff]
    refine and_congr_right fun hknown => ?_
    rw [assignEventId_of_known hknown, ih]

lemma registerAll_of_known {e : Engine} {names : List String} (h : ∀ name ∈ names, Known e name) :
    registerAll e names = e := by
  induction names with
  | nil => rfl
  | cons name names ih =>
    rw [List.forall_mem_cons] at h
    rw [registerAll, assignEventId_of_known h.1, ih h.2]

/-! ## The strings of a start-up -/

lemma outputPreInit_fit_iff {α : Type} {settings : Cfg → Option α} {outputFile : α → String}
    {eventId configId : String} {config : Option String} {calls : PreInitCalls} :
    (∀ copy ∈ (outputPreInit settings outputFile eventId configId config calls).2, copy.Fits) ↔
      (calls.outputOpened → ∀ name ∈ (loadSettings settings config).map fun r => outputFile r.2,
        name.length ≤ 248) := by
  rw [outputPreInit]
  cases loadSettings settings config with
  | none => simp
  | some r =>
    obtain ⟨cfg, s⟩ := r
    cases calls.outputOpened with
    | false => simp
    | true => cases calls.configOpened <;> simp [fits_fileNameBuf_iff, fits_eventString]

lemma plainPreInit_fit {α : Type} {settings : Cfg → Option α} {deadline : ℤ}
    {eventId configId : String} {config : Option String} :
    ∀ copy ∈ (plainPreInit settings deadline eventId configId config).2, copy.Fits := by
  rw [plainPreInit]
  cases loadSettings settings config with
  | none => simp
  | some r => simp [fits_eventString]

lemma preInit_fit_iff {module : StringModule} {configId : String} {config : Option String}
    {calls : PreInitCalls} :
    (∀ copy ∈ (module.preInit configId config calls).2, copy.Fits) ↔
      (calls.outputOpened → ∀ name ∈ module.outputFile config, name.length ≤ 248) := by
  cases module with
  | si => exact outputPreInit_fit_iff
  | gooseSubscriber => exact outputPreInit_fit_iff
  | smvSubscriber => exact outputPreInit_fit_iff
  | mmsServer => exact iff_of_true plainPreInit_fit (by simp [StringModule.outputFile])
  | ipcSignals => exact iff_of_true plainPreInit_fit (by simp [StringModule.outputFile])
  | moduleTemplate => exact iff_of_true plainPreInit_fit (by simp [StringModule.outputFile])

/-- **When the strings of a step fit.** -/
lemma StartUpStep.copies_fit_iff {e : Engine} {step : StartUpStep} :
    (∀ copy ∈ step.copies e, copy.Fits) ↔ step.Safe e := by
  rw [copies, List.forall_mem_append, registrations_fit_iff, Safe.eq_def, and_comm]
  refine and_congr_right fun _ => ?_
  cases step with
  | preInit module configId config calls => exact preInit_fit_iff
  | register eventName => simp [ownCopies]
  | init module config truncated =>
    rw [ownCopies, StringModule.initCopies]
    cases truncated with
    | false => simp
    | true =>
      cases hs : module.subscriberSettings config with
      | none => simp [hs]
      | some s => simpa [hs] using bbCopies_fit_iff (bounded_of_subscriberSettings hs)

/-- **When all strings of a start-up fit**: every step is safe in the state of the event table at
the beginning.

*Proof sketch.* By induction on the steps. A step whose strings fit registers no new name, so the
next step finds the table as it was. -/
theorem startUpCopies_fit_iff (e : Engine) (steps : List StartUpStep) :
    (∀ copy ∈ startUpCopies e steps, copy.Fits) ↔ ∀ step ∈ steps, step.Safe e := by
  induction steps with
  | nil => simp [startUpCopies]
  | cons step steps ih =>
    rw [startUpCopies, List.forall_mem_append, List.forall_mem_cons, StartUpStep.copies_fit_iff]
    refine and_congr_right fun hsafe => ?_
    rw [registerAll_of_known hsafe.1, ih]

/-- An event trigger named `A` is registered, and a line of a configuration holds the name of an
output file that the buffer has no room for. -/
theorem not_startUpCopies_fit :
    (¬ ∀ copy ∈ startUpCopies Engine.initial [.register "A"], copy.Fits) ∧
      ∃ line : CfgLine, line.Fits ∧ ¬ (fileNameBuf line.text).Fits := by
  refine ⟨by decide, ?_⟩
  have hletters : ∀ c ∈ (String.ofList (List.replicate 249 'a')).toList, c = 'a' := by
    intro c hc
    rw [String.toList_ofList] at hc
    exact List.eq_of_mem_replicate hc
  refine ⟨⟨"output_file", String.ofList (List.replicate 249 'a'), by decide, by decide, by simp,
    fun c hc => by simp [hletters c hc]⟩, ⟨fun hmem => ?_, .inl ?_⟩, ?_⟩
  · exact absurd (hletters '#' hmem) (by decide)
  · have hkey : "output_file".toList.length = 11 := rfl
    simp only [CfgLine.length_opened, String.toList_ofList, List.length_replicate, hkey]
    decide
  · rw [fits_fileNameBuf_iff, String.length_ofList, List.length_replicate]
    decide

end Tmee
