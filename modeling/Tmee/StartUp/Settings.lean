import Tmee.CfgGetters
import Tmee.CfgLoad

set_option relaxedAutoImplicit false
set_option autoImplicit false

/-!
# The settings of the modules

What the functions `pre_init` read from the configuration of their module. A setting that has to be
there and is missing, or cannot be converted, makes `pre_init` return `-1`.

## Main definitions

* `Tmee.SiSettings`, `Tmee.GoosePublisherSettings`, `Tmee.GooseSubscriberSettings`,
  `Tmee.SubscriberSettings`, `Tmee.MmsServerSettings` — the settings of a module.
* `Tmee.siSettings`, `Tmee.goosePublisherSettings`, .. — reading them.
* `Tmee.loadSettings` — loading the configuration and reading settings from it.
-/

namespace Tmee

/-- What a getter that returned `0` left in its destination. -/
def value? {α : Type*} (r : ℤ × α) : Option α := if r.1 = 0 then some r.2 else none

/-- Strings under numbered keys, `n` of them; a negative number means none. -/
def readNumbered {α : Type*} (get : ℕ → Option α) (n : ℤ) : Option (List α) :=
  (List.range n.toNat).mapM get

structure SiSettings where
  paramA : ℤ
  paramB : ℤ
  maxItems : ℤ
  inputFile : String
  outputFile : String
  deriving DecidableEq, Repr

def siSettings (cfg : Cfg) : Option SiSettings := do
  let paramA ← cfgGetInt cfg "param_a"
  let paramB ← cfgGetInt cfg "param_b"
  let maxItems ← cfgGetInt cfg "buffer_entries"
  let inputFile ← cfgGetString cfg "input_file"
  let outputFile ← cfgGetString cfg "output_file"
  some ⟨paramA, paramB, maxItems, inputFile, outputFile⟩

/-- The settings that both subscribers have. Without a destination address none is set. -/
structure SubscriberSettings where
  maxItems : ℤ
  interface : String
  appid : ℕ
  dstMac : Option (List UInt8)
  shmName : String
  deriving DecidableEq, Repr

/-- `smv_subscriber`. -/
def smvSubscriberSettings (cfg : Cfg) : Option SubscriberSettings := do
  let maxItems ← cfgGetInt cfg "buffer_entries"
  let interface ← cfgGetString cfg "interface"
  let appid ← value? (cfgGetHex cfg "appid" 0x4000)
  let dstMac := value? (cfgGetMac cfg "dstmac" [])
  let shmName ← cfgGetString cfg "output_file"
  some ⟨maxItems, interface, appid, dstMac, shmName⟩

structure GooseSubscriberSettings extends SubscriberSettings where
  goCbRef : String
  deriving DecidableEq, Repr

def gooseSubscriberSettings (cfg : Cfg) : Option GooseSubscriberSettings := do
  let maxItems ← cfgGetInt cfg "buffer_entries"
  let interface ← cfgGetString cfg "interface"
  let goCbRef ← cfgGetString cfg "gocbref"
  let appid ← value? (cfgGetHex cfg "appid" 0x4000)
  let dstMac := value? (cfgGetMac cfg "dstmac" [])
  let shmName ← cfgGetString cfg "output_file"
  some ⟨⟨maxItems, interface, appid, dstMac, shmName⟩, goCbRef⟩

structure GoosePublisherSettings where
  interface : String
  srcMac : Option (List UInt8)
  dstMac : Option (List UInt8)
  usevlantag : ℤ
  vlanprio : ℤ
  vlanid : ℕ
  appid : ℕ
  gocbref : String
  datasetref : String
  confrev : ℤ
  simulation : ℤ
  ndscomm : ℤ
  ttl : ℤ
  gooseFastRetransmitTtl : ℤ
  maxLag : ℤ
  /-- The names of the input files. -/
  inputs : List String
  deriving DecidableEq, Repr

/-- The settings of the tag, which are only read if it is used. -/
def vlanSettings (cfg : Cfg) (usevlantag : ℤ) : Option (ℤ × ℕ) :=
  if usevlantag ≠ 0 then do
    let vlanprio ← cfgGetInt cfg "vlanprio"
    let vlanid ← value? (cfgGetHex cfg "vlanid" 0)
    some (vlanprio, vlanid)
  else some (0, 0)

def goosePublisherSettings (cfg : Cfg) : Option GoosePublisherSettings := do
  let interface ← cfgGetString cfg "interface"
  let srcMac := value? (cfgGetMac cfg "srcmac" [])
  let dstMac := value? (cfgGetMac cfg "dstmac" [])
  let usevlantag ← cfgGetInt cfg "usevlantag"
  let (vlanprio, vlanid) ← vlanSettings cfg usevlantag
  let appid ← value? (cfgGetHex cfg "appid" 0x4000)
  let gocbref ← cfgGetString cfg "gocbref"
  let datasetref ← cfgGetString cfg "datasetref"
  let confrev ← cfgGetInt cfg "confrev"
  let simulation ← cfgGetInt cfg "simulation"
  let ndscomm ← cfgGetInt cfg "ndscomm"
  let ttl ← cfgGetInt cfg "ttl"
  let gooseFastRetransmitTtl ← cfgGetInt cfg "GOOSE_FAST_RETRANSMIT_TTL"
  let maxLag ← cfgGetInt cfg "MAX_LAG"
  let inputCount ← cfgGetInt cfg "input_count"
  let inputs ← readNumbered (fun i => cfgGetString cfg s!"input_file{i}") inputCount
  some ⟨interface, srcMac, dstMac, usevlantag, vlanprio, vlanid, appid, gocbref, datasetref,
    confrev, simulation, ndscomm, ttl, gooseFastRetransmitTtl, maxLag, inputs⟩

/-- `mms_server`: an element of the configuration. -/
structure MmsElement where
  objectRef : String
  filename : String
  deriving DecidableEq, Repr

structure MmsServerSettings where
  configFile : String
  serverPort : ℤ
  elements : List MmsElement
  deriving DecidableEq, Repr

def mmsServerSettings (cfg : Cfg) : Option MmsServerSettings := do
  let configFile ← cfgGetString cfg "config_file"
  let serverPort ← cfgGetInt cfg "server_port"
  let elementCount ← cfgGetInt cfg "element_count"
  let elements ← readNumbered (fun i => do
    let objectRef ← cfgGetString cfg s!"element{i}"
    let filename ← cfgGetString cfg s!"element{i}_file"
    some (MmsElement.mk objectRef filename)) elementCount
  some ⟨configFile, serverPort, elements⟩

/-- `ipc_signals`: the address of the server and those of the clients. -/
def ipcSettings (cfg : Cfg) : Option (String × List String) := do
  let serverAddress ← cfgGetString cfg "server_address"
  let clientCount ← cfgGetInt cfg "client_count"
  let clients ← readNumbered (fun i => cfgGetString cfg s!"client{i}") clientCount
  some (serverAddress, clients)

/-- `module_template`. -/
def templateSettings (cfg : Cfg) : Option ℤ := cfgGetInt cfg "param_a"

/-- The configuration of a module is loaded and its settings are read: nothing if `pre_init` returns
`-1` on the way. -/
def loadSettings {α : Type*} (settings : Cfg → Option α) (config : Option String) :
    Option (Cfg × α) :=
  if (cfgLoad [] config).1 ≠ 0 then none
  else (settings (cfgLoad [] config).2).map fun s => ((cfgLoad [] config).2, s)

@[simp] lemma value?_stored {α : Type*} (r : Option α) (old : α) : value? (stored r old) = r := by
  cases r <;> simp [value?, stored]

/-- Settings that have been loaded were read from the configuration. -/
lemma settings_of_loadSettings {α : Type*} {settings : Cfg → Option α} {config : Option String}
    {r : Cfg × α} (h : loadSettings settings config = some r) : ∃ cfg, settings cfg = some r.2 := by
  rw [loadSettings] at h
  split_ifs at h
  obtain ⟨s, hs, rfl⟩ := Option.map_eq_some_iff.mp h
  exact ⟨_, hs⟩

end Tmee
