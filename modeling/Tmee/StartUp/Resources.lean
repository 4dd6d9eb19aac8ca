import Tmee.InputFile
import Tmee.Lib.Ledger
import Tmee.MmsServer
import Tmee.StartUp.Settings

set_option relaxedAutoImplicit false
set_option autoImplicit false

/-!
# What the modules obtain and release

`pre_init`, `init` and `deinit` of four modules, as far as they obtain and release resources:
memory, files, mappings and the objects of the library. The private data comes from `malloc` and is
not cleared, so a field holds nothing before it is assigned. `init` returns at the first thing that
fails, and `deinit` releases everything.

A resource is named by the field, and the element of a list, that it is obtained for. What the
system answers is given: whether a file can be opened, and so on.

## Main definitions

* `Tmee.ModuleCode` — the three functions of a module.
* `Tmee.siCode`, `Tmee.goosePublisherCode`, `Tmee.gooseSubscriberCode`, `Tmee.mmsServerCode` — the
  modules.
* `Tmee.ModuleCode.FailsWith`, `Tmee.ModuleCode.DeinitSafe` — what `init_modules` finds when `init`
  fails, and what it does then.
-/

namespace Tmee

open Ledger

/-- The functions of a module that `init_modules` and the loading loop call. -/
structure ModuleCode (ρ Data : Type) where
  preInit : Code ρ (InitResult Data)
  init : Data → Code ρ (ℤ × Data)
  deinit : Data → Code ρ Unit

/-- `pre_init` has accepted the configuration, `init` returns an error code, and leaves the private
data `data` and the resources `held`. -/
def ModuleCode.FailsWith {ρ Data : Type} (m : ModuleCode ρ Data) (data : Data) (held : Finset ρ) :
    Prop :=
  ∃ data₀ held₀ code, m.preInit ∅ = .ok (.ready data₀, held₀) ∧
    m.init data₀ held₀ = .ok ((code, data), held) ∧ code ≠ 0

/-- **The call of `deinit` is safe**: it reads assigned fields only, and what it uses and releases
is held. -/
def ModuleCode.DeinitSafe {ρ Data : Type} (m : ModuleCode ρ Data) (data : Data) (held : Finset ρ) :
    Prop :=
  ∃ x, m.deinit data held = .ok x

/-! ## `si` -/

inductive SiResource
  | data | inputFile | outputFile | fd | fdConfig | input | inputMapping | outputMapping
  deriving DecidableEq, Repr

structure SiData where
  data : Pointer SiResource
  itemSize : Member ℤ
  maxItems : Member ℤ
  inputFile : Member (Pointer SiResource)
  outputFile : Member (Pointer SiResource)
  inputBuffer : Member (Pointer SiResource)
  inputBufferSize : Member ℤ
  outputBuffer : Member (Pointer SiResource)
  outputBufferSize : Member ℤ
  input : Member (Pointer SiResource)
  fd : Member (Pointer SiResource)
  fdConfig : Member (Pointer SiResource)

structure SiAnswers where
  outputOpened : Bool
  configOpened : Bool
  inputOpened : Bool
  inputSize : ℤ
  inputMapped : Bool
  outputTruncated : Bool
  outputMapped : Bool

/-- `open` is answered by a descriptor or `-1`, which is a null pointer here. -/
def siPreInit (config : Option String) (answers : SiAnswers) :
    Code SiResource (InitResult SiData) := do
  let data ← acquire true .data
  match loadSettings siSettings config with
  | none => return .failed (-1)
  | some (_, settings) =>
    let inputFile ← acquire true .inputFile
    let outputFile ← acquire true .outputFile
    let fd ← acquire answers.outputOpened .fd
    if fd = none then
      return .failed (-10)
    else
      let fdConfig ← acquire answers.configOpened .fdConfig
      if fdConfig = none then
        return .failed (-11)
      else
        return .ready {
          data := data
          itemSize := some 0
          maxItems := some settings.maxItems
          inputFile := some inputFile
          outputFile := some outputFile
          inputBuffer := none
          inputBufferSize := none
          outputBuffer := none
          outputBufferSize := none
          input := some none
          fd := some fd
          fdConfig := some fdConfig }

def siInit (answers : SiAnswers) (data : SiData) : Code SiResource (ℤ × SiData) := do
  let _ ← read data.inputFile
  let input ← acquire answers.inputOpened .input
  let data := { data with input := some input }
  if input = none then
    return (-10, data)
  else
    let inputBuffer ← acquire answers.inputMapped .inputMapping
    let data :=
      { data with inputBufferSize := some answers.inputSize, inputBuffer := some inputBuffer }
    -- `read_index` of the input
    access inputBuffer
    let itemSize := typeToItemSize TypeCode.bool
    let maxItems ← read data.maxItems
    let data :=
      { data with
        itemSize := some itemSize
        outputBufferSize := some (calculateBufferSize itemSize maxItems) }
    let _ ← read data.fd
    if answers.outputTruncated = false then
      return (-20, data)
    else
      let outputBuffer ← acquire answers.outputMapped .outputMapping
      -- the header of the output
      access outputBuffer
      return (0, { data with outputBuffer := some outputBuffer })

def siDeinit (data : SiData) : Code SiResource Unit := do
  release (← read data.fd)
  release (← read data.fdConfig)
  let outputBuffer ← read data.outputBuffer
  let _ ← read data.outputBufferSize
  release outputBuffer
  free (← read data.inputFile)
  free (← read data.outputFile)
  free data.data

def siCode (config : Option String) (answers : SiAnswers) : ModuleCode SiResource SiData where
  preInit := siPreInit config answers
  init := siInit answers
  deinit := siDeinit

/-! ## `goose_publisher` -/

inductive GoosePublisherResource
  | data | interface | gocbref | datasetref | inputs | publisher | dataSetValues
  | input (i : ℕ) | filename (i : ℕ) | file (i : ℕ) | mapping (i : ℕ)
  deriving DecidableEq, Repr

/-- An input; its address is in the array of inputs. -/
structure GoosePublisherInput where
  address : Pointer GoosePublisherResource
  filename : Member (Pointer GoosePublisherResource)
  fd : Member (Pointer GoosePublisherResource)
  bufferSize : Member ℤ
  buffer : Member (Pointer GoosePublisherResource)
  oldIndex : Member ℤ

structure GoosePublisherData where
  data : Pointer GoosePublisherResource
  publisher : Member (Pointer GoosePublisherResource)
  dataSetValues : Member (Pointer GoosePublisherResource)
  inputs : Member (Pointer GoosePublisherResource)
  /-- The array behind `inputs`. -/
  elements : List GoosePublisherInput
  interface : Member (Pointer GoosePublisherResource)
  gocbref : Member (Pointer GoosePublisherResource)
  datasetref : Member (Pointer GoosePublisherResource)

structure GoosePublisherAnswers where
  opened : ℕ → Bool
  size : ℕ → ℤ
  mapped : ℕ → Bool
  created : Bool

/-- The inputs from number `i` on. -/
def goosePreInitInputs (i : ℕ) :
    List String → Code GoosePublisherResource (List GoosePublisherInput)
  | [] => return []
  | _ :: names => do
    let address ← acquire true (.input i)
    let filename ← acquire true (.filename i)
    let rest ← goosePreInitInputs (i + 1) names
    return ⟨address, some filename, none, none, none, none⟩ :: rest

def goosePublisherPreInit (config : Option String) :
    Code GoosePublisherResource (InitResult GoosePublisherData) := do
  let data ← acquire true .data
  match loadSettings goosePublisherSettings config with
  | none => return .failed (-1)
  | some (_, settings) =>
    let interface ← acquire true .interface
    let gocbref ← acquire true .gocbref
    let datasetref ← acquire true .datasetref
    let inputs ← acquire true .inputs
    let elements ← goosePreInitInputs 0 settings.inputs
    return .ready {
      data := data
      publisher := some none
      dataSetValues := some none
      inputs := some inputs
      elements := elements
      interface := some interface
      gocbref := some gocbref
      datasetref := some datasetref }

/-- The loop that opens and maps the inputs, from number `i` on: whether it has come to its end, and
the inputs. -/
def gooseInitInputs (answers : GoosePublisherAnswers) (i : ℕ) :
    List GoosePublisherInput → Code GoosePublisherResource (Bool × List GoosePublisherInput)
  | [] => return (true, [])
  | d :: ds => do
    let _ ← read d.filename
    let fd ← acquire (answers.opened i) (.file i)
    if fd = none then
      return (false, { d with fd := some fd } :: ds)
    else
      let buffer ← acquire (answers.mapped i) (.mapping i)
      let d :=
        { d with
          fd := some fd, bufferSize := some (answers.size i), buffer := some buffer,
          oldIndex := some 0 }
      let rest ← gooseInitInputs answers (i + 1) ds
      return (rest.1, d :: rest.2)

def goosePublisherInit (answers : GoosePublisherAnswers) (data : GoosePublisherData) :
    Code GoosePublisherResource (ℤ × GoosePublisherData) := do
  let inputs ← gooseInitInputs answers 0 data.elements
  let data := { data with elements := inputs.2 }
  if inputs.1 = false then
    return (-10, data)
  else
    let publisher ← acquire answers.created .publisher
    let data := { data with publisher := some publisher }
    if publisher = none then
      return (-1, data)
    else
      let dataSetValues ← acquire true .dataSetValues
      -- the types of the inputs
      forM data.elements fun d => do access (← read d.buffer)
      return (0, { data with dataSetValues := some dataSetValues })

def gooseDeinitInput (d : GoosePublisherInput) : Code GoosePublisherResource Unit := do
  free (← read d.filename)
  let buffer ← read d.buffer
  let _ ← read d.bufferSize
  release buffer
  free d.address

def goosePublisherDeinit (data : GoosePublisherData) : Code GoosePublisherResource Unit := do
  free (← read data.publisher)
  free (← read data.dataSetValues)
  forM data.elements gooseDeinitInput
  free (← read data.inputs)
  free (← read data.interface)
  free (← read data.gocbref)
  free (← read data.datasetref)
  free data.data

def goosePublisherCode (config : Option String) (answers : GoosePublisherAnswers) :
    ModuleCode GoosePublisherResource GoosePublisherData where
  preInit := goosePublisherPreInit config
  init := goosePublisherInit answers
  deinit := goosePublisherDeinit

/-! ## `goose_subscriber` -/

inductive GooseSubscriberResource
  | data | interface | goCbRef | shmName | fd | fdConfig | outputMapping | receiver | subscriber
  deriving DecidableEq, Repr

structure GooseSubscriberData where
  data : Pointer GooseSubscriberResource
  receiver : Member (Pointer GooseSubscriberResource)
  subscriber : Member (Pointer GooseSubscriberResource)
  itemSize : Member ℤ
  maxItems : Member ℤ
  outputBuffer : Member (Pointer GooseSubscriberResource)
  outputBufferSize : Member ℤ
  fd : Member (Pointer GooseSubscriberResource)
  fdConfig : Member (Pointer GooseSubscriberResource)
  interface : Member (Pointer GooseSubscriberResource)
  shmName : Member (Pointer GooseSubscriberResource)
  goCbRef : Member (Pointer GooseSubscriberResource)

structure GooseSubscriberAnswers where
  outputOpened : Bool
  configOpened : Bool
  outputTruncated : Bool
  outputMapped : Bool
  started : Bool

def gooseSubscriberPreInit (config : Option String) (answers : GooseSubscriberAnswers) :
    Code GooseSubscriberResource (InitResult GooseSubscriberData) := do
  let data ← acquire true .data
  match loadSettings gooseSubscriberSettings config with
  | none => return .failed (-1)
  | some (_, settings) =>
    let interface ← acquire true .interface
    let goCbRef ← acquire true .goCbRef
    let shmName ← acquire true .shmName
    let fd ← acquire answers.outputOpened .fd
    if fd = none then
      return .failed (-10)
    else
      let fdConfig ← acquire answers.configOpened .fdConfig
      if fdConfig = none then
        return .failed (-11)
      else
        return .ready {
          data := data
          receiver := none
          subscriber := none
          itemSize := some 0
          maxItems := some settings.maxItems
          outputBuffer := none
          outputBufferSize := none
          fd := some fd
          fdConfig := some fdConfig
          interface := some interface
          shmName := some shmName
          goCbRef := some goCbRef }

/-- The texts written to the configuration file leave no trace here: a failed write is only
reported. -/
def gooseSubscriberInit (answers : GooseSubscriberAnswers) (data : GooseSubscriberData) :
    Code GooseSubscriberResource (ℤ × GooseSubscriberData) := do
  let itemSize := typeToItemSize TypeCode.goose
  let maxItems ← read data.maxItems
  let data :=
    { data with
      itemSize := some itemSize, outputBufferSize := some (calculateBufferSize itemSize maxItems) }
  let _ ← read data.fd
  if answers.outputTruncated = false then
    return (-20, data)
  else
    let outputBuffer ← acquire answers.outputMapped .outputMapping
    -- the header of the output
    access outputBuffer
    let receiver ← acquire true .receiver
    let subscriber ← acquire true .subscriber
    let data :=
      { data with
        outputBuffer := some outputBuffer, receiver := some receiver,
        subscriber := some subscriber }
    if answers.started = false then
      return (-1, data)
    else
      return (0, data)

def gooseSubscriberDeinit (data : GooseSubscriberData) : Code GooseSubscriberResource Unit := do
  let receiver ← read data.receiver
  if receiver ≠ none then
    -- `GooseReceiver_stopThreadless`
    use receiver
    release receiver
  release (← read data.fd)
  release (← read data.fdConfig)
  let outputBuffer ← read data.outputBuffer
  let _ ← read data.outputBufferSize
  release outputBuffer
  free (← read data.goCbRef)
  free (← read data.interface)
  free (← read data.shmName)
  free data.data

def gooseSubscriberCode (config : Option String) (answers : GooseSubscriberAnswers) :
    ModuleCode GooseSubscriberResource GooseSubscriberData where
  preInit := gooseSubscriberPreInit config answers
  init := gooseSubscriberInit answers
  deinit := gooseSubscriberDeinit

/-! ## `mms_server` -/

inductive MmsServerResource
  | data | configFile | elements | model | iedServer
  | element (i : ℕ) | objectRef (i : ℕ) | filename (i : ℕ) | file (i : ℕ) | mapping (i : ℕ)
  deriving DecidableEq, Repr

/-- An element; its address is in the array of elements. -/
structure MmsElementData where
  address : Pointer MmsServerResource
  objectRef : Member (Pointer MmsServerResource)
  filename : Member (Pointer MmsServerResource)
  fd : Member (Pointer MmsServerResource)
  buffer : Member (Pointer MmsServerResource)

structure MmsServerData where
  data : Pointer MmsServerResource
  configFile : Member (Pointer MmsServerResource)
  iedServer : Member (Pointer MmsServerResource)
  model : Member (Pointer MmsServerResource)
  elements : Member (Pointer MmsServerResource)
  /-- The array behind `elements`. -/
  array : List MmsElementData

/-- What the library and the system answer: whether the configuration file can be parsed, which
elements have a node, what becomes of their files, and whether the server runs after the start. -/
structure MmsServerAnswers where
  parsed : Bool
  found : ℕ → Bool
  file : ℕ → FileOutcome
  running : Bool

/-- The elements from number `i` on. -/
def mmsPreInitElements (i : ℕ) :
    List MmsElement → Code MmsServerResource (List MmsElementData)
  | [] => return []
  | _ :: configs => do
    let address ← acquire true (.element i)
    let objectRef ← acquire true (.objectRef i)
    let filename ← acquire true (.filename i)
    let rest ← mmsPreInitElements (i + 1) configs
    return ⟨address, some objectRef, some filename, none, none⟩ :: rest

def mmsServerPreInit (config : Option String) :
    Code MmsServerResource (InitResult MmsServerData) := do
  let data ← acquire true .data
  match loadSettings mmsServerSettings config with
  | none => return .failed (-1)
  | some (_, settings) =>
    let configFile ← acquire true .configFile
    let elements ← acquire true .elements
    let array ← mmsPreInitElements 0 settings.elements
    return .ready {
      data := data
      configFile := some configFile
      iedServer := none
      model := none
      elements := some elements
      array := array }

/-- The loop over the elements, from number `i` on: the error code that it returns with, or `0` at
its end, and the elements. -/
def mmsInitElements (answers : MmsServerAnswers) (i : ℕ) :
    List MmsElementData → Code MmsServerResource (ℤ × List MmsElementData)
  | [] => return (0, [])
  | e :: es => do
    let _ ← read e.objectRef
    if answers.found i = false then
      let rest ← mmsInitElements answers (i + 1) es
      return (rest.1, e :: rest.2)
    else
      let _ ← read e.filename
      let fd ← acquire (decide (answers.file i ≠ .notOpened)) (.file i)
      let e := { e with fd := some fd }
      if fd = none then
        return (-10, e :: es)
      else if answers.file i = .notTruncated then
        return (-20, e :: es)
      else
        let buffer ← acquire (decide (answers.file i = .mapped)) (.mapping i)
        -- the header of the ring
        access buffer
        let rest ← mmsInitElements answers (i + 1) es
        return (rest.1, { e with buffer := some buffer } :: rest.2)

def mmsServerInit (answers : MmsServerAnswers) (data : MmsServerData) :
    Code MmsServerResource (ℤ × MmsServerData) := do
  let _ ← read data.configFile
  let model ← acquire answers.parsed .model
  let data := { data with model := some model }
  if model = none then
    return (-1, data)
  else
    let iedServer ← acquire true .iedServer
    let loop ← mmsInitElements answers 0 data.array
    let data := { data with iedServer := some iedServer, array := loop.2 }
    if loop.1 ≠ 0 then
      return (loop.1, data)
    else if answers.running = false then
      release iedServer
      return (-1, data)
    else
      return (0, data)

def mmsDeinitElement (e : MmsElementData) : Code MmsServerResource Unit := do
  free (← read e.objectRef)
  free e.address

def mmsServerDeinit (data : MmsServerData) : Code MmsServerResource Unit := do
  let iedServer ← read data.iedServer
  if iedServer ≠ none then
    -- `IedServer_stopThreadless`
    use iedServer
    release iedServer
  free (← read data.model)
  forM data.array mmsDeinitElement
  free (← read data.elements)
  free (← read data.configFile)
  free data.data

def mmsServerCode (config : Option String) (answers : MmsServerAnswers) :
    ModuleCode MmsServerResource MmsServerData where
  preInit := mmsServerPreInit config
  init := mmsServerInit answers
  deinit := mmsServerDeinit

end Tmee
