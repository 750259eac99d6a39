import UpsdPlugin.World

/-! The functions of the plugin, as the source writes them.

A function runs on the `World` and may stop the run. Strings that come from an
answer are passed on as pointers and read where the source reads them. The
`origin` of a query or a printed line says which function it belongs to. -/
namespace UpsdPlugin

abbrev Plugin := EStateM Stop World

def perform (a : Action) : Plugin Unit := modify (·.act a)

/-- Reading a string of an answer. What is there is the connection's last answer,
whatever answer the pointer was taken from. -/
def deref (p : Ptr) : Plugin CStr := fun w =>
  .ok ((w.buf p.conn).words.getD p.word [])
    (if p.stamp = (w.buf p.conn).stamp then w else {w with stale := true})

def send (origin : Origin) (line : Line) : Plugin Unit := perform (.print origin line)

def sendSets (origin : Origin) : List (CStr × Int) → Plugin Unit
  | [] => pure ()
  | (name, value) :: rest => do
    send origin (.set name value)
    sendSets origin rest

/-- `str2ndd`, which reads its argument unconditionally. -/
def convert (env : Env) : Option Ptr → Plugin Ndd
  | none => do
    perform (.str2ndd none)
    throw .nullValue
  | some p => do
    let s ← deref p
    perform (.str2ndd (some s))
    return str2ndd env.libm s

/-- `set_seen` -/
def setSeen (upsName : CStr) (seen : Bool) : Plugin Unit := perform (.setSeen upsName seen)

/-- `was_seen` -/
def wasSeen (w : World) (upsName : CStr) : Bool := (w.ndUpsSeen.get upsName).getD false

section Query
variable (env : Env)

def nutGetVar (origin : Origin) (conn : Conn) (upsName : Ptr) (varName : CStr) :
    Plugin (Option Ptr) := do
  let name ← deref upsName
  let w ← get
  let reply := env.get w.gets name varName
  perform (.get conn origin w.gets name varName reply)
  -- The variable value is `answer[0][3]`.
  return reply.map fun _ => ⟨conn, 3, (w.buf conn).stamp + 1⟩

/-! ### Sending metrics -/

/-- The flags of an `ups.status` reply; no reply leaves them all clear. -/
def readStatus (value : Option Ptr) : Plugin UpsStatus :=
  match value with
  | none => pure {}
  | some p => do
    match scanStatus (← deref p) with
    | .ok status => pure status
    | .error fault => throw (.scan fault)

def sendMetricUpsStatus (upsName : Ptr) (cleanUpsName : CStr) (dt : Nat) : Plugin Unit := do
  let value ← nutGetVar env .upsStatus .ups2 upsName upsStatusVar
  let status ← readStatus value
  send .upsStatus (.begin cleanUpsName statusId dt)
  sendSets .upsStatus (status.flags.map fun (name, flag) => (name, (flag.toNat : Int)))
  send .upsStatus .close

/-- The frame of `load_usage`. -/
def sendRealpower (cleanUpsName : CStr) (dt : Nat) (realpower : Ndd) : Plugin Unit := do
  send .upsRealpower (.begin cleanUpsName loadUsage.chartId dt)
  send .upsRealpower (.set loadUsage.chartDimension realpower.toInt64)
  send .upsRealpower .close

def sendMetricUpsRealpower (upsName : Ptr) (cleanUpsName : CStr) (dt : Nat) : Plugin Unit := do
  match ← nutGetVar env .upsRealpower .ups2 upsName realpowerVar with
  | some value =>
    let realpower ← convert env (some value)
    sendRealpower cleanUpsName dt (realpower.times pluginPrecision)
  | none =>
    match ← nutGetVar env .upsRealpower .ups2 upsName loadVar with
    | none => return
    | some value =>
      let load ← convert env (some value)
      match ← nutGetVar env .upsRealpower .ups2 upsName realpowerNominalVar with
      | none => return
      | some value =>
        let nominal ← convert env (some value)
        sendRealpower cleanUpsName dt ((load.div 100).mul (nominal.times pluginPrecision))

/-- The loop over `ups_vars`. The value is converted whether or not there is one. -/
def sendUpsVars (upsName : Ptr) (cleanUpsName : CStr) (dt : Nat) : List NdChart → Plugin Unit
  | [] => pure ()
  | chart :: rest => do
    let value ← nutGetVar env .upsVars .ups2 upsName chart.nutVariable
    let number ← convert env value
    send .upsVars (.begin cleanUpsName chart.chartId dt)
    send .upsVars (.set chart.chartDimension (number.times pluginPrecision).toInt64)
    send .upsVars .close
    sendUpsVars upsName cleanUpsName dt rest

/-! ### Registration -/

/-- `if ((nut_value = nut_get_var(...))) printf("CLABEL ...")` -/
def sendLabel (style : LabelStyle) (upsName : Ptr) (label var : CStr) : Plugin Unit := do
  match ← nutGetVar env .registerUps .ups2 upsName var with
  | none => return
  | some value => send .registerUps (.clabel style label (← deref value))

def sendLabels (style nameStyle : LabelStyle) (upsName : Ptr) : Plugin Unit := do
  sendLabel env style upsName "battery_type".toList "battery.type".toList
  sendLabel env style upsName "device_model".toList "device.model".toList
  sendLabel env style upsName "device_serial".toList "device.serial".toList
  sendLabel env style upsName "device_manufacturer".toList "device.mfr".toList
  sendLabel env style upsName "device_type".toList "device.type".toList
  send .registerUps (.clabel nameStyle "ups_name".toList (← deref upsName))
  send .registerUps .clabelCommit

def sendDimensions (quoted : Bool) : List CStr → Plugin Unit
  | [] => pure ()
  | name :: rest => do
    send .registerUps (.dimension quoted name pluginPrecision)
    sendDimensions quoted rest

/-- Whether the chart loop of `register_ups` goes on with this chart. -/
def chartAvailable (upsName : Ptr) (chart : NdChart) : Plugin Bool := do
  match ← nutGetVar env .registerUps .ups2 upsName chart.nutVariable with
  | some _ => return true
  | none =>
    if chart.nutVariable ≠ realpowerVar then
      return false
    -- Without `ups.realpower`, the load usage can still be calculated.
    match ← nutGetVar env .registerUps .ups2 upsName loadVar with
    | none => return false
    | some _ =>
      match ← nutGetVar env .registerUps .ups2 upsName realpowerNominalVar with
      | none => return false
      | some _ => return true

/-- The chart loop, with the per-UPS dictionary so far. -/
def registerCharts (upsName : Ptr) (cleanUpsName : CStr) (upsVars : OrderedDict CStr NdChart) :
    List NdChart → Plugin (OrderedDict CStr NdChart)
  | [] => return upsVars
  | chart :: rest => do
    if ← chartAvailable env upsName chart then
      -- `netdata_log_info` reads the name.
      let _ ← deref upsName
      send .registerUps (.chart cleanUpsName chart env.updateEvery)
      sendLabels env .quoted .quotedName upsName
      sendDimensions true [chart.chartDimension]
      registerCharts upsName cleanUpsName (upsVars.set chart.nutVariable chart) rest
    else
      registerCharts upsName cleanUpsName upsVars rest

def registerUps (upsName : Ptr) : Plugin Unit := do
  let name ← deref upsName
  perform (.register name)
  if name = [] then
    throw .nullName
  -- `clean_name` rewrites the copy that `dictionary_set` has stored.
  let cleanUpsName := cleanName name
  perform (.setName name cleanUpsName)
  let _ ← deref upsName
  send .registerUps (.chartStatus cleanUpsName env.updateEvery)
  sendLabels env .bare .bare upsName
  sendDimensions false statusDimensions
  let id := (← get).dicts
  perform (.create id)
  let upsVars ← registerCharts env upsName cleanUpsName .empty ndCharts
  perform (.setVars (← deref upsName) ⟨id, upsVars⟩)

/-! ### The bodies of the loops of `main` -/

/-- `clean_ups_name`, registering the UPS when it has none. -/
def lookupCleanName (upsName : Ptr) : Plugin CStr := do
  let name ← deref upsName
  match (← get).ndUpsName.get name with
  | some cleanUpsName => return cleanUpsName
  | none =>
    registerUps env upsName
    let name ← deref upsName
    match (← get).ndUpsName.get name with
    | some cleanUpsName => return cleanUpsName
    | none => throw .nullName

/-- The part of the per-UPS body before the loop over `ups_vars`: mark the UPS and send the
charts that are special cases. -/
def sendSpecialMetrics (dt : Nat) (upsName : Ptr) (cleanUpsName : CStr) : Plugin Unit := do
  setSeen (← deref upsName) true
  sendMetricUpsStatus env upsName cleanUpsName dt
  sendMetricUpsRealpower env upsName cleanUpsName dt

/-- The rest of the per-UPS body: look up `ups_vars` and loop over it. -/
def sendTableMetrics (dt : Nat) (upsName : Ptr) (cleanUpsName : CStr) : Plugin Unit := do
  let name ← deref upsName
  match (← get).ndUpsVars.get name with
  | none => return
  | some upsVars =>
    if upsVars.id ∈ (← get).destroyed then
      throw .destroyedVars
    sendUpsVars env upsName cleanUpsName dt upsVars.charts.values

/-- The per-UPS body of the collection loop. -/
def collectUps (dt : Nat) (upsName : Ptr) : Plugin Unit := do
  let cleanUpsName ← lookupCleanName env upsName
  sendSpecialMetrics env dt upsName cleanUpsName
  sendTableMetrics env dt upsName cleanUpsName

/-- `dictionary_destroy(dictionary_get(nd_ups_vars, name))`; the null pointer is let through. -/
def destroyUpsVars (upsName : CStr) : Plugin Unit := do
  match (← get).ndUpsVars.get upsName with
  | none => return
  | some upsVars =>
    if upsVars.id ∈ (← get).destroyed then
      throw .destroyedVars
    perform (.destroy upsVars.id)

/-- Dropping a UPS, in the sweep and in the final cleanup. -/
def dropUps (upsName : CStr) : Plugin Unit := do
  destroyUpsVars upsName
  perform (.delVars upsName)
  perform (.delSeen upsName)
  perform (.delName upsName)

/-- The body of the sweep. -/
def sweepUps (upsName : CStr) : Plugin Unit := do
  if wasSeen (← get) upsName then
    setSeen upsName false
  else
    dropUps upsName

/-- `upscli_list_next` and the test for the END row: the name of the next UPS, if any. -/
def listNext (answer : Option (List CStr)) : Plugin (Option Ptr) := do
  perform (.listNext answer)
  if answer.isNone then
    throw .disable
  let stamp := ((← get).buf .ups1).stamp
  let first ← deref ⟨.ups1, 0, stamp⟩
  if first = "END".toList then
    return none
  return some ⟨.ups1, 1, stamp⟩

end Query
end UpsdPlugin
