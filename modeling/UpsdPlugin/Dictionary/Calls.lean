import UpsdPlugin.Dictionary.Lifetime
import UpsdPlugin.Moves

/-! The dictionary calls of the plugin.

`World` has its dictionaries as finite maps in insertion order. Here `main` is run once more,
with every dictionary call made on the dictionaries as libnetdata keeps them: items in memory,
reference counters, a traversal of `nd_ups_name` under way while items are deleted from it, and
per-UPS dictionaries behind pointers that dangle once they are destroyed.

`storeStep` makes the calls of one step of `main`, in the order of the source; everything that
is not a dictionary (the rows of a listing, the charts a registration finds available) it takes
from the step. -/
namespace UpsdPlugin

structure Store where
  ndUpsName : Session CStr := {}
  /-- The values are pointers to per-UPS dictionaries. -/
  ndUpsVars : Session Nat := {}
  ndUpsSeen : Session Bool := {}
  /-- The per-UPS dictionaries that have been created and not destroyed. -/
  upsVars : Heap (Session NdChart) := {}
  /-- The item the traversal of `nd_ups_name` is at. -/
  upsNameDfe : Option (CStr × CStr) := none

abbrev OnStore := StateT Store (Except Fault)

namespace Store

/-! ### Calls -/

/-- A call on one of the three dictionaries: where it is, and how it is put back. -/
def on {ν : Type} (session : Store → Session ν) (put : Store → Session ν → Store) (op : Op ν) :
    OnStore (Answer ν) := fun s => do
  let (answer, session) ← (session s).call op
  return (answer, put s session)

def onName : Op CStr → OnStore (Answer CStr) := on Store.ndUpsName fun s ndUpsName => {s with ndUpsName}

def onVars : Op Nat → OnStore (Answer Nat) := on Store.ndUpsVars fun s ndUpsVars => {s with ndUpsVars}

def onSeen : Op Bool → OnStore (Answer Bool) := on Store.ndUpsSeen fun s ndUpsSeen => {s with ndUpsSeen}

/-- A call on the per-UPS dictionary behind a pointer. -/
def onCharts (id : Nat) (op : Op NdChart) : OnStore (Answer NdChart) := fun s => do
  let session ← s.upsVars.read id
  let (answer, session) ← session.call op
  let upsVars ← s.upsVars.update id fun _ => session
  return (answer, {s with upsVars})

/-- `dictionary_create` of a per-UPS dictionary. -/
def create : OnStore Nat := fun s => return (s.upsVars.next, {s with upsVars := s.upsVars.alloc {}})

/-- `dictionary_destroy` of a per-UPS dictionary. -/
def destroy (id : Nat) : OnStore Unit := fun s => do
  let session ← s.upsVars.read id
  let (freed, dict) ← session.dict.dictionaryDestroy
  let upsVars ← if freed then s.upsVars.free id else s.upsVars.update id fun _ => {session with dict}
  return ((), {s with upsVars})

/-! ### The functions of the plugin -/

def setSeen (upsName : CStr) (seen : Bool) : OnStore Unit := do
  let _ ← onSeen (.set upsName seen id)

def wasSeen (upsName : CStr) : OnStore Bool := do
  match ← onSeen (.get upsName) with
  | .value (some seen) => return seen
  | _ => return false

def getVars (upsName : CStr) : OnStore (Option Nat) := do
  match ← onVars (.get upsName) with
  | .value upsVars => return upsVars
  | _ => return none

def getName (upsName : CStr) : OnStore (Option CStr) := do
  match ← onName (.get upsName) with
  | .value name => return name
  | _ => return none

/-- `dictionary_set(ups_vars, chart->nut_variable, chart, 0)` for each chart. -/
def setCharts (id : Nat) : List NdChart → OnStore Unit
  | [] => return
  | chart :: rest => do
    let _ ← onCharts id (.set chart.nutVariable chart fun c => c)
    setCharts id rest

/-- `register_ups`, with the charts it finds available. -/
def registerUps (upsName : CStr) (charts : List NdChart) : OnStore Unit := do
  match ← onName (.set upsName upsName cleanName) with
  | .stored true =>
    let id ← create
    setCharts id charts
    let _ ← onVars (.set upsName id fun i => i)
  -- `clean_name` gets the null pointer, and the run is over.
  | _ => return

/-- The rounds of the loop over `ups_vars` from an item on. -/
def visitCharts (id n : Nat) : Nat → Option (CStr × NdChart) → OnStore (List NdChart)
  | _, none => return []
  | 0, some _ => throw .endless
  | fuel + 1, some (_, chart) => do
    match ← onCharts id (.next n) with
    | .item item => return chart :: (← visitCharts id n fuel item)
    | _ => return [chart]

/-- The loop over `ups_vars`; a null pointer has no items. -/
def traverseCharts : Option Nat → OnStore (List NdChart)
  | none => return []
  | some id => do
    let session ← (fun s => return (← s.upsVars.read id, s) : OnStore (Session NdChart))
    let n := session.traversals.length
    match ← onCharts id (.start false) with
    | .item item =>
      let charts ← visitCharts id n session.dict.bound item
      let _ ← onCharts id (.done n)
      return charts
    | _ => return []

/-- `clean_ups_name`, registering the UPS when it has none. -/
def lookupCleanName (upsName : CStr) (charts : List NdChart) : OnStore (Option CStr) := do
  match ← getName upsName with
  | some cleanUpsName => return some cleanUpsName
  | none =>
    registerUps upsName charts
    getName upsName

/-- The per-UPS body of the collection loop: the cleaned name and the charts it reads. -/
def collectUps (upsName : CStr) (charts : List NdChart) : OnStore (Option CStr × List NdChart) := do
  match ← lookupCleanName upsName charts with
  | some cleanUpsName =>
    setSeen upsName true
    let charts ← traverseCharts (← getVars upsName)
    return (some cleanUpsName, charts)
  -- The run has ended in `register_ups`.
  | none => return (none, [])

/-- `dictionary_destroy(ups_vars)`; the null pointer is let through. -/
def destroyVars : Option Nat → OnStore Unit
  | none => return
  | some id => destroy id

def dropUps (upsName : CStr) : OnStore Unit := do
  destroyVars (← getVars upsName)
  let _ ← onVars (.del upsName)
  let _ ← onSeen (.del upsName)
  let _ ← onName (.del upsName)

def sweepUps (upsName : CStr) : OnStore Unit := do
  if ← wasSeen upsName then setSeen upsName false else dropUps upsName

/-! ### The traversals of `nd_ups_name` -/

/-- `dfe_start_read(nd_ups_name, ups_name)` -/
def startNames : OnStore Unit := do
  match ← onName (.start false) with
  | .item item => modify ({· with upsNameDfe := item})
  | _ => return

/-- The traversal that was started last. -/
def lastNames : OnStore Nat := fun s => return (s.ndUpsName.traversals.length - 1, s)

def nextName : OnStore Unit := do
  match ← onName (.next (← lastNames)) with
  | .item item => modify ({· with upsNameDfe := item})
  | _ => return

/-- `dfe_done(ups_name)` -/
def doneNames : OnStore Unit := do
  let _ ← onName (.done (← lastNames))

/-- The end of `main`. -/
def destroyAll : OnStore Unit := fun s => do
  let (_, vars) ← s.ndUpsVars.dict.dictionaryDestroy
  let (_, seen) ← s.ndUpsSeen.dict.dictionaryDestroy
  let (_, name) ← s.ndUpsName.dict.dictionaryDestroy
  return ((), {s with ndUpsVars := ⟨vars, []⟩, ndUpsSeen := ⟨seen, []⟩, ndUpsName := ⟨name, []⟩})

end Store

/-- The name in a row of a listing, unless it is the END row. -/
def rowName (words : List CStr) : Option CStr :=
  if words.getD 0 [] = "END".toList then none else some (words.getD 1 [])

section Step
variable (env : Env)

/-- The calls for a row of the startup listing. -/
def startupCalls (w : World) (words : List CStr) : OnStore Unit :=
  match rowName words with
  | some u => Store.registerUps u (registeredCharts env u w.gets)
  | none => return

/-- The calls for a row of the listing of a cycle. A run that a reply stops within the row has made a
part of them. -/
def listingCalls (w : World) (words : List CStr) : OnStore Unit :=
  match rowName words with
  | some u => do
    let _ ← Store.collectUps u (registeredCharts env u w.gets)
  | none =>
    match afterListing env w with
    | .sweep _ | .cleanup _ => Store.startNames
    | _ => return

/-- A round of a traversal of `nd_ups_name`, or its end. -/
def traversalCalls (body : CStr → OnStore Unit) (finish : OnStore Unit) : OnStore Unit := do
  match (← get).upsNameDfe with
  | some (_, upsName) =>
    body upsName
    Store.nextName
  | none => finish

section Traversal
variable {body : CStr → OnStore Unit} {finish : OnStore Unit} {s : Store}

theorem traversalCalls_item {item : CStr × CStr} (h : s.upsNameDfe = some item) :
    traversalCalls body finish s = (do body item.2; Store.nextName : OnStore Unit) s := by
  show (match s.upsNameDfe with
    | some (_, upsName) => (do body upsName; Store.nextName : OnStore Unit)
    | none => finish) s = _
  rw [h]

theorem traversalCalls_none (h : s.upsNameDfe = none) : traversalCalls body finish s = finish s := by
  show (match s.upsNameDfe with
    | some (_, upsName) => (do body upsName; Store.nextName : OnStore Unit)
    | none => finish) s = _
  rw [h]

end Traversal

/-- A round of the sweep, or its end. -/
def sweepCalls : OnStore Unit := traversalCalls Store.sweepUps Store.doneNames

/-- A round of the final cleanup, or its end. -/
def cleanupCalls : OnStore Unit := traversalCalls Store.dropUps do
  Store.doneNames
  Store.destroyAll

/-- The dictionary calls of a step of `main`. -/
def storeStep (m : Machine) : OnStore Unit :=
  match m.pc with
  | .startup (some words :: _) => startupCalls env m.world words
  | .head => if env.exitBefore (m.world.cycle + 1) then Store.startNames else return
  | .listing (some words :: _) => listingCalls env m.world words
  | .sweep _ => sweepCalls
  | .cleanup _ => cleanupCalls
  | _ => return

/-- The dictionaries after `t` steps. -/
def storeRun : Nat → Except Fault Store
  | 0 => return {}
  | t + 1 => do
    let s ← storeRun t
    let (_, s) ← storeStep env (run env t) s
    return s

end Step

end UpsdPlugin
