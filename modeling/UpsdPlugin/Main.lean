import UpsdPlugin.Plugin

/-! `main` as a step machine.

A step is what `main` does between two points at which the loops of the source
turn: one row of a LIST UPS answer with the whole body it triggers, or one item
of a dictionary traversal. `run env t` is the state after `t` steps in the
environment `env`; every environment and every `t` together are all the runs and
all the points of each. A run that has ended stays where it is. -/
namespace UpsdPlugin

/-- Where `main` is. -/
inductive Pc where
  /-- Before initialisation. -/
  | start
  /-- In the LIST loop at startup, with the answers still to come. -/
  | startup (answers : List (Option (List CStr)))
  /-- At the head of the collection loop. -/
  | head
  /-- In the LIST loop of a collection cycle. -/
  | listing (answers : List (Option (List CStr)))
  /-- In the sweep, with the items of `nd_ups_name` still to be visited. -/
  | sweep (todo : List CStr)
  /-- In the final cleanup, likewise. -/
  | cleanup (todo : List CStr)
  | stopped (why : Stop)
  deriving DecidableEq

structure Machine where
  pc : Pc := .start
  world : World := {}

namespace Machine

/-- Runs a body from a state; `next` says where `main` goes on. -/
def exec {α : Type} (w : World) (body : Plugin α) (next : α → World → Pc) : Machine :=
  match body w with
  | .ok a w' => ⟨next a w', w'⟩
  | .error why w' => ⟨.stopped why, w'⟩

end Machine

section Step
variable (env : Env)

/-- A row of the startup listing; false on the END row. -/
def startupRow (answer : Option (List CStr)) : Plugin Bool := do
  match ← listNext answer with
  | none => return false
  | some upsName =>
    registerUps env upsName
    return true

/-- A row of a cycle's listing; false on the END row, with the flush that follows it. -/
def listingRow (dt : Nat) (answer : Option (List CStr)) : Plugin Bool := do
  match ← listNext answer with
  | none =>
    perform .flush
    return false
  | some upsName =>
    collectUps env dt upsName
    return true

/-- After the flush: leave the loop or sweep. -/
def afterListing (w : World) : Pc :=
  if env.epipe w.cycle then .stopped .disable
  else if env.exitAfter w.cycle then .cleanup w.ndUpsName.keys
  else if env.elapsed w.cycle > 14400 then .cleanup w.ndUpsName.keys
  else .sweep w.ndUpsName.keys

def step (m : Machine) : Machine :=
  match m.pc with
  | .start =>
    if !env.init || !env.connect1 || !env.connect2 || !(env.listing 0).started then
      {m with pc := .stopped .disable}
    else
      {m with pc := .startup (env.listing 0).answers}
  | .startup [] => m
  | .startup (answer :: rest) =>
    .exec m.world (startupRow env answer) fun more _ => if more then .startup rest else .head
  | .head =>
    let w := m.world.tick
    if env.exitBefore w.cycle then ⟨.cleanup w.ndUpsName.keys, w⟩
    else if !(env.listing w.cycle).started then ⟨.stopped .disable, w⟩
    else ⟨.listing (env.listing w.cycle).answers, w⟩
  | .listing [] => m
  | .listing (answer :: rest) =>
    .exec m.world (listingRow env (env.dt m.world.cycle) answer) fun more w =>
      if more then .listing rest else afterListing env w
  | .sweep todo =>
    match m.world.ndUpsName.next todo with
    | some ((_, upsName), rest) => .exec m.world (sweepUps upsName) fun _ _ => .sweep rest
    | none => {m with pc := .head}
  | .cleanup todo =>
    match m.world.ndUpsName.next todo with
    | some ((_, upsName), rest) => .exec m.world (dropUps upsName) fun _ _ => .cleanup rest
    | none => {m with pc := .stopped .restart}
  | .stopped _ => m

def run : Nat → Machine
  | 0 => {}
  | t + 1 => step env (run t)

/-- What holds at the start and is kept by every step holds at every point of the run. -/
theorem run_induction {P : Machine → Prop} (h0 : P {}) (hs : ∀ m, P m → P (step env m)) (t : Nat) :
    P (run env t) := by
  induction t with
  | zero => exact h0
  | succ t ih => exact hs _ ih

end Step
end UpsdPlugin
