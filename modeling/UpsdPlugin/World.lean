import UpsdPlugin.Lib.OrderedDict
import UpsdPlugin.Lib.Scripted
import UpsdPlugin.Number
import UpsdPlugin.Protocol
import UpsdPlugin.Status

/-! The plugin's state, and everything it does to it.

Every call the plugin makes on something that lasts (a line printed, a query sent, a
dictionary updated or destroyed) is an `Action`. An action moves the state and is
recorded in the trace with the collection cycle it belongs to; cycle 0 is the
startup. The state is therefore a function of the actions, and what the plugin
does is a list of them.

Answers of libupsclient live in one buffer per connection, which the next call on
the connection overwrites. Strings taken from an answer are pointers into that
buffer. -/
namespace UpsdPlugin

/-! ### Connections and answers -/

/-- `ups1` carries LIST, `ups2` carries GET. -/
inductive Conn where
  | ups1 | ups2
  deriving DecidableEq

/-- The answer buffer of a connection: the words of the last answer, and how many
answers the connection has given. -/
structure Buffer where
  words : List CStr
  stamp : Nat

/-- `answer[0][word]`, taken from the answer number `stamp` of its connection. -/
structure Ptr where
  conn : Conn
  word : Nat
  stamp : Nat

/-- `{ "VAR", <UPS name>, <variable name>, <variable value> }` -/
def getAnswer (ups var : CStr) : Option CStr → List CStr
  | some value => ["VAR".toList, ups, var, value]
  | none => []

/-! ### Actions -/

/-- The code that queries or prints. -/
inductive Origin where
  /-- `register_ups` -/
  | registerUps
  /-- `send_metric_ups_status` -/
  | upsStatus
  /-- `send_metric_ups_realpower` -/
  | upsRealpower
  /-- The loop over `ups_vars` in `main`. -/
  | upsVars
  deriving DecidableEq

/-- A per-UPS dictionary made by `register_ups`: which one it is, and its content. -/
structure UpsVars where
  id : Nat
  charts : OrderedDict CStr NdChart

inductive Action where
  /-- `upscli_list_next` on `ups1`: the words of the answer, or -1. -/
  | listNext (answer : Option (List CStr))
  /-- `upscli_get`, the `call`-th of the run. -/
  | get (conn : Conn) (origin : Origin) (call : Nat) (ups var : CStr) (reply : Option CStr)
  /-- A call of `register_ups`. -/
  | register (ups : CStr)
  | print (origin : Origin) (line : Line)
  /-- A call of `str2ndd`; `none` is the null pointer. -/
  | str2ndd (arg : Option CStr)
  /-- `dictionary_set` on `nd_ups_name`, `nd_ups_vars` and `nd_ups_seen`. -/
  | setName (ups clean : CStr)
  | setVars (ups : CStr) (vars : UpsVars)
  | setSeen (ups : CStr) (seen : Bool)
  /-- `dictionary_del` on the same. -/
  | delName (ups : CStr)
  | delVars (ups : CStr)
  | delSeen (ups : CStr)
  /-- `dictionary_create` and `dictionary_destroy` of a per-UPS dictionary. -/
  | create (id : Nat)
  | destroy (id : Nat)
  /-- `fflush(stdout)` -/
  | flush

/-- An action and the collection cycle it happened in. -/
structure Event where
  cycle : Nat
  action : Action

/-! ### State -/

structure World where
  buf : Conn → Buffer := fun _ => ⟨[], 0⟩
  /-- A string has been read after a later call on the connection it came from. -/
  stale : Bool := false
  /-- How many times `upscli_get` has been called. -/
  gets : Nat := 0
  cycle : Nat := 0
  ndUpsName : OrderedDict CStr CStr := .empty
  ndUpsVars : OrderedDict CStr UpsVars := .empty
  ndUpsSeen : OrderedDict CStr Bool := .empty
  /-- How many per-UPS dictionaries have been created. -/
  dicts : Nat := 0
  destroyed : List Nat := []
  trace : List Event := []

namespace World

/-- A new answer in the buffer of a connection. -/
def answered (w : World) (conn : Conn) (words : List CStr) : World :=
  {w with buf := Function.update w.buf conn ⟨words, (w.buf conn).stamp + 1⟩}

def effect (w : World) : Action → World
  | .listNext answer => w.answered .ups1 (answer.getD [])
  | .get conn _ _ ups var reply =>
    {w.answered conn (getAnswer ups var reply) with gets := w.gets + 1}
  | .setName ups clean => {w with ndUpsName := w.ndUpsName.set ups clean}
  | .setVars ups vars => {w with ndUpsVars := w.ndUpsVars.set ups vars}
  | .setSeen ups seen => {w with ndUpsSeen := w.ndUpsSeen.set ups seen}
  | .delName ups => {w with ndUpsName := w.ndUpsName.del ups}
  | .delVars ups => {w with ndUpsVars := w.ndUpsVars.del ups}
  | .delSeen ups => {w with ndUpsSeen := w.ndUpsSeen.del ups}
  | .create _ => {w with dicts := w.dicts + 1}
  | .destroy id => {w with destroyed := w.destroyed ++ [id]}
  | _ => w

/-- The effect of an action, recorded. -/
def act (w : World) (a : Action) : World :=
  {w.effect a with trace := w.trace ++ [⟨w.cycle, a⟩]}

/-- `heartbeat_next`: the next collection cycle begins. -/
def tick (w : World) : World := {w with cycle := w.cycle + 1}

/-- The state after a list of actions. -/
abbrev play (w : World) (script : List Action) : World := Scripted.play act w script

/-! ### What scripts leave alone -/

theorem play_cycle (w : World) (script : List Action) : (w.play script).cycle = w.cycle := by
  induction script generalizing w with
  | nil => rfl
  | cons a script ih =>
    rw [play, Scripted.play_cons]
    refine (ih (w.act a)).trans ?_
    cases a <;> rfl

theorem play_stale (w : World) (script : List Action) : (w.play script).stale = w.stale := by
  induction script generalizing w with
  | nil => rfl
  | cons a script ih =>
    rw [play, Scripted.play_cons]
    refine (ih (w.act a)).trans ?_
    cases a <;> rfl

theorem play_trace (w : World) (script : List Action) :
    (w.play script).trace = w.trace ++ script.map (Event.mk w.cycle) := by
  induction script generalizing w with
  | nil => simp
  | cons a script ih =>
    have hcycle : (w.act a).cycle = w.cycle := play_cycle w [a]
    have htrace : (w.act a).trace = w.trace ++ [⟨w.cycle, a⟩] := by cases a <;> rfl
    rw [play, Scripted.play_cons]
    refine (ih (w.act a)).trans ?_
    rw [htrace, hcycle, List.map_cons, List.append_assoc]
    rfl

/-- The actions of a trace. -/
def actionsOf (trace : List Event) : List Action := trace.map Event.action

theorem actionsOf_play (w : World) (script : List Action) :
    actionsOf (w.play script).trace = actionsOf w.trace ++ script := by
  rw [play_trace, actionsOf, List.map_append, List.map_map]
  exact congrArg _ (List.map_id script)

/-- How many queries a script sends. -/
def getsOf (script : List Action) : Nat :=
  script.countP fun a => match a with
    | .get .. => true
    | _ => false

theorem getsOf_append (a b : List Action) : getsOf (a ++ b) = getsOf a + getsOf b :=
  List.countP_append

theorem play_gets (w : World) (script : List Action) :
    (w.play script).gets = w.gets + getsOf script := by
  induction script generalizing w with
  | nil => rfl
  | cons a script ih =>
    rw [play, Scripted.play_cons]
    refine (ih (w.act a)).trans ?_
    cases a <;> simp [getsOf, act, effect, answered]
    omega

end World

/-- Actions that touch neither a dictionary nor the LIST connection. -/
def Action.Quiet : Action → Prop
  | .get conn .. => conn = .ups2
  | .register _ | .print .. | .str2ndd _ | .flush => True
  | _ => False

/-- Two states that agree on the dictionaries and on the LIST connection. -/
structure World.Same (w w' : World) : Prop where
  name : w'.ndUpsName = w.ndUpsName
  vars : w'.ndUpsVars = w.ndUpsVars
  seen : w'.ndUpsSeen = w.ndUpsSeen
  dicts : w'.dicts = w.dicts
  destroyed : w'.destroyed = w.destroyed
  list : w'.buf .ups1 = w.buf .ups1

theorem World.play_quiet (w : World) (script : List Action) (h : ∀ a ∈ script, a.Quiet) :
    w.Same (w.play script) := by
  induction script generalizing w with
  | nil => exact ⟨rfl, rfl, rfl, rfl, rfl, rfl⟩
  | cons a script ih =>
    have hrest := ih (w.act a) (fun b hb => h b (List.mem_cons_of_mem a hb))
    have hfirst : w.Same (w.act a) := by
      have ha := h a (List.mem_cons_self ..)
      cases a with
      | get conn origin call ups var reply =>
        have hconn : conn = .ups2 := ha
        subst hconn
        exact ⟨rfl, rfl, rfl, rfl, rfl, by simp [act, effect, answered]⟩
      | register ups => exact ⟨rfl, rfl, rfl, rfl, rfl, rfl⟩
      | print origin line => exact ⟨rfl, rfl, rfl, rfl, rfl, rfl⟩
      | str2ndd arg => exact ⟨rfl, rfl, rfl, rfl, rfl, rfl⟩
      | flush => exact ⟨rfl, rfl, rfl, rfl, rfl, rfl⟩
      | _ => exact absurd ha id
    rw [play, Scripted.play_cons]
    exact ⟨hrest.name.trans hfirst.name, hrest.vars.trans hfirst.vars,
      hrest.seen.trans hfirst.seen, hrest.dicts.trans hfirst.dicts,
      hrest.destroyed.trans hfirst.destroyed, hrest.list.trans hfirst.list⟩

/-! ### The environment -/

/-- One LIST UPS exchange. -/
structure Listing where
  /-- Whether `upscli_list_start` succeeds. -/
  started : Bool
  /-- The names of the UPS rows that arrive. -/
  names : List CStr
  /-- Whether the END row follows; otherwise `upscli_list_next` fails. -/
  complete : Bool

/-- Of a UPS row only the first two words are read. -/
def upsRow (name : CStr) : Option (List CStr) := some ["UPS".toList, name]

def endRow : Option (List CStr) := some ["END".toList, "LIST".toList, "UPS".toList]

/-- The answers to `upscli_list_next`, in order. -/
def listAnswers (names : List CStr) (complete : Bool) : List (Option (List CStr)) :=
  names.map upsRow ++ [bif complete then endRow else none]

def Listing.answers (l : Listing) : List (Option (List CStr)) := listAnswers l.names l.complete

/-- Everything the plugin does not decide. Indices are collection cycles, except for
`get`, whose index counts the calls of `upscli_get`. -/
structure Env where
  updateEvery : Nat
  /-- `upscli_init` and the two `upscli_connect`, not -1. -/
  init : Bool
  connect1 : Bool
  connect2 : Bool
  /-- The LIST UPS exchanges: number 0 at startup, number `n` in cycle `n`. -/
  listing : Nat → Listing
  /-- The outcome of every GET VAR: a value or a failure. -/
  get : Nat → CStr → CStr → Option CStr
  /-- `heartbeat_next` -/
  dt : Nat → Nat
  /-- `exit_initiated_get()` after the heartbeat. -/
  exitBefore : Nat → Bool
  /-- `ferror(stdout) && errno == EPIPE` -/
  epipe : Nat → Bool
  /-- `exit_initiated_get()` after the flush. -/
  exitAfter : Nat → Bool
  /-- `now_monotonic_sec() - started_t` -/
  elapsed : Nat → Nat
  /-- The powers of ten that `str2ndd` takes from the C library. -/
  libm : Libm

/-- An environment in which upsd is always there and nobody asks the plugin to exit: only
the listings and the replies are left open. -/
def Env.healthy (names : Nat → List CStr) (get : Nat → CStr → CStr → Option CStr) : Env where
  updateEvery := 1
  init := true
  connect1 := true
  connect2 := true
  listing n := ⟨true, names n, true⟩
  get := get
  dt _ := 1000000
  exitBefore _ := false
  epipe _ := false
  exitAfter _ := false
  elapsed _ := 0
  libm := .nearest

/-- How a run ends. -/
inductive Stop where
  /-- `NETDATA_PLUGIN_EXIT_AND_DISABLE` -/
  | disable
  /-- `NETDATA_PLUGIN_EXIT_AND_RESTART`, after the final cleanup. -/
  | restart
  /-- `clean_name(NULL)`: `dictionary_set` refuses an empty name. -/
  | nullName
  /-- `str2ndd(NULL)` -/
  | nullValue
  /-- A fault of the status scanner. -/
  | scan (fault : ScanFault)
  /-- A per-UPS dictionary is traversed or destroyed after its destruction. -/
  | destroyedVars
  deriving DecidableEq

end UpsdPlugin
