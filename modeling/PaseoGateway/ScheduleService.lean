/-
  PaseoGateway/ScheduleService.lean
  =================================
  **The control plane of schedules.**

  Mirrors `src/src/gateway/schedules.ts`.  Each schedule has one record, each fired run
  another one.  `fire` waits until `executeFire` calls `prepared`, so the part of
  `executeFire` up to there (`reserve`) runs in the caller; the dispatch starts in the same
  stretch and what follows it is a call of its own (`settle`).  The memory of a process
  holds the maps and flags of the class, and the code between two awaits that touches them
  is one request of `Ext`.

  Values that the service has read and changed are accepted by the schemas again.  Replies
  and diagnostics are left out, as are the messages that only read.  What `bind`, the
  dispatch and the observation come to is open.
-/
import PaseoGateway.AsyncPool
import PaseoGateway.Domain
import PaseoGateway.IsoInstant
import PaseoGateway.ObservationRotation

namespace PaseoGateway.ScheduleService

open Async
open ObservationRotation (RunPhase)

/-! ### Records -/

inductive Cadence where
  | every (everyMs : Nat)
  | cron (expression : String) (timezone : Option String)
deriving DecidableEq, Repr

inductive Target where
  | newAgent (cwd : String) (archiveOnFinish : Option Bool)
  | agent (agentId : String)
deriving DecidableEq, Repr

inductive ScheduleStatus where
  | active
  | paused
  | completed
deriving DecidableEq, Repr

/-- A text of `expiresAt` that denotes no instant never comes to pass and counts as none. -/
structure StoredSchedule where
  id : String
  name : Option String
  prompt : String
  cadence : Cadence
  target : Target
  status : ScheduleStatus
  createdAt : Int
  updatedAt : Int
  nextRunAt : Option Int
  lastRunAt : Option Int
  pausedAt : Option Int
  expiresAt : Option Int
  maxRuns : Option Nat
deriving DecidableEq, Repr

inductive RunStatus where
  | running
  | succeeded
  | failed
deriving DecidableEq, Repr

structure ScheduleRun where
  id : String
  scheduledFor : Int
  startedAt : Int
  endedAt : Option Int
  status : RunStatus
  agentId : Option String
  workspaceId : Option String
  output : Option String
  error : Option String
deriving DecidableEq, Repr

structure RunState where
  scheduleId : String
  projectId : String
  credentialProfile : String
  targetWorkspaceUid : Option String
  archiveOnFinish : Bool
  phase : RunPhase
  run : ScheduleRun
deriving DecidableEq, Repr

structure Origin where
  workspaceId : String
  workspaceUid : String
  expiresAt : Nat
  tokenId : String
deriving DecidableEq, Repr

inductive Concurrency where
  | Forbid
  | Allow
deriving DecidableEq, Repr

structure ScheduleState where
  schedule : StoredSchedule
  projectId : String
  credentialProfile : String
  targetWorkspaceId : Option String
  targetWorkspaceUid : Option String
  origin : Option Origin
  concurrency : Concurrency
  totalRuns : Nat
  reservations : List RunState
deriving DecidableEq, Repr

/-- What a record holds, as its schema sees it. -/
inductive Raw (α : Type) where
  | valid (value : α)
  | malformed
deriving DecidableEq, Repr

inductive Key where
  | schedule (id : String)
  | scheduleRun (id : String)
deriving DecidableEq, Repr

abbrev Val : Key → Type
  | .schedule _ => Raw ScheduleState
  | .scheduleRun _ => Raw RunState

inductive Err where
  | store (e : StoreErr)
  | error (message : String)
  /-- `ScheduleCapacityReached` -/
  | capacity
  /-- `ScheduleDispatchRejected` -/
  | rejected
deriving DecidableEq, Repr

/-- `conflict(error)` -/
def Err.isConflict (e : Err) : Bool := e = .store .conflict

/-! ### Requests -/

structure ScheduleDispatch where
  schedule : StoredSchedule
  runId : String
  projectId : String
  credentialProfile : String
  targetWorkspaceId : Option String
  targetWorkspaceUid : Option String
  origin : Option Origin
deriving DecidableEq, Repr

structure Dispatched where
  agentId : String
  workspaceId : String
deriving DecidableEq, Repr

structure ScheduleOutcome where
  succeeded : Bool
  output : Option String
  error : Option String
deriving DecidableEq, Repr

structure Binding where
  projectId : String
  credentialProfile : String
  targetWorkspaceId : Option String
  targetWorkspaceUid : Option String
deriving DecidableEq, Repr

/-- What `fire` finds in memory. -/
inductive Ticket where
  | stopping
  | existing
  | full
  | go
deriving DecidableEq, Repr

inductive Ext where
  | now
  /-- the clock at the entry of a tick -/
  | entry
  | stopping
  | saturated
  | initializeOnce
  | initialized (result : Except Err Unit)
  | initialization
  | enterTick
  | leaveTick
  | fire (id : String) (scheduledFor : Int) (runId : String)
  /-- the preparation of a fire that another call has begun -/
  | preparation (runId : String)
  /-- the task of a fire ends without a dispatch -/
  | unfire (runId : String)
  /-- `prepared()`, and the dispatch starts -/
  | dispatch (input : ScheduleDispatch) (automatic : Bool) (persisted : Nat) (run : RunState)
  | outcome (runId : String)
  | observe (states : List RunState)
  | observed (state : RunState)
  | unobserve (runId : String)
  | randomUUID
  | bind (schedule : StoredSchedule) (principal : GatewayPrincipal)
  | stop

abbrev Ext.Res : Ext → Type
  | .now => Int
  | .entry => Int
  | .stopping => Bool
  | .saturated => Bool
  | .initializeOnce => Bool
  | .initialized _ => Unit
  | .initialization => Except Err Unit
  | .enterTick => Bool
  | .leaveTick => Unit
  | .fire _ _ _ => Ticket
  | .preparation _ => Except Err Unit
  | .unfire _ => Unit
  | .dispatch _ _ _ _ => Unit
  | .outcome _ => Except Err Dispatched
  | .observe _ => Unit
  | .observed _ => Except Err (Option ScheduleOutcome)
  | .unobserve _ => Unit
  | .randomUUID => String
  | .bind _ _ => Except Err Binding
  | .stop => Unit

structure NewSchedule where
  name : Option String
  prompt : String
  cadence : Cadence
  target : Target
  expiresAt : Option Int
  maxRuns : Option Nat
  runOnCreate : Bool
deriving DecidableEq, Repr

/-- The fields of `schedule/update`; none is a field that was not sent. -/
structure Changes where
  name : Option (Option String)
  prompt : Option String
  cadence : Option Cadence
  maxRuns : Option (Option Nat)
  expiresAt : Option (Option Int)
  newAgentConfig : Option (Option String × Option (Option Bool))
deriving DecidableEq, Repr

inductive Message where
  | create (input : NewSchedule) (requestId : String)
  | delete (scheduleId : String)
  | pause (scheduleId : String)
  | resume (scheduleId : String)
  | update (scheduleId : String) (changes : Changes)
  | runOnce (scheduleId requestId : String)
deriving DecidableEq, Repr

inductive Call where
  | initializeOnce
  | tick
  | handle (message : Message) (principal : GatewayPrincipal)
  | setConcurrency (id : String) (concurrency : Concurrency) (principal : GatewayPrincipal)
  | completeRun (runId : String) (outcome : ScheduleOutcome)
  | close
  /-- the rest of a fire, from its dispatch on -/
  | settle (id runId : String) (persisted : Nat) (run : RunState)
  | observation (state : RunState)
deriving DecidableEq, Repr

inductive Note where
  | clock (instant : Int)
  | entered (instant : Int)
  | drew (id : String)
  | dispatch (input : ScheduleDispatch) (automatic : Bool)
  | outcome (runId : String) (result : Except Err Dispatched)

inductive Initialization where
  | none
  | pending
  | done (result : Except Err Unit)

/-- The fields of the class: the observation maps and flags, the dispatches under way, the
    preparations that are not settled, the promise of the initialization and whether a tick
    runs. -/
structure Mem where
  rotation : ObservationRotation.State
  dispatches : List String
  preparations : List String
  initialization : Initialization
  ticking : Bool

@[reducible] def sys : Sys where
  Key := Key
  Val := Val
  Note := Note
  Ext := Ext
  ExtRes := Ext.Res
  Mem := Mem
  Glob := List String
  Call := Call
  Err := Err
  ofStore := .store

abbrev Task (α : Type) : Type := sys.Task α

def now : Task Int := ask (S := sys) .now

/-! ### Cadences -/

structure Options where
  /-- the next time of a cron expression behind an instant, or what it throws -/
  cron : String → String → Int → Except String Int
  /-- the hexadecimal SHA-256 of a text -/
  sha256 : String → String
  historyLimit : Nat
  maxInflightDispatches : Nat
  maxInflightObservations : Nat
  observer : Bool
  defaultConcurrency : Concurrency

variable (o : Options)

def maxSafeInteger : Nat := 9007199254740991

/-- The last millisecond of a `Date`; `toISOString` throws beyond it. -/
def maxTime : Nat := 8640000000000000

def nextScheduleTime (cadence : Cadence) (after : Int) : Except Err Int :=
  match cadence with
  | .every everyMs =>
    if everyMs < 1000 ∨ maxSafeInteger < everyMs then
      .error (.error "Schedule intervals must be safe integers of at least one second")
    else if maxTime < (after + everyMs).natAbs then .error (.error "Invalid time value")
    else .ok (after + everyMs)
  | .cron expression timezone =>
    match o.cron expression (timezone.getD "UTC") after with
    | .ok next => .ok next
    | .error message => .error (.error message)

/-! ### Reading and saving -/

def parse {α : Type} : Raw α → Task α
  | .valid value => .ret value
  | .malformed => .fail (.error "Invalid record")

def read (id : String) : Task (Nat × ScheduleState) := do
  match ← await (S := sys) (.get (.schedule id)) with
  | none => .fail (.error "Schedule does not exist")
  | some (version, raw) => do
    let state ← parse raw
    .ret (version, state)

def record (runId : String) : Task (Option (Nat × Raw RunState)) :=
  await (S := sys) (.get (.scheduleRun runId))

def isSchedule : Key → Bool
  | .schedule _ => true
  | _ => false

/-- A row of `records("schedule")`. -/
structure ScheduleRow where
  id : String
  version : Nat
  value : Raw ScheduleState
deriving DecidableEq, Repr

def scheduleRow : Row Key Val → Option ScheduleRow
  | ⟨.schedule id, version, value⟩ => some ⟨id, version, value⟩
  | _ => none

def schedules : Task (List ScheduleRow) := do
  let rows ← await (S := sys) (.list isSchedule)
  .ret (rows.filterMap scheduleRow)

/-- A row of `records("schedule-run")`. -/
structure RunRow where
  id : String
  version : Nat
  value : RunState

def parseRuns : List (Row Key Val) → Task (List RunRow)
  | [] => .ret []
  | ⟨.scheduleRun id, version, raw⟩ :: rows => do
    let value ← parse raw
    let rest ← parseRuns rows
    .ret (⟨id, version, value⟩ :: rest)
  | _ :: rows => parseRuns rows

def runRows : Task (List RunRow) := do
  let rows ← await (S := sys) (.list fun key => !isSchedule key)
  parseRuns rows

/-- The runs of a schedule, the latest first. -/
def runs (id : String) : Task (List RunRow) := do
  let rows ← runRows
  .ret ((rows.filter (·.value.scheduleId = id)).insertionSort
    fun a b => b.value.run.startedAt ≤ a.value.run.startedAt)

def save (id : String) (version : Nat) (state : ScheduleState) : Task Unit := do
  let _ ← await (S := sys) (.update (.schedule id) version (.valid state))
  .ret ()

def updateRun (runId : String) (version : Nat) (state : RunState) : Task Unit := do
  let _ ← await (S := sys) (.update (.scheduleRun runId) version (.valid state))
  .ret ()

/-! ### Recovery -/

def interrupted : String :=
  "Dispatch interrupted; outcome unknown. Inspect the workspace before resolving or retrying."

/-- The private method `unknown`. -/
def unknown (state : RunState) : Task RunState := do
  let endedAt ← now
  .ret { state with
    phase := .unknown
    run := { state.run with
      status := .failed, endedAt := some endedAt, error := some interrupted } }

/-- What is known of a reserved run: its record, or the reservation where there is none. -/
def storedState (reservation : RunState) : Option (Nat × Raw RunState) → Task RunState
  | some (_, raw) => parse raw
  | none => .ret reservation

def markUnknown (reservation state : RunState) (stored : Option (Nat × Raw RunState)) :
    Task Unit := do
  let value ← unknown state
  match stored with
  | some (version, _) => updateRun reservation.run.id version value
  | none => do
    let _ ← await (S := sys) (.create (.scheduleRun state.run.id) (.valid value))
    .ret ()

/-- One reservation; `kept` are those that remain so far. -/
def recoverReservation (reservation : RunState) (kept : List RunState) :
    Task (List RunState) := do
  let stored ← record reservation.run.id
  let state ← storedState reservation stored
  if state.phase = .dispatching then do
    markUnknown reservation state stored
    .ret kept
  else if state.phase = .finished then .ret (kept.filter (·.run.id ≠ state.run.id))
  else .ret kept

def recoverReservations : List RunState → List RunState → Task (List RunState)
  | [], kept => .ret kept
  | reservation :: rest, kept => do
    let kept ← recoverReservation reservation kept
    recoverReservations rest kept

/-- A time that has passed while nobody ticked is given up. -/
def recoverTime (schedule : StoredSchedule) : Task (Option Int) :=
  match schedule.status, schedule.nextRunAt with
  | .active, some due => do
    let instant ← now
    if due < instant then do
      let after ← now
      let next ← (.ofExcept (nextScheduleTime o schedule.cadence after) : Task Int)
      .ret (some next)
    else .ret (some due)
  | _, nextRunAt => .ret nextRunAt

def recoverSchedule (row : ScheduleRow) : Task Unit := do
  let state ← parse row.value
  let reservations ← recoverReservations state.reservations state.reservations
  let nextRunAt ← recoverTime o state.schedule
  save row.id row.version
    { state with reservations, schedule := { state.schedule with nextRunAt } }

def recoverSchedules : List ScheduleRow → Task Unit
  | [] => .ret ()
  | row :: rest => do
    recoverSchedule o row
    recoverSchedules rest

def recover : Task Unit := do
  let rows ← schedules
  recoverSchedules o rows

def initializeOnce : Task Unit := do
  if ← ask (S := sys) .initializeOnce then do
    let result ← (recover o).attempt
    ask (S := sys) (.initialized result)
    .ofExcept result
  else askOr (S := sys) .initialization rfl

/-! ### Firing -/

/-- At its run limit; a limit of zero is none. -/
def spent (state : ScheduleState) : Bool :=
  state.schedule.maxRuns.any fun maxRuns => maxRuns ≠ 0 ∧ state.totalRuns ≥ maxRuns

def expiredAt (schedule : StoredSchedule) (instant : Int) : Bool :=
  schedule.expiresAt.any (· ≤ instant)

def blocked (state : ScheduleState) : Bool :=
  state.reservations.length ≥ 16 || (state.concurrency = .Forbid && state.reservations ≠ [])

/-- The clock is read only where there is an expiration. -/
def expired (schedule : StoredSchedule) : Task Bool :=
  match schedule.expiresAt with
  | none => .ret false
  | some expiresAt => do
    let instant ← now
    .ret (expiresAt ≤ instant)

def archives : Target → Bool
  | .newAgent _ archiveOnFinish => archiveOnFinish.getD true
  | .agent _ => true

def newRun (id : String) (scheduledFor : Int) (runId : String) (state : ScheduleState)
    (startedAt : Int) : RunState where
  scheduleId := id
  projectId := state.projectId
  credentialProfile := state.credentialProfile
  targetWorkspaceUid := state.targetWorkspaceUid
  archiveOnFinish := archives state.schedule.target
  phase := .dispatching
  run :=
    { id := runId
      scheduledFor
      startedAt
      endedAt := none
      status := .running
      agentId := none
      workspaceId := none
      output := none
      error := none }

/-- The state that reserves the run. -/
def reserved (state : ScheduleState) (run : RunState) (updatedAt : Int)
    (nextRunAt : Option Int) : ScheduleState :=
  let state := { state with
    reservations := state.reservations ++ [run]
    totalRuns := state.totalRuns + 1
    schedule := { state.schedule with
      lastRunAt := some run.run.scheduledFor
      updatedAt
      nextRunAt } }
  if spent state then
    { state with schedule := { state.schedule with status := .completed, nextRunAt := none } }
  else state

structure Reserved where
  state : ScheduleState
  run : RunState
  persisted : Nat

/-- The next time of a schedule that is active; any other keeps what it has. -/
def nextTime (schedule : StoredSchedule) : Task (Option Int) :=
  if schedule.status = .active then do
    let after ← now
    let next ← (.ofExcept (nextScheduleTime o schedule.cadence after) : Task Int)
    .ret (some next)
  else .ret schedule.nextRunAt

/-- The slot is taken before anything outside happens. -/
def takeSlot (id : String) (version : Nat) (state : ScheduleState) (scheduledFor : Int)
    (runId : String) : Task Reserved := do
  let startedAt ← now
  let run := newRun id scheduledFor runId state startedAt
  let updatedAt ← now
  let nextRunAt ← nextTime o state.schedule
  let state := reserved state run updatedAt nextRunAt
  save id version state
  let persisted ← await (S := sys) (.create (.scheduleRun runId) (.valid run))
  .ret ⟨state, run, persisted⟩

/-- `executeFire` up to its `prepared()`; none where there is nothing to dispatch. -/
def reserve (id : String) (scheduledFor : Int) (runId : String) (automatic : Bool) :
    Task (Option Reserved) := do
  match ← record runId with
  | some _ => .ret none
  | none => do
    let (version, state) ← read id
    let schedule := state.schedule
    if automatic ∧ (schedule.status ≠ .active ∨ schedule.nextRunAt ≠ some scheduledFor) then
      .ret none
    else if state.reservations.any (·.run.id = runId) then .ret none
    else do
      let late ← expired schedule
      if late ∨ spent state then
        .fail (.error "Schedule has reached its expiration or run limit")
      else if blocked state then
        .fail (.error
          "Schedule has an active or unknown run; concurrency policy forbids dispatch")
      else do
        let slot ← takeSlot o id version state scheduledFor runId
        .ret (some slot)

def dispatchOf (state : ScheduleState) (runId : String) : ScheduleDispatch where
  schedule := state.schedule
  runId
  projectId := state.projectId
  credentialProfile := state.credentialProfile
  targetWorkspaceId := state.targetWorkspaceId
  targetWorkspaceUid := state.targetWorkspaceUid
  origin := state.origin

def shuttingDown : Err := .error "Scheduler is shutting down"

def fire (id : String) (scheduledFor : Int) (key : String) (automatic : Bool) : Task Unit := do
  let runId := o.sha256 (id ++ ":" ++ key)
  match ← ask (S := sys) (.fire id scheduledFor runId) with
  | .stopping => .fail shuttingDown
  | .existing => askOr (S := sys) (.preparation runId) rfl
  | .full => .fail .capacity
  | .go => do
    match ← (reserve o id scheduledFor runId automatic).attempt with
    | .error e => do
      ask (S := sys) (.unfire runId)
      .fail e
    | .ok none => ask (S := sys) (.unfire runId)
    | .ok (some r) =>
      ask (S := sys) (.dispatch (dispatchOf r.state runId) automatic r.persisted r.run)

def releaseAttempts (id runId : String) : Nat → Task Unit
  | 0 => .ret ()
  | left + 1 => do
    let (version, state) ← read id
    let reservations := state.reservations.filter (·.run.id ≠ runId)
    match ← (save id version { state with reservations }).attempt with
    | .ok () => .ret ()
    | .error e =>
      if ¬ e.isConflict ∨ left = 0 then .fail e else releaseAttempts id runId left

def release (id runId : String) : Task Unit := releaseAttempts id runId 4

def deleteRuns : List RunRow → Task Unit
  | [] => .ret ()
  | row :: rest => do
    await (S := sys) (.delete (.scheduleRun row.id) row.version)
    deleteRuns rest

def prune (id : String) : Task Unit := do
  let rows ← runs id
  deleteRuns ((rows.filter (·.value.phase = .finished)).drop o.historyLimit)

/-- The `catch` of `executeFire`. -/
def recordFailure (id runId : String) (persisted : Nat) (run : RunState) (e : Err) :
    Task Unit :=
  if e = .rejected then do
    let endedAt ← now
    updateRun runId persisted { run with
      phase := .finished
      run := { run.run with
        status := .failed
        endedAt := some endedAt
        error := some "Agent dispatch was rejected before acceptance" } }
    release id runId
  else do
    let value ← unknown run
    updateRun runId persisted value

def started (run : RunState) (dispatched : Dispatched) : RunState :=
  { run with
    phase := .running
    run := { run.run with
      agentId := some dispatched.agentId
      workspaceId := some dispatched.workspaceId } }

def recordOutcome (id runId : String) (persisted : Nat) (run : RunState) :
    Except Err Dispatched → Task Unit
  | .error e => recordFailure id runId persisted run e
  | .ok dispatched => do
    match ← (updateRun runId persisted (started run dispatched)).attempt with
    | .ok () => .ret ()
    | .error e => recordFailure id runId persisted (started run dispatched) e

/-- `executeFire` from the outcome of its dispatch on. -/
def settle (id runId : String) (persisted : Nat) (run : RunState) : Task Unit := do
  let result ← ask (S := sys) (.outcome runId)
  recordOutcome id runId persisted run result
  prune o id

/-- The characters of a text that fit into so many UTF-16 code units. -/
def within (units : Nat) : List Char → List Char
  | [] => []
  | c :: rest =>
    let size := if c.val < 0x10000 then 1 else 2
    if size ≤ units then c :: within (units - size) rest else []

/-- `slice(0, units)` -/
def slice (units : Nat) (text : String) : String := String.ofList (within units text.toList)

def complete (state : RunState) (outcome : ScheduleOutcome) (endedAt : Int) : RunState :=
  { state with
    phase := .finished
    run := { state.run with
      status := if outcome.succeeded then .succeeded else .failed
      endedAt := some endedAt
      output := outcome.output.map fun text => slice 8192 text
      error := outcome.error.map fun text => slice 2048 text } }

def completeRun (runId : String) (outcome : ScheduleOutcome) : Task Unit := do
  match ← record runId with
  | none => .fail (.error "Schedule run does not exist")
  | some (version, raw) => do
    let state ← parse raw
    if state.phase = .finished then do
      release state.scheduleId runId
      prune o state.scheduleId
    else do
      let endedAt ← now
      updateRun runId version (complete state outcome endedAt)
      release state.scheduleId runId
      prune o state.scheduleId

/-- The task that `observe` starts. -/
def observation (state : RunState) : Task Unit := do
  match ← (askOr (S := sys) (.observed state) rfl : Task (Option ScheduleOutcome)) with
  | some outcome => completeRun o state.run.id outcome
  | none => .ret ()

/-! ### The tick -/

def saveQuietly (id : String) (version : Nat) (state : ScheduleState) : Task Unit := do
  match ← (save id version state).attempt with
  | .ok () => .ret ()
  | .error e => if e.isConflict then .ret () else .fail e

/-- When an entry is due at the time of a tick. -/
def dueAt (tickTime : Int) (schedule : StoredSchedule) : Option Int :=
  match schedule.status, schedule.nextRunAt with
  | .active, some due => if tickTime < due then none else some due
  | _, _ => none

/-- One turn of the loop over the schedules; false leaves the tick. -/
def visit (tickTime : Int) (row : ScheduleRow) : Task Bool := do
  let state ← parse row.value
  let schedule := state.schedule
  match dueAt tickTime schedule with
  | none => .ret true
  | some due =>
    if expiredAt schedule tickTime ∨ spent state then do
      saveQuietly row.id row.version
        { state with schedule := { schedule with status := .completed, nextRunAt := none } }
      .ret true
    else do
      let saturated ← ask (S := sys) .saturated
      if tickTime - due > 1000 ∨ blocked state ∨ saturated then do
        let next ← (.ofExcept (nextScheduleTime o schedule.cadence tickTime) : Task Int)
        saveQuietly row.id row.version
          { state with schedule := { schedule with nextRunAt := some next } }
        .ret true
      else do
        match ← (fire o schedule.id due (Iso.toISOString due) true).attempt with
        | .ok () => .ret true
        | .error e => do
          if ← ask (S := sys) .stopping then .ret false
          else if e = .capacity ∨ e.isConflict then .ret true
          else .fail e

def eachSchedule (tickTime : Int) : List ScheduleRow → Task Unit
  | [] => .ret ()
  | row :: rest => do
    if ← ask (S := sys) .stopping then .ret ()
    else do
      if ← visit o tickTime row then eachSchedule tickTime rest else .ret ()

/-- `tickOnce` up to its list of schedules; none where the service is stopping. -/
def beginTick : Task (Option Int) := do
  initializeOnce o
  if ← ask (S := sys) .stopping then .ret none
  else do
    let tickTime ← ask (S := sys) .entry
    let rows ← runRows
    ask (S := sys) (.observe (rows.map (·.value)))
    .ret (some tickTime)

def tickOnce : Task Unit := do
  match ← beginTick o with
  | none => .ret ()
  | some tickTime => do
    let rows ← schedules
    eachSchedule o tickTime rows

/-- A tick that finds another one under way joins it. -/
def tick : Task Unit := do
  if ← ask (S := sys) .enterTick then
    (tickOnce o).andFinally (ask (S := sys) .leaveTick)
  else .ret ()

/-! ### Messages -/

def allowed (principal : GatewayPrincipal) (state : ScheduleState) : Bool :=
  authorizeProject principal state.projectId &&
    match principal with
    | .owner => true
    | .workspace claims => claims.credentialProfiles.contains state.credentialProfile

def originOf : GatewayPrincipal → Option Origin
  | .owner => none
  | .workspace claims =>
    some ⟨claims.originWorkspaceId, claims.originWorkspaceUid, claims.expiresAt, claims.tokenId⟩

def bind (schedule : StoredSchedule) (principal : GatewayPrincipal) : Task Binding :=
  askOr (S := sys) (.bind schedule principal) rfl

def create (input : NewSchedule) (requestId : String) (principal : GatewayPrincipal) :
    Task Unit := do
  let instant ← now
  let id ← ask (S := sys) .randomUUID
  let after ← now
  let next ← (.ofExcept (nextScheduleTime o input.cadence after) : Task Int)
  let schedule : StoredSchedule :=
    { id
      name := input.name
      prompt := input.prompt
      cadence := input.cadence
      target := input.target
      status := .active
      createdAt := instant
      updatedAt := instant
      nextRunAt := some next
      lastRunAt := none
      pausedAt := none
      expiresAt := input.expiresAt
      maxRuns := input.maxRuns }
  let binding ← bind schedule principal
  let _ ← await (S := sys) (.create (.schedule id) (.valid
    { schedule
      projectId := binding.projectId
      credentialProfile := binding.credentialProfile
      targetWorkspaceId := binding.targetWorkspaceId
      targetWorkspaceUid := binding.targetWorkspaceUid
      origin := originOf principal
      concurrency := o.defaultConcurrency
      totalRuns := 0
      reservations := [] }))
  if input.runOnCreate then fire o id instant ("create:" ++ requestId) false else .ret ()

/-- The schedule of a message, for a caller that may see it. -/
def readAllowed (id : String) (principal : GatewayPrincipal) : Task (Nat × ScheduleState) := do
  let (version, state) ← read id
  if allowed principal state then .ret (version, state)
  else .fail (.error "Schedule does not exist")

def delete (id : String) (principal : GatewayPrincipal) : Task Unit := do
  let (version, state) ← readAllowed id principal
  if state.reservations ≠ [] then
    .fail (.error "Resolve active or unknown schedule runs before deleting")
  else do
    await (S := sys) (.delete (.schedule id) version)
    let rows ← runs state.schedule.id
    deleteRuns rows

def pause (id : String) (principal : GatewayPrincipal) : Task Unit := do
  let (version, state) ← readAllowed id principal
  let pausedAt ← now
  let updatedAt ← now
  save id version { state with schedule := { state.schedule with
    status := .paused, pausedAt := some pausedAt, nextRunAt := none, updatedAt } }

def resume (id : String) (principal : GatewayPrincipal) : Task Unit := do
  let (version, state) ← readAllowed id principal
  let after ← now
  let next ← (.ofExcept (nextScheduleTime o state.schedule.cadence after) : Task Int)
  let updatedAt ← now
  save id version { state with schedule := { state.schedule with
    status := .active, pausedAt := none, nextRunAt := some next, updatedAt } }

/-- The fields of an update, before the target is looked at. -/
def changed (schedule : StoredSchedule) (changes : Changes) : StoredSchedule :=
  { schedule with
    name := changes.name.getD schedule.name
    prompt := changes.prompt.getD schedule.prompt
    cadence := changes.cadence.getD schedule.cadence
    maxRuns := changes.maxRuns.getD schedule.maxRuns
    expiresAt := changes.expiresAt.getD schedule.expiresAt }

def retargeted (target : Target) : Option (Option String × Option (Option Bool)) →
    Except Err Target
  | none => .ok target
  | some (cwd, archiveOnFinish) =>
    match target with
    | .agent _ => .error (.error "Schedule target is not a new agent")
    | .newAgent oldCwd oldArchive =>
      .ok (.newAgent (cwd.getD oldCwd) (archiveOnFinish.getD oldArchive))

def update (id : String) (changes : Changes) (principal : GatewayPrincipal) : Task Unit := do
  let (version, state) ← readAllowed id principal
  let target ←
    (.ofExcept (retargeted state.schedule.target changes.newAgentConfig) : Task Target)
  let schedule := { changed state.schedule changes with target }
  let binding ← bind schedule principal
  if binding.projectId ≠ state.projectId ∨
      binding.credentialProfile ≠ state.credentialProfile ∨
      binding.targetWorkspaceUid ≠ state.targetWorkspaceUid then
    .fail (.error "Create a new schedule to change project or credential profile")
  else do
    let updatedAt ← now
    let nextRunAt ←
      if changes.cadence.isSome then nextTime o schedule else .ret schedule.nextRunAt
    save id version { state with schedule := { schedule with updatedAt, nextRunAt } }

def runOnce (id requestId : String) (principal : GatewayPrincipal) : Task Unit := do
  let (_, state) ← readAllowed id principal
  let instant ← now
  fire o state.schedule.id instant ("manual:" ++ requestId) false

def handle (message : Message) (principal : GatewayPrincipal) : Task Unit := do
  if ← ask (S := sys) .stopping then .fail shuttingDown
  else do
    initializeOnce o
    match message with
    | .create input requestId => create o input requestId principal
    | .delete id => delete id principal
    | .pause id => pause id principal
    | .resume id => resume o id principal
    | .update id changes => update o id changes principal
    | .runOnce id requestId => runOnce o id requestId principal

def setConcurrency (id : String) (concurrency : Concurrency) (principal : GatewayPrincipal) :
    Task Unit := do
  let (version, state) ← readAllowed id principal
  save id version { state with concurrency }

/-! ### The machine -/

def program (_ : Tid) : Call → Task Unit
  | .initializeOnce => initializeOnce o
  | .tick => tick o
  | .handle message principal => handle o message principal
  | .setConcurrency id concurrency principal => setConcurrency id concurrency principal
  | .completeRun runId outcome => completeRun o runId outcome
  | .close => ask (S := sys) .stop
  | .settle id runId persisted run =>
    (settle o id runId persisted run).andFinally (ask (S := sys) (.unfire runId))
  | .observation state =>
    (observation o state).andFinally (ask (S := sys) (.unobserve state.run.id))

/-- What the environment decides when it answers a request. -/
structure Choice where
  instant : Int := 0
  preparation : Except Err Unit := .ok ()
  outcome : Except Err Dispatched := .error .rejected
  observed : Except Err (Option ScheduleOutcome) := .ok none
  uuid : String := ""
  binding : Except Err Binding := .error .rejected

def freshMem : Mem where
  rotation := ObservationRotation.initial o.observer o.maxInflightObservations
  dispatches := []
  preparations := []
  initialization := .none
  ticking := false

def ticket (mem : Mem) (runId : String) : Ticket :=
  if mem.rotation.stopping then .stopping
  else if mem.dispatches.contains runId then .existing
  else if mem.dispatches.length ≥ o.maxInflightDispatches then .full
  else .go

/-- The loop over the running runs, and the observations it starts. -/
def observe (mem : Mem) (states : List RunState) : Mem × List Call :=
  let running : List ObservationRotation.RunState :=
    (states.map fun state => ⟨state.run.id, state.phase⟩).filter (·.phase == .running)
  let start := mem.rotation.observationCursor % max running.length 1
  let rotation :=
    ObservationRotation.observeLoop running start running.length 0 mem.rotation
  let started := rotation.started.drop mem.rotation.started.length
  ({ mem with rotation }, started.filterMap fun id =>
    (states.find? (·.run.id = id)).map .observation)

def forget (mem : Mem) (runId : String) : Mem :=
  { mem with
    dispatches := mem.dispatches.erase runId
    preparations := mem.preparations.erase runId }

/-- The answer, the notes, the memory and the calls that start. -/
def reply (c : Choice) (mem : Mem) (drawn : List String) :
    (x : Ext) → Option (x.Res × List Note × Mem × List Call)
  | .now => some (c.instant, [.clock c.instant], mem, [])
  | .entry => some (c.instant, [.entered c.instant, .clock c.instant], mem, [])
  | .stopping => some (mem.rotation.stopping, [], mem, [])
  | .saturated => some (decide (mem.dispatches.length ≥ o.maxInflightDispatches), [], mem, [])
  | .initializeOnce =>
    match mem.initialization with
    | .none => some (true, [], { mem with initialization := .pending }, [])
    | _ => some (false, [], mem, [])
  | .initialized result => some ((), [], { mem with initialization := .done result }, [])
  | .initialization =>
    match mem.initialization with
    | .done result => some (result, [], mem, [])
    | _ => none
  | .enterTick =>
    if mem.rotation.stopping ∨ mem.ticking then some (false, [], mem, [])
    else some (true, [], { mem with ticking := true }, [])
  | .leaveTick => some ((), [], { mem with ticking := false }, [])
  | .fire _ _ runId =>
    match ticket o mem runId with
    | .go => some (.go, [], { mem with
        dispatches := runId :: mem.dispatches
        preparations := runId :: mem.preparations }, [])
    | other => some (other, [], mem, [])
  | .preparation runId =>
    if mem.preparations.contains runId then none else some (c.preparation, [], mem, [])
  | .unfire runId => some ((), [], forget mem runId, [])
  | .dispatch input automatic persisted run =>
    some ((), [.dispatch input automatic],
      { mem with preparations := mem.preparations.erase input.runId },
      [.settle run.scheduleId input.runId persisted run])
  | .outcome runId => some (c.outcome, [.outcome runId c.outcome], mem, [])
  | .observe states => some ((), [], (observe mem states).1, (observe mem states).2)
  | .observed _ => some (c.observed, [], mem, [])
  | .unobserve runId =>
    some ((), [], { mem with
      rotation := (ObservationRotation.settle mem.rotation runId).getD mem.rotation }, [])
  | .randomUUID =>
    if c.uuid ∈ drawn then none else some (c.uuid, [.drew c.uuid], mem, [])
  | .bind _ _ => some (c.binding, [], mem, [])
  | .stop => some ((), [], { mem with rotation := { mem.rotation with stopping := true } }, [])

def answer (c : Choice) (t : Tid) (x : Ext) (w : World sys) : Option (Answer sys x) :=
  (reply o c (w.mem t.proc) w.glob x).map fun r =>
    { res := r.1
      notes := r.2.1
      mem := r.2.2.1
      glob := match x with
        | .randomUUID => c.uuid :: w.glob
        | _ => w.glob
      forks := r.2.2.2 }

/-- The calls that only the service starts itself. -/
def internal : Call → Bool
  | .settle _ _ _ _ | .observation _ => true
  | _ => false

def machine : Machine sys where
  Out := Unit
  Choice := Choice
  Env := Empty
  program := program o
  answer := answer o
  entry := fun _ c _ => !internal c
  freshMem := freshMem o
  afterCrash := fun _ g => g
  env := fun e _ => e.elim
  env_author := fun {e} => e.elim
  init := ⟨[], fun _ => freshMem o, [], 0, fun _ => none⟩
  init_next := rfl
  init_calls := fun _ => rfl
  init_author := by simp

end PaseoGateway.ScheduleService
