/-
  PaseoGateway/AgentIdentity.lean
  ===============================
  **The durable agent identity registry and the projection built on it.**

  Mirrors `src/src/gateway/agent-identity.ts` and the outward half of
  `src/src/gateway/agent-routing.ts`.  A GUID has one `agent-route` record, which
  names the workspace it is bound to; a claim by another workspace moves the
  record to `collision`.  Each process keeps a claim cache, the claims in flight
  and the claim permits in memory; those are the fields of `Mem`, and the code
  between two awaits that touches them is one request of `Ext`.

  `project` runs up to eight workers over every array.  A worker and a memoised
  `verifiedClaim` are calls of their own, forked in the process of the `project`
  call they serve (`root`), so their awaits interleave with everything else.

  Collision listeners only tell other sessions to refresh and are left out, as is
  `route`, the inward half of the projection.
-/
import PaseoGateway.AsyncPool
import PaseoGateway.Domain
import PaseoGateway.Json

namespace PaseoGateway.AgentIdentity

open Async

/-! ### Records -/

structure Binding where
  workspaceId : String
  workspaceUid : String
  backendAgentId : String
deriving DecidableEq, Repr

inductive Route where
  | active (binding : Binding)
  | collision (binding : Binding) (conflictingWorkspaceUid : String)
deriving DecidableEq, Repr

def Route.binding : Route → Binding
  | .active b => b
  | .collision b _ => b

def Route.isCollision : Route → Bool
  | .active _ => false
  | .collision _ _ => true

inductive Key where
  | route (id : String)
deriving DecidableEq

def CACHE_MS : Nat := 30000
def MAX_CACHE : Nat := 4096
def MAX_CONCURRENT_CLAIMS : Nat := 8
def MAX_PENDING_CLAIMS : Nat := 512

inductive Err where
  | store (e : StoreErr)
  | invalid
  | error (message : String)
  | routeUnavailable (message : String)
deriving DecidableEq, Repr

def Err.capacity : Err :=
  .error "Agent identity claim capacity reached; reconnect and retry inspection"
def Err.exhausted : Err :=
  .error "Agent identity collision could not be quarantined; retry inspection"
def Err.quarantined : Err :=
  .error "Native agent GUID is quarantined after a workspace collision"
def Err.alreadyBound : Err :=
  .error "Native agent GUID is already bound to another workspace UID"

/-! ### Identifiers -/

def isHex (c : Char) : Bool :=
  ('0' ≤ c && c ≤ '9') || ('a' ≤ c && c ≤ 'f') || ('A' ≤ c && c ≤ 'F')

/-- `z.guid()`: 8-4-4-4-12 hexadecimal digits. -/
def isGuid (s : String) : Bool :=
  s.toList.length == 36 &&
    s.toList.zipIdx.all fun p =>
      if p.2 = 8 ∨ p.2 = 13 ∨ p.2 = 18 ∨ p.2 = 23 then p.1 == '-' else isHex p.1

/-- A GUID is no scoped id. -/
theorem isGuid_no_tilde {id : String} (h : isGuid id = true) : id.toList.contains '~' = false := by
  rw [← Bool.not_eq_true]
  intro hmem
  obtain ⟨i, hi, hget⟩ := List.getElem_of_mem (List.contains_iff_mem.mp hmem)
  simp only [isGuid, Bool.and_eq_true, List.all_eq_true] at h
  have hpair : (id.toList[i], i) ∈ id.toList.zipIdx :=
    List.mem_iff_getElem.mpr ⟨i, by simpa using hi, by simp⟩
  have hc := h.2 _ hpair
  rw [hget] at hc
  have htilde : isHex '~' = false := by decide
  simp [htilde] at hc

/-- `Binding.parse` of a workspace and a GUID. -/
def binding (workspace : Workspace) (backendAgentId : String) : Except Err Binding :=
  match workspace.metadata.uid with
  | none => .error .invalid
  | some uid =>
    if workspace.metadata.name ≠ "" ∧ uid ≠ "" ∧ isGuid backendAgentId then
      .ok ⟨workspace.metadata.name, uid, backendAgentId⟩
    else .error .invalid

def cacheKey (value : Binding) : String := value.workspaceUid ++ ":" ++ value.backendAgentId

/-! ### Process memory -/

/-- What one `mapBounded` call maps over its array. -/
inductive Job where
  | nested (context : String)
  | agentIds

/-- One `mapBounded` call in progress. -/
structure Batch where
  root : Tid
  workspace : Workspace
  job : Job
  next : Nat := 0
  output : List (Nat × Json) := []
  running : Nat
  failed : Option Err := none

structure Mem where
  /-- claim cache in insertion order, with expiry times -/
  claims : List (String × Nat) := []
  /-- claims in flight, by cache key -/
  pending : List (String × Nat) := []
  /-- outcomes of finished claims, by promise -/
  settled : List (Nat × String × Except Err String) := []
  nextPromise : Nat := 0
  activeClaims : Nat := 0
  claimWaiters : List Tid := []
  granted : List Tid := []
  pendingReservations : Nat := 0
  /-- ids with a memoised `verifiedClaim`, by `project` call, and their outcomes -/
  memo : List (Tid × String) := []
  verified : List (Tid × String × Except Err String) := []
  batches : List Batch := []

namespace Mem

def forget (m : Mem) (key : String) : Mem :=
  { m with claims := m.claims.filter fun row => row.1 ≠ key }

/-- Re-insert at the end and drop the oldest entries above the limit. -/
def remember (m : Mem) (now : Nat) (key : String) : Mem :=
  let claims := (m.forget key).claims ++ [(key, now + CACHE_MS)]
  { m with claims := claims.drop (claims.length - MAX_CACHE) }

/-- Take a permit, or queue for one. -/
def permit (m : Mem) (t : Tid) : Bool × Mem :=
  if m.activeClaims ≥ MAX_CONCURRENT_CLAIMS then
    (false, { m with claimWaiters := m.claimWaiters ++ [t] })
  else (true, { m with activeClaims := m.activeClaims + 1 })

def releasePermit (m : Mem) : Mem :=
  match m.claimWaiters with
  | next :: rest => { m with claimWaiters := rest, granted := next :: m.granted }
  | [] => { m with activeClaims := m.activeClaims - 1 }

def setBatch (m : Mem) (i : Nat) (f : Batch → Batch) : Mem :=
  { m with batches := m.batches.modify i f }

end Mem

inductive ClaimStart where
  | cached
  | joined (promise : Nat)
  | full
  | started (promise : Nat) (permitted : Bool)

inductive Ext where
  | beginClaim (key : String)
  | awaitClaim (key : String) (promise : Nat)
  | awaitPermit
  | remember (key : String)
  | forget (key : String)
  | settleClaim (key : String) (promise : Nat) (result : Except Err String)
  | deletePending (key : String)
  | beginReserve
  | releasePermit
  | endReserve
  | memoise (root : Tid) (workspace : Workspace) (id : String)
  | awaitVerified (root : Tid) (id : String)
  | settleVerified (root : Tid) (id : String) (result : Except Err String)
  | beginMap (root : Tid) (workspace : Workspace) (job : Job) (values : List Json)
  | takeIndex (batch : Nat)
  | putOutput (batch : Nat) (index : Nat) (value : Json)
  | endWorker (batch : Nat) (result : Except Err Unit)
  | awaitMap (batch : Nat) (length : Nat)

def Ext.Res : Ext → Type
  | .beginClaim _ => ClaimStart
  | .awaitClaim _ _ => Except Err String
  | .beginReserve => Option Bool
  | .awaitVerified _ _ => Except Err String
  | .beginMap _ _ _ _ => Nat
  | .takeIndex _ => Nat
  | .awaitMap _ _ => Except Err (List Json)
  | _ => Unit

inductive Call where
  | claim (workspace : Workspace) (backendAgentId : String)
  | reserveForCreate (workspace : Workspace) (requestedId : String)
  | resolve (publicOrLegacyId : String) (authorizedWorkspaces : List Workspace)
  | project (value : Json) (workspace : Workspace)
  /-- forked by `project` -/
  | verified (root : Tid) (workspace : Workspace) (id : String)
  | worker (root : Tid) (workspace : Workspace) (job : Job) (batch : Nat) (values : List Json)

@[reducible] def sys : Sys where
  Key := Key
  Val := fun _ => Route
  Note := Empty
  Ext := Ext
  ExtRes := Ext.Res
  Mem := Mem
  Glob := Unit
  Call := Call
  Err := Err
  ofStore := .store

/-! ### The registry -/

/-- `AgentIdentityRegistry.read` -/
def read (id : String) : sys.Task (Option (Nat × Route)) := do
  match ← await (S := sys) (.get (.route id)) with
  | none => .ret none
  | some (version, value) =>
    if value.binding.backendAgentId ≠ id then
      .fail (.error "Agent identity route key and backend ID differ")
    else .ret (some (version, value))

def remember (key : String) : sys.Task Unit := ask (S := sys) (.remember key)

/-- The wait inside `withClaimPermit`. -/
def claimPermit (permitted : Bool) : sys.Task Unit :=
  if permitted then .ret () else ask (S := sys) .awaitPermit

/-- The attempts left to quarantine a GUID someone else holds. -/
def quarantine (value : Binding) : Nat → sys.Task String
  | 0 => .fail .exhausted
  | attempt + 1 => do
    match ← read value.backendAgentId with
    | none => .fail (.error "Agent identity claim conflicted without a valid route")
    | some (_, .collision _ _) => .fail .quarantined
    | some (version, .active existing) =>
      if existing = value then do
        remember (cacheKey value)
        .ret value.backendAgentId
      else do
        ask (S := sys) (.forget (cacheKey existing))
        match ← (await (S := sys) (.update (.route value.backendAgentId) version
            (.collision existing value.workspaceUid))).attempt with
        | .ok _ => .fail .alreadyBound
        | .error (.store .conflict) => quarantine value attempt
        | .error e => .fail e

def claimDurable (value : Binding) : sys.Task String := do
  match ← (await (S := sys) (.create (.route value.backendAgentId) (.active value))).attempt with
  | .ok _ => do
    remember (cacheKey value)
    .ret value.backendAgentId
  | .error (.store .conflict) => quarantine value 8
  | .error e => .fail e

/-- The part of `claim` after the cache and the claims in flight were consulted. -/
def runClaim (value : Binding) (promise : Nat) (permitted : Bool) : sys.Task String := do
  claimPermit permitted
  let result ← (claimDurable value).attempt
  ask (S := sys) (.settleClaim (cacheKey value) promise result)
  ask (S := sys) (.deletePending (cacheKey value))
  .ofExcept result

def claim (workspace : Workspace) (backendAgentId : String) : sys.Task String := do
  let value ← .ofExcept (binding workspace backendAgentId)
  match ← ask (S := sys) (.beginClaim (cacheKey value)) with
  | .cached => .ret value.backendAgentId
  | .joined promise => do
    let result ← ask (S := sys) (.awaitClaim (cacheKey value) promise)
    .ofExcept result
  | .full => .fail .capacity
  | .started promise permitted => runClaim value promise permitted

def reserveForCreate (workspace : Workspace) (requestedId : String) : sys.Task String := do
  let value ← .ofExcept (binding workspace requestedId)
  match ← ask (S := sys) .beginReserve with
  | none =>
    .fail (.error "Agent identity reservation capacity reached; retry after inspection")
  | some permitted => do
    claimPermit permitted
    let created ← (await (S := sys)
      (.create (.route value.backendAgentId) (.active value))).attempt
    ask (S := sys) .releasePermit
    match created with
    | .ok _ => do
      remember (cacheKey value)
      ask (S := sys) .endReserve
      .ret value.backendAgentId
    | .error (.store .conflict) => do
      ask (S := sys) .endReserve
      .fail (.error "Requested agent GUID is already reserved")
    | .error e => do
      ask (S := sys) .endReserve
      .fail e

structure Resolved where
  workspace : Workspace
  backendAgentId : String

/-- The id part of `resolve`: a bare GUID, or the GUID inside a legacy scoped id. -/
def requestedGuid (publicOrLegacyId : String) : Except Err String :=
  if publicOrLegacyId.toList.contains '~' then
    match parseScopedId publicOrLegacyId with
    | .error message => .error (.error message)
    | .ok legacy => if isGuid legacy.2 then .ok legacy.2 else .error .invalid
  else if isGuid publicOrLegacyId then .ok publicOrLegacyId
  else .error .invalid

theorem requestedGuid_ok {id guid : String} (h : requestedGuid id = .ok guid) :
    isGuid guid = true := by
  rw [requestedGuid] at h
  split at h
  · split at h
    · simp at h
    · split at h
      · rename_i hguid
        rwa [← Except.ok.inj h]
      · simp at h
  · split at h
    · rename_i hguid
      rwa [← Except.ok.inj h]
    · simp at h

/-- What `resolve` makes of the record it has read. -/
def resolvedRoute (publicOrLegacyId id : String) (authorizedWorkspaces : List Workspace) :
    Option (Nat × Route) → Except Err Resolved
  | none => .error (.routeUnavailable "Unknown agent identity route; refresh the agent directory")
  | some (_, .collision _ _) => .error .quarantined
  | some (_, .active value) =>
    if publicOrLegacyId.toList.contains '~' ∧
        scopedId value.workspaceId id ≠ publicOrLegacyId then
      .error (.error "Legacy agent ID does not match its durable route")
    else
      match authorizedWorkspaces.find? fun row =>
        row.metadata.name == value.workspaceId &&
          row.metadata.uid == some value.workspaceUid with
      | none => .error (.routeUnavailable "Agent workspace UID changed or access was revoked")
      | some workspace =>
        if workspace.metadata.deletionTimestamp.isSome then
          .error (.routeUnavailable "Agent workspace UID changed or access was revoked")
        else .ok ⟨workspace, value.backendAgentId⟩

def resolve (publicOrLegacyId : String) (authorizedWorkspaces : List Workspace) :
    sys.Task Resolved := do
  let id ← .ofExcept (requestedGuid publicOrLegacyId)
  let record ← read id
  .ofExcept (resolvedRoute publicOrLegacyId id authorizedWorkspaces record)

/-! ### Outward projection -/

def agentKeys : List String :=
  ["agentId", "parentAgentId", "sourceAgentId", "targetAgentId", "callerAgentId"]

def parentLabel : String := "paseo.parent-agent-id"

def opaqueKeys : List String :=
  ["env", "event", "content", "message", "text", "config", "labels", "request",
   "pendingPermissions", "resolution", "detail", "state", "data", "arguments", "input",
   "output", "metadata", "extra", "outputSchema"]

def agentField (key context : String) : Bool :=
  agentKeys.contains key || (key == "id" && (context == "agent" || context == "agents"))

def projectedId (value : String) (workspace : Workspace) : Except Err String :=
  if value.toList.contains '~' then
    match parseScopedId value with
    | .error message => .error (.error message)
    | .ok route =>
      if route.1 ≠ workspace.metadata.name then
        .error (.error "Backend agent identity escaped its workspace")
      else .ok route.2
  else if isGuid value then .ok value
  else .error .invalid

/-- The legacy parent label of an agent is rewritten to the GUID inside it;
    malformed metadata stays as it is. -/
def projectLabels (labels : List (String × Json)) : List (String × Json) :=
  match labels.lookup parentLabel with
  | some (.str parent) =>
    if parent.toList.contains '~' then
      match parseScopedId parent with
      | .ok legacy =>
        if isGuid legacy.2 then Json.setField parentLabel (.str legacy.2) labels else labels
      | .error _ => labels
    else labels
  | _ => labels

/-- `verifiedClaim`: the first use of an id in a `project` call starts its
    verification, later uses share the promise. -/
def verifiedClaim (root : Tid) (workspace : Workspace) (id : String) : sys.Task String := do
  ask (S := sys) (.memoise root workspace id)
  let result ← ask (S := sys) (.awaitVerified root id)
  .ofExcept result

/-- The promise behind `verifiedClaim`: a claim may be answered from a cache, so
    the durable record is read again before the id is published. -/
def verify (workspace : Workspace) (id : String) : sys.Task String := do
  let publicId ← claim workspace id
  let _ ← resolve publicId [workspace]
  .ret publicId

/-- One id of a message: unscoped, then verified. -/
def projectId (root : Tid) (workspace : Workspace) (value : String) : sys.Task String := do
  let id ← .ofExcept (projectedId value workspace)
  verifiedClaim root workspace id

/-- The map over one element of an `agentIds` array. -/
def projectAgentId (root : Tid) (workspace : Workspace) : Json → sys.Task Json
  | .str id => do
    let out ← projectId root workspace id
    .ret (.str out)
  | _ => .fail (.error "Invalid agent ID array")

def mapBounded (root : Tid) (workspace : Workspace) (job : Job) (values : List Json) :
    sys.Task Json := do
  let batch ← ask (S := sys) (.beginMap root workspace job values)
  let result ← ask (S := sys) (.awaitMap batch values.length)
  match result with
  | .ok output => .ret (.arr output)
  | .error e => .fail e

mutual

/-- `AgentRouting.project` -/
def project (root : Tid) (workspace : Workspace) (context : String) : Json → sys.Task Json
  | .arr values => mapBounded root workspace (.nested context) values
  | .obj record => do
    let result ← projectFields root workspace context record
    .ret (.obj result)
  | value => .ret value

def projectFields (root : Tid) (workspace : Workspace) (context : String) :
    List (String × Json) → sys.Task (List (String × Json))
  | [] => .ret []
  | (key, item) :: rest => do
    let out ← projectField root workspace context key item
    let others ← projectFields root workspace context rest
    .ret ((key, out) :: others)

def projectField (root : Tid) (workspace : Workspace) (context key : String) :
    Json → sys.Task Json
  | .str id =>
    if agentField key context then do
      let out ← projectId root workspace id
      .ret (.str out)
    else .ret (.str id)
  | .arr items =>
    if key = "agentIds" then mapBounded root workspace .agentIds items
    else if opaqueKeys.contains key then .ret (.arr items)
    else mapBounded root workspace (.nested key) items
  | .obj fields =>
    if key = "labels" then .ret (.obj (projectLabels fields))
    else if opaqueKeys.contains key then .ret (.obj fields)
    else do
      let out ← projectFields root workspace key fields
      .ret (.obj out)
  | value => .ret value

end

def Job.run (root : Tid) (workspace : Workspace) : Job → Json → sys.Task Json
  | .nested context => project root workspace context
  | .agentIds => projectAgentId root workspace

/-- The loop of one worker.  Indices are taken in turn, so a worker takes at most
    one more than there are values. -/
def workerLoop (run : Json → sys.Task Json) (batch : Nat) (values : List Json) :
    Nat → sys.Task Unit
  | 0 => .ret ()
  | rounds + 1 => do
    let index : Nat ← ask (S := sys) (.takeIndex batch)
    match values[index]? with
    | none => .ret ()
    | some value => do
      let out ← run value
      ask (S := sys) (.putOutput batch index out)
      workerLoop run batch values rounds

/-! ### The machine -/

inductive Out where
  | id (agentId : String)
  | resolved (r : Resolved)
  | projected (value : Json)
  | done

def program (t : Tid) : Call → sys.Task Out
  | .claim workspace id => do
    let out ← claim workspace id
    .ret (.id out)
  | .reserveForCreate workspace id => do
    let out ← reserveForCreate workspace id
    .ret (.id out)
  | .resolve id workspaces => do
    let out ← resolve id workspaces
    .ret (.resolved out)
  | .project value workspace => do
    let out ← project t workspace "" value
    .ret (.projected out)
  | .verified root workspace id => do
    let result ← (verify workspace id).attempt
    ask (S := sys) (.settleVerified root id result)
    .ret .done
  | .worker root workspace job batch values => do
    let result ← (workerLoop (job.run root workspace) batch values (values.length + 1)).attempt
    ask (S := sys) (.endWorker batch result)
    .ret .done

def MAX_WORKERS : Nat := 8

/-- The synchronous segments; `now` is what `Date.now()` returns. -/
def answer (now : Nat) (t : Tid) (x : Ext) (w : World sys) : Option (Answer sys x) :=
  let m : Mem := w.mem t.proc
  match x with
  | .beginClaim key =>
    if (m.claims.lookup key).getD 0 > now then
      some { res := ClaimStart.cached, mem := m.remember now key, glob := () }
    else
      let m := m.forget key
      match m.pending.lookup key with
      | some promise => some { res := ClaimStart.joined promise, mem := m, glob := () }
      | none =>
        if m.pending.length ≥ MAX_PENDING_CLAIMS then
          some { res := ClaimStart.full, mem := m, glob := () }
        else
          let promise := m.nextPromise
          let p := m.permit t
          some {
            res := ClaimStart.started promise p.1
            mem := { p.2 with
              pending := p.2.pending ++ [(key, promise)], nextPromise := promise + 1 }
            glob := () }
  | .awaitClaim key promise =>
    match m.settled.find? fun row => row.1 == promise && row.2.1 == key with
    | some row => some { res := row.2.2, mem := m, glob := () }
    | none => none
  | .awaitPermit =>
    if t ∈ m.granted then
      some { res := (), mem := { m with granted := m.granted.erase t }, glob := () }
    else none
  | .remember key => some { res := (), mem := m.remember now key, glob := () }
  | .forget key => some { res := (), mem := m.forget key, glob := () }
  | .settleClaim key promise result =>
    let m := m.releasePermit
    some { res := (), mem := { m with settled := (promise, key, result) :: m.settled },
           glob := () }
  | .deletePending key =>
    some { res := (), mem := { m with pending := m.pending.filter fun row => row.1 ≠ key },
           glob := () }
  | .beginReserve =>
    if m.pending.length + m.pendingReservations ≥ MAX_PENDING_CLAIMS then
      some { res := (none : Option Bool), mem := m, glob := () }
    else
      let p := m.permit t
      some {
        res := some p.1
        mem := { p.2 with pendingReservations := p.2.pendingReservations + 1 }
        glob := () }
  | .releasePermit => some { res := (), mem := m.releasePermit, glob := () }
  | .endReserve =>
    some { res := (), mem := { m with pendingReservations := m.pendingReservations - 1 },
           glob := () }
  | .memoise root workspace id =>
    if (root, id) ∈ m.memo then some { res := (), mem := m, glob := () }
    else
      some { res := (), mem := { m with memo := (root, id) :: m.memo }, glob := (),
             forks := [.verified root workspace id] }
  | .awaitVerified root id =>
    match m.verified.find? fun row => row.1 == root && row.2.1 == id with
    | some row => some { res := row.2.2, mem := m, glob := () }
    | none => none
  | .settleVerified root id result =>
    some { res := (), mem := { m with verified := (root, id, result) :: m.verified },
           glob := () }
  | .beginMap root workspace job values =>
    let workers := min MAX_WORKERS values.length
    let batch := m.batches.length
    some {
      res := batch
      mem := { m with
        batches := m.batches ++ [{ root, workspace, job, running := workers }] }
      glob := ()
      forks := List.replicate workers (.worker root workspace job batch values) }
  | .takeIndex batch =>
    match m.batches[batch]? with
    | none => none
    | some b =>
      some { res := b.next, mem := m.setBatch batch fun b => { b with next := b.next + 1 },
             glob := () }
  | .putOutput batch index value =>
    some { res := (), glob := (),
           mem := m.setBatch batch fun b => { b with output := (index, value) :: b.output } }
  | .endWorker batch result =>
    some {
      res := ()
      mem := m.setBatch batch fun b => match result with
        | .ok _ => { b with running := b.running - 1 }
        | .error e => { b with running := b.running - 1, failed := b.failed.or (some e) }
      glob := () }
  | .awaitMap batch length =>
    match m.batches[batch]? with
    | none => none
    | some b =>
      match b.failed with
      | some e => some { res := (.error e : Except Err (List Json)), mem := m, glob := () }
      | none =>
        if b.running = 0 then
          some {
            res := (.ok ((List.range length).map fun i => (b.output.lookup i).getD .null) :
              Except Err (List Json))
            mem := m
            glob := () }
        else none

/-- Any number of registries over one store that starts without records. -/
def registry : Machine sys where
  Out := Out
  Choice := Nat
  Env := Empty
  program := program
  answer := answer
  entry := fun _ call _ => match call with
    | .verified _ _ _ => false
    | .worker _ _ _ _ _ => false
    | _ => true
  freshMem := {}
  afterCrash := fun _ g => g
  env := fun e => e.elim
  env_author := fun {e} => e.elim
  init := { trace := [], mem := fun _ => {}, glob := (), next := 0, calls := fun _ => none }
  init_next := rfl
  init_calls := fun _ => rfl

end PaseoGateway.AgentIdentity
