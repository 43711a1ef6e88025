/-
  PaseoGateway/WorkspaceLabels.lean
  =================================
  **The workspace label catalog and its subscriptions.**

  Mirrors `src/src/gateway/workspace-labels.ts`, with `DirectoryGeneration` of
  `src/src/gateway/catalog.ts`.  The catalog is one record of the store; each
  gateway process holds the subscriptions of its own clients.

  The colour check of the protocol package and the size of a JSON text are
  parameters; nothing is assumed of them.  `store.workspaces()` answers with the
  workspaces of the moment or fails, and the clock is read when it answers.

  A loop over a live `Map` has no bound of its own: a call is started with the
  number of turns its publishing loop may take, and waits for ever after that.

  The memory also records what the code does not: from which version of the catalog
  each subscription was last served, and how far which publication has come.
-/
import PaseoGateway.AsyncPool
import PaseoGateway.Domain
import PaseoGateway.JsString

namespace PaseoGateway.WorkspaceLabels

open Async

/-! ### The catalog -/

structure Label where
  name : String
  color : String
deriving DecidableEq, Repr

structure Assignment where
  workspaceId : String
  workspaceUid : String
  labels : List String
deriving DecidableEq, Repr

structure CatalogState where
  labels : List Label := []
  assignments : List Assignment := []
deriving DecidableEq, Repr

/-- What the protocol package and the JavaScript runtime provide. -/
structure Runtime where
  /-- the check of `WorkspaceLabelDefinitionSchema` on a colour -/
  color : String → Bool
  /-- `Buffer.byteLength(JSON.stringify(state))` -/
  jsonBytes : CatalogState → Nat
  /-- the id of the directory generation of each process -/
  directoryId : Nat → String

inductive Err where
  | store (e : StoreErr)
  /-- a schema refused a value -/
  | invalid
  | message (text : String)
deriving DecidableEq, Repr

def parseName (value : String) : Option String :=
  let trimmed := Js.trim value
  if 1 ≤ Js.length trimmed ∧ Js.length trimmed ≤ 80 ∧ trimmed.toList.all (32 ≤ ·.toNat) then
    some trimmed
  else none

section Schema

variable (rt : Runtime)

/-- `Definition.parse` -/
def parseDefinition (label : Label) : Option Label :=
  if rt.color label.color then (parseName label.name).map fun name => { label with name } else none

def parseAssignment (row : Assignment) : Option Assignment :=
  if row.labels.length ≤ 16 then
    (row.labels.mapM parseName).map fun labels => { row with labels }
  else none

/-- `Catalog.parse` -/
def parseCatalog (state : CatalogState) : Option CatalogState :=
  if state.labels.length ≤ 128 ∧ state.assignments.length ≤ 256 then do
    let labels ← state.labels.mapM (parseDefinition rt)
    let assignments ← state.assignments.mapM parseAssignment
    some { labels, assignments }
  else none

end Schema

def isOf (workspace : Workspace) (row : Assignment) : Bool :=
  row.workspaceId == workspace.metadata.name && some row.workspaceUid == workspace.metadata.uid

def labelsFor (state : CatalogState) (workspace : Workspace) : List String :=
  ((state.assignments.find? (isOf workspace)).map Assignment.labels).getD []

def visible (state : CatalogState) (principal : GatewayPrincipal) (workspaces : List Workspace) :
    List Label :=
  match principal with
  | .owner => state.labels
  | .workspace _ => state.labels.filter fun label =>
      workspaces.any fun workspace => (labelsFor state workspace).contains label.name

/-! ### Changes to the catalog -/

inductive Outcome where
  | assignment (label : Label) (workspaceLabels : List String)
  | updated (label : Label) (affectedWorkspaceCount : Nat)
  | deleted (affectedWorkspaceCount : Nat)
deriving DecidableEq, Repr

/-- The function `change` is given. -/
abbrev Change := CatalogState → List Workspace → Except Err (Outcome × CatalogState)

/-- The assignments of workspaces that are gone are dropped before every change. -/
def collect (workspaces : List Workspace) (state : CatalogState) : CatalogState :=
  { state with assignments := state.assignments.filter fun row =>
      workspaces.any fun w => isOf w row && w.metadata.deletionTimestamp.isNone }

/-- The labels of a workspace after one is set or unset. -/
def relabel (name : String) (assigned : Bool) (labels : List String) : List String :=
  if assigned then (labels ++ [name]).eraseDups else labels.filter (· != name)

/-- The assignments after a label is set or unset on a workspace, and the labels the
    workspace then has. -/
def assign (workspaceId workspaceUid name : String) (assigned : Bool) (rows : List Assignment) :
    List String × List Assignment :=
  let mine := fun row : Assignment =>
    row.workspaceId == workspaceId && row.workspaceUid == workspaceUid
  match rows.find? mine with
  | some row =>
    let labels := relabel name assigned row.labels
    if labels = [] then ([], rows.eraseP mine)
    else (labels, rows.replaceF fun r => if mine r then some { r with labels } else none)
  | none =>
    if assigned then
      ([name], rows.filter (·.workspaceId != workspaceId) ++
        [{ workspaceId, workspaceUid, labels := [name] }])
    else ([], rows)

def setAssignment (principal : GatewayPrincipal) (workspace : Workspace) (uid : String)
    (label : Label) (assigned : Bool) : Change := fun state currentWorkspaces =>
  let refused : Except Err (Outcome × CatalogState) :=
    .error (.message "Workspace label target changed or access revoked")
  match currentWorkspaces.find? fun row => row.metadata.name == workspace.metadata.name with
  | none => refused
  | some current =>
    if current.metadata.uid ≠ workspace.metadata.uid ∨ current.metadata.deletionTimestamp.isSome ∨
        ¬ authorizeWorkspace principal current then refused
    else
      let existing := state.labels.find? fun row => row.name == label.name
      if existing.any fun row => row.color != label.color then
        .error (.message "Workspace label name already has a different color")
      else
        let labels := if existing.isNone && assigned then state.labels ++ [label] else state.labels
        let (workspaceLabels, assignments) :=
          assign workspace.metadata.name uid label.name assigned state.assignments
        .ok (.assignment (existing.getD label) workspaceLabels, { labels, assignments })

/-- The workspaces that carry the label. -/
def affected (name : String) (state : CatalogState) : Nat :=
  (state.assignments.filter fun row => row.labels.contains name).length

def renamed (current next : String) (row : Assignment) : Assignment :=
  { row with labels := row.labels.map fun value => if value = current then next else value }

def updateLabel (rt : Runtime) (current next : String) (color : Option String) : Change :=
  fun state _ =>
    let label := state.labels.find? fun row => row.name == current
    if label.isNone ∧ color.isNone then .error (.message "Workspace label does not exist")
    else if next ≠ current ∧ state.labels.any fun row => row.name == next then
      .error (.message "Workspace label already exists")
    else
      match (color.or (label.map Label.color)).bind fun c => parseDefinition rt ⟨next, c⟩ with
      | none => .error .invalid
      | some updated =>
        let labels := if label.isSome then
            state.labels.replaceF fun row => if row.name == current then some updated else none
          else state.labels ++ [updated]
        let assignments := if next ≠ current then state.assignments.map (renamed current next)
          else state.assignments
        .ok (.updated updated (affected current state), { labels, assignments })

def deleteLabel (labelName : String) : Change := fun state _ =>
  .ok (.deleted (affected labelName state),
    { labels := state.labels.filter (·.name != labelName)
      assignments := state.assignments.map fun row =>
        { row with labels := row.labels.filter (· != labelName) } })

/-! ### The system -/

inductive Key where
  | catalog
deriving DecidableEq

/-- `DirectoryGeneration.snapshot` -/
structure Sync where
  generation : String
  headSeq : Nat
  reason : String
deriving DecidableEq, Repr

inductive Reply where
  | release (subscriptionId : String)
  | list (labels : List Label) (subscriptionId : Option String) (sync : Sync)
  | outcome (result : Outcome)
  | inspect (affectedWorkspaceCount : Nat)
deriving DecidableEq, Repr

/-- What is emitted to a session (emitters are numbered), and what the environment
    does: the workspaces there are from now on, and the time. -/
inductive Note where
  | reply (emitter : Nat) (requestId : String) (reply : Reply)
  | upsert (emitter : Nat) (subscriptionId : String) (label : Label) (generation : String)
      (seq : Nat)
  | remove (emitter : Nat) (subscriptionId name : String) (generation : String) (seq : Nat)
  | workspaces (workspaces : List Workspace)
  | clock (nowSeconds : Nat)
deriving DecidableEq, Repr

/-- One turn of the loop over the subscriptions: the entry and its value. -/
structure Visit where
  position : Nat
  subscriptionId : String
  object : Nat
  principal : GatewayPrincipal
deriving DecidableEq, Repr

inductive Ext where
  /-- `store.workspaces()`, and the clock when it answers -/
  | workspaces
  | release (emitter : Nat) (requestId subscriptionId : String)
  | releaseEmitter (emitter : Nat)
  | listed (principal : GatewayPrincipal) (emitter : Nat) (requestId : String)
      (subscribe : Option (Option String)) (generation : Option String) (version : Nat)
      (visible : List Label)
  | reply (emitter : Nat) (requestId : String) (reply : Reply)
  /-- the first entry of the map from this position on -/
  | next (version position : Nat)
  | deliver (visit : Visit) (version : Nat) (visible : List Label)
  | drop (visit : Visit) (version : Nat)
  /-- never answered -/
  | stuck

def Ext.Res : Ext → Type
  | .workspaces => Except Err (List Workspace × Nat)
  | .release _ _ _ => Bool
  | .releaseEmitter _ => Unit
  | .listed _ _ _ _ _ _ _ => Except Err Unit
  | .reply _ _ _ => Unit
  | .next _ _ => Option Visit
  | .deliver _ _ _ => Unit
  | .drop _ _ => Unit
  | .stuck => Unit

inductive Message where
  | release (requestId subscriptionId : String)
  | list (requestId : String) (subscribe : Option (Option String)) (generation : Option String)
  | setAssignment (requestId workspaceId : String) (label : Label) (assigned : Bool)
  | update (requestId name : String) (newName color : Option String)
  | delete (requestId name : String)
  | inspect (requestId name : String)
  /-- any other message, and whether its type is one of the label family -/
  | other (label : Bool)
deriving DecidableEq, Repr

inductive Call where
  | handle (turns : Nat) (message : Message) (principal : GatewayPrincipal) (emitter : Nat)
  | releaseEmitter (emitter : Nat)
  | workspaceLabels (workspace : Workspace)
  | workspaceLabelsMany (workspaces : List Workspace)
deriving DecidableEq, Repr

structure Subscription where
  principal : GatewayPrincipal
  emitter : Nat
  seen : List (String × String)
  /-- the version `seen` was computed from -/
  version : Nat
deriving DecidableEq, Repr

/-- An entry of the subscription map, at the position it was first inserted. -/
structure Slot where
  position : Nat
  subscriptionId : String
  object : Nat
deriving DecidableEq, Repr

/-- How a subscription is served: by a publication, or when it is put into the map. -/
inductive Serving where
  /-- the version delivered, the one served before, and whether the client has another
      subscription of this id by now -/
  | delivered (version before : Nat) (replaced : Bool)
  /-- the version listed, and those of the publications that have gone past its place -/
  | installed (version : Nat) (past : List Nat)
deriving DecidableEq, Repr

/-- One `WorkspaceLabels`: the map of subscriptions in insertion order, the objects it
    has held, and the sequence number of its directory. -/
structure Mem where
  subscriptions : List Slot := []
  objects : List Subscription := []
  positions : Nat := 0
  sequence : Nat := 0
  /-- the versions of publications, and the positions before which they have gone -/
  passed : List (Nat × Nat) := []
  /-- the versions of those that have gone through -/
  finished : List Nat := []
  servings : List Serving := []

@[reducible] def sys : Sys where
  Key := Key
  Val := fun _ => CatalogState
  Note := Note
  Ext := Ext
  ExtRes := Ext.Res
  Mem := Mem
  Glob := Unit
  Call := Call
  Err := Err
  ofStore := .store

/-! ### Reads -/

section Labels

variable (rt : Runtime)

def read : sys.Task (Option (Nat × CatalogState) × CatalogState) := do
  let record ← await (S := sys) (.get .catalog)
  match parseCatalog rt ((record.map Prod.snd).getD {}) with
  | none => .fail .invalid
  | some state => .ret (record, state)

def scope (principal : GatewayPrincipal) : sys.Task (List Workspace) := do
  let (workspaces, now) ← askOr (S := sys) .workspaces rfl
  if ¬ principalIsActive now workspaces principal then
    .fail (.message "Workspace credential expired or revoked")
  else
    .ret (workspaces.filter fun w =>
      w.metadata.deletionTimestamp.isNone && authorizeWorkspace principal w)

def workspaceLabels (workspace : Workspace) : sys.Task (List String) := do
  let (_, state) ← read rt
  .ret (labelsFor state workspace)

def workspaceLabelsMany (workspaces : List Workspace) : sys.Task (List (String × List String)) :=
  if workspaces.isEmpty then .ret []
  else do
    let (_, state) ← read rt
    .ret (workspaces.map fun w => (w.metadata.name, labelsFor state w))

/-! ### Publishing -/

/-- The version of a record that was read; without a record it is 0. -/
def versionOf (record : Option (Nat × CatalogState)) : Nat := (record.map (·.1 + 1)).getD 0

/-- The loop over the subscriptions from a position on. -/
def publishFrom (version : Nat) (state : CatalogState) : Nat → Nat → sys.Task Unit
  | 0, _ => ask (S := sys) .stuck
  | turns + 1, position => do
    match ← ask (S := sys) (.next version position) with
    | none => .ret ()
    | some visit => do
      match ← (scope visit.principal).attempt with
      | .error _ => do
        ask (S := sys) (.drop visit version)
        publishFrom version state turns (visit.position + 1)
      | .ok workspaces => do
        ask (S := sys) (.deliver visit version (visible state visit.principal workspaces))
        publishFrom version state turns (visit.position + 1)

def publish (turns : Nat) : sys.Task Unit := do
  let (record, state) ← read rt
  publishFrom (versionOf record) state turns 0

/-! ### Changes -/

/-- What one attempt of `change` computes between its reads and its write. -/
def evaluate (fn : Change) (workspaces : List Workspace)
    (state : CatalogState) : Except Err (Outcome × CatalogState) := do
  let (result, state) ← fn (collect workspaces state) workspaces
  if (parseCatalog rt state).isNone then .error .invalid
  else if 500000 < rt.jsonBytes state then
    .error (.message "Workspace label catalog exceeds its metadata budget")
  else .ok (result, state)

def write (record : Option (Nat × CatalogState)) (state : CatalogState) : sys.Task Nat :=
  match record with
  | some (version, _) => await (S := sys) (.update .catalog version state)
  | none => await (S := sys) (.create .catalog state)

def changeAttempts (principal : GatewayPrincipal) (fn : Change) : Nat → sys.Task Outcome
  | 0 => .fail (.message "Workspace label catalog update conflicted")
  | attempts + 1 => do
    let (workspaces, now) ← askOr (S := sys) .workspaces rfl
    if ¬ principalIsActive now workspaces principal then
      .fail (.message "Workspace credential expired or revoked")
    else do
      let (record, state) ← read rt
      match evaluate rt fn workspaces state with
      | .error e => .fail e
      | .ok (result, state) => do
        match ← (write record state).attempt with
        | .ok _ => .ret result
        | .error e =>
          if e ≠ .store .conflict ∨ attempts = 0 then .fail e
          else changeAttempts principal fn attempts

def change (principal : GatewayPrincipal) (fn : Change) : sys.Task Outcome :=
  changeAttempts rt principal fn 5

/-! ### Requests -/

/-- A change, its reply, and the news to the subscribers. -/
def changeAndPublish (turns : Nat) (principal : GatewayPrincipal) (emitter : Nat)
    (requestId : String) (fn : Change) : sys.Task Bool := do
  let result ← change rt principal fn
  ask (S := sys) (.reply emitter requestId (.outcome result))
  publish rt turns
  .ret true

def handleSetAssignment (turns : Nat) (principal : GatewayPrincipal) (emitter : Nat)
    (requestId workspaceId : String) (label : Label) (assigned : Bool)
    (workspaces : List Workspace) : sys.Task Bool :=
  match workspaces.find? fun w => w.metadata.name == workspaceId with
  | none => .fail (.message "Workspace label target unavailable or access denied")
  | some workspace =>
    let uid := workspace.metadata.uid.getD ""
    if uid = "" then .fail (.message "Workspace label target unavailable or access denied")
    else match parseDefinition rt label with
      | none => .fail .invalid
      | some label =>
        changeAndPublish rt turns principal emitter requestId
          (setAssignment principal workspace uid label assigned)

def ownerOnly (principal : GatewayPrincipal) (request : sys.Task Bool) : sys.Task Bool :=
  if principal ≠ .owner then
    .fail (.message "Workspace label catalog management requires owner access")
  else request

def handle (turns : Nat) (message : Message) (principal : GatewayPrincipal) (emitter : Nat) :
    sys.Task Bool :=
  match message with
  | .release requestId subscriptionId =>
    ask (S := sys) (.release emitter requestId subscriptionId)
  | .other false => .ret false
  | .other true => do
    let _ ← scope principal
    ownerOnly principal (.ret false)
  | .list requestId subscribe generation => do
    let workspaces ← scope principal
    let (record, state) ← read rt
    askOr (S := sys) (.listed principal emitter requestId subscribe generation
      (versionOf record) (visible state principal workspaces)) rfl
    .ret true
  | .setAssignment requestId workspaceId label assigned => do
    let workspaces ← scope principal
    handleSetAssignment rt turns principal emitter requestId workspaceId label assigned
      workspaces
  | .update requestId name newName color => do
    let _ ← scope principal
    ownerOnly principal <| match parseName name, (newName.map parseName).getD (parseName name) with
      | some current, some next =>
        changeAndPublish rt turns principal emitter requestId
          (updateLabel rt current next color)
      | _, _ => .fail .invalid
  | .delete requestId name => do
    let _ ← scope principal
    ownerOnly principal <| match parseName name with
      | some labelName =>
        changeAndPublish rt turns principal emitter requestId (deleteLabel labelName)
      | none => .fail .invalid
  | .inspect requestId name => do
    let _ ← scope principal
    ownerOnly principal <| match parseName name with
      | some labelName => do
        let (_, state) ← read rt
        ask (S := sys) (.reply emitter requestId (.inspect (affected labelName state)))
        .ret true
      | none => .fail .invalid

end Labels

/-! ### The memory of a process -/

namespace Mem

variable (mem : Mem)

def find (subscriptionId : String) : Option Slot :=
  mem.subscriptions.find? fun slot => slot.subscriptionId == subscriptionId

/-- `subscriptions.get(id)` -/
def get (subscriptionId : String) : Option Subscription :=
  (mem.find subscriptionId).bind fun slot => mem.objects[slot.object]?

def delete (subscriptionId : String) : Mem :=
  { mem with subscriptions := mem.subscriptions.filter (·.subscriptionId != subscriptionId) }

def releaseEmitter (emitter : Nat) : Mem :=
  { mem with subscriptions := mem.subscriptions.filter fun slot =>
      (mem.objects[slot.object]?.map Subscription.emitter) != some emitter }

/-- `subscriptions.set(id, subscription)`; a key keeps the position it has. -/
def set (subscriptionId : String) (subscription : Subscription) : Mem :=
  let object := mem.objects.length
  { mem with
    objects := mem.objects ++ [subscription]
    positions := mem.positions + 1
    subscriptions := if (mem.find subscriptionId).isSome then
        mem.subscriptions.map fun slot =>
          if slot.subscriptionId = subscriptionId then { slot with object } else slot
      else mem.subscriptions ++ [⟨mem.positions, subscriptionId, object⟩] }

/-- The versions of the publications that will not see a new subscription of this id. -/
def past (subscriptionId : String) : List Nat :=
  let position := ((mem.find subscriptionId).map Slot.position).getD mem.positions
  mem.finished ++ (mem.passed.filter fun pass => position < pass.2).map Prod.fst

/-- Whether the client of an object has another one under this id. -/
def replaced (subscriptionId : String) (object emitter : Nat) : Bool :=
  mem.subscriptions.any fun slot => slot.subscriptionId == subscriptionId &&
    slot.object != object && (mem.objects[slot.object]?.map Subscription.emitter) == some emitter

/-- The first entry from a position on. -/
def visit (position : Nat) : Option Visit :=
  (mem.subscriptions.find? fun slot => position ≤ slot.position).bind fun slot =>
    mem.objects[slot.object]?.map fun subscription =>
      ⟨slot.position, slot.subscriptionId, slot.object, subscription.principal⟩

end Mem

/-- `new Map(labels.map((label) => [label.name, label.color]))` -/
def toMap (labels : List Label) : List (String × String) :=
  labels.foldl (fun map label =>
    if map.any (·.1 == label.name) then
      map.map fun entry => if entry.1 = label.name then (entry.1, label.color) else entry
    else map ++ [(label.name, label.color)]) []

/-- The updates that turn `seen` into `current`, in the order they are emitted. -/
def updates (emitter : Nat) (subscriptionId generation : String) (sequence : Nat)
    (seen current : List (String × String)) : List Note :=
  let upserts := current.filter fun entry => seen.lookup entry.1 != some entry.2
  let removals := seen.filter fun entry => !current.any (·.1 == entry.1)
  upserts.mapIdx (fun i entry =>
    .upsert emitter subscriptionId ⟨entry.1, entry.2⟩ generation (sequence + i + 1)) ++
  removals.mapIdx fun i entry =>
    .remove emitter subscriptionId entry.1 generation (sequence + upserts.length + i + 1)

/-- The size limit and ownership checks of a subscription. -/
def subscribeRefusal (mem : Mem) (emitter : Nat) (subscriptionId : String) : Option Err :=
  if (mem.find subscriptionId).isNone ∧ 256 ≤ mem.subscriptions.length then
    some (.message "Workspace label subscription capacity reached")
  else if (mem.get subscriptionId).any fun prior => prior.emitter != emitter then
    some (.message "Workspace label subscription belongs to another session")
  else none

def syncReason (previousGeneration : Option String) (generation : String) : String :=
  if previousGeneration.any fun previous => previous != "" && previous != generation then
    "generation_changed"
  else "no_cursor"

/-! ### The machine -/

inductive Out where
  | handled (handled : Bool)
  | released
  | labels (labels : List String)
  | many (labels : List (String × List String))

def program (rt : Runtime) : Call → sys.Task Out
  | .handle turns message principal emitter => do
    let handled ← handle rt turns message principal emitter
    .ret (.handled handled)
  | .releaseEmitter emitter => do
    ask (S := sys) (.releaseEmitter emitter)
    .ret .released
  | .workspaceLabels workspace => do
    let labels ← workspaceLabels rt workspace
    .ret (.labels labels)
  | .workspaceLabelsMany workspaces => do
    let labels ← workspaceLabelsMany rt workspaces
    .ret (.many labels)

abbrev History := Trace Key (fun _ => CatalogState) Note

/-- The workspaces there are. -/
def workspacesOf : History → List Workspace
  | [] => []
  | .note _ (.workspaces workspaces) :: _ => workspaces
  | _ :: older => workspacesOf older

def clockOf : History → Nat
  | [] => 0
  | .note _ (.clock nowSeconds) :: _ => nowSeconds
  | _ :: older => clockOf older

/-- What the environment decides about one request. -/
structure Choice where
  uuid : String := ""
  fails : Bool := false

def answer (rt : Runtime) (c : Choice) (t : Tid) (x : Ext) (w : World sys) :
    Option (Answer sys x) :=
  let mem : Mem := w.mem t.proc
  match x with
  | .workspaces =>
    let result : Except Err (List Workspace × Nat) :=
      if c.fails then .error (.store .unavailable)
      else .ok (workspacesOf w.trace, clockOf w.trace)
    some { res := result, mem, glob := () }
  | .release emitter requestId subscriptionId =>
    if (mem.get subscriptionId).any fun subscription => subscription.emitter == emitter then
      some { res := true, mem := mem.delete subscriptionId, glob := (),
             notes := [.reply emitter requestId (.release subscriptionId)] }
    else some { res := false, mem, glob := () }
  | .releaseEmitter emitter => some { res := (), mem := mem.releaseEmitter emitter, glob := () }
  | .listed principal emitter requestId subscribe generation version labels =>
    let sync : Sync := { generation := rt.directoryId t.proc, headSeq := mem.sequence + 1,
                         reason := syncReason generation (rt.directoryId t.proc) }
    let ok : Except Err Unit := .ok ()
    match subscribe with
    | none =>
      some { res := ok, mem := { mem with sequence := mem.sequence + 1 }, glob := (),
             notes := [.reply emitter requestId (.list labels none sync)] }
    | some given =>
      let subscriptionId := given.getD c.uuid
      match subscribeRefusal mem emitter subscriptionId with
      | some e => some { res := (.error e : Except Err Unit), mem, glob := () }
      | none =>
        let subscribed := mem.set subscriptionId
          { principal, emitter, seen := toMap labels, version }
        some { res := ok, glob := (),
               mem := { subscribed with
                 sequence := mem.sequence + 1
                 servings := .installed version (mem.past subscriptionId) :: mem.servings }
               notes := [.reply emitter requestId (.list labels (some subscriptionId) sync)] }
  | .reply emitter requestId reply =>
    some { res := (), mem, glob := (), notes := [.reply emitter requestId reply] }
  | .next version position =>
    match mem.visit position with
    | some visit => some { res := some visit, mem, glob := () }
    | none =>
      some { res := none, mem := { mem with finished := version :: mem.finished }, glob := () }
  | .deliver visit version labels =>
    let current := toMap labels
    match mem.objects[visit.object]? with
    | none => none
    | some subscription =>
      let news := updates subscription.emitter visit.subscriptionId (rt.directoryId t.proc)
        mem.sequence subscription.seen current
      some { res := (), glob := (), notes := news.reverse,
             mem := { mem with
               objects := mem.objects.set visit.object { subscription with seen := current, version }
               sequence := mem.sequence + news.length
               passed := (version, visit.position + 1) :: mem.passed
               servings := .delivered version subscription.version
                 (mem.replaced visit.subscriptionId visit.object subscription.emitter) ::
                   mem.servings } }
  | .drop visit version =>
    let dropped := mem.delete visit.subscriptionId
    some { res := (), glob := (),
           mem := { dropped with passed := (version, visit.position + 1) :: mem.passed } }
  | .stuck => none

/-- What the environment does on its own: workspaces come, change and go, and time
    passes. -/
inductive Env where
  | workspaces (workspaces : List Workspace)
  | clock (nowSeconds : Nat)

def env (e : Env) (w : World sys) : Option (History × Unit) :=
  match e with
  | .workspaces workspaces => some ([.note none (.workspaces workspaces)], ())
  | .clock nowSeconds =>
    if clockOf w.trace ≤ nowSeconds then some ([.note none (.clock nowSeconds)], ()) else none

/-- Any number of gateways over one store. -/
def machine (rt : Runtime) : Machine sys where
  Out := Out
  Choice := Choice
  Env := Env
  program := fun _ => program rt
  answer := answer rt
  entry := fun _ _ _ => true
  freshMem := {}
  afterCrash := fun _ g => g
  env := env
  env_author := by
    intro e w new g h x hx
    cases e with
    | workspaces workspaces =>
      cases h
      obtain rfl := List.mem_singleton.mp hx
      rfl
    | clock nowSeconds =>
      simp only [env] at h
      split at h
      · cases h
        obtain rfl := List.mem_singleton.mp hx
        rfl
      · cases h
  init := { trace := [], mem := fun _ => {}, glob := (), next := 0, calls := fun _ => none }
  init_next := rfl
  init_calls := fun _ => rfl

end PaseoGateway.WorkspaceLabels
