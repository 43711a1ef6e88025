/-
  PaseoGateway/WorkspacePaths.lean
  ================================
  **The paths that a client message may carry.**

  Mirrors `relativeFilePath` and the path checks of `Session.forward` in
  `src/src/gateway/session.ts`, and the working directory of `createAgent` in
  `src/src/gateway/workspace-operations.ts`.  The schemas see to it that a message of one
  of the checked types has the fields that the check reads.
-/
import PaseoGateway.LexicalPath

namespace PaseoGateway.WorkspacePaths

open LexicalPath (isAbsolute relative)
open Routing (route translate selectWorkspace normalize requestedCwd ofMessage Reads)

/-- The text of a field. -/
def textOf (message : Json) (key : String) : Option String :=
  match message.field? key with
  | some (.str text) => some text
  | _ => none

/-- `path === root || path.startsWith(root + "/")` -/
def within (root path : String) : Bool :=
  path == root || (root ++ "/").toList.isPrefixOf path.toList

/-! ### `Session.forward` -/

section Forward

variable (processDir : List String)

def relativeFilePath (cwd path : String) : Except String String :=
  let root := normalize cwd
  let relative := if isAbsolute path then relative processDir root (normalize path)
    else normalize path
  if relative = ".." ∨ "../".toList.isPrefixOf relative.toList ∨ isAbsolute relative then
    .error "File path is outside the selected workspace"
  else .ok relative

/-- The check of a `file_download_token_request`; `downloads` says that there are handles. -/
def checkDownload (downloads : Bool) (workspace : Workspace) (message : Json) :
    Except String Unit :=
  if textOf message "type" = some "file_download_token_request" then
    match textOf message "path" with
    | none => .error "Invalid message"
    | some path =>
      if !isAbsolute path || !within (workspacePath workspace.metadata.name) (normalize path) then
        .error "Download path is outside the selected workspace"
      else if !downloads then .error "Gateway download routing is unavailable"
      else .ok ()
  else .ok ()

/-- `fs.file.write.request` and `fs.file.subscribe.request` -/
def filesMessage (message : Json) : Bool :=
  textOf message "type" = some "fs.file.write.request" ||
    textOf message "type" = some "fs.file.subscribe.request"

def checkFile (input : Json) : Except String Unit :=
  if filesMessage input then
    match textOf input "cwd", textOf input "path" with
    | some cwd, some path => do
      let _ ← relativeFilePath processDir cwd path
      .ok ()
    | _, _ => .error "Invalid message"
  else .ok ()

/-- What is sent to the backend of which workspace, with the checks of the paths; the reads of
    both passes of `route` are given. -/
def forwardChecked (downloads : Bool) (reads reads' : Reads) (workspaces active : List Workspace)
    (localId : Workspace → String) (message : Json) :
    Except AgentIdentity.Err (Workspace × Json) := do
  let routed ← route workspaces reads "" message
  let workspace ← ofMessage (selectWorkspace routed active)
  let again ← route [workspace] reads' "" routed
  ofMessage (checkDownload downloads workspace routed)
  let input ← ofMessage (Routing.translate workspace (localId workspace) .inward "" again)
  ofMessage (checkFile processDir input)
  .ok (workspace, input)

end Forward

/-! ### `createAgent` -/

/-- What `createAgent` reads of its message. -/
structure CreateAgent where
  workspaceId : Option String
  worktree : Bool
  cwd : String

/-- The workspace the message names, or the one at its directory. -/
def namedWorkspace (workspaces : List Workspace) (message : CreateAgent) : Option String :=
  match message.workspaceId.filter (· ≠ "") with
  | some id => some id
  | none => (workspaces.find? fun row => message.cwd = workspacePath row.metadata.name).map
      fun row => row.metadata.name

def reusingWorkspace (workspaces : List Workspace) (message : CreateAgent) : Bool :=
  ((namedWorkspace workspaces message).filter (· ≠ "")).isSome && !message.worktree

/-- The workspace and the directory the agent is created in; `created` is the workspace that is
    created for it when none is reused. -/
def agentCwd (workspaces : List Workspace) (created : String) (message : CreateAgent) :
    Except String (String × String) :=
  let reusing := reusingWorkspace workspaces message
  let workspaceId := if reusing then (namedWorkspace workspaces message).getD created else created
  let requestedCwd := normalize message.cwd
  let root := workspacePath workspaceId
  if reusing && !within root requestedCwd then .error "Agent cwd is outside the selected workspace"
  else .ok (workspaceId, if reusing then requestedCwd else root)

end PaseoGateway.WorkspacePaths
