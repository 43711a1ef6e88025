/-
  PaseoGateway/Teardown.lean
  ==========================
  **Teardown hooks of a workspace.**

  Mirrors `src/docker/teardown.mjs`.  Any number of `teardownOnce` processes share
  the home volume; each may be killed between two awaited requests, and every
  request to the file system may fail, with or without having taken effect.
  Nothing but `teardownOnce` writes the two marker files; every other file, the
  repository's `paseo.json` among them, may change at any time.

  The value `JSON.parse` reads from a text is a parameter.
-/
import PaseoGateway.AsyncPool
import PaseoGateway.JsString
import PaseoGateway.Json
import PaseoGateway.Volume

namespace PaseoGateway.Teardown

open Async Volume

/-! ### Files, errors and effects -/

inductive Path where
  /-- `gateway-teardown-complete` -/
  | complete
  /-- `gateway-teardown-complete.tmp` -/
  | completeTmp
  /-- `gateway-teardown-started` -/
  | started
  /-- `paseo.json` of the checkout -/
  | paseoJson
  | other (name : String)
deriving DecidableEq, Repr

/-- The two marker files. -/
def Path.marker : Path → Bool
  | .complete | .started => true
  | _ => false

inductive Err where
  /-- an error of the file system, by its code -/
  | code (code : String)
  | error (message : String)
deriving DecidableEq, Repr

/-- How a hook's process settled the promise waiting for it. -/
inductive Outcome where
  /-- it exited; a process killed by a signal has no exit code -/
  | exit (code : Option Int)
  | error
  | timedOut
deriving DecidableEq, Repr

inductive Note where
  | file (effect : Effect Path String)
  /-- what `teardown` found in `paseo.json` -/
  | config (read : Except String String)
  | hookStarted (command : String)
  | hookExited (command : String) (code : Option Int)

inductive Ext where
  | fs (op : Op Path String)
  /-- `teardown` reads `paseo.json` -/
  | readConfig
  /-- `mkdir`, `sync`, `close` and opening a directory: they succeed or report an error -/
  | settle
  | now
  | spawn (command : String)
  | settled (command : String) (remaining : Nat)

abbrev ExtRes : Ext → Type
  | .fs op => Except String op.Ans
  | .readConfig => Except String String
  | .settle => Except String Unit
  | .now => Nat
  | .spawn _ => Unit
  | .settled _ _ => Outcome

inductive Call where
  | teardownOnce (timeoutMs : Nat)

@[reducible] def sys : Sys where
  Key := Empty
  Val := nofun
  Note := Note
  Ext := Ext
  ExtRes := ExtRes
  Mem := Unit
  Glob := Unit
  Call := Call
  Err := Err
  ofStore := fun _ => .error "no store"

/-! ### The requests a process makes -/

def orThrow {α : Type} : Except String α → sys.Task α
  | .ok a => .ret a
  | .error code => .fail (.code code)

def fs (op : Op Path String) : sys.Task op.Ans := do orThrow (← ask (S := sys) (.fs op))

def readConfig : sys.Task String := do orThrow (← ask (S := sys) .readConfig)

def settle : sys.Task Unit := do orThrow (← ask (S := sys) .settle)

/-- Create a file, write it and sync it. -/
def writeNew (path : Path) (text : String) : sys.Task Unit := do
  fs (.openNew path "")
  Prog.andFinally (do fs (.writeFile path text); settle) settle

def syncDirectory : sys.Task Unit := do
  settle
  Prog.andFinally settle settle

/-! ### The hooks -/

/-- `config.worktree?.teardown`; reading a field of `null` throws. -/
def rawTeardown : Json → Except Err (Option Json)
  | .null => .error (.error "Cannot read properties of null")
  | config =>
    match config.field? "worktree" with
    | none | some .null => .ok none
    | some worktree => .ok (worktree.field? "teardown")

/-- `typeof value === "string"` -/
def asString : Json → Option String
  | .str s => some s
  | _ => none

def commandsOf : Option Json → Except Err (List String)
  | some (.str s) => .ok [s]
  | none | some .null => .ok []
  | some (.arr items) =>
    match items.mapM asString with
    | some commands => .ok commands
    | none => .error (.error "Invalid teardown hook configuration")
  | some _ => .error (.error "Invalid teardown hook configuration")

/-- The hooks a configuration names, in order. -/
def hooks (config : Json) : Except Err (List String) := do
  let commands ← commandsOf (← rawTeardown config)
  return commands.filter fun value => Js.trim value != ""

def runHooks (deadline : Nat) : List String → sys.Task Unit
  | [] => pure ()
  | command :: rest => do
    let now : Nat ← ask (S := sys) .now
    if deadline ≤ now then .fail (.error "Teardown timed out")
    else do
      ask (S := sys) (.spawn command)
      let outcome : Outcome ← ask (S := sys) (.settled command (deadline - now))
      match outcome with
      | .exit (some 0) => runHooks deadline rest
      | .exit _ => .fail (.error "Teardown failed; storage retained")
      | .error => .fail (.error "Teardown failed")
      | .timedOut => .fail (.error "Teardown timed out")

section Programs

variable (parseJson : String → Option Json)

def teardown (timeoutMs : Nat) : sys.Task Unit := do
  match ← readConfig.attempt with
  | .error error =>
    if error = .code "ENOENT" then pure () else .fail (.error "Invalid paseo.json")
  | .ok text =>
    match parseJson text with
    | none => .fail (.error "Invalid paseo.json")
    | some config => do
      let commands ← (Prog.ofExcept (hooks config) : sys.Task (List String))
      let now : Nat ← ask (S := sys) .now
      runHooks (now + timeoutMs) commands

/-- The part of `teardownOnce` that only the process which created the intent runs. -/
def teardownClaimed (timeoutMs : Nat) : sys.Task Unit := do
  Prog.andFinally
    (do fs (.writeFile .started "started; inspect side effects before any manual retry\n")
        settle)
    settle
  syncDirectory
  teardown parseJson timeoutMs
  writeNew .completeTmp "complete\n"
  fs (.rename .completeTmp .complete)
  syncDirectory

def teardownOnce (timeoutMs : Nat) : sys.Task Unit := do
  match ← (fs (.readFile .complete)).attempt with
  | .ok _ => pure ()
  | .error error =>
    if error ≠ .code "ENOENT" then .fail error
    else do
      settle
      fs (.openNew .started "")
      teardownClaimed parseJson timeoutMs

/-! ### The processes and their volume -/

/-- The effects on the volume, newest first. -/
def files : Trace sys.Key sys.Val sys.Note → List (Effect Path String)
  | [] => []
  | .note _ (.file effect) :: older => effect :: files older
  | _ :: older => files older

/-- What the environment decides about one request. -/
structure Choice where
  fate : Fate String := {}
  now : Nat := 0
  outcome : Outcome := .exit (some 0)

/-- The note a settled hook leaves: only an exit is one. -/
def exitNote (command : String) : Outcome → List Note
  | .exit code => [.hookExited command code]
  | _ => []

def settleResult (fate : Fate String) : Except String Unit :=
  match fate.error with
  | none => .ok ()
  | some code => .error code

def answer (choice : Choice) (_ : Tid) (x : sys.Ext) (w : World sys) : Option (Answer sys x) :=
  match x with
  | .fs op => (serve choice.fate (files w.trace) op).map fun r =>
      { res := r.1, notes := r.2.map .file, mem := (), glob := () }
  | .readConfig => (serve choice.fate (files w.trace) (.readFile .paseoJson)).map fun r =>
      { res := r.1, notes := [.config r.1], mem := (), glob := () }
  | .settle => some { res := settleResult choice.fate, mem := (), glob := () }
  | .now => some { res := choice.now, mem := (), glob := () }
  | .spawn command => some { res := (), notes := [.hookStarted command], mem := (), glob := () }
  | .settled command _ =>
      some { res := choice.outcome, notes := exitNote command choice.outcome,
             mem := (), glob := () }

/-- The volume starts without marker files, and only `teardownOnce` changes them. -/
@[reducible] def machine : Machine sys where
  Out := Unit
  Choice := Choice
  Env := Effect Path String
  program := fun _ call => match call with
    | .teardownOnce timeoutMs => teardownOnce parseJson timeoutMs
  answer := answer
  entry := fun _ _ _ => true
  freshMem := ()
  afterCrash := fun _ _ => ()
  env := fun effect _ =>
    if effect.touches.any Path.marker then none else some ([.note none (.file effect)], ())
  env_author := by
    intro e w new g h x hx
    by_cases ht : e.touches.any Path.marker = true
    · rw [if_pos ht] at h
      cases h
    · rw [if_neg ht] at h
      cases h
      rw [List.mem_singleton.mp hx]
      rfl
  init := { trace := [], mem := fun _ => (), glob := (), next := 0, calls := fun _ => none }
  init_next := rfl
  init_calls := fun _ => rfl

end Programs

end PaseoGateway.Teardown
