import ProviderKit.Provider.Basic
import ProviderKit.Scripted.Attribute

-- Scripts: lists of actions that a callback performs on its answer, one after the other. An
-- action whose target the callback does not have does nothing, and an error stops nothing.

namespace ProviderKit.Scripted

/-- What an action may copy from. -/
inductive Source where
  | config | plan | state

inductive Action where
  | report (d : Diagnostic)
  | replaceState (v : Value)
  | write (path : Path) (v : Value)
  | copy (source : Source)
  | copyPath (source : Source) (sourcePath path : Path)
  | storePrivate (key : String) (value : Bytes)
  | showPrivate (key : String)
  | requireReplace (path : Path)
  | clearReplace
  | defer (reason : Deferral)
  | renewAt (seconds : Int)
  | giveDocument (document : Json)
  | giveStored
  | passId (path : Path)

abbrev Script := List Action

/-- What a callback was given, as far as actions may ask for it. -/
structure Inputs where
  config : Option Described := none
  plan : Option Described := none
  state : Option Described := none
  stored : Option Json := none
  importing : Option Resource.ImportRequest := none

def Inputs.get (i : Inputs) : Source → Option Described
  | .config => i.config
  | .plan => i.plan
  | .state => i.state

/-- The answer of a callback in the making. A target it does not have is absent. -/
structure Draft where
  state : Option Described := none
  privateData : Option ProviderData := none
  requiresReplace : Option (List Path) := none
  deferred : Option (Option Deferral) := none
  renewAt : Option (Option Int) := none
  document : Option (Option Json) := none
  diagnostics : Diagnostics := []

namespace Draft

def report (d : Draft) (ds : Diagnostics) : Draft := { d with diagnostics := d.diagnostics ++ ds }

def scriptError (fault : Fault) : Diagnostic := fault.asProviderError "Script Error"

/-- Write a value into the state, and report why if that fails. -/
def write (d : Draft) (path : Path) (v : Value) : Draft :=
  match d.state with
  | none => d
  | some state =>
    let (state, outcome) := state.set path v
    let d := { d with state := some state }
    match outcome with
    | .ok _ => d
    | .error fault => d.report [scriptError fault]

/-- Write the name of an imported object into the state. -/
def passId (d : Draft) (request : Resource.ImportRequest) (path : Path) : Draft :=
  match d.state with
  | none => d
  | some state =>
    let answer := request.passId path { request.start with state := state }
    { d with state := some answer.state }.report answer.diagnostics

/-- Perform an action. -/
def act (i : Inputs) (d : Draft) : Action → Draft
  | .report diagnostic => d.report [diagnostic]
  | .replaceState v => { d with state := d.state.map fun s => { s with raw := v } }
  | .write path v => d.write path v
  | .copy source =>
    match i.get source with
    | none => d
    | some input => { d with state := d.state.map fun s => { s with raw := input.raw } }
  | .copyPath source sourcePath path =>
    match i.get source with
    | none => d
    | some input =>
      if d.state.isNone then d
      else
        match input.get sourcePath with
        | .ok v => d.write path v
        | .error fault => d.report [scriptError fault]
  | .storePrivate key value =>
    match d.privateData with
    | none => d
    | some data =>
      let (data, reported) := data.set key value
      { d with privateData := some data }.report reported
  | .showPrivate key =>
    match d.privateData with
    | none => d
    | some data => d.report (Scripted.showPrivate data key)
  | .requireReplace path => { d with requiresReplace := d.requiresReplace.map (· ++ [path]) }
  | .clearReplace => { d with requiresReplace := d.requiresReplace.map fun _ => [] }
  | .defer reason => { d with deferred := d.deferred.map fun _ => some reason }
  | .renewAt seconds => { d with renewAt := d.renewAt.map fun _ => some seconds }
  | .giveDocument document => { d with document := d.document.map fun _ => some document }
  | .giveStored => { d with document := d.document.map fun _ => i.stored }
  | .passId path =>
    match i.importing with
    | none => d
    | some request => d.passId request path

/-- Perform a script. -/
def perform (d : Draft) (i : Inputs) (script : Script) : Draft := script.foldl (act i) d

end Draft

/-- What a script reports that has no target at all. -/
def reportsOf (script : Script) : Diagnostics := (Draft.perform {} {} script).diagnostics

end ProviderKit.Scripted
