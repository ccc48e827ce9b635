import VpnStack.Composectl

/-!
# `apply`

`cli.apply`, with what it calls in `render.py`: render a candidate tree, validate it, point the `rendered` link at it, and
converge the containers, the firewall and the certificates. The link is replaced in one step; the mark that a converge is
pending is a field of state.json, written after it.
-/

namespace VpnStack

open Python Interaction

/-! ## `render.py` -/

namespace Render

def keepGenerations : Nat := 5

/-- `write_candidate`: a new directory, and one file after the other. -/
def writeCandidate (tree : Tree) : Cmd Gen := do
  let candidate : Gen ← call (.mkdtemp tree)
  tree.forM fun f => call (.writeFile candidate f.1 f.2)
  return candidate

/-- `promote`: make a link to the candidate beside `rendered`, and put it in its place. -/
def promote (candidate : Gen) : Cmd Unit := do
  call (.symlinkTmp candidate)
  call .replaceLink

/-- `_rmtree_not_live`: delete a generation, but never the one `rendered` points at. -/
def rmtreeNotLive (path : Gen) : Cmd Unit := do
  let live : Option Gen ← call .readLink
  if live = some path then
    Script.raise (.renderError ["refusing to delete ", .str (toString path).toList, ": it is the live rendered tree that ",
      "`rendered` points at and that the containers are mounted from."])
  else call (.rmtree path)

/-- `prune`: drop the old generations, by name, but for the live one. -/
def prune : Cmd Unit := do
  let live : Option Gen ← call .resolveLink
  let generations : List Gen ← call .glob
  let generations := generations.insertionSort fun a b => b ≤ a
  (generations.drop keepGenerations).forM fun old => if some old = live then pure () else rmtreeNotLive old

/-- `snapshot`: the keyring, and the zone if there is one. -/
def snapshot : Cmd Secrets := do
  let keyring : Secrets ← call .loadSecrets
  let zone : Text ← call .dnsttZone
  if zone = [] then return keyring
  else return ⟨fun name => if name = Dnstt.zoneKey then some (Text.encode zone) else keyring.values name⟩

/-- `render_all`: the tree for the current state. -/
def renderAll (py : CaseMap) : Cmd (Tree × List Protocol) := do
  let users : List User ← call .loadUsers
  let st : State ← call .loadState
  let enabled := enabledProtocols py st
  let secrets ← snapshot
  let common : Tree ← call .readCommon
  let tree ← Script.lift (buildTree secrets common users enabled)
  return (tree, enabled)

end Render

/-! ## `reconcile_ikev2` -/

namespace Ikev2Ctl

/-- `remove_client`: revoke, then delete. -/
def removeClient (name : Text) : Cmd Bool := do
  let ok : Bool ← call (.revokeClient name)
  if ok then call (.deleteClient name) else pure false

end Ikev2Ctl

/-- The names a reconcile keeps as it goes: what is valid and what is reserved now, what it added and withdrew, and what
failed. -/
structure Reconciling where
  valid : List Text
  reserved : List Text
  added : List Text
  withdrawn : List Text
  revokeFailed : List Text
  addFailed : List Text

/-- `sorted` of a set of names. -/
def sortedNames (names : List Text) : List Text := names.dedup.insertionSort (· ≤ ·)

/-- A turn of the loop over what is to be withdrawn. A name the container does not hold is dropped. -/
def withdraw (r : Reconciling) (name : Text) : Cmd Reconciling :=
  if name ∉ r.valid ∧ name ∉ r.reserved then pure r
  else do
    let ok : Bool ← if name ∈ r.valid then Ikev2Ctl.removeClient name else call (.deleteClient name)
    if ok then
      return { r with withdrawn := r.withdrawn ++ [name], valid := r.valid.filter (· ≠ name),
                      reserved := r.reserved.filter (· ≠ name) }
    else return { r with revokeFailed := r.revokeFailed ++ [name] }

/-- A turn of the loop over what is to be issued. A name that is still reserved is freed first. -/
def issue (r : Reconciling) (name : Text) : Cmd Reconciling := do
  let freed : Bool ← if name ∈ r.reserved then call (.deleteClient name) else pure true
  if freed then do
    let r := { r with reserved := r.reserved.filter (· ≠ name) }
    let ok : Bool ← call (.addClient name)
    if ok then return { r with added := r.added ++ [name], valid := r.valid ++ [name] }
    else return { r with addFailed := r.addFailed ++ [name] }
  else return { r with addFailed := r.addFailed ++ [name] }

/-- The part of `reconcile_ikev2` behind the listing: withdraw, issue, and write down what is left to withdraw and who has a
certificate. -/
def reconcileListed (st : State) (users : List User) (valid reserved : List Text) : Cmd Reconciled := do
  let wanted := (enabledUsers users).map (·.name)
  let r ← (sortedNames (st.revokePending ++ valid.filter (· ∉ wanted))).foldlM withdraw ⟨valid, reserved, [], [], [], []⟩
  let r ← (sortedNames (wanted.filter (· ∉ r.valid))).foldlM issue r
  call (.saveState { st with revokePending := st.revokePending.filter (· ∈ r.revokeFailed) })
  call (.saveUsers (users.map fun u => { u with ikev2Provisioned := decide (u.name ∈ r.valid) }))
  return ⟨r.added, r.withdrawn, sortedNames (r.revokeFailed ++ r.addFailed)⟩

/-- `reconcile_ikev2`, or nothing when it was skipped. -/
def reconcileIkev2 : Cmd (Option Reconciled) := do
  let running : Bool ← call .ikev2Running
  if running then do
    let st : State ← call .loadState
    let users : List User ← call .loadUsers
    let listing : Bool × Text ← call .listClients
    if listing.1 then do
      let (valid, reserved) := Ikev2Ctl.parseClients listing.2
      let result ← reconcileListed st users valid reserved
      return some result
    else return none
  else return none

/-! ## `cli.apply` -/

/-- What `apply` reports. -/
structure ApplyResult where
  rendered : Gen
  enabledProtocols : List String
  restarted : Bool
  configChanged : Option (List Service)
  convergePending : Bool
  teardownOk : Option Bool := none
  portsReady : Option Bool := none
  notRunning : Option (List Service) := none
  firewallOk : Option Bool := none
  ikev2Reconcile : Option Reconciled := none
  forwardingOk : Option Bool := none

/-- `bootstrap.missing_secrets`. -/
def missingSecrets (enabled : List Protocol) : Cmd (List (String × List String)) := do
  let have_ : Secrets ← call .loadSecrets
  return (enabled.map fun p => (p.name, p.secretNames.filter fun n => !have_.has n)).filter fun gap => !gap.2.isEmpty

/-- The message for secrets that are missing. -/
def gapsMessage (gaps : List (String × List String)) : Message :=
  [.str ("cannot render: missing secrets for " ++
    "; ".intercalate (gaps.map fun gap => gap.1 ++ " (" ++ ", ".intercalate gap.2 ++ ")") ++
    ". Run `vpnctl bootstrap`.").toList]

/-- Whether the IPsec container is one of the expected. -/
def servesIkev2 (enabled : List Protocol) : Bool := enabled.any fun p => p.name == "ikev2"

/-- `_reconcile_ikev2_forwarding`. A missing binary is not let out of it. -/
def reconcileForwarding (enabled : List Protocol) : Cmd Bool :=
  Script.tryExcept
    (if servesIkev2 enabled then do
      let running : Bool ← call .ikev2Running
      if running then call (.forwarding true) else pure false
    else call (.forwarding false))
    (fun e => match e with
      | .osError => some (pure false)
      | _ => none)

/-- The part of `apply` up to the mark: validate, read what is live, promote, and write the mark. It returns what was live
before, and whether a mark was there already. -/
def promoteCandidate (candidate : Gen) : Cmd (Option Gen × Bool) := do
  let ok : Bool ← call (.checkConfig candidate)
  if ok then do
    let previous : Option Gen ← call .resolveLink
    let st : State ← call .loadState
    Render.promote candidate
    call (.setPromoted true)
    call (.saveState { st with convergePending := true })
    return (previous, st.convergePending)
  else Script.raise (die ["sing-box rejected the new config; nothing changed."])

/-- `if not promoted: shutil.rmtree(candidate, ignore_errors=True)`. -/
def dropCandidate (candidate : Gen) : Cmd Unit := do
  let promoted : Bool ← call .getPromoted
  if promoted then pure () else call (.rmtreeIgnoringErrors candidate)

/-- `changed_services(previous, candidate)`, which reads the two directories. -/
def changedBetween (previous : Option Gen) (candidate : Gen) : Cmd (Option Changed) :=
  match previous with
  | none => pure none
  | some g => do
    let old : Option Tree ← call (.treeFiles g)
    let new : Option Tree ← call (.treeFiles candidate)
    return Composectl.changedServices old (new.getD [])

/-- The steps of a converge behind `up`. They report, and do not stop `apply`. -/
def convergeRest (py : CaseMap) (enabled : List Protocol) (result : ApplyResult) : Cmd ApplyResult := do
  let teardown ← Composectl.downDisabled py enabled
  let ready : Bool ← call (.waitReady (enabled.flatMap (·.ports)))
  let stopped ← Composectl.notRunning enabled
  let firewall : Bool ← call (.firewall (enabled.flatMap (·.ports)))
  let result := { result with teardownOk := some teardown, portsReady := some ready, notRunning := stopped,
                              firewallOk := some firewall }
  if servesIkev2 enabled then do
    let running : Bool ← call .ikev2Running
    if running then do
      let reconciled ← reconcileIkev2
      match reconciled with
      | some reconciled => do
        call (.noteReconcile reconciled)
        return { result with ikev2Reconcile := some reconciled }
      | none => return result
    else return result
  else return result

/-- Converge the containers, or stop, and then everything else. -/
def converge (py : CaseMap) (enabled : List Protocol) (changed : Option Changed) (result : ApplyResult) : Cmd ApplyResult := do
  let ok ← Composectl.up enabled changed
  if ok then convergeRest py enabled result
  else Script.raise (die ["could not converge the containers"])

/-- Clear the mark, if every port came up. -/
def finish (enabled : List Protocol) (result : ApplyResult) : Cmd ApplyResult := do
  let st : State ← call .loadState
  let ready := result.portsReady = some true
  call (.saveState { st with lastApplied := enabled.map (·.name),
                             convergePending := if ready then false else st.convergePending })
  return { result with convergePending := if ready then false else result.convergePending }

/-- What `apply` does inside its outer `try`, with the candidate written. -/
def applyCandidate (py : CaseMap) (restart : Bool) (enabled : List Protocol) (candidate : Gen) : Cmd ApplyResult := do
  let ((previous, inherited), ()) ← Script.tryFinally (promoteCandidate candidate) (dropCandidate candidate)
  let diff ← changedBetween previous candidate
  let changed := if inherited then none else diff
  call (.notePlan changed)
  let result : ApplyResult :=
    { rendered := candidate, enabledProtocols := enabled.map (·.name), restarted := restart,
      configChanged := changed.map fun changed => Service.all.filter fun s => changed s ≠ none, convergePending := true }
  if restart then do
    let (result, forwarding) ← Script.tryFinally (converge py enabled changed result) (reconcileForwarding enabled)
    finish enabled { result with forwardingOk := some forwarding }
  else return result

/-- The outer `finally`: whatever prune could not do is no verdict. -/
def pruneQuietly : Cmd Unit := Script.tryExcept Render.prune fun e => if e.isException then some (pure ()) else none

/-- `apply`. -/
def apply (py : CaseMap) (restart : Bool) : Cmd ApplyResult := do
  call .requireServer
  call .ensureEnvLink
  let st : State ← call .loadState
  let gaps ← missingSecrets (enabledProtocols py st)
  if gaps = [] then do
    let (tree, enabled) ← Render.renderAll py
    let candidate ← Render.writeCandidate tree
    call (.setPromoted false)
    let (result, ()) ← Script.tryFinally (applyCandidate py restart enabled candidate) pruneQuietly
    return result
  else Script.raise (die (gapsMessage gaps))

end VpnStack
