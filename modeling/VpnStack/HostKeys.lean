import VpnStack.Firewall
import VpnStack.Lib.Transition

/-!
# Connections that share a host key policy

`openVerified` and `HostKeyPolicy` of `provision/ssh.dart` under the policy of `ServerAccess.trustOnFirstUse`, when several
connections are opened at once. Each call is at one of its awaits; between two awaits nothing else runs. What the servers present
and when a person answers is up to the outside.
-/

namespace VpnStack

namespace HostKeys

open Firewall (HostKey Decision accepts)

/-- `_answer` of `ui/access.dart`: the answer about a key that changed is not taken. -/
def answered (pinned : Option HostKey) (decision : Decision) : Decision :=
  if pinned.isSome then .refuse else decision

/-- Where a call is. A question carries what was pinned when it was built; `own` says that it is `openVerified` that verifies,
and not a connector inside a key exchange of its own. -/
inductive Phase where
  | idle
  /-- It waits for the connector, the first time or the second. -/
  | connecting (second : Bool)
  /-- It waits for the person. -/
  | asking (own : Bool) (offered : HostKey) (pinned : Option HostKey)
  /-- It waits for the recorder. -/
  | remembering (own : Bool) (offered : HostKey)
  /-- It closes a connection nobody approved. -/
  | closing (hostKey : HostKey)
  /-- `openVerified` returned a connection. -/
  | returned (hostKey : HostKey)
  /-- The `verify` of a connector returned. -/
  | verified
  | threw
  deriving DecidableEq, Repr

/-- The policy and the calls that use it. `approved` are the keys the person accepted, `recorded` those of them that went to the
recorder, in order. -/
structure State (ι : Type) where
  pinned : Option HostKey
  approved : List HostKey := []
  recorded : List HostKey := []
  phases : ι → Phase := fun _ => .idle

inductive Action (ι : Type) where
  /-- `openVerified` is called. -/
  | openVerified (i : ι)
  /-- The connector has a connection. -/
  | connected (i : ι) (hostKey : HostKey)
  /-- The connector gave up in the key exchange, and hands the key back. -/
  | unknown (i : ι) (offered : HostKey)
  /-- The connector, or the prompt, throws anything else. -/
  | failed (i : ι)
  /-- A connector awaits `verify` inside a key exchange. -/
  | verify (i : ι) (offered : HostKey)
  /-- The person answers. -/
  | answer (i : ι) (decision : Decision)
  /-- The recorder is done. -/
  | remembered (i : ι)
  /-- The connection is closed. -/
  | closed (i : ι)
  deriving DecidableEq, Repr

section

variable {ι : Type} [DecidableEq ι]

/-- A policy with what the store had for the server. -/
def policy (pinned : Option HostKey) : State ι := { pinned }

def State.at (s : State ι) (i : ι) (p : Phase) : State ι := { s with phases := Function.update s.phases i p }

/-- Behind a key that may be used: `openVerified` connects again. -/
def State.goOn (s : State ι) (i : ι) (own : Bool) : State ι := s.at i (if own then .connecting true else .verified)

/-- `verify`, up to its question. -/
def State.verify (s : State ι) (i : ι) (own : Bool) (offered : HostKey) : State ι :=
  if accepts s.pinned offered then s.goOn i own else s.at i (.asking own offered s.pinned)

/-- `verify`, behind the answer. -/
def State.decide (s : State ι) (i : ι) (own : Bool) (offered : HostKey) : Decision → State ι
  | .refuse => s.at i .threw
  | .trustOnce => { s with pinned := some offered, approved := s.approved ++ [offered] }.goOn i own
  | .trust =>
    { s with pinned := some offered, approved := s.approved ++ [offered], recorded := s.recorded ++ [offered] }.at i
      (.remembering own offered)

/-- What the rest of `openVerified` does with a connection. -/
def State.check (s : State ι) (i : ι) (hostKey : HostKey) : State ι :=
  s.at i (if accepts s.pinned hostKey then .returned hostKey else .closing hostKey)

def step (s : State ι) : Action ι → Option (State ι)
  | .openVerified i => if s.phases i = .idle then some (s.at i (.connecting false)) else none
  | .connected i hostKey =>
    match s.phases i with
    | .connecting _ => some (s.check i hostKey)
    | _ => none
  | .unknown i offered =>
    match s.phases i with
    | .connecting false => some (s.verify i true offered)
    | .connecting true => some (s.at i .threw)
    | _ => none
  | .failed i =>
    match s.phases i with
    | .connecting _ => some (s.at i .threw)
    | .asking .. => some (s.at i .threw)
    | _ => none
  | .verify i offered => if s.phases i = .idle then some (s.verify i false offered) else none
  | .answer i decision =>
    match s.phases i with
    | .asking own offered pinned => some (s.decide i own offered (answered pinned decision))
    | _ => none
  | .remembered i =>
    match s.phases i with
    | .remembering own _ => some (s.goOn i own)
    | _ => none
  | .closed i =>
    match s.phases i with
    | .closing _ => some (s.at i .threw)
    | _ => none

end

end HostKeys

end VpnStack
