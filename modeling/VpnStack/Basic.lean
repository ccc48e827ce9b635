import VpnStack.Lib.Python

/-!
# The exceptions and the paths of vpnctl

What a function of vpnctl may raise, with what it says. `cli.main` turns most of them into one line and an exit code; to
the functions below it they are one thing, a way out that is not a return.
-/

namespace VpnStack

open Python

/-- An exception on its way out. -/
inductive Exc where
  | renderError (message : Message)
  | missingSecret (message : Message)
  | usersError (message : Message)
  | stateError (message : Message)
  | unicodeDecodeError
  | valueError
  | keyringRefused (message : Message) (refused : List String)
  | systemExit (message : Message) (code : Nat)
  | timeoutExpired
  | osError
  | keyboardInterrupt
  deriving DecidableEq, Repr

/-- Whether `except Exception` catches it. -/
def Exc.isException : Exc → Bool
  | .systemExit .. => false
  | .keyboardInterrupt => false
  | _ => true

/-- `die`: report a refusal and stop. -/
def die (message : Message) : Exc := .systemExit message 1

/-! ## `vpnctl.paths` -/

/-- The state directory of a server. -/
def stateDir : String := "/etc/vpn-stack"

/-- `USERS_JSON`, the database of who has access. -/
def usersJson : String := stateDir ++ "/users.json"

/-- `SECRETS_DIR`, the keyring. -/
def secretsDir : String := stateDir ++ "/secrets"

/-- `ENV_FILE`, the deployment's settings. -/
def envFile : String := stateDir ++ "/.env"

end VpnStack
