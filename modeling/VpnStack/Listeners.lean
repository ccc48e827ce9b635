import VpnStack.Lib.Lines
import VpnStack.Lib.Ipv4

/-!
# Who listens on a port

What three programs make of the lines that `ss` prints about a port: `_is_bound` of composectl.py, and the awk program that
smoke.sh and the app's `_portsBound` both have. Each looks for one line whose local address is no loopback.
-/

namespace VpnStack

open Python

namespace Listeners

/-- What `ss -H` prints: columns between blanks, and lines that end with newlines. Other white space it does not print. -/
structure Output where
  text : Text
  blank : ∀ c ∈ text, isSpace c = true → c = ' ' ∨ c = '\t' ∨ c = '\n'

/-- The addresses that count for no listener. -/
def isLoopback (addr : Text) : Bool := "127.".toList.isPrefixOf addr || addr = "[::1]" || addr = "::1"

/-! ## composectl.py -/

/-- `t.rsplit(":", 1)[0]` -/
def rsplitPort (t : Text) : Text :=
  match Text.cutLast ':' t with
  | some (host, _) => host
  | none => t

/-- One turn of the loop of `_is_bound`: whether it returns. -/
def boundBy (line : Text) : Bool :=
  match (split line)[3]? with
  | none => false
  | some field => !isLoopback (Text.cut '%' (rsplitPort field)).1

/-- `_is_bound` where `ss` succeeded. -/
def isBound (stdout : Text) : Bool := (splitlines stdout).any boundBy

/-! ## awk -/

/-- `sub(/:[0-9]+$/, "", a)` -/
def subPort (a : Text) : Text :=
  match Text.cutLast ':' a with
  | some (host, port) => if isDecimal port then host else a
  | none => a

/-- `sub(/%.*/, "", a)` -/
def subScope (a : Text) : Text := (Text.cut '%' a).1

def awkBlank (c : Char) : Bool := c == ' ' || c == '\t' || c == '\n'

/-- What the program does with one line: whether it sets `found`. A column that is not there is empty. -/
def foundBy (line : Text) : Bool := !isLoopback (subScope (subPort ((Text.words awkBlank line)[3]?.getD [])))

/-- `served` of smoke.sh. -/
def served (stdout : Text) : Bool := (Text.lines '\n' stdout).any foundBy

/-- `served` of `_portsBound`, whose awk program is the same. -/
def portsBoundServed (stdout : Text) : Bool := (Text.lines '\n' stdout).any foundBy

end Listeners

end VpnStack
