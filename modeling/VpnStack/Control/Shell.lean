import VpnStack.Lib.Posix
import VpnStack.Lib.Template

/-!
# One string for an argument vector

`control/shell.dart`: SSH carries a command string, and this is the only place of the app that makes one of an argument
vector. `transport/exec.dart` sends it as it is.
-/

namespace VpnStack

namespace Shell

/-- The characters of `_bare`. -/
def isBare (c : Char) : Bool :=
  let n := c.toNat
  (65 ≤ n && n ≤ 90) || (97 ≤ n && n ≤ 122) || (48 ≤ n && n ≤ 57) || ("_@%+=:,./-" : String).toList.contains c

/-- `_bare.hasMatch(word)`: the whole word, which is not empty. -/
def bare (word : Text) : Bool := !word.isEmpty && word.all isBare

/-- A single quote inside single quotes: closed, escaped and reopened. -/
def reopened : Text := ['\'', '\\', '\'', '\'']

/-- Single-quotes a word unless it is provably inert. -/
def shellQuote (word : Text) : Text :=
  if bare word then word else ['\''] ++ Template.substitute [(['\''], reopened)] word ++ ['\'']

/-- Every word quoted, with spaces between. -/
def shellCommand (argv : List Text) : Text := [' '].intercalate (argv.map shellQuote)

/-- The argument vector as the single command string SSH can carry. -/
def sshExecLine (argv : List Text) : Text := shellCommand argv

end Shell

end VpnStack
