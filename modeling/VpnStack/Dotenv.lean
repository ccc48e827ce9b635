import VpnStack.Lib.Dict
import VpnStack.Protocols.Dnstt

/-!
# The settings

`vpnctl/dotenv.py` and `render.dnstt_zone`: `/etc/vpn-stack/.env`, as vpnctl reads it. The same file is read by compose, which
interpolates its values into compose.yml; `Compose` has compose's rules as they are documented, and names neither escapes nor
interpolation inside a value.
-/

namespace VpnStack

open Python

/-- `VPN_SERVER_HOST`. -/
def hostVar : String := "VPN_SERVER_HOST"

/-- An optional `export` in front of a line that is trimmed. -/
def withoutExport (line : Text) : Text :=
  if "export ".toList <+: line ∨ "export\t".toList <+: line then (line.drop "export".length).dropWhile isSpace else line

/-- A trimmed line that assigns something: it is no comment and has an equals sign. -/
def isAssignment (line : Text) : Bool := line.head? ≠ some '#' && '=' ∈ line

/-- The process environment. -/
abbrev Environ := Text → Option Text

namespace Dotenv

/-- The two quotes. -/
def quotes : List Char := ['"', '\'']

/-- `_unquote`: a pair of quotes that wraps the whole value goes. -/
def unquote (value : Text) : Text :=
  match value with
  | [] => []
  | c :: rest => if rest ≠ [] ∧ rest.getLast? = some c ∧ c ∈ quotes then rest.dropLast else value

/-- One line of the file. -/
def readLine (line : Text) : Option (Text × Text) :=
  let line := strip line
  if isAssignment line then
    let parts := Text.cut '=' (withoutExport line)
    some (strip parts.1, unquote (strip (parts.2.getD [])))
  else none

/-- `read`: the last assignment of a key wins. -/
def read (text : Text) : List (Text × Text) := Dict.ofPairs ((splitlines text).filterMap readLine)

/-- `read_env(ENV_FILE).get(key)`. -/
def get (text key : Text) : Option Text := (read text).lookup key

end Dotenv

/-- `render.dnstt_zone`: the environment, unless there is nothing in it, and then the file. -/
def Render.dnsttZone (environ : Environ) (text : Text) : Text :=
  match environ Dnstt.zoneVar with
  | some (c :: cs) => c :: cs
  | _ => (Dotenv.get text Dnstt.zoneVar).getD []

namespace Compose

/-- What is left of the file behind the line. -/
def afterLine (text : Text) : Text := (text.dropWhile (· ≠ '\n')).drop 1

/-- The line the text begins with. -/
def firstLine (text : Text) : Text := text.takeWhile (· ≠ '\n')

/-- White space that does not end a line. -/
def isBlank (c : Char) : Bool := isSpace c && c ≠ '\n'

/-- An unquoted value up to a comment: a number sign behind white space. -/
def beforeComment : Bool → Text → Text
  | _, [] => []
  | white, c :: cs => if c = '#' ∧ white then [] else c :: beforeComment (isSpace c) cs

/-- The value an assignment begins with, and the file behind it. A quote that is never closed makes no value. -/
def readValue (rest : Text) : Option (Text × Text) :=
  match rest.dropWhile isBlank with
  | c :: body =>
    if c ∈ Dotenv.quotes then
      match Text.cut c body with
      | (value, some after) => some (value, afterLine after)
      | (_, none) => none
    else some (strip (beforeComment false (firstLine rest)), afterLine rest)
  | [] => some ([], [])

/-- The assignments of the file, one after the other; `n` is as long as the file. -/
def readFrom : Nat → Text → Option (List (Text × Text))
  | 0, _ => some []
  | n + 1, text =>
    if text = [] then some []
    else
      let line := strip (firstLine text)
      if isAssignment line then
        match readValue ((Text.cut '=' text).2.getD []) with
        | some (value, after) => (readFrom n after).map ((strip (Text.cut '=' (withoutExport line)).1, value) :: ·)
        | none => none
      else readFrom n (afterLine text)

/-- The variables of the file, if compose can read it. -/
def read (text : Text) : Option (List (Text × Text)) := (readFrom text.length text).map Dict.ofPairs

/-- What `${KEY}` is replaced by. A variable of the environment, empty or not, comes before the file, and one that is set nowhere
is empty. -/
def interpolated (environ : Environ) (text key : Text) : Option Text :=
  match environ key with
  | some value => some value
  | none => (read text).map fun values => (values.lookup key).getD []

end Compose

end VpnStack
