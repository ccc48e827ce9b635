import VpnStack.Control.Shell

/-!
# The shell programs of a provisioning

`provision/commands.dart`: every shell program the app sends to a server it sets up. A program is a text with markers in it,
which `_fill` replaces by quoted values, one marker after another. A template is kept here in the pieces its markers part it
into; the program is their text. The programs that take no value are left out.
-/

namespace VpnStack

namespace Provision

open Template

/-- `ProvisionConfig`, as far as the programs read it; the wait for the lock is in microseconds. -/
structure ProvisionConfig where
  host : Text
  sshPort : Int := 22
  repoUrl : Text := "https://github.com/aSel1x/vpn-stack.git"
  repoRef : Text := "v0.2.0"
  repoPath : Text := "/opt/vpn-stack"
  hostScript : Text := "scripts/provision-host.sh"
  stateDir : Text := "/etc/vpn-stack"
  vpnctl : Text := "/usr/local/bin/vpnctl"
  lockPath : Text := "/run/vpn-stack.lock"
  lockWait : Int := 300000000
  deadmanSeconds : Int := 180
  deadmanPidFile : Text := "/run/vpn-stack.deadman"

def ProvisionConfig.hostScriptPath (config : ProvisionConfig) : Text := config.repoPath ++ ['/'] ++ config.hostScript

/-- The exit status of a refusal because of the lock. -/
def lockConflictExit : Int := 75

/-- An integer as it is interpolated. -/
def decimal (n : Int) : Text := (toString n).toList

/-- A value that may go into a program: only the quoter makes one. -/
structure ShellArg where
  text : Text
  deriving DecidableEq, Repr

/-- `ShellArg(value)`, one word. -/
def ShellArg.one (value : Text) : ShellArg := ⟨Shell.shellQuote value⟩

/-- `ShellArg.words(values)`, each quoted. -/
def ShellArg.words (values : List Text) : ShellArg := ⟨Shell.shellCommand values⟩

structure RemoteProgram where
  text : Text
  deriving DecidableEq, Repr

/-- The markers: capitals, digits and underscores between two at signs. -/
def marking : Marking where
  mark := '@'
  inner c := (65 ≤ c.toNat && c.toNat ≤ 90) || (48 ≤ c.toNat && c.toNat ≤ 57) || c = '_'
  mark_not_inner := rfl

/-- What `_fill` is called with. -/
structure Filling where
  program : List Seg
  values : List (Text × ShellArg)

namespace Filling

/-- The text of the template. -/
def template (f : Filling) : Text := assemble id f.program

/-- The markers with the text each is replaced by, in the order of the map. -/
def pairs (f : Filling) : List (Text × Text) := f.values.map fun v => (v.1, v.2.text)

/-- `_fill`: the markers replaced one after another, and an error where something like a marker is left. -/
def fill (f : Filling) : Except Text RemoteProgram :=
  let out := substituteEach f.pairs f.template
  match marking.firstMark out with
  | some unfilled => .error ("unfilled placeholder ".toList ++ unfilled ++ " in:\n".toList ++ out)
  | none => .ok ⟨out⟩

end Filling

/-! ## The templates -/

/-- `_provisionedProbe`. -/
def provisionedProbe : List Seg :=
  [.lit "set -u\n",
    .lit "vpnctl=", .hole "@VPNCTL@", .lit "\n",
    .lit "state=", .hole "@STATE@", .lit "\n",
    .lit "[ -x \"$vpnctl\" ] && echo vpnctl=yes || echo vpnctl=no\n",
    .lit "[ -d \"$state\" ] && echo state_dir=yes || echo state_dir=no\n",
    .lit "[ -f \"$state/users.json\" ] && echo users_file=yes || echo users_file=no\n",
    .lit "secrets=$(ls -1 \"$state/secrets\" 2>/dev/null | wc -l | tr -d ' ')\n",
    .lit "echo \"secrets=$secrets\"\n"]

def provisionedProbeCommand (config : ProvisionConfig) : Filling where
  program := provisionedProbe
  values := [("@VPNCTL@", .one config.vpnctl), ("@STATE@", .one config.stateDir)]

/-- `_cloneRepo`: the checkout, and the check that it has the script this build of the app runs. -/
def cloneRepo : List Seg :=
  [.lit "set -eu\n",
    .lit "export DEBIAN_FRONTEND=noninteractive\n",
    .lit "repo=", .hole "@PATH@", .lit "\n",
    .lit "url=", .hole "@URL@", .lit "\n",
    .lit "ref=", .hole "@REF@", .lit "\n",
    .lit "script=", .hole "@SCRIPT@", .lit "\n",
    .lit "command -v git >/dev/null 2>&1 || \x7b apt-get update -qq || true; apt-get install -y -qq git; \x7d\n",
    .lit "if [ -d \"$repo/.git\" ]; then\n",
    .lit "  git -C \"$repo\" remote set-url origin \"$url\"\n",
    .lit "  git -C \"$repo\" fetch --depth 1 origin \"$ref\"\n",
    .lit "  git -C \"$repo\" checkout -q --force --detach FETCH_HEAD\n",
    .lit "elif [ -d \"$repo\" ] && [ -n \"$(ls -A \"$repo\" 2>/dev/null)\" ]; then\n",
    .lit "  echo \"$repo exists and is not a git checkout (an rsynced tree from the CLI path?); move it aside and re-run\" ",
    .lit ">&2\n",
    .lit "  exit 1\n",
    .lit "else\n",
    .lit "  mkdir -p \"$repo\"\n",
    .lit "  git clone -q --depth 1 --branch \"$ref\" \"$url\" \"$repo\"\n",
    .lit "fi\n",
    .lit "[ -f \"$repo/$script\" ] || \x7b echo \"this build of the app needs a server tree containing $script; ref $ref ",
    .lit "has none\" >&2; exit 1; \x7d\n",
    .lit "head=$(git -C \"$repo\" rev-parse --short HEAD)\n",
    .lit "echo \"head=$head\"\n"]

def cloneRepoCommand (config : ProvisionConfig) : Filling where
  program := cloneRepo
  values := [("@PATH@", .one config.repoPath), ("@URL@", .one config.repoUrl), ("@REF@", .one config.repoRef),
    ("@SCRIPT@", .one config.hostScript)]

/-- `_hostStage`: one stage of the server-local half. -/
def hostStage : List Seg :=
  [.lit "set -eu\n",
    .lit "export PATH=\"/usr/local/bin:/root/.local/bin:$PATH\"\n",
    .lit "script=", .hole "@SCRIPT@", .lit "\n",
    .lit "stage=", .hole "@STAGE@", .lit "\n",
    .lit "arg=", .hole "@ARG@", .lit "\n",
    .lit "[ -f \"$script\" ] || \x7b echo \"$script is not in this checkout: the server-local half of install.sh has to ",
    .lit "exist as a script for the app to call it\" >&2; exit 127; \x7d\n",
    .lit "bash \"$script\" \"$stage\" \"$arg\"\n"]

/-- The packages and the address of the server, before the firewall. -/
def hostBaseCommand (config : ProvisionConfig) : Filling where
  program := hostStage
  values := [("@SCRIPT@", .one config.hostScriptPath), ("@STAGE@", .one "base"), ("@ARG@", .one config.host)]

/-- The code and the keyring, after it. -/
def hostCodeCommand (config : ProvisionConfig) : Filling where
  program := hostStage
  values := [("@SCRIPT@", .one config.hostScriptPath), ("@STAGE@", .one "code"), ("@ARG@", .one config.repoPath)]

/-- `_lockedVpnctl`: every invocation goes through the lock. -/
def lockedVpnctl (config : ProvisionConfig) (command : List Text) : List Text :=
  (["env", "VPN_STACK_LOCK_HELD=1", "flock", "-w"] : List Text) ++ [decimal (config.lockWait.tdiv 1000000)] ++
    (["-E"] : List Text) ++ [decimal lockConflictExit, config.lockPath, config.vpnctl] ++ command

def vpnctlReadyCommand (config : ProvisionConfig) : Filling where
  program := [.hole "@ARGV@", .lit " >/dev/null"]
  values := [("@ARGV@", .words (lockedVpnctl config (["--help"] : List Text)))]

def applyCommand (config : ProvisionConfig) : Filling where
  program := [.hole "@ARGV@"]
  values := [("@ARGV@", .words (lockedVpnctl config (["apply", "--json"] : List Text)))]

/-- `_smoke`. -/
def smoke : List Seg :=
  [.lit "set -eu\n",
    .lit "cd ", .hole "@PATH@", .lit "\n",
    .lit "bash scripts/smoke.sh --json\n"]

def smokeCommand (config : ProvisionConfig) : Filling where
  program := smoke
  values := [("@PATH@", .one config.repoPath)]

/-- `_armDeadman`: refused while an earlier timer lives. The body of the timer takes its values as parameters. -/
def armDeadman : List Seg :=
  [.lit "set -eu\n",
    .lit "pidfile=", .hole "@PID@", .lit "\n",
    .lit "ttl=", .hole "@TTL@", .lit "\n",
    .lit "command -v ufw >/dev/null 2>&1 || \x7b echo \"ufw is not installed; the host step was supposed to install it\" ",
    .lit ">&2; exit 1; \x7d\n",
    .lit "if [ -s \"$pidfile\" ]; then\n",
    .lit "  old=$(tr -dc '0-9' < \"$pidfile\")\n",
    .lit "  if [ -n \"$old\" ] && \x7b kill -0 -\"$old\" 2>/dev/null || kill -0 \"$old\" 2>/dev/null; \x7d; then\n",
    .lit "    echo \"a deadman from an earlier run is still armed (process group $old). It disables ufw by itself when its ",
    .lit "timer expires, and arming a second one on top of it leaves whichever this run does not record to fire later on ",
    .lit "a healthy server. Wait for it to expire and try again, or stop that process group from a console.\" >&2\n",
    .lit "    exit 1\n",
    .lit "  fi\n",
    .lit "  rm -f \"$pidfile\"\n",
    .lit "fi\n",
    .lit "setsid sh -c 'echo $$ > \"$1\"\n",
    .lit "              sleep \"$2\"\n",
    .lit "              ufw --force disable\n",
    .lit "              rm -f \"$1\"' deadman \"$pidfile\" \"$ttl\" </dev/null >/dev/null 2>&1 &\n",
    .lit "for _ in 1 2 3 4 5 6 7 8 9 10; do [ -s \"$pidfile\" ] && break; sleep 0.2; done\n",
    .lit "[ -s \"$pidfile\" ] || \x7b echo \"deadman failed to arm; refusing to touch ufw\" >&2; exit 1; \x7d\n",
    .lit "pid=$(cat \"$pidfile\")\n",
    .lit "echo \"armed=$pid\"\n"]

def armDeadmanCommand (config : ProvisionConfig) : Filling where
  program := armDeadman
  values := [("@PID@", .one config.deadmanPidFile), ("@TTL@", .one (decimal config.deadmanSeconds))]

/-- `_enableUfw`: existing rules are kept. -/
def enableUfw : List Seg :=
  [.lit "set -eu\n",
    .lit "port=", .hole "@PORT@", .lit "\n",
    .lit "ufw allow \"$port\"/tcp comment 'vpn-stack:ssh' >/dev/null\n",
    .lit "if ufw status 2>/dev/null | grep -q '^Status: active'; then\n",
    .lit "  echo \"ufw was already active; allowed $port/tcp and left the existing rules alone\"\n",
    .lit "else\n",
    .lit "  ufw --force enable >/dev/null\n",
    .lit "  echo \"ufw was inactive; enabled it (existing rules kept, not reset)\"\n",
    .lit "fi\n",
    .lit "ufw status | head -1\n"]

def enableUfwCommand (config : ProvisionConfig) : Filling where
  program := enableUfw
  values := [("@PORT@", .one (decimal config.sshPort))]

/-- `_disarmDeadman`: the file goes only once the process is gone. -/
def disarmDeadman : List Seg :=
  [.lit "set -u\n",
    .lit "pidfile=", .hole "@PID@", .lit "\n",
    .lit "alive() \x7b kill -0 -\"$1\" 2>/dev/null || kill -0 \"$1\" 2>/dev/null; \x7d\n",
    .lit "[ -s \"$pidfile\" ] || \x7b\n",
    .lit "  echo \"no deadman pid file at $pidfile. Either its timer already expired -- in which case ufw is off right ",
    .lit "now, check \\`ufw status\\` -- or nothing ever armed it and the firewall went up with no net under it. Neither ",
    .lit "is a state to call an install finished from.\" >&2\n",
    .lit "  exit 1; \x7d\n",
    .lit "pid=$(tr -dc '0-9' < \"$pidfile\" 2>/dev/null || true)\n",
    .lit "[ -n \"$pid\" ] || \x7b\n",
    .lit "  echo \"$pidfile holds no pid this can read, so there is no way to tell what to kill. A deadman may still be ",
    .lit "counting down towards \\`ufw --force disable\\`.\" >&2\n",
    .lit "  exit 1; \x7d\n",
    .lit "kill -TERM -\"$pid\" 2>/dev/null || kill -TERM \"$pid\" 2>/dev/null || true\n",
    .lit "i=0\n",
    .lit "while [ \"$i\" -lt 25 ]; do alive \"$pid\" || break; sleep 0.2; i=$((i + 1)); done\n",
    .lit "if alive \"$pid\"; then\n",
    .lit "  kill -KILL -\"$pid\" 2>/dev/null || kill -KILL \"$pid\" 2>/dev/null || true\n",
    .lit "  i=0\n",
    .lit "  while [ \"$i\" -lt 10 ]; do alive \"$pid\" || break; sleep 0.2; i=$((i + 1)); done\n",
    .lit "fi\n",
    .lit "if alive \"$pid\"; then\n",
    .lit "  echo \"deadman pid $pid survived TERM and KILL. It runs \\`ufw --force disable\\` when its timer expires, on a ",
    .lit "server that is fine. Kill it by hand from a console: kill -KILL -$pid. $pidfile is left in place -- it is the ",
    .lit "only record that it is still counting.\" >&2\n",
    .lit "  exit 1\n",
    .lit "fi\n",
    .lit "rm -f \"$pidfile\"\n",
    .lit "echo \"disarmed=$pid\"\n"]

def disarmDeadmanCommand (config : ProvisionConfig) : Filling where
  program := disarmDeadman
  values := [("@PID@", .one config.deadmanPidFile)]

/-- `_portsBound`: the one marker that is several words. -/
def portsBound : List Seg :=
  [.lit "served() \x7b\n",
    .lit "  if [ \"$2\" = tcp ]; then flag=-ltn; else flag=-lun; fi\n",
    .lit "  ss -H $flag \"sport = :$1\" 2>/dev/null | awk '\n",
    .lit "    \x7b a = $4; sub(/:[0-9]+$/, \"\", a); sub(/%.*/, \"\", a)\n",
    .lit "      if (a !~ /^127\\./ && a != \"[::1]\" && a != \"::1\") found = 1 \x7d\n",
    .lit "    END \x7b exit !found \x7d'\n",
    .lit "\x7d\n",
    .lit "for spec in ", .hole "@SPECS@", .lit "; do\n",
    .lit "  port=$\x7bspec%/*\x7d; proto=$\x7bspec#*/\x7d\n",
    .lit "  if served \"$port\" \"$proto\"; then echo \"bound=$spec\"; else echo \"pending=$spec\"; fi\n",
    .lit "done\n"]

def portsBoundCommand (specs : List Text) : Filling where
  program := portsBound
  values := [("@SPECS@", .words specs)]

/-- Every program the app fills in. -/
def fillings (config : ProvisionConfig) (specs : List Text) : List Filling :=
  [provisionedProbeCommand config, cloneRepoCommand config, hostBaseCommand config, hostCodeCommand config,
    vpnctlReadyCommand config, applyCommand config, smokeCommand config, armDeadmanCommand config, enableUfwCommand config,
    disarmDeadmanCommand config, portsBoundCommand specs]

end Provision

end VpnStack
