import VpnStack.Bootstrap

/-!
# Backup and restore

The server's half of `./vpn backup` and `./vpn restore`: one archive of the state directory and one of each volume that holds
what cannot be made again, and their unpacking over whatever the target holds.
-/

namespace VpnStack

open Python

namespace Backup

/-- A directory: the files below it, by their paths. -/
abbrev Files := String → Option Bytes

/-- What a server keeps: `/etc/vpn-stack`, and its volumes. A volume that was never made is an empty one. -/
structure Server where
  state : Files
  volumes : String → Files

/-- One tar: the state directory, and the members for the volumes. -/
structure Archive where
  state : Files
  members : String → Option Files

/-- `BACKUP_VOLUMES`: a volume, and the member that carries it. -/
def backupVolumes : List (String × String) :=
  [("vpn-stack_ikev2-vpn-data", ".vpn-ikev2.tgz"), ("vpn-stack_dnstt-sshd-keys", ".vpn-dnstt-sshd-keys.tgz")]

/-- `--exclude='./rendered*'`; the star also covers what lies below. -/
def isRendered (path : String) : Bool := "rendered".toList.isPrefixOf path.toList

/-- `tar cz -C /etc/vpn-stack --exclude='./rendered*' .` -/
def createState (dir : Files) : Files := fun path => if isRendered path then none else dir path

/-- `backup_stream`, with the volumes its version of the script names. -/
def backupStream (known : List (String × String)) (s : Server) : Archive where
  state := createState s.state
  members := known.foldl (fun members pair => Function.update members pair.2 (some (s.volumes pair.1))) fun _ => none

/-- `tar xz -C dir`: the members are created or overwritten, and nothing is deleted. -/
def extract (archive dir : Files) : Files := fun path => (archive path).or (dir path)

/-- The turn of one volume in `restore`'s loop. -/
def unpackVolume (archive : Archive) (volumes : String → Files) (pair : String × String) : String → Files :=
  match archive.members pair.2 with
  | some files => Function.update volumes pair.1 (extract files (volumes pair.1))
  -- An older backup: the volume is left to be what it is.
  | none => volumes

/-- `test -s /etc/vpn-stack/users.json`. -/
def hasUsers (t : Server) : Bool := (t.state "users.json").any fun content => !content.isEmpty

/-- `restore` up to the end of the unpacking; none where it refuses. -/
def restore (force : Bool) (archive : Archive) (t : Server) : Option Server :=
  if force = false ∧ hasUsers t then none
  else some { state := extract archive.state t.state, volumes := backupVolumes.foldl (unpackVolume archive) t.volumes }

/-- The keyring's files. -/
def Server.keyring (s : Server) : String → Option Bytes := fun name => s.state ("secrets/" ++ name)

end Backup

end VpnStack
