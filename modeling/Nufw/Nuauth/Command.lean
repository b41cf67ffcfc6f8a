import Nufw.Nubase.ConfigTable
import Nufw.Nuauth.CommandEnc

/-!
# The commands of the administration client

`command.c`: the client sends the text of a command, and `command_execute` fills an encoder, which
is then sent as the content of an answer. A command that adds nothing is answered by closing the
connection.

Most commands add one value. `confdump` adds one string for each entry of the configuration table,
one after the other.
-/

namespace Nufw

/-- What `display threads` prints. -/
structure ThreadCounts where
  userLoggers : UInt32
  userSessionLoggers : UInt32
  unprocessedUser : UInt32
  unprocessedUserSession : UInt32
  maxUser : UInt32
  maxUserSession : UInt32
  loggersPoolFull : Bool
  sessionLoggersPoolFull : Bool

/-- What the commands are executed in: the settings and tables of nuauth, the results of what they
call elsewhere, and the texts of the build. -/
structure CommandEnv where
  now : Int
  startTimestamp : Int
  /-- The sessions, in the order of their hash table. -/
  users : List UserEntry
  servers : List NufwEntry
  configTable : ConfigTable
  debugLevel : Int
  debugAreas : Int
  /-- `nuauthconf->acl_cache`. -/
  aclCache : Bool
  threads : ThreadCounts
  connListSize : UInt32
  clientConnHashSize : UInt32
  /-- `command_do_disconnect`: whether some user has been disconnected. -/
  doDisconnect : Int → Bool
  /-- `nuauth_reload`: whether a restart is needed. -/
  reload : Bool
  /-- `random ()`. -/
  random : ℕ
  /-- `NUAUTH_FULL_VERSION`. -/
  fullVersion : Bytes

/-- `COMMAND_HELP`. -/
def commandHelp : Bytes := ascii ("\n".intercalate
  ["version: display nuauth version",
    "confdump: dump configuration",
    "users: list connected users",
    "firewalls: list connected nufw firewalls",
    "packets count: display number of decision waiting packets",
    "user count: display number of connected clients",
    "refresh cache: refresh all caches",
    "refresh crl: refresh the TLS crl file",
    "disconnect ID: disconnect an user with his session identifier",
    "disconnect all: disconnect all users",
    "uptime: display nuauth starting time and uptime",
    "reload: reload nuauth configuration",
    "reload periods: reload the time periods",
    "display debug_level",
    "display debug_areas",
    "display threads",
    "debug_level LEVEL",
    "debug_areas AREAS",
    "help: display this help",
    "quit: disconnect"])

/-- `FORTUNES`. -/
def fortunes : List Bytes :=
  ["<haypo> gryzor: c'est pratique subversion hein ? surtout les lendemains de fete",
    "<Regit> J'ai un cerveau de mulot en bas age",
    "<misc> c'est debian, c'est credible",
    "<lodesi> naotemp_home: windows me fait pas peur :P\n" ++
      "<naotemp_home> lodesi: bon ben on t envoie au kosovo",
    "<acatout> C'est pas un veterinaire, qu'il faut, pour un troll ?",
    "\"impossible\" (c) gryzor"].map ascii

/-- `fortune`. For the largest random number there is none. -/
def fortune (random : ℕ) : Option Bytes := fortunes[random * 6 / (2 ^ 31 - 1)]?

/-- A flag, as `display threads` prints it. -/
def trueFalse (b : Bool) : Bytes := if b then ascii "true" else ascii "false"

/-- The text of `display threads`, in a buffer of 450 bytes. -/
def ThreadCounts.print (t : ThreadCounts) : Bytes :=
  (ascii "User threads: " ++ decimal t.userLoggers.toNat ++
    ascii "\nUser session threads: " ++ decimal t.userSessionLoggers.toNat ++
    ascii "\nUnprocessed user threads: " ++ decimal t.unprocessedUser.toNat ++
    ascii "\nUnprocessed user session threads: " ++ decimal t.unprocessedUserSession.toNat ++
    ascii "\nMax user threads: " ++ decimal t.maxUser.toNat ++
    ascii "\nMax user session threads: " ++ decimal t.maxUserSession.toNat ++
    ascii "\nlogger user pool full: " ++ trueFalse t.loggersPoolFull ++
    ascii "\nlogger session pool full: " ++ trueFalse t.sessionLoggersPoolFull ++
    ascii "\n").take 449

/-! ### What is added to the encoder -/

/-- `command_users`. The list is built from its end. -/
def commandUsers (now : Int) (users : List UserEntry) (e : Encoder) : Option Encoder := do
  let items ← users.mapM (encodeUser now)
  e.addTupleFromSlist items.reverse

/-- `command_servers`. -/
def commandServers (now : Int) (servers : List NufwEntry) (e : Encoder) : Option Encoder := do
  let items ← servers.mapM (encodeNufw now)
  e.addTupleFromSlist items.reverse

/-- What a branch of `command_execute` calls to add a value. -/
inductive Added where
  | string (text : Bytes)
  | int32 (value : Int)
  | uptime (start diff : Int)
  | users (now : Int) (sessions : List UserEntry)
  | servers (now : Int) (sessions : List NufwEntry)

/-- The call. -/
def Added.add : Added → Encoder → Option Encoder
  | .string text => Encoder.addString text
  | .int32 value => Encoder.addInt32 value
  | .uptime start diff => Encoder.addUptime start diff
  | .users now sessions => commandUsers now sessions
  | .servers now sessions => commandServers now sessions

/-- `nubase_config_table_print` with `conf_server_side_print`: a string for each entry. -/
def confServerSidePrint (table : ConfigTable) : List Added :=
  table.map fun e ↦ .string (e.1 ++ ascii "=" ++ e.2)

/-! ### The commands -/

/-- The commands. -/
inductive Command where
  | quit
  | help
  | uptime
  | nupik
  | users
  | firewalls
  | version
  | confdump
  | disconnectAll
  | disconnect (id : Bytes)
  | reload
  | reloadPeriods
  | refreshCache
  | refreshCrl
  | debugLevel (level : Bytes)
  | debugAreas (areas : Bytes)
  | displayDebugLevel
  | displayDebugAreas
  | displayThreads
  | packetsCount
  | userCount

/-- Which branch of `command_execute` a text takes. Of `"disconnect "` ten bytes are compared. -/
def Command.ofBytes (command : Bytes) : Option Command :=
  if command = ascii "quit" then some .quit
  else if command = ascii "help" then some .help
  else if command = ascii "uptime" then some .uptime
  else if command = ascii "nupik!" then some .nupik
  else if command = ascii "users" then some .users
  else if command = ascii "firewalls" then some .firewalls
  else if command = ascii "version" then some .version
  else if command = ascii "confdump" then some .confdump
  else if command = ascii "disconnect all" then some .disconnectAll
  else if (ascii "disconnect").isPrefixOf command then some (.disconnect (command.drop 10))
  else if command = ascii "reload" then some .reload
  else if command = ascii "reload periods" then some .reloadPeriods
  else if command = ascii "refresh cache" then some .refreshCache
  else if command = ascii "refresh crl" then some .refreshCrl
  else if (ascii "debug_level ").isPrefixOf command then some (.debugLevel (command.drop 12))
  else if (ascii "debug_areas ").isPrefixOf command then some (.debugAreas (command.drop 12))
  else if command = ascii "display debug_level" then some .displayDebugLevel
  else if command = ascii "display debug_areas" then some .displayDebugAreas
  else if command = ascii "display threads" then some .displayThreads
  else if command = ascii "packets count" then some .packetsCount
  else if command = ascii "user count" then some .userCount
  else none

/-- What a branch leaves: the settings, `ok`, and the calls that fill the encoder. -/
structure Branch where
  env : CommandEnv
  ok : UInt8 := 1
  added : List Added

namespace Command

/-- The branches of `command_execute`. There is no fortune beyond the last one. -/
def branch (env : CommandEnv) : Command → Option Branch
  | .quit => some { env, added := [] }
  | .help => some { env, added := [.string commandHelp] }
  | .uptime => some { env, added := [.uptime env.startTimestamp (env.now - env.startTimestamp)] }
  | .nupik => (fortune env.random).map fun text ↦ { env, added := [.string text] }
  | .users => some { env, added := [.users env.now env.users] }
  | .firewalls => some { env, added := [.servers env.now env.servers] }
  | .version => some { env, added := [.string env.fullVersion] }
  | .confdump => some { env, added := confServerSidePrint env.configTable }
  | .disconnectAll =>
    if env.doDisconnect (-1) then some { env, added := [.string (ascii "users disconnected")] }
    else some { env, ok := 0, added := [.string (ascii "no user connected")] }
  | .disconnect id =>
    match strToInt id with
    | none => some { env, ok := 0, added := [] }
    | some sock =>
      if env.doDisconnect sock then some { env, added := [.string (ascii "users disconnected")] }
      else some { env, ok := 0, added := [.string (ascii "no user connected")] }
  | .reload =>
    if env.reload then
      some { env, added := [.string (ascii "Configuration change requires Nuauth restart")] }
    else some { env, added := [.string (ascii "Configuration reloaded")] }
  | .reloadPeriods => some { env, added := [.string (ascii "Periods reloaded")] }
  | .refreshCache =>
    if env.aclCache then some { env, added := [.string (ascii "Cache refreshed")] }
    else some { env, added := [.string (ascii "Cache disabled")] }
  | .refreshCrl => some { env, added := [.string (ascii "Refresh of CRL file done")] }
  | .debugLevel level =>
    if 0 < atoi level ∧ atoi level ≤ 9 then
      some { env := { env with debugLevel := atoi level }
             added := [.string (ascii "Debug level changed")] }
    else some { env, ok := 0, added := [.string (ascii "Improper debug level (not in 1..9)")] }
  | .debugAreas areas =>
    if 0 < atoi areas then
      some { env := { env with debugAreas := atoi areas }
             added := [.string (ascii "Debug areas changed")] }
    else some { env, ok := 0, added := [.string (ascii "Improper debug areas")] }
  | .displayDebugLevel => some { env, added := [.int32 env.debugLevel] }
  | .displayDebugAreas => some { env, added := [.int32 env.debugAreas] }
  | .displayThreads => some { env, added := [.string env.threads.print] }
  | .packetsCount => some { env, added := [.int32 env.connListSize.toNat] }
  | .userCount => some { env, added := [.int32 env.clientConnHashSize.toNat] }

end Command

/-- The calls, on an encoder of their own. -/
def fill (added : List Added) : Option Encoder := added.foldlM (fun e a ↦ a.add e) Encoder.new

/-- `command_execute`: the settings, and the answer that is sent unless the client is closed.
An unknown command adds nothing. -/
def commandExecute (env : CommandEnv) (command : Bytes) : Option (CommandEnv × Option Encoder) :=
  match Command.ofBytes command with
  | none => some (env, none)
  | some cmd => do
    let b ← cmd.branch env
    let encoder ← fill b.added
    if encoder.size = 0 then some (b.env, none)
    else do
      let answer ← encodeAnswer b.ok encoder
      some (b.env, some answer)

/-- **A command adds one value, or none, or it dumps the configuration.** -/
theorem Command.added_of_branch {env : CommandEnv} {cmd : Command} {b : Branch}
    (h : cmd.branch env = some b) :
    b.added = [] ∨ (∃ a, b.added = [a] ∧ cmd ≠ .confdump) ∨
      cmd = .confdump ∧ b.added = confServerSidePrint env.configTable := by
  cases cmd with
  | quit =>
    cases h
    exact Or.inl rfl
  | confdump =>
    cases h
    exact Or.inr (Or.inr ⟨rfl, rfl⟩)
  | nupik =>
    obtain ⟨text, -, rfl⟩ := Option.map_eq_some_iff.1 h
    exact Or.inr (Or.inl ⟨_, rfl, fun h ↦ by cases h⟩)
  | disconnect id =>
    rw [branch] at h
    split at h
    · cases h
      exact Or.inl rfl
    · split at h <;> cases h <;> exact Or.inr (Or.inl ⟨_, rfl, fun h ↦ by cases h⟩)
  | disconnectAll | reload | refreshCache | debugLevel | debugAreas =>
    rw [branch] at h
    split at h <;> cases h <;> exact Or.inr (Or.inl ⟨_, rfl, fun h ↦ by cases h⟩)
  | _ =>
    cases h
    exact Or.inr (Or.inl ⟨_, rfl, fun h ↦ by cases h⟩)

end Nufw
