import MoonBoofuzz.Data.Triple
import MoonBoofuzz.Data.Utf8
import MoonBoofuzz.Runner.Execute

namespace MoonBoofuzz

open Text

namespace Processes

open Raising

variable {σ : Type}

/-! The child process of the monitor and what the platform does with it. -/

inductive ProcessError where
  | spawnFailure (code : Int)
  | pollFailure (code : Int)
  | killFailure (code : Int)
  deriving Repr, DecidableEq

/-- A process object: its number among all that were made, and what a poll has latched. -/
structure Process where
  handle : Nat
  exited : Bool
  exitCode : Int
  deriving Repr, DecidableEq

structure Platform (σ : Type) where
  spawn : Nat → Bytes → σ → Int × σ
  poll : Nat → σ → Int × σ
  exitCode : Nat → σ → Int
  kill : Nat → σ → Int × σ
  error : Nat → σ → Int
  sleepMs : Int → σ → σ
  /-- How many polls the clock leaves time for before a deadline. -/
  polls : Int → σ → Nat

inductive Event where
  | spawned (handle : Nat)
  | exited (handle : Nat)
  | killed (handle : Nat)
  deriving Repr, DecidableEq

structure Host (σ : Type) where
  outside : σ
  made : Nat
  current : Option Process
  synopsis : Text
  /-- The code does not see them. -/
  events : List Event

/-- The arguments of `ProcessMonitor::new`, with the platform and the texts of errors. -/
structure ProcessMonitor (σ : Type) where
  platform : Platform σ
  debug : ProcessError → Text
  command : Text
  startDelayMs : Int
  stopDelayMs : Int

abbrev Step (σ α : Type) := Raising CallbackError (Host σ) α

def outside (action : σ → α × σ) : Step σ α :=
  perform fun host => ((action host.outside).1, { host with outside := (action host.outside).2 })

def current : Step σ (Option Process) := perform fun host => (host.current, host)

def say (text : Text) : Step σ Unit := modify fun host => { host with synopsis := text }

namespace ProcessMonitor

variable (monitor : ProcessMonitor σ)

def fail {α : Type} (handle : Nat) (error : Int → ProcessError) : Step σ α := fun host =>
  raise (.other (monitor.debug (error (monitor.platform.error handle host.outside)))) host

def sleep (milliseconds : Int) : Step σ Unit :=
  outside fun world => ((), monitor.platform.sleepMs milliseconds world)

/-- The exit of a process that has been polled.  The monitor holds one process, which is this
one. -/
def latch (process : Process) : Step σ Process :=
  perform fun host =>
    let process := { process with
      exited := true, exitCode := monitor.platform.exitCode process.handle host.outside }
    (process, { host with
      current := some process, events := host.events ++ [.exited process.handle] })

/-- `Process::status`, as the process with what it has latched. -/
def status (process : Process) : Step σ Process :=
  if process.exited then pure process
  else do
    let code ← outside (monitor.platform.poll process.handle)
    if code = 0 then monitor.latch process
    else if code = -1 then monitor.fail process.handle .pollFailure
    else pure process

def kill (process : Process) : Step σ Unit := do
  let code ← outside (monitor.platform.kill process.handle)
  if code = 0 then
    modify fun host => { host with events := host.events ++ [.killed process.handle] }
  else monitor.fail process.handle .killFailure

def waitLoop (process : Process) : Nat → Step σ Process
  | 0 => pure process
  | polls + 1 => do
      let code ← outside (monitor.platform.poll process.handle)
      if code = 0 then monitor.latch process
      else if code = -1 then monitor.fail process.handle .pollFailure
      else do
        monitor.sleep 10
        waitLoop process polls

/-- `Process::wait`, as the process with what it has latched. -/
def wait (timeoutMs : Int) (process : Process) : Step σ Process := fun host =>
  monitor.waitLoop process (monitor.platform.polls timeoutMs host.outside) host

def start : Step σ Unit := do
  let handle ← perform fun host => (host.made, { host with made := host.made + 1 })
  let code ← outside (monitor.platform.spawn handle (encodeUtf8 monitor.command))
  if code ≠ 0 then monitor.fail handle .spawnFailure
  else do
    let process : Process := ⟨handle, false, 0⟩
    modify fun host =>
      { host with current := some process, events := host.events ++ [.spawned handle] }
    monitor.sleep (if monitor.startDelayMs < 100 then 100 else monitor.startDelayMs)
    let process ← monitor.status process
    if process.exited then do
      say (ofAscii "target exited during startup with code " ++ integer process.exitCode)
      raise (.other (monitor.debug (.spawnFailure process.exitCode)))
    else pure ()

def killAlive (process : Process) : Step σ Unit :=
  if process.exited then pure () else monitor.kill process

def settle : Step σ Unit :=
  if 0 < monitor.stopDelayMs then monitor.sleep monitor.stopDelayMs else pure ()

def stop : Step σ Unit := do
  match ← current with
  | none => pure ()
  | some process =>
      let process ← monitor.status process
      monitor.killAlive process
      monitor.settle
      let _ ← monitor.wait 2000 process
      modify fun host => { host with current := none }

def errorText : CallbackError → Text
  | .targetFailed reason => reason
  | .other text => text

def before (_context : CaseContext) : Step σ Unit := do
  match ← current with
  | none => monitor.start
  | some process =>
      let process ← monitor.status process
      if process.exited then
        catching (do monitor.stop; monitor.start) fun error =>
          say (ofAscii "target start failed: " ++ errorText error)
      else pure ()

/-- Whether a crash may have been seen before the exit. -/
def mayLag : Outcome → Bool
  | .connectionIgnored _ => true
  | .peerClosed => true
  | _ => false

/-- The second look at a process that has not exited yet. -/
def lookAgain (outcome : Outcome) (process : Process) : Step σ Process :=
  if process.exited = false ∧ mayLag outcome = true then do
    let process ← monitor.wait 50 process
    monitor.status process
  else pure process

def after (result : CaseResult) : Step σ Unit := do
  match ← current with
  | none => pure ()
  | some process =>
      let process ← monitor.status process
      let process ← monitor.lookAgain result.outcome process
      if process.exited then do
        let text := ofAscii "target process exited with code " ++ integer process.exitCode
        say text
        raise (.targetFailed text)
      else pure ()

def recover (_result : CaseResult) : Step σ Bool :=
  catching (do monitor.stop; monitor.start; pure true) fun _ => pure false

def callbacks : Monitor (Host σ) where
  before := monitor.before
  after := monitor.after
  fault := fun _ host => (.ok (), host)
  recover := monitor.recover
  check := fun _ _ host => (.ok true, host)

end ProcessMonitor

end Processes

end MoonBoofuzz
