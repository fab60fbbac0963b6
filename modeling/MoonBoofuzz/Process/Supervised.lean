import MoonBoofuzz.Process.Monitor

namespace MoonBoofuzz

namespace Processes

open Raising

variable {σ : Type}

/-! At most one process at a time. -/

/-- The process has been seen to exit, or a kill of it has succeeded; whether a killed process
is gone is not waited for. -/
def ExitedOrKilled (events : List Event) (handle : Nat) : Prop :=
  .exited handle ∈ events ∨ .killed handle ∈ events

/-- Whenever a process was started, all that were started before had exited or been killed. -/
def OneByOne (events : List Event) : Prop :=
  ∀ front handle back, events = front ++ .spawned handle :: back →
    ∀ earlier, .spawned earlier ∈ front → ExitedOrKilled front earlier

theorem ExitedOrKilled.append {events : List Event} {handle : Nat}
    (hover : ExitedOrKilled events handle) (later : List Event) :
    ExitedOrKilled (events ++ later) handle :=
  hover.imp (List.mem_append_left later) (List.mem_append_left later)

theorem OneByOne.append {events : List Event} {event : Event} (hone : OneByOne events)
    (hevent : ∀ handle, event = .spawned handle →
      ∀ earlier, .spawned earlier ∈ events → ExitedOrKilled events earlier) :
    OneByOne (events ++ [event]) := by
  intro front handle back hsplit
  induction back using List.reverseRecOn with
  | nil =>
      obtain ⟨rfl, hlast⟩ := List.append_inj' hsplit rfl
      exact hevent handle (List.cons.inj hlast).1
  | append_singleton back last _ =>
      rw [← List.cons_append, ← List.append_assoc] at hsplit
      exact hone front handle back (List.append_inj' hsplit rfl).1

/-- What holds between the calls of the monitor: processes come one by one, all but the current
one have exited or been killed, and so has that one when its exit has been latched. -/
structure Supervised (host : Host σ) : Prop where
  oneByOne : OneByOne host.events
  others : ∀ handle, .spawned handle ∈ host.events →
    ExitedOrKilled host.events handle ∨
      ∃ process, host.current = some process ∧ process.handle = handle
  latched : ∀ process, host.current = some process → process.exited = true →
    ExitedOrKilled host.events process.handle

def Has (process : Process) (host : Host σ) : Prop :=
  Supervised host ∧ host.current = some process

def HasNone (host : Host σ) : Prop := Supervised host ∧ host.current = none

section

variable {host : Host σ} {process : Process}

theorem HasNone.over (hhost : HasNone host) {handle : Nat}
    (hspawned : .spawned handle ∈ host.events) : ExitedOrKilled host.events handle := by
  rcases hhost.1.others handle hspawned with hover | ⟨process, hcurrent, -⟩
  · exact hover
  · rw [hhost.2] at hcurrent
    cases hcurrent

theorem Supervised.others_append (hhost : Supervised host) {event : Event}
    (hevent : ∀ handle, event ≠ .spawned handle) {handle : Nat}
    (hspawned : .spawned handle ∈ host.events ++ [event]) :
    ExitedOrKilled (host.events ++ [event]) handle ∨
      ∃ process, host.current = some process ∧ process.handle = handle := by
  rcases List.mem_append.mp hspawned with hspawned | hspawned
  · exact (hhost.others handle hspawned).imp_left fun hover => hover.append [event]
  · exact absurd (List.mem_singleton.mp hspawned).symm (hevent handle)

theorem Has.latch (hhost : Has process host) (exitCode : Int) :
    Has { process with exited := true, exitCode := exitCode }
      { host with
        current := some { process with exited := true, exitCode := exitCode }
        events := host.events ++ [.exited process.handle] } := by
  refine ⟨⟨hhost.1.oneByOne.append ?_, fun handle hspawned => ?_, ?_⟩, rfl⟩
  · rintro handle ⟨⟩
  · refine (hhost.1.others_append (by simp) hspawned).imp_right ?_
    rintro ⟨other, hcurrent, hhandle⟩
    rw [hhost.2] at hcurrent
    obtain rfl := Option.some.inj hcurrent
    exact ⟨_, rfl, hhandle⟩
  · rintro _ ⟨⟩ -
    exact Or.inl (by simp)

theorem Has.kill (hhost : Has process host) :
    Has process { host with events := host.events ++ [.killed process.handle] } := by
  refine ⟨⟨hhost.1.oneByOne.append ?_, fun handle => hhost.1.others_append (by simp), ?_⟩, hhost.2⟩
  · rintro handle ⟨⟩
  · exact fun other hcurrent hexited => (hhost.1.latched other hcurrent hexited).append _

theorem HasNone.spawn (hhost : HasNone host) (handle : Nat) :
    Has ⟨handle, false, 0⟩ { host with
      current := some ⟨handle, false, 0⟩
      events := host.events ++ [.spawned handle] } := by
  refine ⟨⟨hhost.1.oneByOne.append fun _ _ earlier => hhost.over, fun other hspawned => ?_, ?_⟩,
    rfl⟩
  · rcases List.mem_append.mp hspawned with hspawned | hspawned
    · exact Or.inl ((hhost.over hspawned).append _)
    · obtain rfl := Event.spawned.inj (List.mem_singleton.mp hspawned)
      exact Or.inr ⟨_, rfl, rfl⟩
  · rintro _ ⟨⟩ hexited
    cases hexited

end

abbrev Kept (_error : CallbackError) (host : Host σ) : Prop := Supervised host

/-- What stays true as more events are noted. -/
def Grows (kept : List Event → Prop) : Prop :=
  ∀ events later, kept events → kept (events ++ later)

structure Holds (kept : List Event → Prop) (process : Process) (host : Host σ) : Prop where
  has : Has process host
  kept : kept host.events

theorem Has.holds {process : Process} {host : Host σ} (hhost : Has process host) :
    Holds (fun _ => True) process host := ⟨hhost, trivial⟩

section

variable {process : Process} {monitor : ProcessMonitor σ} {kept : List Event → Prop}

section

variable (hkept : Grows kept)

include hkept

end

end

inductive Call where
  | before (context : CaseContext)
  | after (result : CaseResult)
  | fault (result : CaseResult)
  | recover (result : CaseResult)
  | check (name : Text) (bytes : Bytes)

def ProcessMonitor.call (monitor : ProcessMonitor σ) (host : Host σ) : Call → Host σ
  | .before context => (monitor.callbacks.before context host).2
  | .after result => (monitor.callbacks.after result host).2
  | .fault result => (monitor.callbacks.fault result host).2
  | .recover result => (monitor.callbacks.recover result host).2
  | .check name bytes => (monitor.callbacks.check name bytes host).2

def Host.idle (world : σ) : Host σ := ⟨world, 0, none, [], []⟩

variable (monitor : ProcessMonitor σ)

end Processes

end MoonBoofuzz
