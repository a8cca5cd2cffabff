import ScriptSandbox.Proofs.Run.Acts

/-!
The shape of a trace. Whatever a run does, it leaves a stretch of events that neither report an error
nor halt, and behind it one ending: nothing, the halt of an `exit`, or a fault and the halt that goes
with it. The trace shows where its ending starts.
-/

namespace ScriptSandbox

/-- Whether the run goes on behind an event without an error. -/
def Event.isQuiet : Event → Bool
  | .error _ | .halt _ => false
  | _ => true

/-- A run that an error halted has the exit code 1. -/
theorem Control.exit_code_of_error {control : Control}
    (failed : control.payload = some Control.errorPayload) : control.exitCode = 1 := by
  have one : codeOf (Number.ofTextStart errorPayload).round = 1 := by decide +kernel
  simp only [exitCode, failed]
  exact one

inductive Ending where
  | finished
  | exited (payload : String)
  | failed (message : String)

namespace Ending

def events : Ending → List Event
  | .finished => []
  | .exited payload => [.halt payload]
  | .failed message => [.error message, .halt Control.errorPayload]

def payload? : Ending → Option String
  | .finished => none
  | .exited payload => some payload
  | .failed _ => some Control.errorPayload

def exitCode : Ending → Int
  | .finished => 0
  | .exited payload => Control.codeOf (Number.ofTextStart payload).round
  | .failed _ => 1

def lines : Ending → List (Bool × String)
  | .failed message => [(true, message)]
  | _ => []

theorem eq_finished_of_payload {ending : Ending} (unset : ending.payload? = none) :
    ending = .finished := by
  cases ending with
  | finished => rfl
  | exited payload => cases unset
  | failed message => cases unset

theorem eq_of_events {ending other : Ending} (same : ending.events = other.events) :
    ending = other := by
  cases ending <;> cases other <;> simp_all [events]

/-- A trace shows where its ending starts: quiet events come before it and it starts with none. -/
theorem eq_of_trace {quiet others : List Event} {ending other : Ending}
    (same : quiet ++ ending.events = others ++ other.events)
    (silent : ∀ event ∈ quiet, event.isQuiet = true)
    (silentToo : ∀ event ∈ others, event.isQuiet = true) : quiet = others ∧ ending = other := by
  have loud (last : Ending) : last.events.takeWhile Event.isQuiet = [] ∧
      last.events.dropWhile Event.isQuiet = last.events := by
    cases last <;> exact ⟨rfl, rfl⟩
  have before := congrArg (List.takeWhile Event.isQuiet) same
  have behind := congrArg (List.dropWhile Event.isQuiet) same
  rw [List.takeWhile_append_of_pos silent, List.takeWhile_append_of_pos silentToo, (loud _).1,
    (loud _).1, List.append_nil, List.append_nil] at before
  rw [List.dropWhile_append_of_pos silent, List.dropWhile_append_of_pos silentToo, (loud _).2,
    (loud _).2] at behind
  exact ⟨before, eq_of_events behind⟩

end Ending

namespace Machine

/-- What a run has left behind on the way from one machine to another. -/
structure Ends (start machine : Machine) (ending : Ending) : Prop where
  payload : machine.control.payload = ending.payload?
  events : ∃ quiet : List Event,
    machine.host.events.toList = start.host.events.toList ++ quiet ++ ending.events ∧
      ∀ event ∈ quiet, event.isQuiet = true

theorem is_quiet_of_question {event : Event} (question : event.isQuestion = true) :
    event.isQuiet = true := by
  cases event <;> first | rfl | cases question

theorem is_quiet_of_shown {event : Event} (shown : event.isShown = true) :
    event.isQuiet = true := by
  cases event <;> first | rfl | cases shown

theorem payload_of_running {machine : Machine} (running : machine.isHalted = false) :
    machine.control.payload = none := by
  rw [isHalted, Control.isHalted] at running
  simpa using running

theorem Ends.finished_of_running {start machine : Machine} {ending : Ending}
    (ends : Ends start machine ending) (running : machine.isHalted = false) :
    Ends start machine .finished := by
  have unset := ends.payload.symm.trans (payload_of_running running)
  rwa [Ending.eq_finished_of_payload unset] at ends

theorem Ends.append {start machine next : Machine} {ending : Ending}
    (ends : Ends start machine .finished) (quiet : List Event)
    (events : next.host.events.toList = machine.host.events.toList ++ quiet ++ ending.events)
    (silent : ∀ event ∈ quiet, event.isQuiet = true)
    (payload : next.control.payload = ending.payload?) : Ends start next ending := by
  obtain ⟨earlier, earlierEvents, earlierQuiet⟩ := ends.events
  refine ⟨payload, earlier ++ quiet, ?_, ?_⟩
  · rw [events, earlierEvents]
    simp [Ending.events]
  · intro event member
    rcases List.mem_append.mp member with old | new
    · exact earlierQuiet event old
    · exact silent event new

/-- One act keeps the shape of the trace. Only the acts that need a running machine extend it. -/
theorem act_ends {start machine next : Machine} {ending : Ending}
    (ends : Ends start machine ending) (act : Act machine next) : ∃ later, Ends start next later := by
  cases act with
  | evaluate tokens line running =>
      have asks := evaluate_asks tokens line machine
      obtain ⟨questions, events, asked⟩ := asks.events
      have unset := (ends.finished_of_running running).payload
      refine ⟨.finished, (ends.finished_of_running running).append questions ?_ ?_ ?_⟩
      · simpa [Ending.events] using events
      · exact fun event member => is_quiet_of_question (asked event member)
      · rw [asks.control, unset]
  | display event shown running =>
      have unset := (ends.finished_of_running running).payload
      refine ⟨.finished, (ends.finished_of_running running).append [event] ?_ ?_ unset⟩
      · simp [record, Host.record, Ending.events]
      · simpa using is_quiet_of_shown shown
  | save key value running =>
      have unset := (ends.finished_of_running running).payload
      refine ⟨.finished, (ends.finished_of_running running).append [.save key] ?_ ?_ unset⟩
      · simp only [Host.save]
        split <;> simp [Host.record, Ending.events]
      · simp [Event.isQuiet]
  | exit payload running =>
      refine ⟨.exited payload, (ends.finished_of_running running).append [] ?_ ?_ rfl⟩
      · simp [halt, record, Host.record, Ending.events]
      · simp
  | fail fault running =>
      refine ⟨.failed fault.message, (ends.finished_of_running running).append [] ?_ ?_ rfl⟩
      · simp [Machine.fail, halt, record, Host.record, Ending.events]
      · simp
  | assign | declare | count | frame => exact ⟨ending, ends.payload, ends.events⟩

/-- Whatever a run does, at most its last event but the clock reading is a halt. -/
theorem reaches_ends {start machine : Machine} (unset : start.control.payload = none)
    (reaches : Reaches start machine) : ∃ ending, Ends start machine ending := by
  induction reaches with
  | refl => exact ⟨.finished, unset, [], by simp [Ending.events], by simp⟩
  | tail _ act ih =>
      obtain ⟨ending, ends⟩ := ih
      exact act_ends ends act

/-- What a machine that still ran had done by then belongs to the quiet stretch of the trace. -/
theorem Ends.meanwhile {start middle final : Machine} {quiet later : List Event}
    {ending last : Ending} (ends : Ends start middle .finished)
    (events : final.host.events.toList = start.host.events.toList ++ quiet ++ ending.events)
    (rest : final.host.events.toList = middle.host.events.toList ++ later ++ last.events)
    (silent : ∀ event ∈ quiet, event.isQuiet = true)
    (silentToo : ∀ event ∈ later, event.isQuiet = true) :
    start.host.events.toList ++ quiet = middle.host.events.toList ++ later ∧ last = ending := by
  obtain ⟨earlier, earlierEvents, earlierSilent⟩ := ends.events
  simp only [Ending.events, List.append_nil] at earlierEvents
  have same : (earlier ++ later) ++ last.events = quiet ++ ending.events := by
    rw [rest, earlierEvents] at events
    simpa using events
  have both : ∀ event ∈ earlier ++ later, event.isQuiet = true := by
    intro event member
    rcases List.mem_append.mp member with old | new
    · exact earlierSilent event old
    · exact silentToo event new
  obtain ⟨between, lastSame⟩ := Ending.eq_of_trace same both silent
  rw [← between, earlierEvents, List.append_assoc]
  exact ⟨rfl, lastSame⟩

theorem Ends.exit_code {start machine : Machine} {ending : Ending}
    (ends : Ends start machine ending) : machine.control.exitCode = ending.exitCode := by
  cases ending with
  | finished => rw [Control.exitCode, ends.payload]; rfl
  | exited payload => rw [Control.exitCode, ends.payload]; rfl
  | failed message => exact Control.exit_code_of_error ends.payload

end Machine

theorem quiet_lines (quiet : List Event) (silent : ∀ event ∈ quiet, event.isQuiet = true) :
    ∃ logs : List String, quiet.filterMap Event.line? = logs.map fun text => (false, text) := by
  induction quiet with
  | nil => exact ⟨[], rfl⟩
  | cons event rest ih =>
      obtain ⟨logs, same⟩ := ih fun other member => silent other (List.mem_cons_of_mem _ member)
      have head := silent event List.mem_cons_self
      cases event with
      | log text => exact ⟨text :: logs, by simp [Event.line?, same]⟩
      | error text => cases head
      | _ => exact ⟨logs, same⟩

theorem Ending.filter_map_lines (ending : Ending) :
    ending.events.filterMap Event.line? = ending.lines := by
  cases ending <;> rfl

end ScriptSandbox
