import Ceclircd.MainState
import Ceclircd.RunTrace
set_option autoImplicit false

/-! `Main::loop` as a machine: its own statements, callbacks from libcec's threads
and handled signals, in any order. -/

namespace Ceclircd

inductive Disposition where
  | default
  | signalHandler
  deriving DecidableEq, Repr

inductive Pc where
  | cecOpen
  | lircOpen
  | setRunning
  | sigaction
  | makeActive
  | pass
  | wait
  | signalReset
  | cecClose
  | lircClose
  | whileRestart
  | returned
  | threw
  deriving DecidableEq, Repr

/-- `killed`: a signal met its default action, which ends the process. -/
structure System where
  main : Main
  restart : Bool
  pc : Pc
  disposition : Signal → Disposition
  killed : Bool

inductive Action where
  | loop (ok : Bool)
  | callback (c : Callback)
  | signal (sigNum : Signal)
  deriving DecidableEq, Repr

namespace System

def initial (c : Settings) : System where
  main := Main.initial c
  restart := false
  pc := .cecOpen
  disposition := fun _ => .default
  killed := false

/-- One statement of `Main::loop`. `ok` is the outcome of `cec.open`, `mylirc.Open`
and `cec.makeActive`: that they return (true), or throw or return false. -/
def loopStep (s : System) (ok : Bool) : Option (System × List Event) :=
  match s.pc with
  | .cecOpen => some ({ s with pc := if ok then .lircOpen else .threw },[.cecOpen ok])
  | .lircOpen =>
      if ok then some ({ s with pc := .setRunning },[.lircOpen true])
      else some ({ s with pc := .returned, disposition := fun _ => .default },
        [.lircOpen false,.signalReset,.cecClose (!s.restart),.returned])
  | .setRunning =>
      some ({ s with main := { s.main with running := true }, pc := .sigaction },[.setRunning])
  | .sigaction =>
      some ({ s with pc := .makeActive, disposition := fun _ => .signalHandler },[.sigaction])
  | .makeActive =>
      if s.main.makeActive then
        some ({ s with pc := if ok then .pass else .threw },[.makeActive ok])
      else some ({ s with pc := .pass },[])
  | .pass =>
      let ((m,restart),es) := s.main.commandPass s.restart
      some ({ s with main := m, restart := restart, pc := .wait },es)
  | .wait => some ({ s with pc := if s.main.running then .pass else .signalReset },[])
  | .signalReset =>
      some ({ s with pc := .cecClose, disposition := fun _ => .default },[.signalReset])
  | .cecClose => some ({ s with pc := .lircClose },[.cecClose (!s.restart)])
  | .lircClose => some ({ s with pc := .whileRestart },[.lircClose])
  | .whileRestart =>
      if s.restart then some ({ s with pc := .cecOpen },[])
      else some ({ s with pc := .returned },[.returned])
  | .returned => none
  | .threw => none

/-- `SA_RESETHAND`: the handler is replaced by the default as it is entered. -/
def deliver (s : System) (sigNum : Signal) : System × List Event :=
  match s.disposition sigNum with
  | .default => ({ s with killed := true },[])
  | .signalHandler =>
      let (m,es) := s.main.signalHandler sigNum
      ({ s with main := m,
                disposition := fun n => if n = sigNum then .default else s.disposition n },es)

/-- A push and a locked pass are one step each: also the push of a handler that runs on a
thread which holds `libcec_sync`, where the source never returns. -/
def step (s : System) (a : Action) : Option (System × List Event) :=
  if s.killed then none
  else match a with
    | .loop ok => s.loopStep ok
    | .callback c =>
        let (m,es) := s.main.callback c
        some ({ s with main := m },es)
    | .signal sigNum => some (s.deliver sigNum)

end System

theorem processed_loopEvents (tr : List Event) : processed (loopEvents tr) = processed tr := by
  simp only [processed,loopEvents,List.filterMap_filter]
  congr
  funext e
  cases e <;> rfl

/-- What a callback may do to the members the loop works with: nothing, but push. -/
structure Main.Passive (m : Main) (r : Main × List Event) : Prop where
  running : r.1.running = m.running
  makeActive : r.1.makeActive = m.makeActive
  commands : r.1.commands = m.commands ++ accepted r.2
  quiet : loopEvents r.2 = []
  gated : accepted r.2 ≠ [] → m.running = true
  standby : r.1.onStandbyCommand = m.onStandbyCommand

namespace Main

theorem passive_self (m : Main) : m.Passive (m,[]) := ⟨rfl,rfl,by simp,rfl,by simp,rfl⟩

theorem push_passive (m : Main) (cmd : Command) : m.Passive (m.push cmd) := by
  unfold push
  by_cases h : m.running
  · rw [if_pos h]
    exact ⟨rfl,rfl,rfl,rfl,fun _ => h,rfl⟩
  · rw [if_neg h]
    exact ⟨rfl,rfl,by simp [accepted,Event.accepted?],rfl,by simp [accepted,Event.accepted?],rfl⟩

theorem writeLirc_quiet (key : Keypress) (b : Bool) (ukeys : List String) :
    pushed (ukeys.map (fun k => writeLirc key k b)) = [] ∧
      loopEvents (ukeys.map (fun k => writeLirc key k b)) = [] := by
  induction ukeys with
  | nil => exact ⟨rfl,rfl⟩
  | cons k ukeys ih => exact ih

theorem onCecKeyPress_passive (m : Main) (key : Keypress) : m.Passive (m.onCecKeyPress key) := by
  by_cases h : acceptsKey key
  · have hq := writeLirc_quiet key (m.repeatCount > 2) (uinputCecMap key.keycode)
    have hacc := accepted_of_pushed_nil hq.1
    rw [onCecKeyPress_accepts m h]
    exact ⟨rfl,rfl,by simp [hacc],hq.2,by simp [hacc],rfl⟩
  · rw [onCecKeyPress_ignores m h]
    exact passive_self m

theorem onCecCommand_passive (m : Main) (command : CecCommand) :
    m.Passive (m.onCecCommand command) := by
  unfold onCecCommand
  split
  · exact push_passive m _
  · split
    · exact push_passive m _
    · exact passive_self m
  · exact passive_self m
  · split
    · exact onCecKeyPress_passive m _
    · exact passive_self m
  · split
    · exact onCecKeyPress_passive m _
    · split <;> exact onCecKeyPress_passive m _
  · exact ⟨rfl,rfl,by simp,rfl,by simp,rfl⟩
  · dsimp only
    split
    · obtain ⟨h1,h2,h3,h4,h5,h6⟩ := onCecKeyPress_passive
        { m with repeatCount := toInt32 (m.repeatCount + 1) } ⟨m.lastKey.keycode,0⟩
      exact ⟨h1,h2,h3,h4,h5,h6⟩
    · exact ⟨rfl,rfl,by simp,rfl,by simp,rfl⟩
  · exact passive_self m

theorem callback_passive (m : Main) (c : Callback) : m.Passive (m.callback c) := by
  cases c with
  | keyPress key => exact onCecKeyPress_passive m key
  | command command => exact onCecCommand_passive m command
  | alert alert =>
    cases alert with
    | serviceDevice | other => exact passive_self m
    | connectionLost | permissionError | portBusy | physicalAddressError | tvPollFailed =>
      exact push_passive m .restart
  | configurationChanged primary => exact ⟨rfl,rfl,by simp [callback,onCecConfigurationChanged],
      rfl,by simp [callback,onCecConfigurationChanged],rfl⟩
  | menuStateChanged => exact onCecKeyPress_passive m ⟨UserControlCode.contentsMenu,0⟩
  | sourceActivated address bActivated =>
    simp only [callback,onCecSourceActivated]
    split
    · split <;> exact push_passive m _
    · exact passive_self m
  | stop => exact push_passive m .exit
  | restart => exact push_passive m .restart

end Main

/-- What the handler pushes. -/
def Signal.command : Signal → Command
  | .pipe | .hup => .restart
  | .int | .term => .exit

theorem signalHandler_eq (m : Main) (sigNum : Signal) :
    m.signalHandler sigNum = m.push sigNum.command := by
  cases sigNum <;> rfl

theorem Main.signalHandler_passive (m : Main) (sigNum : Signal) :
    m.Passive (m.signalHandler sigNum) := by
  rw [signalHandler_eq]
  exact m.push_passive _

end Ceclircd
