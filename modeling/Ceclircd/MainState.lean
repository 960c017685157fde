import Ceclircd.UinputMap
import Mathlib.Algebra.Group.Int.Defs
import Mathlib.Algebra.Group.Nat.Defs
import Mathlib.Data.List.Basic
set_option autoImplicit false

/-! The members of class `Main`, its callbacks, and the switch over one command. -/

namespace Ceclircd

inductive Command where
  | standby
  | active
  | inactive
  | restart
  | exit
  deriving DecidableEq, Repr

/-- The two commands whose case clears `running`. -/
def Command.endsSession : Command → Bool
  | .restart | .exit => true
  | .standby | .active | .inactive => false

inductive Signal where
  | hup
  | int
  | term
  | pipe
  deriving DecidableEq, Repr

structure Line where
  keycode : Int
  repeated : Bool
  keyString : String
  deriving DecidableEq, Repr

/-- The line as `writeLirc` hands it to `processevent`. -/
def Line.text (l : Line) : String :=
  String.ofList (Nat.toDigits 16 l.keycode.toNat) ++ " " ++
    (if l.repeated then "1" else "0") ++ " " ++ l.keyString ++ " RPICEC\n"

/-- What can be observed of a run: the calls the code makes, what `push` does with
a command, and the commands the loop takes from the queue. -/
inductive Event where
  | line (l : Line)
  | system (command : String)
  | accepted (cmd : Command)
  | refused (cmd : Command)
  | processed (cmd : Command)
  | cecOpen (ok : Bool)
  | lircOpen (ok : Bool)
  | setRunning
  | sigaction
  | makeActive (ok : Bool)
  | signalReset
  | cecClose (makeInactive : Bool)
  | lircClose
  | returned
  deriving DecidableEq, Repr

def Event.accepted? : Event → Option Command
  | .accepted cmd => some cmd
  | _ => none

def Event.processed? : Event → Option Command
  | .processed cmd => some cmd
  | _ => none

/-- A push, and whether it was accepted. -/
def Event.push? : Event → Option (Command × Bool)
  | .accepted cmd => some (cmd,true)
  | .refused cmd => some (cmd,false)
  | _ => none

def Event.line? : Event → Option Line
  | .line l => some l
  | _ => none

/-- The events the loop's own statements make, `writeLirc` and `system` apart. -/
def Event.ofLoop : Event → Bool
  | .line _ | .system _ | .accepted _ | .refused _ => false
  | _ => true

def accepted (tr : List Event) : List Command := tr.filterMap Event.accepted?
def processed (tr : List Event) : List Command := tr.filterMap Event.processed?
def pushed (tr : List Event) : List (Command × Bool) := tr.filterMap Event.push?
def lines (tr : List Event) : List Line := tr.filterMap Event.line?
def loopEvents (tr : List Event) : List Event := tr.filter Event.ofLoop

@[simp] theorem accepted_nil : accepted [] = [] := rfl
@[simp] theorem processed_nil : processed [] = [] := rfl
@[simp] theorem pushed_nil : pushed [] = [] := rfl
@[simp] theorem lines_nil : lines [] = [] := rfl
@[simp] theorem loopEvents_nil : loopEvents [] = [] := rfl

@[simp] theorem accepted_append (tr es : List Event) :
    accepted (tr ++ es) = accepted tr ++ accepted es := by simp [accepted]

@[simp] theorem processed_append (tr es : List Event) :
    processed (tr ++ es) = processed tr ++ processed es := by simp [processed]

@[simp] theorem pushed_append (tr es : List Event) :
    pushed (tr ++ es) = pushed tr ++ pushed es := by simp [pushed]

@[simp] theorem lines_append (tr es : List Event) :
    lines (tr ++ es) = lines tr ++ lines es := by simp [lines]

@[simp] theorem loopEvents_append (tr es : List Event) :
    loopEvents (tr ++ es) = loopEvents tr ++ loopEvents es := by simp [loopEvents]

@[simp] theorem loopEvents_processed (cmd : Command) :
    loopEvents [.processed cmd] = [.processed cmd] := rfl

@[simp] theorem processed_processed (cmd : Command) : processed [.processed cmd] = [cmd] := rfl

@[simp] theorem accepted_processed (cmd : Command) : accepted [.processed cmd] = [] := rfl

theorem mem_loopEvents {e : Event} {tr : List Event} (h : e ∈ tr) (he : e.ofLoop = true) :
    e ∈ loopEvents tr := List.mem_filter.mpr ⟨h,he⟩

theorem pushed_cons (e : Event) (tr : List Event) :
    pushed (e :: tr) = pushed [e] ++ pushed tr := pushed_append [e] tr

theorem processed_cons (e : Event) (tr : List Event) :
    processed (e :: tr) = processed [e] ++ processed tr := processed_append [e] tr

theorem loopEvents_cons (e : Event) (tr : List Event) :
    loopEvents (e :: tr) = loopEvents [e] ++ loopEvents tr := loopEvents_append [e] tr

theorem accepted_of_pushed_nil {tr : List Event} (h : pushed tr = []) : accepted tr = [] := by
  rw [pushed,List.filterMap_eq_nil_iff] at h
  rw [accepted,List.filterMap_eq_nil_iff]
  intro e he
  have hpush := h e he
  cases e with
  | accepted cmd => simp [Event.push?] at hpush
  | _ => rfl

/-- The members of `Main` that its methods read, in the order of the class. -/
structure Main where
  makeActive : Bool
  running : Bool
  lastKey : Keypress
  repeatCount : Int
  commands : List Command
  onStandbyCommand : String
  onActivateCommand : String
  onDeactivateCommand : String
  logicalAddress : Int
  deriving DecidableEq, Repr

structure Settings where
  makeActive : Bool
  onStandbyCommand : String
  onActivateCommand : String
  onDeactivateCommand : String
  deriving DecidableEq, Repr

def Settings.none : Settings := ⟨true,"","",""⟩

/-- The constructor, then the setters. `lastKey` has no initialiser; the object is a
function-local static, so it starts as zeros. -/
def Main.initial (c : Settings) : Main where
  makeActive := c.makeActive
  running := false
  lastKey := ⟨0,0⟩
  repeatCount := 0
  commands := []
  onStandbyCommand := c.onStandbyCommand
  onActivateCommand := c.onActivateCommand
  onDeactivateCommand := c.onDeactivateCommand
  logicalAddress := cecDeviceUnknown

/-- A 32-bit `int`; the increment of `repeatCount` wraps, as the compiled one does. -/
def toInt32 (n : Int) : Int := n.bmod (2 ^ 32)

namespace Main

def push (m : Main) (cmd : Command) : Main × List Event :=
  if m.running then ({ m with commands := m.commands ++ [cmd] },[.accepted cmd])
  else (m,[.refused cmd])

def stop (m : Main) : Main × List Event := m.push .exit

def restart (m : Main) : Main × List Event := m.push .restart

def signalHandler (m : Main) (sigNum : Signal) : Main × List Event :=
  match sigNum with
  | .pipe | .hup => m.restart
  | .int | .term => m.stop

def writeLirc (key : Keypress) (keyString : String) (repeated : Bool) : Event :=
  .line ⟨key.keycode,repeated,keyString⟩

def onCecKeyPress (m : Main) (key : Keypress) : Main × List Event :=
  if inKeyRange key.keycode then
    let uinputKeys := uinputCecMap key.keycode
    if uinputKeys ≠ [] then
      if key.duration = 0 ∨ key.keycode = UserControlCode.anChannelsList ∨
          key.keycode = UserControlCode.anReturn then
        ({ m with lastKey := key },
          uinputKeys.map (fun ukey => writeLirc key ukey (m.repeatCount > 2)))
      else (m,[])
    else (m,[])
  else (m,[])

def acceptsKey (key : Keypress) : Prop :=
  inKeyRange key.keycode ∧ uinputCecMap key.keycode ≠ [] ∧
    (key.duration = 0 ∨ key.keycode = UserControlCode.anChannelsList ∨
      key.keycode = UserControlCode.anReturn)

instance (key : Keypress) : Decidable (acceptsKey key) :=
  inferInstanceAs (Decidable (_ ∧ _ ∧ _))

theorem onCecKeyPress_accepts (m : Main) {key : Keypress} (h : acceptsKey key) :
    m.onCecKeyPress key = ({ m with lastKey := key },
      (uinputCecMap key.keycode).map (fun ukey => writeLirc key ukey (m.repeatCount > 2))) := by
  simp only [onCecKeyPress]
  rw [if_pos h.1,if_pos h.2.1,if_pos h.2.2]

theorem onCecKeyPress_ignores (m : Main) {key : Keypress} (h : ¬ acceptsKey key) :
    m.onCecKeyPress key = (m,[]) := by
  simp only [onCecKeyPress]
  by_cases hr : inKeyRange key.keycode
  · rw [if_pos hr]
    by_cases hm : uinputCecMap key.keycode ≠ []
    · rw [if_pos hm,if_neg (fun hd => h ⟨hr,hm,hd⟩)]
    · rw [if_neg hm]
  · rw [if_neg hr]

/-- The overload on `cec_user_control_code`. -/
def onCecKeyPressCode (m : Main) (keycode : Int) : Main × List Event :=
  m.onCecKeyPress ⟨keycode,0⟩

/-- `REQUEST_ACTIVE_SOURCE` falls through to `SET_MENU_LANGUAGE`, whose test only
decides whether to log. -/
def onCecCommand (m : Main) (command : CecCommand) : Main × List Event :=
  match command.opcode with
  | .standby => m.push .standby
  | .requestActiveSource => if m.makeActive then m.push .active else (m,[])
  | .setMenuLanguage => (m,[])
  | .deckControl =>
      if command.parameter 0 = deckControlModeStop then
        m.onCecKeyPressCode UserControlCode.stop
      else (m,[])
  | .play =>
      if command.parameter 0 = playModePlayForward then
        m.onCecKeyPressCode UserControlCode.play
      else if command.parameter 0 = playModePlayStill then
        m.onCecKeyPressCode UserControlCode.pause
      else m.onCecKeyPressCode UserControlCode.play
  | .userControlPressed =>
      ({ m with
          repeatCount := 0
          lastKey := { m.lastKey with keycode := UserControlCode.unknown } },[])
  | .vendorRemoteButtonUp =>
      let m := { m with repeatCount := toInt32 (m.repeatCount + 1) }
      if m.repeatCount > 2 ∧ m.lastKey.keycode ≠ UserControlCode.unknown then
        m.onCecKeyPressCode m.lastKey.keycode
      else (m,[])
  | .other _ => (m,[])

def onCecAlert (m : Main) (alert : Alert) : Main × List Event :=
  match alert with
  | .serviceDevice => (m,[])
  | .connectionLost | .permissionError | .portBusy | .physicalAddressError
  | .tvPollFailed => m.restart
  | .other _ => (m,[])

def onCecConfigurationChanged (m : Main) (primary : Int) : Main × List Event :=
  ({ m with logicalAddress := primary },[])

def onCecMenuStateChanged (m : Main) : Main × List Event :=
  m.onCecKeyPressCode UserControlCode.contentsMenu

def onCecSourceActivated (m : Main) (address : Int) (bActivated : Bool) : Main × List Event :=
  if m.logicalAddress = address then
    if bActivated then m.push .active else m.push .inactive
  else (m,[])

end Main

inductive Callback where
  | keyPress (key : Keypress)
  | command (command : CecCommand)
  | alert (alert : Alert)
  | configurationChanged (primary : Int)
  | menuStateChanged
  | sourceActivated (address : Int) (bActivated : Bool)
  | stop
  | restart
  deriving DecidableEq, Repr

namespace Main

def callback (m : Main) : Callback → Main × List Event
  | .keyPress key => m.onCecKeyPress key
  | .command command => m.onCecCommand command
  | .alert alert => m.onCecAlert alert
  | .configurationChanged primary => m.onCecConfigurationChanged primary
  | .menuStateChanged => m.onCecMenuStateChanged
  | .sourceActivated address bActivated => m.onCecSourceActivated address bActivated
  | .stop => m.stop
  | .restart => m.restart

/-- `system(command)` when a command is set; its result is only logged. -/
def runCommand (command : String) : List Event := if command ≠ "" then [.system command] else []

def dispatch (m : Main) (restart : Bool) : Command → (Main × Bool) × List Event
  | .standby =>
      if m.onStandbyCommand ≠ "" then ((m,restart),runCommand m.onStandbyCommand)
      else
        let (m,es) := m.onCecKeyPressCode UserControlCode.power
        ((m,restart),es)
  | .active => (({ m with makeActive := true },restart),runCommand m.onActivateCommand)
  | .inactive => (({ m with makeActive := false },restart),runCommand m.onDeactivateCommand)
  | .restart => (({ m with running := false },true),[])
  | .exit => (({ m with running := false },restart),[])

/-- The inner `while`, by recursion on the queue it pops. -/
def drain : List Command → Main → Bool → (Main × Bool) × List Event
  | [], m, restart => ((m,restart),[])
  | cmd :: rest, m, restart =>
      if m.running then
        let ((m,restart),es) := m.dispatch restart cmd
        let ((m,restart),fs) := drain rest { m with commands := rest } restart
        ((m,restart),.processed cmd :: es ++ fs)
      else ((m,restart),[])

/-- One pass of the command loop between taking `libcec_sync` and the timed wait. -/
def commandPass (m : Main) (restart : Bool) : (Main × Bool) × List Event :=
  drain m.commands m restart

end Main

end Ceclircd
