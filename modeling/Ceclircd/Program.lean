import Ceclircd.CommandLine
import Ceclircd.CommandQueue
import Ceclircd.LoopCleanup
set_option autoImplicit false

/-! `main`: the options, what they make of the object `Main`, and how the process ends; and
what each command does under the settings it was given. -/

namespace Ceclircd
open RunTrace Getopt

def Settings.command (c : Settings) : Command → String
  | .standby => c.onStandbyCommand
  | .active => c.onActivateCommand
  | .inactive => c.onDeactivateCommand
  | .restart | .exit => ""

/-- What processing a command does to the outside: its command line is run, and without one
STANDBY is a press of the power key. -/
def reaction (c : Settings) (repeated : Bool) (cmd : Command) : List Event :=
  if c.command cmd ≠ "" then [.system (c.command cmd)]
  else if cmd = .standby then [.line ⟨UserControlCode.power,repeated,"KEY_POWER"⟩]
  else []

structure Main.Configured (m : Main) (c : Settings) : Prop where
  standby : m.onStandbyCommand = c.onStandbyCommand
  activate : m.onActivateCommand = c.onActivateCommand
  deactivate : m.onDeactivateCommand = c.onDeactivateCommand

structure Main.Answers (c : Settings) (r : Main × List Event) : Prop where
  configured : r.1.Configured c
  runsNothing : ∀ command, .system command ∉ r.2

namespace Main

theorem initial_configured (c : Settings) : (initial c).Configured c := ⟨rfl,rfl,rfl⟩

section
variable {m : Main} {c : Settings}

theorem Configured.silent (h : m.Configured c) : Answers c (m,[]) := ⟨h,by simp⟩

theorem Configured.push (h : m.Configured c) (cmd : Command) : Answers c (m.push cmd) := by
  unfold Main.push
  split
  · exact ⟨⟨h.standby,h.activate,h.deactivate⟩,by simp⟩
  · exact ⟨h,by simp⟩

theorem Configured.onCecKeyPress (h : m.Configured c) (key : Keypress) :
    Answers c (m.onCecKeyPress key) := by
  by_cases ha : acceptsKey key
  · rw [onCecKeyPress_accepts m ha]
    exact ⟨⟨h.standby,h.activate,h.deactivate⟩,by simp [writeLirc]⟩
  · rw [onCecKeyPress_ignores m ha]
    exact h.silent

theorem Configured.onCecCommand (h : m.Configured c) (command : CecCommand) :
    Answers c (m.onCecCommand command) := by
  unfold Main.onCecCommand
  split
  · exact h.push _
  · split
    · exact h.push _
    · exact h.silent
  · exact h.silent
  · split
    · exact h.onCecKeyPress _
    · exact h.silent
  · split
    · exact h.onCecKeyPress _
    · split <;> exact h.onCecKeyPress _
  · exact ⟨⟨h.standby,h.activate,h.deactivate⟩,by simp⟩
  · have hcount : Configured { m with repeatCount := toInt32 (m.repeatCount + 1) } c :=
      ⟨h.standby,h.activate,h.deactivate⟩
    dsimp only
    split
    · exact hcount.onCecKeyPress ⟨m.lastKey.keycode,0⟩
    · exact hcount.silent
  · exact h.silent

theorem Configured.callback (h : m.Configured c) (cb : Callback) :
    Answers c (m.callback cb) := by
  cases cb with
  | keyPress key => exact h.onCecKeyPress key
  | command command => exact h.onCecCommand command
  | alert alert =>
    cases alert with
    | serviceDevice | other => exact h.silent
    | connectionLost | permissionError | portBusy | physicalAddressError | tvPollFailed =>
      exact h.push .restart
  | configurationChanged primary => exact ⟨⟨h.standby,h.activate,h.deactivate⟩,fun _ hmem => by
      simp [Main.callback,onCecConfigurationChanged] at hmem⟩
  | menuStateChanged => exact h.onCecKeyPress ⟨UserControlCode.contentsMenu,0⟩
  | sourceActivated address bActivated =>
    simp only [Main.callback,onCecSourceActivated]
    split
    · split <;> exact h.push _
    · exact h.silent
  | stop => exact h.push .exit
  | restart => exact h.push .restart

theorem Configured.signalHandler (h : m.Configured c) (sigNum : Signal) :
    Answers c (m.signalHandler sigNum) := by
  cases sigNum <;> exact h.push _

/-- One command: its reaction, and nothing else to be seen from outside. -/
theorem Configured.dispatch (h : m.Configured c) (restart : Bool) (cmd : Command) :
    (m.dispatch restart cmd).1.1.Configured c ∧
      ∃ repeated, (m.dispatch restart cmd).2 = reaction c repeated cmd := by
  cases cmd with
  | standby =>
    simp only [Main.dispatch]
    split
    · next hset =>
      refine ⟨h,false,?_⟩
      rw [runCommand,if_pos hset,reaction,Settings.command,← h.standby,if_pos hset]
    · next hset =>
      have hpower : acceptsKey ⟨UserControlCode.power,0⟩ := by decide
      refine ⟨(h.onCecKeyPress _).configured,decide (m.repeatCount > 2),?_⟩
      rw [onCecKeyPressCode,onCecKeyPress_accepts m hpower,reaction,Settings.command,← h.standby,
        if_neg hset,if_pos rfl]
      rfl
  | active =>
    refine ⟨⟨h.standby,h.activate,h.deactivate⟩,false,?_⟩
    rw [Main.dispatch,runCommand,h.activate]
    rfl
  | inactive =>
    refine ⟨⟨h.standby,h.activate,h.deactivate⟩,false,?_⟩
    rw [Main.dispatch,runCommand,h.deactivate]
    rfl
  | restart => exact ⟨⟨h.standby,h.activate,h.deactivate⟩,false,rfl⟩
  | exit => exact ⟨⟨h.standby,h.activate,h.deactivate⟩,false,rfl⟩

end

end Main

inductive Reacts (c : Settings) : List Event → Prop where
  | nil : Reacts c []
  | cons (cmd : Command) (repeated : Bool) {es : List Event} (h : Reacts c es) :
      Reacts c (.processed cmd :: (reaction c repeated cmd ++ es))

theorem Main.Configured.drain {m : Main} {c : Settings} (h : m.Configured c)
    (cmds : List Command) (restart : Bool) :
    (drain cmds m restart).1.1.Configured c ∧ Reacts c (drain cmds m restart).2 := by
  induction cmds generalizing m restart with
  | nil => exact ⟨h,.nil⟩
  | cons cmd rest ih =>
    cases hrun : m.running with
    | false =>
      rw [drain_stopped _ m restart hrun]
      exact ⟨h,.nil⟩
    | true =>
      obtain ⟨hd,repeated,hreact⟩ := h.dispatch restart cmd
      have hnext : Configured { (m.dispatch restart cmd).1.1 with commands := rest } c :=
        ⟨hd.standby,hd.activate,hd.deactivate⟩
      obtain ⟨hrest,htail⟩ := ih hnext (m.dispatch restart cmd).1.2
      simp only [Main.drain,hrun,if_true]
      refine ⟨hrest,?_⟩
      rw [hreact,List.cons_append]
      exact .cons cmd repeated htail

section
variable {c : Settings} {es p post : List Event} {cmd : Command}

theorem reaction_loopEvents (c : Settings) (repeated : Bool) (cmd : Command) :
    loopEvents (reaction c repeated cmd) = [] := by
  unfold reaction
  split
  · rfl
  · split <;> rfl

theorem Reacts.processed (h : Reacts c es) (hes : es = p ++ .processed cmd :: post) :
    ∃ repeated, reaction c repeated cmd <+: post := by
  induction h generalizing p with
  | nil => simp at hes
  | @cons cmd' repeated es' h ih =>
    cases p with
    | nil =>
      obtain ⟨hcmd,rfl⟩ := List.cons.inj hes
      obtain rfl := Event.processed.inj hcmd
      exact ⟨repeated,List.prefix_append _ _⟩
    | cons e p =>
      rw [List.cons_append,List.cons.injEq] at hes
      rcases append_eq_split hes.2 with ⟨q,hq,rfl⟩ | ⟨q,-,hq⟩
      · have hquiet := reaction_loopEvents c repeated cmd'
        rw [hq,loopEvents_append,loopEvents_cons] at hquiet
        simp at hquiet
      · exact ih hq

theorem Reacts.system (h : Reacts c es) {command : String}
    (hes : es = p ++ .system command :: post) :
    command ≠ "" ∧ ∃ p' cmd, p = p' ++ [.processed cmd] ∧ command = c.command cmd := by
  induction h generalizing p with
  | nil => simp at hes
  | @cons cmd' repeated es' h ih =>
    cases p with
    | nil => simp at hes
    | cons e p =>
      rw [List.cons_append,List.cons.injEq] at hes
      obtain ⟨rfl,hes⟩ := hes
      rcases append_eq_split hes with ⟨q,hq,rfl⟩ | ⟨q,rfl,hq⟩
      · -- the reaction itself is the call
        unfold reaction at hq
        split at hq
        · next hset =>
          cases p with
          | nil =>
            obtain rfl := Event.system.inj (List.cons.inj hq).1
            exact ⟨hset,[],cmd',rfl,rfl⟩
          | cons x p => simp at hq
        · split at hq
          · cases p with
            | nil => simp at hq
            | cons x p => simp at hq
          · simp at hq
      · obtain ⟨hne,p',cmd,rfl,hcmd⟩ := ih hq
        exact ⟨hne,.processed cmd' :: (reaction c repeated cmd' ++ p'),cmd,by simp,hcmd⟩

end

/-! Over all runs. -/

def Reacting (c : Settings) (pre : List Event) (e : Event) (post : List Event) : Prop :=
  (∀ cmd, e = .processed cmd → ∃ repeated, reaction c repeated cmd <+: post) ∧
    ∀ command, e = .system command → command ≠ "" ∧
      ∃ pre' cmd, pre = pre' ++ [.processed cmd] ∧ command = c.command cmd

theorem loopStep_reacts {s t : System} {c : Settings} {ok : Bool} {es : List Event}
    (h : s.main.Configured c) (hs : s.loopStep ok = some (t,es)) :
    t.main.Configured c ∧ (Reacts c es ∨
      processed es = [] ∧ ∀ command, .system command ∉ es) := by
  by_cases hp : s.pc = .pass
  · have hd := h.drain s.main.commands s.restart
    rw [System.loopStep,hp] at hs
    obtain ⟨rfl,rfl⟩ := Prod.mk.inj (Option.some.inj hs)
    exact ⟨hd.1,.inl hd.2⟩
  · cases System.loopStep_move hs with
    | passed hpass => exact absurd hpass hp
    | started => exact ⟨⟨h.standby,h.activate,h.deactivate⟩,.inr ⟨rfl,by simp⟩⟩
    | _ => exact ⟨h,.inr ⟨rfl,by simp⟩⟩

theorem step_reacts {s t : System} {c : Settings} {a : Action} {es : List Event}
    (h : s.main.Configured c) (hs : s.step a = some (t,es)) :
    t.main.Configured c ∧ (Reacts c es ∨
      processed es = [] ∧ ∀ command, .system command ∉ es) := by
  rcases (System.step_cases hs).2 with ⟨ok,_,hl⟩ | ⟨cb,rfl,rfl,rfl⟩ | ⟨n,rfl,hd⟩
  · exact loopStep_reacts h hl
  · have ha := h.callback cb
    exact ⟨ha.configured,.inr
      ⟨(System.step_aside hs (by simp)).processed_nil,ha.runsNothing⟩⟩
  · have hq := (System.step_aside hs (by simp)).processed_nil
    unfold System.deliver at hd
    split at hd
    · obtain ⟨rfl,rfl⟩ := Prod.mk.inj hd
      exact ⟨h,.inr ⟨rfl,by simp⟩⟩
    · have ha := h.signalHandler n
      obtain ⟨rfl,rfl⟩ := Prod.mk.inj hd
      exact ⟨ha.configured,.inr ⟨hq,ha.runsNothing⟩⟩

section Runs
variable {c : Settings} {as : List Action} {s : System} {tr : List Event}

theorem run_reacting (hr : run System.step (.initial c) as = some (s,tr)) {pre post : List Event}
    {e : Event} (heq : tr = pre ++ e :: post) : Reacting c pre e post := by
  refine forall_events (G := fun _ _ => True) (J := fun s _ => s.main.Configured c)
    (P := fun pre e post _ => Reacting c pre e post) ?_ ?_ ?_ (Main.initial_configured c)
    (everyStep_true _ _ _) hr heq
  · exact fun s tr a t es h _ hs => (step_reacts h hs).1
  · rintro s tr a t es p e post h - hs rfl
    rcases (step_reacts h hs).2 with hreact | ⟨hnone,hsystem⟩
    · refine ⟨?_,?_⟩
      · rintro cmd rfl
        exact hreact.processed rfl
      · rintro command rfl
        obtain ⟨hne,p',cmd,rfl,hcmd⟩ := hreact.system rfl
        exact ⟨hne,tr ++ p',cmd,by simp,hcmd⟩
    · refine ⟨?_,?_⟩
      · rintro cmd rfl
        rw [processed_append,processed_cons] at hnone
        simp at hnone
      · rintro command rfl
        exact absurd (by simp) (hsystem command)
  · intro s a t es pre e post _ _ _ h
    refine ⟨fun cmd hcmd => ?_,h.2⟩
    obtain ⟨repeated,hpre⟩ := h.1 cmd hcmd
    exact ⟨repeated,hpre.trans (List.prefix_append _ _)⟩

/-- Under any settings: each processed command is followed at once by its reaction, and no
command line is run but as the reaction to its command. -/
theorem commands_react (hr : run System.step (.initial c) as = some (s,tr)) :
    (∀ pre cmd post, tr = pre ++ .processed cmd :: post →
      ∃ repeated, reaction c repeated cmd <+: post) ∧
    ∀ pre command post, tr = pre ++ .system command :: post → command ≠ "" ∧
      ∃ pre' cmd, pre = pre' ++ [.processed cmd] ∧ command = c.command cmd :=
  ⟨fun _ cmd _ heq => (run_reacting hr heq).1 cmd rfl,
    fun _ command _ heq => (run_reacting hr heq).2 command rfl⟩

def standbySession : List Action :=
  List.replicate 6 (.loop true) ++
    .callback (.command ⟨.standby,[]⟩) :: List.replicate 2 (.loop true)

theorem commands_react_standby :
    ∃ s tr, run System.step (.initial ⟨true,"poweroff","",""⟩) standbySession = some (s,tr) ∧
      [.processed .standby,.system "poweroff"] <:+ tr ∧
      ∀ pre command post, tr = pre ++ .system command :: post → command ≠ "" ∧
        ∃ pre' cmd, pre = pre' ++ [.processed cmd] ∧
          command = (Settings.mk true "poweroff" "" "").command cmd := by
  have h : (run System.step (.initial ⟨true,"poweroff","",""⟩) standbySession).map Prod.snd =
      some [.cecOpen true,.lircOpen true,.setRunning,.sigaction,.makeActive true,
        .accepted .standby,.processed .standby,.system "poweroff"] := by decide
  obtain ⟨⟨s,tr⟩,hr,rfl⟩ := Option.map_eq_some_iff.mp h
  exact ⟨s,_,hr,⟨[.cecOpen true,.lircOpen true,.setRunning,.sigaction,.makeActive true,
    .accepted .standby],rfl⟩,(commands_react hr).2⟩

theorem run_threw_iff (hr : run System.step (.initial c) as = some (s,tr)) :
    (s.pc = .threw ↔ .cecOpen false ∈ tr ∨ .makeActive false ∈ tr) ∧
      (s.pc = .returned ↔ .returned ∈ tr) := by
  have hstep : ∀ s tr a t es,
      ((System.pc s = .threw ↔ .cecOpen false ∈ tr ∨ .makeActive false ∈ tr) ∧
        (System.pc s = .returned ↔ .returned ∈ tr)) → System.step s a = some (t,es) →
      ((System.pc t = .threw ↔ .cecOpen false ∈ tr ++ es ∨ .makeActive false ∈ tr ++ es) ∧
        (System.pc t = .returned ↔ .returned ∈ tr ++ es)) := by
    rintro s tr a t es ⟨hthrew,hreturned⟩ hs
    simp only [List.mem_append]
    rcases System.step_move_or_aside hs with hm | ha
    · cases hm with
      | passed hp m restart es hd =>
        have hopen : .cecOpen false ∉ es := hd.quiet rfl (by simp)
        have hactive : .makeActive false ∉ es := hd.quiet rfl (by simp)
        have hret : .returned ∉ es := hd.quiet rfl (by simp)
        rw [hp] at hthrew hreturned
        simp only [hopen,hactive,hret,or_false]
        exact ⟨by simpa using hthrew,by simpa using hreturned⟩
      | opened hp | openThrew hp | lircOpened hp | lircFailed hp | started hp | installed hp
      | activated hp | activateThrew hp | notActivated hp | again hp | left hp | signalsReset hp
      | cecClosed hp | lircClosed hp | reopened hp | returned hp =>
        rw [hp] at hthrew hreturned
        simp_all
    · have hopen : .cecOpen false ∉ es := ha.quiet rfl
      have hactive : .makeActive false ∉ es := ha.quiet rfl
      have hret : .returned ∉ es := ha.quiet rfl
      rw [ha.pc]
      simp only [hopen,hactive,hret,or_false]
      exact ⟨hthrew,hreturned⟩
  exact invariant (I := fun s tr =>
    (System.pc s = .threw ↔ .cecOpen false ∈ tr ∨ .makeActive false ∈ tr) ∧
      (System.pc s = .returned ↔ .returned ∈ tr)) hstep (by simp [System.initial]) hr

end Runs

/-! `main` itself. -/

/-- The setters that `main` calls: `setMakeActive(false)`, and none of the command lines. -/
def Options.settings (o : Options) : Settings :=
  { Settings.none with makeActive := !o.dontactivate }

/-- The `return` of `main` behind a call of `loop`; the handler of `std::exception` returns -1. -/
def Pc.exitStatus : Pc → Option Int
  | .returned => some 0
  | .threw => some (-1)
  | _ => none

theorem parseOptions_defaultPath {argv : List (List Char)} {o : Options} {scan : Scan}
    (h : parseOptions argv = some (.finished o scan)) : lircPathGiven o = none := by
  have hpath : o.lircpath = [] := by
    refine loop_keeps (I := fun o => o.lircpath = []) ?_ rfl h
    intro s c optarg s' hs hoffered hh
    have hd : c ≠ 'd' := by
      rintro rfl
      rcases hoffered with hq | ha
      · simp at hq
      · exact absurd ha (by decide)
    unfold handleOption at hh
    split at hh
    · exact absurd rfl hd
    all_goals simp only [Option.some.injEq,reduceCtorEq] at hh
    all_goals exact hh ▸ hs
  rw [lircPathGiven,hpath]
  rfl

/-- The daemon as `main` starts it, from any command line it accepts: it listens on the default
path, never runs a command line, turns each STANDBY into one line of the power key, and exits
with -1 exactly when libcec could not be opened or not be made active. -/
theorem program_runs {argv : List (List Char)} {o : Options} {scan : Scan}
    (ho : parseOptions argv = some (.finished o scan)) {as : List Action} {s : System}
    {tr : List Event} (hr : run System.step (.initial o.settings) as = some (s,tr)) :
    lircPathGiven o = none ∧ (∀ command, .system command ∉ tr) ∧
      (∀ pre post, tr = pre ++ .processed .standby :: post →
        ∃ repeated, [.line ⟨UserControlCode.power,repeated,"KEY_POWER"⟩] <+: post) ∧
      (s.pc.exitStatus = some (-1) ↔ .cecOpen false ∈ tr ∨ .makeActive false ∈ tr) ∧
      (s.pc.exitStatus = some 0 ↔ .returned ∈ tr) := by
  have hnone : ∀ cmd, o.settings.command cmd = "" := fun cmd => by cases cmd <;> rfl
  obtain ⟨hthrew,hreturned⟩ := run_threw_iff hr
  refine ⟨parseOptions_defaultPath ho,fun command hmem => ?_,fun pre post heq => ?_,?_,?_⟩
  · obtain ⟨pre,post,heq⟩ := List.append_of_mem hmem
    obtain ⟨hne,pre',cmd,-,hcmd⟩ := (run_reacting hr heq).2 command rfl
    exact hne (hcmd.trans (hnone cmd))
  · obtain ⟨repeated,hpre⟩ := (run_reacting hr heq).1 .standby rfl
    refine ⟨repeated,?_⟩
    rw [reaction,if_neg (by simp [hnone]),if_pos rfl] at hpre
    exact hpre
  · rw [← hthrew]
    cases s.pc <;> simp [Pc.exitStatus]
  · rw [← hreturned]
    cases s.pc <;> simp [Pc.exitStatus]

theorem program_runs_sigterm :
    ∃ o s tr, parseOptions [['-','f','a']] = some (.finished o ⟨[],[]⟩) ∧
      run System.step (.initial o.settings)
        (standbySession ++ .signal .term :: List.replicate 7 (.loop true)) = some (s,tr) ∧
      lines tr = [⟨UserControlCode.power,false,"KEY_POWER"⟩] ∧
      (∀ command, .system command ∉ tr) ∧
      .returned ∈ tr ∧ s.pc.exitStatus = some 0 := by
  have ho : parseOptions [['-','f','a']] = some (.finished ⟨-1,true,false,true,[]⟩ ⟨[],[]⟩) := by
    decide
  have h : (run System.step (.initial (Options.mk (-1) true false true []).settings)
      (standbySession ++ .signal .term :: List.replicate 7 (.loop true))).map
        (fun r => (r.1.pc,lines r.2)) =
          some (.returned,[⟨UserControlCode.power,false,"KEY_POWER"⟩]) := by decide
  obtain ⟨⟨s,tr⟩,hr,heq⟩ := Option.map_eq_some_iff.mp h
  obtain ⟨hp,hlines⟩ := Prod.mk.inj heq
  obtain ⟨-,hnone,-,-,hstatus⟩ := program_runs ho hr
  have hzero : s.pc.exitStatus = some 0 := by
    rw [show s.pc = .returned from hp]
    rfl
  exact ⟨_,s,tr,ho,hr,hlines,hnone,hstatus.mp hzero,hzero⟩

end Ceclircd
