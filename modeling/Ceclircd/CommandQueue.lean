import Ceclircd.LoopSteps
set_option autoImplicit false

/-! The command queue across sessions: what was pushed, what of it was accepted, what
was processed, and whether a session was running. -/

namespace Ceclircd
open RunTrace

/-- The calls of `push` that a callback makes. -/
def Main.pushCalls (m : Main) : Callback → List Command
  | .command command =>
    match command.opcode with
    | .standby => [.standby]
    | .requestActiveSource => if m.makeActive then [.active] else []
    | .setMenuLanguage | .deckControl | .play | .userControlPressed | .vendorRemoteButtonUp
    | .other _ => []
  | .alert alert =>
    match alert with
    | .connectionLost | .permissionError | .portBusy | .physicalAddressError
    | .tvPollFailed => [.restart]
    | .serviceDevice | .other _ => []
  | .sourceActivated address bActivated =>
    if m.logicalAddress = address then [if bActivated then .active else .inactive] else []
  | .stop => [.exit]
  | .restart => [.restart]
  | .keyPress _ | .configurationChanged _ | .menuStateChanged => []

def System.pushCalls (s : System) : Action → List Command
  | .loop _ => []
  | .callback c => s.main.pushCalls c
  | .signal sigNum =>
    match s.disposition sigNum with
    | .default => []
    | .signalHandler => [sigNum.command]

def runningStep (b : Bool) : Event → Bool
  | .setRunning => true
  | .processed cmd => b && !cmd.endsSession
  | _ => b

/-- Whether a session is running, read off the trace: it was started, and no
session-ending command has been processed since. -/
def runningAfter (tr : List Event) : Bool := tr.foldl runningStep false

theorem runningAfter_append (tr es : List Event) :
    runningAfter (tr ++ es) = es.foldl runningStep (runningAfter tr) := by
  simp [runningAfter]

theorem foldl_runningStep_loopEvents (es : List Event) (b : Bool) :
    es.foldl runningStep b = (loopEvents es).foldl runningStep b := by
  induction es generalizing b with
  | nil => rfl
  | cons e es ih => cases e <;> exact ih _

theorem foldl_runningStep_processed (cs : List Command) (b : Bool) :
    (cs.map Event.processed).foldl runningStep b = (b && cs.all (!·.endsSession)) := by
  induction cs generalizing b with
  | nil => simp
  | cons c cs ih => simp [runningStep,ih,Bool.and_assoc]

theorem loopEvents_prefix {p q : List Event}
    (h : loopEvents (p ++ q) = (processed (p ++ q)).map .processed) :
    loopEvents p = (processed p).map .processed := by
  have hpre : loopEvents p <+: (processed (p ++ q)).map .processed := by
    rw [← h,loopEvents_append]
    exact List.prefix_append _ _
  have htake := List.prefix_iff_eq_take.mp hpre
  rw [← List.map_take] at htake
  generalize (processed (p ++ q)).take (loopEvents p).length = cs at htake
  have hcs : processed p = cs := by
    rw [← processed_loopEvents,htake]
    simp [processed,List.filterMap_map,Function.comp_def,Event.processed?]
  rw [hcs]
  exact htake

theorem Drained.running_eq {m m' : Main} {restart restart' : Bool} {es : List Event}
    (hd : Drained m restart m' restart' es) :
    m'.running = es.foldl runningStep m.running := by
  rw [foldl_runningStep_loopEvents,hd.loopEvents_eq,foldl_runningStep_processed]
  cases hr : m.running with
  | false => simpa using (hd.idle hr).2.1
  | true =>
    rcases hd.outcome hr with ⟨h,_,_,hall⟩ | ⟨init,c,hp,hc,h,_,_⟩
    · rw [h,eq_comm]
      simpa using hall
    · rw [h,hp]
      simp [hc]

/-! The pushes of a step. -/

namespace Main

theorem push_pushed (m : Main) (cmd : Command) : pushed (m.push cmd).2 = [(cmd,m.running)] := by
  cases hr : m.running <;> simp [push,hr,pushed,Event.push?]

theorem onCecCommand_pushed (m : Main) (command : CecCommand) :
    pushed (m.onCecCommand command).2 = (m.pushCalls (.command command)).map (·,m.running) := by
  have hkey (m : Main) (keycode : Int) : pushed (m.onCecKeyPressCode keycode).2 = [] :=
    (m.onCecKeyPress_silent ⟨keycode,0⟩).2.2
  unfold onCecCommand
  simp only [pushCalls]
  cases command.opcode with
  | standby => exact m.push_pushed _
  | requestActiveSource =>
    dsimp only
    split
    · exact m.push_pushed _
    · rfl
  | setMenuLanguage | userControlPressed | other => rfl
  | deckControl =>
    dsimp only
    split
    · exact hkey _ _
    · rfl
  | play =>
    dsimp only
    split
    · exact hkey _ _
    · split <;> exact hkey _ _
  | vendorRemoteButtonUp =>
    dsimp only
    split
    · exact hkey _ _
    · rfl

theorem callback_pushed (m : Main) (c : Callback) :
    pushed (m.callback c).2 = (m.pushCalls c).map (·,m.running) := by
  cases c with
  | keyPress key => exact (m.onCecKeyPress_silent key).2.2
  | command command => exact m.onCecCommand_pushed command
  | alert alert =>
    cases alert with
    | serviceDevice | other => rfl
    | connectionLost | permissionError | portBusy | physicalAddressError | tvPollFailed =>
      exact m.push_pushed .restart
  | configurationChanged primary => rfl
  | menuStateChanged => exact (m.onCecKeyPress_silent ⟨UserControlCode.contentsMenu,0⟩).2.2
  | sourceActivated address bActivated =>
    simp only [callback,onCecSourceActivated,pushCalls]
    split
    · cases bActivated <;> exact m.push_pushed _
    · rfl
  | stop => exact m.push_pushed .exit
  | restart => exact m.push_pushed .restart

end Main

theorem LoopMove.pushed_nil {s t : System} {es : List Event} (h : LoopMove s t es) :
    pushed es = [] := by
  cases h with
  | passed hp m restart es hd => exact hd.silent
  | _ => rfl

theorem step_pushed {s t : System} {a : Action} {es : List Event} (h : s.step a = some (t,es)) :
    pushed es = (s.pushCalls a).map (·,s.main.running) := by
  rcases (System.step_cases h).2 with ⟨ok,rfl,_⟩ | ⟨c,rfl,_,rfl⟩ | ⟨sigNum,rfl,hd⟩
  · exact (System.step_loop h).pushed_nil
  · exact s.main.callback_pushed c
  · rw [show es = (s.deliver sigNum).2 from congrArg Prod.snd hd,System.deliver,System.pushCalls]
    cases s.disposition sigNum with
    | default => rfl
    | signalHandler =>
      rw [signalHandler_eq]
      exact s.main.push_pushed _

theorem LoopMove.running_eq {s t : System} {es : List Event} (h : LoopMove s t es) :
    t.main.running = es.foldl runningStep s.main.running := by
  cases h with
  | passed hp m restart es hd => exact hd.running_eq
  | _ => rfl

theorem step_queue {s t : System} {a : Action} {es : List Event} (h : s.step a = some (t,es)) :
    s.main.commands ++ accepted es = processed es ++ t.main.commands := by
  rcases System.step_move_or_aside h with hm | ha
  · cases hm with
    | passed hp m restart es hd => 
      rw [accepted_of_pushed_nil hd.silent,List.append_nil]
      exact hd.queue
    | _ => exact List.append_nil _
  · rw [ha.processed_nil,List.nil_append]
    exact ha.main.commands.symm

theorem step_running {s t : System} {a : Action} {es : List Event}
    (h : s.step a = some (t,es)) : t.main.running = es.foldl runningStep s.main.running := by
  rcases System.step_move_or_aside h with hm | ha
  · exact hm.running_eq
  · rw [foldl_runningStep_loopEvents,ha.main.quiet]
    exact ha.main.running

theorem step_runningAfter {s t : System} {tr : List Event} {a : Action} {es : List Event}
    (hI : s.main.running = runningAfter tr) (hs : s.step a = some (t,es)) :
    t.main.running = runningAfter (tr ++ es) := by
  rw [runningAfter_append,← hI]
  exact step_running hs

section Runs

variable {c : Settings} {as : List Action} {s : System} {tr : List Event}

theorem run_queue (h : run System.step (.initial c) as = some (s,tr)) :
    accepted tr = processed tr ++ s.main.commands := by
  refine invariant (I := fun s tr => accepted tr = processed tr ++ s.main.commands) ?_ rfl h
  intro s tr a t es hI hs
  rw [accepted_append,processed_append,hI,List.append_assoc,step_queue hs,List.append_assoc]

theorem run_running (h : run System.step (.initial c) as = some (s,tr)) :
    s.main.running = runningAfter tr :=
  invariant (I := fun s tr => s.main.running = runningAfter tr)
    (fun _ _ _ _ _ hI hs => step_runningAfter hI hs) rfl h

theorem run_pushed (h : run System.step (.initial c) as = some (s,tr)) :
    pushed tr =
      observed System.step (fun s a => (s.pushCalls a).map (·,s.main.running)) (.initial c) as :=
  filterMap_eq_observed (fun _ _ _ _ hs => step_pushed hs) h

theorem run_pushed_running (h : run System.step (.initial c) as = some (s,tr))
    {pre post : List Event} {e : Event} {cmd : Command} {ok : Bool}
    (hsplit : tr = pre ++ e :: post) (he : e.push? = some (cmd,ok)) : runningAfter pre = ok := by
  refine forall_events (G := fun _ _ => True) (J := fun s tr => s.main.running = runningAfter tr)
    (P := fun pre e _ _ => ∀ cmd ok, e.push? = some (cmd,ok) → runningAfter pre = ok)
    (fun _ _ _ _ _ hI _ hs => step_runningAfter hI hs) ?_ ?_ rfl (everyStep_true _ _ _) h
    hsplit cmd ok he
  · intro s tr a t es p e post hI _ hs hes cmd ok he
    have hmem : (cmd,ok) ∈ pushed es := List.mem_filterMap.mpr ⟨e,by simp [hes],he⟩
    -- a step that pushes is none of the loop's, so `running` is as before it
    have hquiet : loopEvents es = [] := by
      rcases System.step_move_or_aside hs with hm | ha
      · simp [hm.pushed_nil] at hmem
      · exact ha.main.quiet
    rw [hes,loopEvents_append,List.append_eq_nil_iff] at hquiet
    rw [runningAfter_append,foldl_runningStep_loopEvents,hquiet.1,← hI]
    rw [step_pushed hs] at hmem
    obtain ⟨_,_,heq⟩ := List.mem_map.mp hmem
    exact congrArg Prod.snd heq
  · intro s a t es pre e post _ _ _ hP
    exact hP

theorem run_processed_running (h : run System.step (.initial c) as = some (s,tr))
    {pre post : List Event} {cmd : Command} (hsplit : tr = pre ++ .processed cmd :: post) :
    runningAfter pre = true := by
  refine forall_events (G := fun _ _ => True) (J := fun s tr => s.main.running = runningAfter tr)
    (P := fun pre e _ _ => ∀ cmd, e = .processed cmd → runningAfter pre = true)
    (fun _ _ _ _ _ hI _ hs => step_runningAfter hI hs) ?_ ?_ rfl (everyStep_true _ _ _) h
    hsplit cmd rfl
  · rintro s tr a t es p _ post hI - hs hes cmd rfl
    have hd := (System.step_processed hs hes).2
    obtain ⟨hrun,hall,_⟩ := hd.split hes
    rw [runningAfter_append,← hI,hrun,foldl_runningStep_loopEvents,
      loopEvents_prefix (hes ▸ hd.loopEvents_eq),foldl_runningStep_processed]
    simpa using hall
  · intro s a t es pre e post _ _ _ hP
    exact hP

/-- Over any interleaving and any number of sessions: every push is answered, and accepted
exactly when it is made while a session runs; nothing accepted is lost, duplicated or
reordered, commands are processed only while a session runs, and the timed wait is reached
with `running` set only when everything accepted was processed. -/
theorem accepted_eq_processed_append_queue
    (h : run System.step (.initial c) as = some (s,tr)) :
    pushed tr = observed System.step (fun s a => (s.pushCalls a).map (·,s.main.running))
        (.initial c) as ∧
      (∀ pre cmd post, tr = pre ++ .accepted cmd :: post → runningAfter pre = true) ∧
      (∀ pre cmd post, tr = pre ++ .refused cmd :: post → runningAfter pre = false) ∧
      accepted tr = processed tr ++ s.main.commands ∧
      s.main.running = runningAfter tr ∧
      (∀ pre cmd post, tr = pre ++ .processed cmd :: post → runningAfter pre = true) ∧
      (∀ ok t es, s.step (.loop ok) = some (t,es) → t.pc = .wait → t.main.running = true →
        t.main.commands = [] ∧ accepted (tr ++ es) = processed (tr ++ es)) := by
  have hq := run_queue h
  refine ⟨run_pushed h,fun pre cmd post hsplit => run_pushed_running h hsplit rfl,
    fun pre cmd post hsplit => run_pushed_running h hsplit rfl,hq,run_running h,
    fun pre cmd post hsplit => run_processed_running h hsplit,?_⟩
  intro ok t es hs hpc hrun
  have hempty : t.main.commands = [] := by
    cases System.step_loop hs with
    | passed hp m restart es hd => exact hd.emptied hrun
    | _ => simp at hpc
  refine ⟨hempty,?_⟩
  have hstep := step_queue hs
  rw [hempty,List.append_nil] at hstep
  rw [accepted_append,processed_append,hq,List.append_assoc,hstep]

end Runs

/-- A restart with a command queued behind it, which the next session processes. The push
before the session and the one after its RESTART was processed are refused. -/
theorem accepted_eq_processed_append_queue_restart :
    ∃ s tr, run System.step (.initial .none)
        [.callback .stop,.loop true,.loop true,.loop true,.loop true,.loop true,.callback .restart,
          .callback (.sourceActivated (-1) false),.loop true,.callback .stop] = some (s,tr) ∧
      pushed tr = [(.exit,false),(.restart,true),(.inactive,true),(.exit,false)] ∧
      processed tr = [.restart] ∧ accepted tr = processed tr ++ s.main.commands ∧
      s.main.commands = [.inactive] := by
  have h : (run System.step (.initial .none)
        [.callback .stop,.loop true,.loop true,.loop true,.loop true,.loop true,.callback .restart,
          .callback (.sourceActivated (-1) false),.loop true,.callback .stop]).map
            (fun r => (processed r.2,r.1.main.commands)) = some ([.restart],[.inactive]) := by
    decide
  obtain ⟨⟨s,tr⟩,hr,heq⟩ := Option.map_eq_some_iff.mp h
  simp only [Prod.mk.injEq] at heq
  obtain ⟨hpushed,_,_,hqueue,_⟩ := accepted_eq_processed_append_queue hr
  have hcalls : observed System.step (fun s a => (s.pushCalls a).map (·,s.main.running))
      (.initial .none)
        [.callback .stop,.loop true,.loop true,.loop true,.loop true,.loop true,.callback .restart,
          .callback (.sourceActivated (-1) false),.loop true,.callback .stop] =
      [(.exit,false),(.restart,true),(.inactive,true),(.exit,false)] := by decide
  exact ⟨s,tr,hr,hpushed.trans hcalls,heq.1,hqueue,heq.2⟩

end Ceclircd
