import Ceclircd.LoopSteps
set_option autoImplicit false

/-! `makeActive` against what CEC last reported. The queue carries the reports to the
loop, so the value that counts is the one the queue will leave behind. -/

namespace Ceclircd
open RunTrace

structure Report where
  logicalAddress : Int
  active : Bool
  deriving DecidableEq, Repr

def reportStep (r : Report) : Action → Report
  | .callback (.configurationChanged primary) => { r with logicalAddress := primary }
  | .callback (.sourceActivated address bActivated) =>
      if r.logicalAddress = address then { r with active := bActivated } else r
  | _ => r

/-- The last `onCecSourceActivated` for our own address, or the initial setting. -/
def lastReport (c : Settings) (as : List Action) : Report :=
  as.foldl reportStep ⟨cecDeviceUnknown,c.makeActive⟩

def Callback.aboutSource : Callback → Bool
  | .sourceActivated _ _ | .configurationChanged _ => true
  | .command cmd => cmd.opcode == .requestActiveSource
  | _ => false

def ArrivesRunning (s : System) : Action → Prop
  | .callback c => c.aboutSource = true → s.main.running = true
  | _ => True

instance (s : System) (a : Action) : Decidable (ArrivesRunning s a) :=
  match a with
  | .callback c => inferInstanceAs (Decidable (c.aboutSource = true → s.main.running = true))
  | .loop _ | .signal _ => .isTrue trivial

/-- What `makeActive` will be once the loop has drained the queue. -/
def Main.pendingActive (m : Main) : Bool := activeAfter m.makeActive m.commands

/-- The request does not come while an `INACTIVE` that `makeActive` does not show yet
is the last word in the queue. -/
def RequestInTime (s : System) : Action → Prop
  | .callback (.command command) => command.opcode = .requestActiveSource →
      s.main.makeActive = true → s.main.pendingActive = true
  | _ => True

instance (s : System) (a : Action) : Decidable (RequestInTime s a) :=
  match a with
  | .callback c =>
      match c with
      | .command command => inferInstanceAs (Decidable (command.opcode = .requestActiveSource →
          s.main.makeActive = true → s.main.pendingActive = true))
      | .keyPress _ | .alert _ | .configurationChanged _ | .menuStateChanged
      | .sourceActivated _ _ | .stop | .restart => .isTrue trivial
  | .loop _ | .signal _ => .isTrue trivial

theorem LoopMove.pendingActive_eq {s t : System} {es : List Event} (h : LoopMove s t es) :
    t.main.pendingActive = s.main.pendingActive ∧
      t.main.logicalAddress = s.main.logicalAddress := by
  cases h with
  | passed hp m restart es hd =>
    refine ⟨?_,hd.address⟩
    simp only [Main.pendingActive]
    rw [hd.queue,activeAfter_append,← hd.active]
  | _ => exact ⟨rfl,rfl⟩

namespace Main

theorem push_pendingActive (m : Main) (cmd : Command) :
    (m.push cmd).1.pendingActive =
        (if m.running then activeAfter m.pendingActive [cmd] else m.pendingActive) ∧
      (m.push cmd).1.logicalAddress = m.logicalAddress := by
  unfold push
  cases m.running with
  | true => exact ⟨activeAfter_append _ _ _,rfl⟩
  | false => exact ⟨rfl,rfl⟩

theorem push_pendingActive_running {m : Main} (h : m.running = true) (cmd : Command) :
    (m.push cmd).1.pendingActive = activeAfter m.pendingActive [cmd] ∧
      (m.push cmd).1.logicalAddress = m.logicalAddress := by
  obtain ⟨hp,ha⟩ := push_pendingActive m cmd
  rw [if_pos h] at hp
  exact ⟨hp,ha⟩

theorem push_pendingActive_other (m : Main) {cmd : Command} (h : cmd.endsSession = true ∨
    cmd = .standby) : (m.push cmd).1.pendingActive = m.pendingActive ∧
      (m.push cmd).1.logicalAddress = m.logicalAddress := by
  obtain ⟨hp,ha⟩ := push_pendingActive m cmd
  refine ⟨?_,ha⟩
  rw [hp]
  cases cmd <;> simp_all [Command.endsSession,activeAfter]

theorem onCecKeyPress_pendingActive (m : Main) (key : Keypress) :
    (m.onCecKeyPress key).1.pendingActive = m.pendingActive ∧
      (m.onCecKeyPress key).1.logicalAddress = m.logicalAddress := by
  by_cases h : acceptsKey key
  · rw [onCecKeyPress_accepts m h]
    exact ⟨rfl,rfl⟩
  · rw [onCecKeyPress_ignores m h]
    exact ⟨rfl,rfl⟩

theorem callback_pendingActive (m : Main) (c : Callback) (h : c.aboutSource = false) :
    (m.callback c).1.pendingActive = m.pendingActive ∧
      (m.callback c).1.logicalAddress = m.logicalAddress := by
  cases c with
  | keyPress key => exact onCecKeyPress_pendingActive m key
  | command command =>
    simp only [callback,onCecCommand]
    split
    · exact push_pendingActive_other m (.inr rfl)
    · simp_all [Callback.aboutSource]
    · exact ⟨rfl,rfl⟩
    · split
      · exact onCecKeyPress_pendingActive m _
      · exact ⟨rfl,rfl⟩
    · split
      · exact onCecKeyPress_pendingActive m _
      · split <;> exact onCecKeyPress_pendingActive m _
    · exact ⟨rfl,rfl⟩
    · split
      · exact onCecKeyPress_pendingActive
          { m with repeatCount := toInt32 (m.repeatCount + 1) } ⟨m.lastKey.keycode,0⟩
      · exact ⟨rfl,rfl⟩
    · exact ⟨rfl,rfl⟩
  | alert alert =>
    cases alert with
    | serviceDevice | other => exact ⟨rfl,rfl⟩
    | connectionLost | permissionError | portBusy | physicalAddressError | tvPollFailed =>
      exact push_pendingActive_other m (.inl rfl)
  | configurationChanged primary => simp [Callback.aboutSource] at h
  | menuStateChanged => exact onCecKeyPress_pendingActive m ⟨UserControlCode.contentsMenu,0⟩
  | sourceActivated address bActivated => simp [Callback.aboutSource] at h
  | stop => exact push_pendingActive_other m (.inl rfl)
  | restart => exact push_pendingActive_other m (.inl rfl)

end Main

def AgreesWithReport (c : Settings) (s : System) (as : List Action) : Prop :=
  s.main.pendingActive = (lastReport c as).active ∧
    s.main.logicalAddress = (lastReport c as).logicalAddress

theorem lastReport_snoc (c : Settings) (as : List Action) (a : Action) :
    lastReport c (as ++ [a]) = reportStep (lastReport c as) a := by simp [lastReport]

theorem callback_agrees {c : Settings} {s : System} {as : List Action} (cb : Callback)
    (hI : AgreesWithReport c s as) (hrun : ArrivesRunning s (.callback cb))
    (hreq : RequestInTime s (.callback cb)) :
    AgreesWithReport c { s with main := (s.main.callback cb).1 } (as ++ [.callback cb]) := by
  obtain ⟨hp,ha⟩ := hI
  unfold AgreesWithReport
  rw [lastReport_snoc]
  cases hab : cb.aboutSource with
  | false =>
    have hr : reportStep (lastReport c as) (.callback cb) = lastReport c as := by
      cases cb <;> simp_all [reportStep,Callback.aboutSource]
    obtain ⟨h1,h2⟩ := s.main.callback_pendingActive cb hab
    rw [hr]
    exact ⟨h1.trans hp,h2.trans ha⟩
  | true =>
    have hrunning := hrun hab
    cases cb with
    | configurationChanged primary => exact ⟨hp,rfl⟩
    | sourceActivated address bActivated =>
      simp only [Main.callback,Main.onCecSourceActivated,reportStep,← ha]
      by_cases haddr : s.main.logicalAddress = address
      · rw [if_pos haddr,if_pos haddr]
        cases bActivated
        · exact Main.push_pendingActive_running hrunning .inactive
        · exact Main.push_pendingActive_running hrunning .active
      · rw [if_neg haddr,if_neg haddr]
        exact ⟨hp,ha⟩
    | command command =>
      have hop : command.opcode = .requestActiveSource := by
        simpa [Callback.aboutSource] using hab
      simp only [Main.callback,Main.onCecCommand,hop,reportStep]
      cases hm : s.main.makeActive with
      | false => exact ⟨hp,ha⟩
      | true =>
        -- in time, the pending value is `true` already, and the push repeats it
        have hpend := hreq hop hm
        obtain ⟨h1,h2⟩ := Main.push_pendingActive_running hrunning .active
        rw [if_pos rfl]
        exact ⟨h1.trans (hpend.symm.trans hp),h2.trans ha⟩
    | _ => simp [Callback.aboutSource] at hab

theorem step_agrees {c : Settings} {s t : System} {as : List Action} {a : Action}
    {es : List Event} (hI : AgreesWithReport c s as) (hrun : ArrivesRunning s a)
    (hreq : RequestInTime s a) (hs : s.step a = some (t,es)) :
    AgreesWithReport c t (as ++ [a]) := by
  obtain ⟨hp,ha⟩ := hI
  rcases (System.step_cases hs).2 with ⟨ok,rfl,hl⟩ | ⟨cb,rfl,rfl,_⟩ | ⟨n,rfl,hd⟩
  · obtain ⟨h1,h2⟩ := (System.loopStep_move hl).pendingActive_eq
    unfold AgreesWithReport
    rw [lastReport_snoc]
    exact ⟨h1.trans hp,h2.trans ha⟩
  · exact callback_agrees cb ⟨hp,ha⟩ hrun hreq
  · have hr : reportStep (lastReport c as) (.signal n) = lastReport c as := rfl
    unfold AgreesWithReport
    rw [lastReport_snoc,hr]
    unfold System.deliver at hd
    split at hd <;> simp only [Prod.mk.injEq] at hd <;> obtain ⟨rfl,_⟩ := hd
    · exact ⟨hp,ha⟩
    · have hpush : (s.main.signalHandler n).1.pendingActive = s.main.pendingActive ∧
          (s.main.signalHandler n).1.logicalAddress = s.main.logicalAddress := by
        cases n <;> exact s.main.push_pendingActive_other (.inl rfl)
      exact ⟨hpush.1.trans hp,hpush.2.trans ha⟩

/-- With the queue empty, `makeActive` is what was last reported, provided no request
for the active source overtook a report. -/
theorem makeActive_eq_lastReport {c : Settings} {as : List Action} {s : System}
    {tr : List Event} (hr : run System.step (.initial c) as = some (s,tr))
    (hrun : EveryStep System.step ArrivesRunning (.initial c) as)
    (hreq : EveryStep System.step RequestInTime (.initial c) as)
    (hq : s.main.commands = []) : s.main.makeActive = (lastReport c as).active := by
  have hI : AgreesWithReport c s as := actions_of_everyStep
    (fun s as a t es hI hg hs => step_agrees hI hg.1 hg.2 hs) ⟨rfl,rfl⟩ (hrun.and hreq) hr
  have hp := hI.1
  simpa [Main.pendingActive,hq,activeAfter] using hp

theorem makeActive_eq_lastReport_report :
    ∃ s tr, run System.step (.initial .none)
        [.loop true,.loop true,.loop true,.loop true,.loop true,
          .callback (.configurationChanged 4),.callback (.sourceActivated 4 false),
          .loop true,.callback (.command ⟨.requestActiveSource,[]⟩)] = some (s,tr) ∧
      s.main.makeActive = false := by
  have h : (run System.step (.initial .none)
        [.loop true,.loop true,.loop true,.loop true,.loop true,
          .callback (.configurationChanged 4),.callback (.sourceActivated 4 false),
          .loop true,.callback (.command ⟨.requestActiveSource,[]⟩)]).map
            (fun r => r.1.main.commands) = some [] := by decide
  obtain ⟨⟨s,tr⟩,hr,hq⟩ := Option.map_eq_some_iff.mp h
  exact ⟨s,tr,hr,makeActive_eq_lastReport hr (everyStep_of_check (by decide))
    (everyStep_of_check (by decide)) hq⟩

/-- A request between the report and the pass: `makeActive` is still set when
the request tests it, so `ACTIVE` is queued behind `INACTIVE`. -/
theorem request_overtakes_report :
    ∃ as s tr, run System.step (.initial .none) as = some (s,tr) ∧
      EveryStep System.step ArrivesRunning (.initial .none) as ∧
      s.main.commands = [] ∧ s.main.makeActive ≠ (lastReport .none as).active := by
  have h : (run System.step (.initial .none)
        [.loop true,.loop true,.loop true,.loop true,.loop true,
          .callback (.configurationChanged 4),.callback (.sourceActivated 4 false),
          .callback (.command ⟨.requestActiveSource,[]⟩),.loop true]).map
            (fun r => (r.1.main.commands,r.1.main.makeActive)) = some ([],true) := by decide
  obtain ⟨⟨s,tr⟩,hr,heq⟩ := Option.map_eq_some_iff.mp h
  simp only [Prod.mk.injEq] at heq
  refine ⟨_,s,tr,hr,everyStep_of_check (by decide),heq.1,?_⟩
  rw [heq.2]
  decide

end Ceclircd
