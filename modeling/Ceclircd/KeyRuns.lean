import Ceclircd.LoopSteps
set_option autoImplicit false

/-! The key handling of `Main` on its own: what one action does to `lastKey` and
`repeatCount`, and that the lines a run of the system writes are those of the
key actions in it. -/

namespace Ceclircd
open RunTrace

/-- The callbacks that concern keys, and a STANDBY taken from the queue. -/
inductive KeyAction where
  | keyPress (key : Keypress)
  | command (command : CecCommand)
  | menuStateChanged
  | standby
  deriving DecidableEq, Repr

def keyStep (m : Main) : KeyAction → Option (Main × List Event)
  | .keyPress key => some (m.onCecKeyPress key)
  | .command command => some (m.onCecCommand command)
  | .menuStateChanged => some m.onCecMenuStateChanged
  | .standby =>
      let ((m,_),es) := m.dispatch false .standby
      some (m,es)

theorem keyStep_total (m : Main) (a : KeyAction) : ∃ t es, keyStep m a = some (t,es) := by
  cases a <;> exact ⟨_,_,rfl⟩

namespace KeyAction

def hasOpcode (opcode : Opcode) : KeyAction → Bool
  | .command cmd => cmd.opcode == opcode
  | .keyPress _ | .menuStateChanged | .standby => false

/-- The fresh key the action hands to `onCecKeyPress`; a repeat is not one. -/
def freshKey (onStandbyCommand : String) : KeyAction → Option Keypress
  | .keyPress key => some key
  | .command cmd =>
      match cmd.opcode with
      | .deckControl =>
          if cmd.parameter 0 = deckControlModeStop then some ⟨UserControlCode.stop,0⟩ else none
      | .play =>
          if cmd.parameter 0 = playModePlayStill then some ⟨UserControlCode.pause,0⟩
          else some ⟨UserControlCode.play,0⟩
      | _ => none
  | .menuStateChanged => some ⟨UserControlCode.contentsMenu,0⟩
  | .standby => if onStandbyCommand = "" then some ⟨UserControlCode.power,0⟩ else none

end KeyAction

/-- What one action does to the key state: hand on a fresh key, reset, count a button
release, or nothing. -/
inductive KeyMove (m : Main) (a : KeyAction) : Main → List Event → Prop where
  | fresh (key : Keypress) (h : a.freshKey m.onStandbyCommand = some key)
      (hr : a.hasOpcode .userControlPressed = false)
      (hu : a.hasOpcode .vendorRemoteButtonUp = false) :
      KeyMove m a (m.onCecKeyPress key).1 (m.onCecKeyPress key).2
  | reset (h : a.freshKey m.onStandbyCommand = none) (hr : a.hasOpcode .userControlPressed = true)
      (hu : a.hasOpcode .vendorRemoteButtonUp = false) :
      KeyMove m a { m with
        repeatCount := 0
        lastKey := { m.lastKey with keycode := UserControlCode.unknown } } []
  | buttonUp (h : a.freshKey m.onStandbyCommand = none)
      (hr : a.hasOpcode .userControlPressed = false)
      (hu : a.hasOpcode .vendorRemoteButtonUp = true) (m' : Main) (es : List Event)
      (hm : (m',es) = m.onCecCommand ⟨.vendorRemoteButtonUp,[]⟩) : KeyMove m a m' es
  | other (h : a.freshKey m.onStandbyCommand = none)
      (hr : a.hasOpcode .userControlPressed = false)
      (hu : a.hasOpcode .vendorRemoteButtonUp = false) (m' : Main) (es : List Event)
      (hk : m'.lastKey = m.lastKey) (hc : m'.repeatCount = m.repeatCount)
      (hs : m'.onStandbyCommand = m.onStandbyCommand) (hl : lines es = []) : KeyMove m a m' es

theorem Main.push_keys (m : Main) (cmd : Command) : (m.push cmd).1.lastKey = m.lastKey ∧
    (m.push cmd).1.repeatCount = m.repeatCount ∧
      (m.push cmd).1.onStandbyCommand = m.onStandbyCommand ∧ lines (m.push cmd).2 = [] := by
  unfold push
  split <;> exact ⟨rfl,rfl,rfl,rfl⟩

theorem KeyMove.of_push {m m' : Main} {a : KeyAction} {es : List Event} {cmd : Command}
    (hf : a.freshKey m.onStandbyCommand = none) (hr : a.hasOpcode .userControlPressed = false)
    (hu : a.hasOpcode .vendorRemoteButtonUp = false) (h : m.push cmd = (m',es)) :
    KeyMove m a m' es := by
  obtain ⟨hk,hc,hs,hl⟩ := m.push_keys cmd
  rw [h] at hk hc hs hl
  exact .other hf hr hu m' es hk hc hs hl

theorem KeyMove.of_press {m m' : Main} {a : KeyAction} {es : List Event} {key : Keypress}
    (hf : a.freshKey m.onStandbyCommand = some key)
    (hr : a.hasOpcode .userControlPressed = false)
    (hu : a.hasOpcode .vendorRemoteButtonUp = false) (h : m.onCecKeyPress key = (m',es)) :
    KeyMove m a m' es := by
  have hm : KeyMove m a (m.onCecKeyPress key).1 (m.onCecKeyPress key).2 := .fresh key hf hr hu
  rw [h] at hm
  exact hm

theorem onCecCommand_move {m m' : Main} {command : CecCommand} {es : List Event}
    (h : m.onCecCommand command = (m',es)) : KeyMove m (.command command) m' es := by
  obtain ⟨opcode,parameters⟩ := command
  cases opcode with
  | standby => exact .of_push rfl rfl rfl h
  | requestActiveSource =>
    by_cases ha : m.makeActive = true
    · have hp : m.push .active = (m',es) := by simpa [Main.onCecCommand,ha] using h
      exact .of_push rfl rfl rfl hp
    · have he : (m,[]) = (m',es) := by simpa [Main.onCecCommand,ha] using h
      obtain ⟨rfl,rfl⟩ := Prod.mk.inj he
      exact .other rfl rfl rfl _ _ rfl rfl rfl rfl
  | deckControl =>
    simp only [Main.onCecCommand] at h
    by_cases hp : (CecCommand.mk .deckControl parameters).parameter 0 = deckControlModeStop
    · rw [if_pos hp] at h
      exact .of_press (by simp [KeyAction.freshKey,hp]) rfl rfl h
    · rw [if_neg hp] at h
      obtain ⟨rfl,rfl⟩ := Prod.mk.inj h
      exact .other (by simp [KeyAction.freshKey,hp]) rfl rfl _ _ rfl rfl rfl rfl
  | play =>
    simp only [Main.onCecCommand] at h
    by_cases hp : (CecCommand.mk .play parameters).parameter 0 = playModePlayStill
    · rw [if_neg (by simp [hp,playModePlayForward,playModePlayStill]),if_pos hp] at h
      exact .of_press (by simp [KeyAction.freshKey,hp]) rfl rfl h
    · rw [if_neg hp,ite_self] at h
      exact .of_press (by simp [KeyAction.freshKey,hp]) rfl rfl h
  | userControlPressed =>
    obtain ⟨rfl,rfl⟩ := Prod.mk.inj h
    exact .reset rfl rfl rfl
  | vendorRemoteButtonUp => exact .buttonUp rfl rfl rfl m' es h.symm
  | setMenuLanguage | other code =>
    obtain ⟨rfl,rfl⟩ := Prod.mk.inj h
    exact .other rfl rfl rfl _ _ rfl rfl rfl rfl

theorem keyStep_move {m m' : Main} {a : KeyAction} {es : List Event}
    (h : keyStep m a = some (m',es)) : KeyMove m a m' es := by
  cases a with
  | keyPress key =>
    simp only [keyStep,Option.some.injEq] at h
    obtain ⟨rfl,rfl⟩ := Prod.mk.inj h
    exact .fresh key rfl rfl rfl
  | menuStateChanged =>
    simp only [keyStep,Option.some.injEq] at h
    obtain ⟨rfl,rfl⟩ := Prod.mk.inj h
    exact .fresh ⟨UserControlCode.contentsMenu,0⟩ rfl rfl rfl
  | standby =>
    simp only [keyStep,Main.dispatch,Option.some.injEq] at h
    by_cases hs : m.onStandbyCommand = ""
    · simp only [hs,ne_eq,not_true_eq_false,if_false] at h
      obtain ⟨rfl,rfl⟩ := Prod.mk.inj h
      exact .fresh ⟨UserControlCode.power,0⟩ (by simp [KeyAction.freshKey,hs]) rfl rfl
    · simp only [ne_eq,hs,not_false_eq_true,if_true] at h
      obtain ⟨rfl,rfl⟩ := Prod.mk.inj h
      refine .other (by simp [KeyAction.freshKey,hs]) rfl rfl _ _ rfl rfl rfl ?_
      unfold Main.runCommand
      split <;> rfl
  | command command =>
    simp only [keyStep,Option.some.injEq] at h
    exact onCecCommand_move h

theorem lines_map (key : Keypress) (b : Bool) (ukeys : List String) :
    lines (ukeys.map (fun k => Main.writeLirc key k b)) =
      ukeys.map (fun k => ⟨key.keycode,b,k⟩) := by
  induction ukeys with
  | nil => rfl
  | cons k ukeys ih => exact congrArg (⟨key.keycode,b,k⟩ :: ·) ih

theorem onCecCommand_buttonUp (m : Main) :
    (toInt32 (m.repeatCount + 1) > 2 ∧ Main.acceptsKey ⟨m.lastKey.keycode,0⟩ ∧
      m.onCecCommand ⟨.vendorRemoteButtonUp,[]⟩ =
        ({ m with repeatCount := toInt32 (m.repeatCount + 1), lastKey := ⟨m.lastKey.keycode,0⟩ },
          (uinputCecMap m.lastKey.keycode).map
            (fun ukey => Main.writeLirc ⟨m.lastKey.keycode,0⟩ ukey true))) ∨
      m.onCecCommand ⟨.vendorRemoteButtonUp,[]⟩ =
        ({ m with repeatCount := toInt32 (m.repeatCount + 1) },[]) := by
  by_cases h : toInt32 (m.repeatCount + 1) > 2 ∧ m.lastKey.keycode ≠ UserControlCode.unknown
  · by_cases ha : Main.acceptsKey ⟨m.lastKey.keycode,0⟩
    · refine .inl ⟨h.1,ha,?_⟩
      simp only [Main.onCecCommand]
      rw [if_pos h,Main.onCecKeyPressCode,Main.onCecKeyPress_accepts _ ha]
      simp [h.1]
    · right
      simp only [Main.onCecCommand]
      rw [if_pos h,Main.onCecKeyPressCode,Main.onCecKeyPress_ignores _ ha]
  · right
    simp only [Main.onCecCommand]
    rw [if_neg h]

theorem lines_buttonUp {m : Main} {l : Line}
    (h : l ∈ lines (m.onCecCommand ⟨.vendorRemoteButtonUp,[]⟩).2) :
    l.keycode = m.lastKey.keycode ∧ l.repeated = true := by
  rcases onCecCommand_buttonUp m with ⟨_,_,heq⟩ | heq
  · rw [heq] at h
    dsimp only at h
    rw [lines_map] at h
    obtain ⟨_,_,rfl⟩ := List.mem_map.mp h
    exact ⟨rfl,rfl⟩
  · rw [heq] at h
    simp at h

structure SameKeys (m n : Main) : Prop where
  lastKey : m.lastKey = n.lastKey
  repeatCount : m.repeatCount = n.repeatCount
  standby : m.onStandbyCommand = n.onStandbyCommand

theorem SameKeys.onCecKeyPress {m n : Main} (h : SameKeys m n) (key : Keypress) :
    SameKeys (m.onCecKeyPress key).1 (n.onCecKeyPress key).1 ∧
      (m.onCecKeyPress key).2 = (n.onCecKeyPress key).2 := by
  by_cases ha : Main.acceptsKey key
  · rw [Main.onCecKeyPress_accepts m ha,Main.onCecKeyPress_accepts n ha]
    exact ⟨⟨rfl,h.repeatCount,h.standby⟩,by simp [h.repeatCount]⟩
  · rw [Main.onCecKeyPress_ignores m ha,Main.onCecKeyPress_ignores n ha]
    exact ⟨h,rfl⟩

theorem SameKeys.buttonUp {m n : Main} (h : SameKeys m n) :
    SameKeys (m.onCecCommand ⟨.vendorRemoteButtonUp,[]⟩).1
        (n.onCecCommand ⟨.vendorRemoteButtonUp,[]⟩).1 ∧
      (m.onCecCommand ⟨.vendorRemoteButtonUp,[]⟩).2 =
        (n.onCecCommand ⟨.vendorRemoteButtonUp,[]⟩).2 := by
  have hcount : SameKeys { m with repeatCount := toInt32 (m.repeatCount + 1) }
      { n with repeatCount := toInt32 (n.repeatCount + 1) } :=
    ⟨h.lastKey,by simp [h.repeatCount],h.standby⟩
  simp only [Main.onCecCommand,h.lastKey,h.repeatCount] at hcount ⊢
  split
  · exact hcount.onCecKeyPress ⟨n.lastKey.keycode,0⟩
  · exact ⟨hcount,rfl⟩

theorem KeyMove.congr {m n m' n' : Main} {a : KeyAction} {es fs : List Event}
    (h : SameKeys m n) (hm : KeyMove m a m' es) (hn : KeyMove n a n' fs) :
    SameKeys m' n' ∧ lines es = lines fs := by
  have hs := h.standby
  cases hm with
  | fresh key hf hr hu =>
    rw [hs] at hf
    cases hn with
    | fresh key' hf' hr' hu' =>
      rw [hf] at hf'
      obtain rfl := Option.some.inj hf'
      have hk := h.onCecKeyPress key
      exact ⟨hk.1,by rw [hk.2]⟩
    | _ => simp_all
  | reset hf hr hu =>
    cases hn with
    | reset hf' hr' hu' => exact ⟨⟨by rw [h.lastKey],rfl,hs⟩,rfl⟩
    | _ => simp_all
  | buttonUp hf hr hu m' es hm =>
    cases hn with
    | buttonUp hf' hr' hu' n' fs hn =>
      have hb := h.buttonUp
      rw [← hm,← hn] at hb
      exact ⟨hb.1,congrArg lines hb.2⟩
    | _ => simp_all
  | other hf hr hu m' es hk hc hst hl =>
    cases hn with
    | other hf' hr' hu' n' fs hk' hc' hst' hl' =>
      exact ⟨⟨by rw [hk,hk',h.lastKey],by rw [hc,hc',h.repeatCount],by rw [hst,hst',hs]⟩,
        by rw [hl,hl']⟩
    | _ => simp_all

theorem SameKeys.refl (m : Main) : SameKeys m m := ⟨rfl,rfl,rfl⟩

/-- `m'` is reached from `m` writing the lines of `es`, and `n` can follow by key
actions alone. -/
def FollowedByKeys (m' : Main) (es : List Event) (n : Main) : Prop :=
  ∃ ks n' fs, run keyStep n ks = some (n',fs) ∧ SameKeys m' n' ∧ lines es = lines fs

theorem followedByKeys_idle {m' n : Main} {es : List Event} (h : SameKeys m' n)
    (he : lines es = []) : FollowedByKeys m' es n := ⟨[],n,[],rfl,h,he⟩

theorem followedByKeys_step {m n m' : Main} {es : List Event} (a : KeyAction)
    (h : SameKeys m n) (hs : keyStep m a = some (m',es)) : FollowedByKeys m' es n := by
  obtain ⟨n',fs,hn⟩ := keyStep_total n a
  obtain ⟨hk,hl⟩ := (keyStep_move hs).congr h (keyStep_move hn)
  exact ⟨[a],n',fs,run_singleton_iff.mpr hn,hk,hl⟩

theorem FollowedByKeys.trans {m' m'' n : Main} {es fs : List Event}
    (h : FollowedByKeys m' es n)
    (hnext : ∀ n', SameKeys m' n' → FollowedByKeys m'' fs n') :
    FollowedByKeys m'' (es ++ fs) n := by
  obtain ⟨ks,n',gs,hrun,hk,hl⟩ := h
  obtain ⟨ks',n'',gs',hrun',hk',hl'⟩ := hnext n' hk
  refine ⟨ks ++ ks',n'',gs ++ gs',run_append_iff.mpr ⟨n',gs,gs',hrun,hrun',rfl⟩,hk',?_⟩
  rw [lines_append,lines_append,hl,hl']

theorem SameKeys.push {m n : Main} (h : SameKeys m n) (cmd : Command) :
    FollowedByKeys (m.push cmd).1 (m.push cmd).2 n := by
  obtain ⟨hk,hc,hs,hl⟩ := m.push_keys cmd
  exact followedByKeys_idle ⟨hk.trans h.lastKey,hc.trans h.repeatCount,hs.trans h.standby⟩ hl

theorem SameKeys.callback {m n : Main} (h : SameKeys m n) (c : Callback) :
    FollowedByKeys (m.callback c).1 (m.callback c).2 n := by
  cases c with
  | keyPress key => exact followedByKeys_step (.keyPress key) h rfl
  | command command => exact followedByKeys_step (.command command) h rfl
  | menuStateChanged => exact followedByKeys_step .menuStateChanged h rfl
  | alert alert =>
    cases alert with
    | serviceDevice | other => exact followedByKeys_idle h rfl
    | connectionLost | permissionError | portBusy | physicalAddressError | tvPollFailed =>
      exact h.push .restart
  | configurationChanged primary =>
    exact followedByKeys_idle ⟨h.lastKey,h.repeatCount,h.standby⟩ rfl
  | sourceActivated address bActivated =>
    simp only [Main.callback,Main.onCecSourceActivated]
    split
    · cases bActivated <;> exact h.push _
    · exact followedByKeys_idle h rfl
  | stop => exact h.push .exit
  | restart => exact h.push .restart

theorem lines_runCommand (command : String) : lines (Main.runCommand command) = [] := by
  unfold Main.runCommand
  split <;> rfl

theorem SameKeys.dispatch {m n : Main} (h : SameKeys m n) (restart : Bool) (cmd : Command) :
    FollowedByKeys (m.dispatch restart cmd).1.1 (m.dispatch restart cmd).2 n := by
  cases cmd with
  | standby =>
    refine followedByKeys_step .standby h ?_
    simp only [keyStep,Main.dispatch]
    split <;> rfl
  | active | inactive =>
    exact followedByKeys_idle ⟨h.lastKey,h.repeatCount,h.standby⟩ (lines_runCommand _)
  | restart | exit => exact followedByKeys_idle ⟨h.lastKey,h.repeatCount,h.standby⟩ rfl

theorem SameKeys.drain {m n : Main} (h : SameKeys m n) (cmds : List Command) (restart : Bool) :
    FollowedByKeys (Main.drain cmds m restart).1.1 (Main.drain cmds m restart).2 n := by
  induction cmds generalizing m n restart with
  | nil => exact followedByKeys_idle h rfl
  | cons cmd rest ih =>
    cases hrun : m.running with
    | false =>
      rw [Main.drain_stopped _ m restart hrun]
      exact followedByKeys_idle h rfl
    | true =>
      have hd := h.dispatch restart cmd
      simp only [Main.drain,hrun,if_true]
      have hnext := hd.trans fun n' hk => @ih
        { (m.dispatch restart cmd).1.1 with commands := rest } n'
        ⟨hk.lastKey,hk.repeatCount,hk.standby⟩ (m.dispatch restart cmd).1.2
      obtain ⟨ks,n',fs,hr,hk,hl⟩ := hnext
      exact ⟨ks,n',fs,hr,hk,hl⟩

theorem SameKeys.step {s t : System} {n : Main} {a : Action} {es : List Event}
    (h : SameKeys s.main n) (hs : s.step a = some (t,es)) : FollowedByKeys t.main es n := by
  rcases (System.step_cases hs).2 with ⟨ok,_,hl⟩ | ⟨c,_,rfl,rfl⟩ | ⟨sigNum,_,hd⟩
  · by_cases hpc : s.pc = .pass
    · simp only [System.loopStep,hpc,Option.some.injEq] at hl
      obtain ⟨rfl,rfl⟩ := Prod.mk.inj hl
      exact h.drain s.main.commands s.restart
    · have hm := System.loopStep_move hl
      cases hm with
      | passed hp => exact absurd hp hpc
      | started hp => exact followedByKeys_idle ⟨h.lastKey,h.repeatCount,h.standby⟩ rfl
      | _ => exact followedByKeys_idle h rfl
  · exact h.callback c
  · unfold System.deliver at hd
    split at hd <;> obtain ⟨rfl,rfl⟩ := Prod.mk.inj hd
    · exact followedByKeys_idle h rfl
    · cases sigNum <;> exact h.push _

/-- Whatever else a run of the system does, its lines are those of a key run. -/
theorem run_followedByKeys {c : Settings} {as : List Action} {s : System} {tr : List Event}
    (hr : run System.step (.initial c) as = some (s,tr)) :
    FollowedByKeys s.main tr (Main.initial c) := by
  refine invariant (I := fun s tr => FollowedByKeys s.main tr (Main.initial c)) ?_ ?_ hr
  · intro s tr a t es hI hs
    exact hI.trans fun n' hk => hk.step hs
  · exact followedByKeys_idle (.refl _) rfl

end Ceclircd
