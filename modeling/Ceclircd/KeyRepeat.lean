import Ceclircd.KeyRuns
set_option autoImplicit false

/-! What VENDOR_REMOTE_BUTTON_UP repeats, and which lines are marked as repeated:
`lastKey` and `repeatCount` against the history since the last USER_CONTROL_PRESSED. -/

namespace Ceclircd
open RunTrace

namespace KeyAction

def acceptedKey (onStandbyCommand : String) (a : KeyAction) : Option Int :=
  match a.freshKey onStandbyCommand with
  | some key => if Main.acceptsKey key then some key.keycode else none
  | none => none

/-- Only what libcec itself reports as a key press. -/
def reportedKey : KeyAction → Option Int
  | .keyPress key => if Main.acceptsKey key then some key.keycode else none
  | .command _ | .menuStateChanged | .standby => none

end KeyAction

/-- The actions behind the last USER_CONTROL_PRESSED. -/
def sinceReset (as : List KeyAction) : List KeyAction :=
  (as.reverse.takeWhile (fun a => !a.hasOpcode .userControlPressed)).reverse

theorem sinceReset_snoc (as : List KeyAction) (a : KeyAction) : sinceReset (as ++ [a]) =
    if a.hasOpcode .userControlPressed then [] else sinceReset as ++ [a] := by
  cases h : a.hasOpcode .userControlPressed <;> simp [sinceReset,h]

def lastKeyEvent (c : Settings) (as : List KeyAction) : Option Int :=
  ((sinceReset as).filterMap (KeyAction.acceptedKey c.onStandbyCommand)).getLast?

def lastReportedKey (as : List KeyAction) : Option Int :=
  ((sinceReset as).filterMap KeyAction.reportedKey).getLast?

def buttonUps (as : List KeyAction) : Nat :=
  (sinceReset as).countP (KeyAction.hasOpcode .vendorRemoteButtonUp)

def hasReset (as : List KeyAction) : Bool := as.any (KeyAction.hasOpcode .userControlPressed)

theorem lastKeyEvent_snoc (c : Settings) (as : List KeyAction) (a : KeyAction) :
    lastKeyEvent c (as ++ [a]) = if a.hasOpcode .userControlPressed then none
      else (a.acceptedKey c.onStandbyCommand).or (lastKeyEvent c as) := by
  unfold lastKeyEvent
  rw [sinceReset_snoc]
  cases a.hasOpcode .userControlPressed with
  | true => rfl
  | false =>
    cases h : a.acceptedKey c.onStandbyCommand <;> simp [h]

theorem buttonUps_snoc (as : List KeyAction) (a : KeyAction) :
    buttonUps (as ++ [a]) = if a.hasOpcode .userControlPressed then 0
      else buttonUps as + (if a.hasOpcode .vendorRemoteButtonUp then 1 else 0) := by
  unfold buttonUps
  rw [sinceReset_snoc]
  cases a.hasOpcode .userControlPressed <;> simp [List.countP_cons]

theorem hasReset_snoc (as : List KeyAction) (a : KeyAction) :
    hasReset (as ++ [a]) = (hasReset as || a.hasOpcode .userControlPressed) := by
  simp [hasReset]

section Unchanged

variable {c : Settings} {a : KeyAction} (as : List KeyAction)

theorem acceptedKey_of_freshKey_none (h : a.freshKey c.onStandbyCommand = none) :
    a.acceptedKey c.onStandbyCommand = none := by simp [KeyAction.acceptedKey,h]

theorem lastKeyEvent_unchanged (hr : a.hasOpcode .userControlPressed = false)
    (hk : a.acceptedKey c.onStandbyCommand = none) :
    lastKeyEvent c (as ++ [a]) = lastKeyEvent c as := by simp [lastKeyEvent_snoc,hr,hk]

theorem buttonUps_unchanged (hr : a.hasOpcode .userControlPressed = false)
    (hu : a.hasOpcode .vendorRemoteButtonUp = false) : buttonUps (as ++ [a]) = buttonUps as := by
  simp [buttonUps_snoc,hr,hu]

theorem hasReset_unchanged (hr : a.hasOpcode .userControlPressed = false) :
    hasReset (as ++ [a]) = hasReset as := by rw [hasReset_snoc,hr,Bool.or_false]

end Unchanged

theorem toInt32_add (n : Nat) : toInt32 (toInt32 n + 1) = toInt32 (n + 1 : Nat) := by
  simp [toInt32]

structure KeyState (c : Settings) (m : Main) (as : List KeyAction) : Prop where
  standby : m.onStandbyCommand = c.onStandbyCommand
  count : m.repeatCount = toInt32 (buttonUps as)
  held : ∀ k, lastKeyEvent c as = some k → m.lastKey.keycode = k ∧ Main.acceptsKey ⟨k,0⟩
  cleared : lastKeyEvent c as = none → hasReset as = true →
    m.lastKey.keycode = UserControlCode.unknown

theorem not_acceptsKey_unknown (duration : Nat) :
    ¬ Main.acceptsKey ⟨UserControlCode.unknown,duration⟩ := by
  intro h
  have hk := h.1.2
  simp [UserControlCode.unknown,UserControlCode.max] at hk

theorem acceptsKey_released {key : Keypress} (h : Main.acceptsKey key) :
    Main.acceptsKey ⟨key.keycode,0⟩ := ⟨h.1,h.2.1,.inl rfl⟩

theorem KeyState.kept {c : Settings} {m m' : Main} {as : List KeyAction} {a : KeyAction}
    (hI : KeyState c m as) (hr : a.hasOpcode .userControlPressed = false)
    (hk : a.acceptedKey c.onStandbyCommand = none)
    (hs : m'.onStandbyCommand = m.onStandbyCommand)
    (hcode : m'.lastKey.keycode = m.lastKey.keycode)
    (hcount : m'.repeatCount = toInt32 (buttonUps (as ++ [a]))) : KeyState c m' (as ++ [a]) := by
  have hkey := lastKeyEvent_unchanged as hr hk
  have hreset := hasReset_unchanged as hr
  refine ⟨hs.trans hI.standby,hcount,?_,?_⟩
  · rw [hkey,hcode]
    exact hI.held
  · rw [hkey,hreset,hcode]
    exact hI.cleared

theorem KeyMove.keyState {c : Settings} {m m' : Main} {as : List KeyAction} {a : KeyAction}
    {es : List Event} (hI : KeyState c m as) (h : KeyMove m a m' es) :
    KeyState c m' (as ++ [a]) := by
  have hstd := hI.standby
  cases h with
  | fresh key hf hr hu =>
    rw [hstd] at hf
    have hcount : m.repeatCount = toInt32 (buttonUps (as ++ [a])) := by
      rw [buttonUps_unchanged as hr hu]
      exact hI.count
    by_cases ha : Main.acceptsKey key
    · have hkey : lastKeyEvent c (as ++ [a]) = some key.keycode := by
        simp [lastKeyEvent_snoc,hr,KeyAction.acceptedKey,hf,ha]
      rw [Main.onCecKeyPress_accepts m ha]
      refine ⟨hstd,hcount,?_,by simp [hkey]⟩
      intro k hk
      rw [hkey] at hk
      obtain rfl := Option.some.inj hk
      exact ⟨rfl,acceptsKey_released ha⟩
    · rw [Main.onCecKeyPress_ignores m ha]
      exact hI.kept hr (by simp [KeyAction.acceptedKey,hf,ha]) rfl rfl hcount
  | reset hf hr hu =>
    refine ⟨hstd,?_,?_,fun _ _ => rfl⟩
    · rw [buttonUps_snoc,if_pos hr]
      rfl
    · intro k hk
      simp [lastKeyEvent_snoc,hr] at hk
  | buttonUp hf hr hu m' es hm =>
    rw [hstd] at hf
    have hcount : toInt32 (m.repeatCount + 1) = toInt32 (buttonUps (as ++ [a])) := by
      rw [buttonUps_snoc,hI.count,toInt32_add]
      simp [hr,hu]
    rcases onCecCommand_buttonUp m with ⟨_,_,heq⟩ | heq
    all_goals
      rw [heq] at hm
      obtain ⟨rfl,rfl⟩ := Prod.mk.inj hm
      exact hI.kept hr (acceptedKey_of_freshKey_none hf) rfl rfl hcount
  | other hf hr hu m' es hk hc hs hl =>
    rw [hstd] at hf
    refine hI.kept hr (acceptedKey_of_freshKey_none hf) hs (by rw [hk]) ?_
    rw [hc,buttonUps_unchanged as hr hu]
    exact hI.count

section Runs

variable {c : Settings} {as : List KeyAction} {m : Main} {tr : List Event}

theorem run_keyState (hr : run keyStep (Main.initial c) as = some (m,tr)) : KeyState c m as := by
  refine actions_of_everyStep (G := fun _ _ => True) (I := KeyState c) ?_ ?_
    (everyStep_true _ _ _) hr
  · intro s as a t es hI _ hs
    exact (keyStep_move hs).keyState hI
  · exact ⟨rfl,rfl,by simp [lastKeyEvent,sinceReset],by simp [hasReset]⟩

/-- After any history, a button release repeats the last accepted key event of any
source since the last USER_CONTROL_PRESSED; without one it writes nothing, once
there has been a USER_CONTROL_PRESSED. -/
theorem repeats_lastKeyEvent (hr : run keyStep (Main.initial c) as = some (m,tr))
    {command : CecCommand} (hop : command.opcode = .vendorRemoteButtonUp) :
    (∀ k, lastKeyEvent c as = some k →
        ∀ l ∈ lines (m.onCecCommand command).2, l.keycode = k) ∧
      (lastKeyEvent c as = none → hasReset as = true →
        lines (m.onCecCommand command).2 = []) := by
  have hI := run_keyState hr
  have heq : m.onCecCommand command = m.onCecCommand ⟨.vendorRemoteButtonUp,[]⟩ := by
    simp only [Main.onCecCommand,hop]
  rw [heq]
  refine ⟨fun k hk l hl => ?_,fun hk hreset => ?_⟩
  · rw [(lines_buttonUp hl).1]
    exact (hI.held k hk).1
  · rcases onCecCommand_buttonUp m with ⟨_,ha,hup⟩ | hup
    · rw [hI.cleared hk hreset] at ha
      exact absurd ha (not_acceptsKey_unknown 0)
    · rw [hup]
      rfl

end Runs

theorem repeats_lastKeyEvent_up :
    ∃ m tr, run keyStep (Main.initial .none)
        [.command ⟨.userControlPressed,[]⟩,.keyPress ⟨UserControlCode.up,0⟩,
          .command ⟨.vendorRemoteButtonUp,[]⟩,.command ⟨.vendorRemoteButtonUp,[]⟩] = some (m,tr) ∧
      (lines (m.onCecCommand ⟨.vendorRemoteButtonUp,[]⟩).2).length = 1 ∧
      ∀ l ∈ lines (m.onCecCommand ⟨.vendorRemoteButtonUp,[]⟩).2,
        l.keycode = UserControlCode.up := by
  have h : (run keyStep (Main.initial .none)
        [.command ⟨.userControlPressed,[]⟩,.keyPress ⟨UserControlCode.up,0⟩,
          .command ⟨.vendorRemoteButtonUp,[]⟩,.command ⟨.vendorRemoteButtonUp,[]⟩]).map
            (fun r => (lines (r.1.onCecCommand ⟨.vendorRemoteButtonUp,[]⟩).2).length) = some 1 := by
    decide
  obtain ⟨⟨m,tr⟩,hr,heq⟩ := Option.map_eq_some_iff.mp h
  exact ⟨m,tr,hr,heq,(repeats_lastKeyEvent hr rfl).1 _ (by decide)⟩

/-- A PLAY command between the press and the releases: PLAY is repeated, though the
last key libcec reported is UP. -/
theorem repeats_play_after_up :
    ∃ as m tr, run keyStep (Main.initial .none) as = some (m,tr) ∧
      lastReportedKey as = some UserControlCode.up ∧
      lines (m.onCecCommand ⟨.vendorRemoteButtonUp,[]⟩).2 =
        [⟨UserControlCode.play,true,"KEY_PLAY"⟩] := by
  have h : (run keyStep (Main.initial .none)
        [.command ⟨.userControlPressed,[]⟩,.keyPress ⟨UserControlCode.up,0⟩,
          .command ⟨.play,[playModePlayForward]⟩,.command ⟨.vendorRemoteButtonUp,[]⟩,
          .command ⟨.vendorRemoteButtonUp,[]⟩]).map
            (fun r => lines (r.1.onCecCommand ⟨.vendorRemoteButtonUp,[]⟩).2) =
              some [⟨UserControlCode.play,true,"KEY_PLAY"⟩] := by decide
  obtain ⟨⟨m,tr⟩,hr,heq⟩ := Option.map_eq_some_iff.mp h
  exact ⟨_,m,tr,hr,by decide,heq⟩

/-- Only the repeat branch marks its lines as repeated. -/
def MarksRepeats (m : Main) (a : KeyAction) : Prop :=
  ∀ m' es, keyStep m a = some (m',es) →
    ∀ l ∈ lines es, l.repeated = true ↔ a.hasOpcode .vendorRemoteButtonUp = true

theorem run_keyStep_total (m : Main) (as : List KeyAction) :
    ∃ m' tr, run keyStep m as = some (m',tr) := by
  have hstep : ∀ (s : Main) (tr : List Event) (a : KeyAction), True →
      ∃ t es, keyStep s a = some (t,es) ∧ True := by
    intro s _ a _
    obtain ⟨t,es,hs⟩ := keyStep_total s a
    exact ⟨t,es,hs,trivial⟩
  obtain ⟨m',tr,hr,-⟩ := @exists_run _ _ _ keyStep (fun _ _ => True) hstep m [] trivial as
  exact ⟨m',tr,hr⟩

theorem marksRepeats_iff {c : Settings} {m : Main} {as : List KeyAction} (a : KeyAction)
    (hI : KeyState c m as) : MarksRepeats m a ↔
      ((a.acceptedKey c.onStandbyCommand).isSome = true → toInt32 (buttonUps as) ≤ 2) := by
  obtain ⟨m',es,hs⟩ := keyStep_total m a
  have hmarks : MarksRepeats m a ↔
      ∀ l ∈ lines es, l.repeated = true ↔ a.hasOpcode .vendorRemoteButtonUp = true := by
    constructor
    · intro h
      exact h m' es hs
    · intro h m₁ es₁ hs₁
      rw [hs] at hs₁
      obtain ⟨rfl,rfl⟩ := Prod.mk.inj (Option.some.inj hs₁)
      exact h
  rw [hmarks,← hI.count]
  have hstd := hI.standby
  cases keyStep_move hs with
  | fresh key hf hr hu =>
    rw [hstd] at hf
    by_cases ha : Main.acceptsKey key
    · rw [Main.onCecKeyPress_accepts m ha]
      dsimp only
      rw [lines_map,hu]
      simp only [KeyAction.acceptedKey,hf,ha,if_true,Option.isSome_some,true_implies,
        Bool.false_eq_true,iff_false,List.mem_map,forall_exists_index,and_imp,
        forall_apply_eq_imp_iff₂,decide_eq_true_eq]
      obtain ⟨ukey,hmem⟩ := List.exists_mem_of_ne_nil _ ha.2.1
      exact ⟨fun h => Int.not_lt.mp (h ukey hmem),fun h _ _ => Int.not_lt.mpr h⟩
    · rw [Main.onCecKeyPress_ignores m ha]
      simp [KeyAction.acceptedKey,hf,ha]
  | reset hf hr hu =>
    rw [hstd] at hf
    simp [KeyAction.acceptedKey,hf]
  | buttonUp hf hr hu m' es hm =>
    rw [hstd] at hf
    rw [hu]
    have hes : es = (m.onCecCommand ⟨.vendorRemoteButtonUp,[]⟩).2 := congrArg Prod.snd hm
    have hall : ∀ l ∈ lines es, l.repeated = true := by
      intro l hl
      rw [hes] at hl
      exact (lines_buttonUp hl).2
    simpa [KeyAction.acceptedKey,hf] using hall
  | other hf hr hu m' es hk hc hs hl =>
    rw [hstd] at hf
    simp [KeyAction.acceptedKey,hf,hl]

/-- The flag tells repeats from fresh events in every line of a run exactly as long
as each fresh event finds at most two releases counted. -/
theorem marksRepeats_iff_buttonUps_le_two (c : Settings) (as : List KeyAction) :
    EveryStep keyStep MarksRepeats (Main.initial c) as ↔
      ∀ pre a post, as = pre ++ a :: post →
        (a.acceptedKey c.onStandbyCommand).isSome = true → toInt32 (buttonUps pre) ≤ 2 := by
  constructor
  · intro h pre a post heq
    obtain ⟨m,tr,hr⟩ := run_keyStep_total (Main.initial c) pre
    exact (marksRepeats_iff a (run_keyState hr)).mp (h pre a post m tr heq hr)
  · intro h pre a post m tr heq hr
    exact (marksRepeats_iff a (run_keyState hr)).mpr (h pre a post heq)

/-- PLAY after a held key: a fresh event, marked as repeated. -/
theorem play_marked_as_repeat :
    ¬ EveryStep keyStep MarksRepeats (Main.initial .none)
      [.command ⟨.userControlPressed,[]⟩,.keyPress ⟨UserControlCode.up,0⟩,
        .command ⟨.vendorRemoteButtonUp,[]⟩,.command ⟨.vendorRemoteButtonUp,[]⟩,
        .command ⟨.vendorRemoteButtonUp,[]⟩,.command ⟨.play,[playModePlayForward]⟩] := by
  intro hall
  have h : (run keyStep (Main.initial .none)
        [.command ⟨.userControlPressed,[]⟩,.keyPress ⟨UserControlCode.up,0⟩,
          .command ⟨.vendorRemoteButtonUp,[]⟩,.command ⟨.vendorRemoteButtonUp,[]⟩,
          .command ⟨.vendorRemoteButtonUp,[]⟩]).map
            (fun r => lines (r.1.onCecCommand ⟨.play,[playModePlayForward]⟩).2) =
              some [⟨UserControlCode.play,true,"KEY_PLAY"⟩] := by decide
  obtain ⟨⟨m,tr⟩,hr,heq⟩ := Option.map_eq_some_iff.mp h
  have hlines : lines (m.onCecCommand ⟨.play,[playModePlayForward]⟩).2 =
    [⟨UserControlCode.play,true,"KEY_PLAY"⟩] := heq
  have hplay := hall _ (.command ⟨.play,[playModePlayForward]⟩) [] m tr rfl hr _ _ rfl
    ⟨UserControlCode.play,true,"KEY_PLAY"⟩ (hlines ▸ List.mem_singleton_self _)
  exact absurd (hplay.mp rfl) (by decide)

end Ceclircd
