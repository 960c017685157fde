import Ceclircd.CecTypes
set_option autoImplicit false

namespace Ceclircd
open UserControlCode

/-- The assignments of `Main::setupUinputMap`, in the order of the source. -/
def uinputAssignments : List (Int × List String) :=
  [(select,["KEY_OK"]),
   (up,["KEY_UP"]),
   (down,["KEY_DOWN"]),
   (left,["KEY_LEFT"]),
   (right,["KEY_RIGHT"]),
   (rightUp,["KEY_RIGHT","KEY_UP"]),
   (rightDown,["KEY_RIGHT","KEY_DOWN"]),
   (leftUp,["KEY_LEFT","KEY_UP"]),
   (leftDown,["KEY_RIGHT","KEY_UP"]),
   (rootMenu,["KEY_HOME"]),
   (setupMenu,["KEY_SETUP"]),
   (contentsMenu,["KEY_MENU"]),
   (favoriteMenu,["KEY_FAVORITES"]),
   (exit,["KEY_EXIT"]),
   (number0,["KEY_0"]),
   (number1,["KEY_1"]),
   (number2,["KEY_2"]),
   (number3,["KEY_3"]),
   (number4,["KEY_4"]),
   (number5,["KEY_5"]),
   (number6,["KEY_6"]),
   (number7,["KEY_7"]),
   (number8,["KEY_8"]),
   (number9,["KEY_9"]),
   (dot,["KEY_DOT"]),
   (enter,["KEY_ENTER"]),
   (clear,["KEY_BACKSPACE"]),
   (nextFavorite,[""]),
   (channelUp,["KEY_CHANNELUP"]),
   (channelDown,["KEY_CHANNELDOWN"]),
   (previousChannel,["KEY_PREVIOUS"]),
   (soundSelect,["KEY_SOUND"]),
   (inputSelect,["KEY_TUNER"]),
   (displayInformation,["KEY_INFO"]),
   (help,["KEY_HELP"]),
   (pageUp,["KEY_PAGEUP"]),
   (pageDown,["KEY_PAGEDOWN"]),
   (power,["KEY_POWER"]),
   (volumeUp,["KEY_VOLUMEUP"]),
   (volumeDown,["KEY_VOLUMEDOWN"]),
   (mute,["KEY_MUTE"]),
   (play,["KEY_PLAY"]),
   (stop,["KEY_STOP"]),
   (pause,["KEY_PAUSE"]),
   (record,["KEY_RECORD"]),
   (rewind,["KEY_REWIND"]),
   (fastForward,["KEY_FASTFORWARD"]),
   (eject,["KEY_EJECTCD"]),
   (forward,["KEY_FORWARD"]),
   (backward,["KEY_BACK"]),
   (stopRecord,[""]),
   (pauseRecord,[""]),
   (angle,["KEY_SCREEN"]),
   (subPicture,["KEY_SUBTITLE"]),
   (videoOnDemand,["KEY_VIDEO"]),
   (electronicProgramGuide,["KEY_EPG"]),
   (timerProgramming,["KEY_TIME"]),
   (initialConfiguration,["KEY_CONFIG"]),
   (playFunction,[""]),
   (pausePlayFunction,[""]),
   (recordFunction,[""]),
   (pauseRecordFunction,[""]),
   (stopFunction,[""]),
   (muteFunction,[""]),
   (restoreVolumeFunction,[""]),
   (tuneFunction,[""]),
   (selectMediaFunction,["KEY_MEDIA"]),
   (selectAvInputFunction,[""]),
   (selectAudioInputFunction,[""]),
   (powerToggleFunction,[""]),
   (powerOffFunction,[""]),
   (powerOnFunction,[""]),
   (f1Blue,["KEY_BLUE"]),
   (f2Red,["KEY_RED"]),
   (f3Green,["KEY_GREEN"]),
   (f4Yellow,["KEY_YELLOW"]),
   (f5,[""]),
   (data,["KEY_TEXT"]),
   (anReturn,["KEY_ESC"]),
   (anChannelsList,["KEY_LIST"])]

/-- A vector of `CEC_USER_CONTROL_CODE_MAX + 1` empty lists, then the assignments. -/
def setupUinputMap : List (List String) :=
  uinputAssignments.foldl (fun map entry => map.set entry.1.toNat entry.2)
    (List.replicate (UserControlCode.max.toNat + 1) [])

/-- `uinputCecMap[keycode]`, which the code only reads for codes up to the maximum. -/
def uinputCecMap (keycode : Int) : List String := setupUinputMap.getD keycode.toNat []

def inKeyRange (keycode : Int) : Prop := 0 ≤ keycode ∧ keycode ≤ UserControlCode.max

instance (keycode : Int) : Decidable (inKeyRange keycode) :=
  inferInstanceAs (Decidable (_ ∧ _))

theorem setupUinputMap_length : setupUinputMap.length = UserControlCode.max.toNat + 1 := by
  have h : ∀ (xs : List (Int × List String)) (m : List (List String)),
      (xs.foldl (fun map entry => map.set entry.1.toNat entry.2) m).length = m.length := by
    intro xs
    induction xs with
    | nil => intro m; rfl
    | cons x xs ih => intro m; simp [ih]
  rw [setupUinputMap,h,List.length_replicate]

theorem inKeyRange.index_lt {keycode : Int} (h : inKeyRange keycode) :
    keycode.toNat < setupUinputMap.length := by
  rw [setupUinputMap_length]
  have hk := h.2
  simp only [UserControlCode.max] at *
  omega

theorem foldl_set_getD (xs : List (Int × List String)) (map : List (List String)) (i : Nat) :
    (xs.foldl (fun map entry => map.set entry.1.toNat entry.2) map).getD i [] = map.getD i [] ∨
      ∃ entry ∈ xs, entry.1.toNat = i ∧
        (xs.foldl (fun map entry => map.set entry.1.toNat entry.2) map).getD i [] = entry.2 := by
  induction xs generalizing map with
  | nil => exact .inl rfl
  | cons x xs ih =>
    rcases ih (map.set x.1.toNat x.2) with h | ⟨entry,hmem,hi,h⟩
    · simp only [List.foldl_cons,h,List.getD_eq_getElem?_getD,List.getElem?_set]
      by_cases hx : x.1.toNat = i
      · by_cases hlt : x.1.toNat < map.length
        · exact .inr ⟨x,by simp,hx,by simp [hx,hx ▸ hlt]⟩
        · exact .inl (by simp [hx,hx ▸ hlt])
      · exact .inl (by simp [hx])
    · exact .inr ⟨entry,by simp [hmem],hi,h⟩

theorem uinputAssignments_inRange : ∀ entry ∈ uinputAssignments, inKeyRange entry.1 := by decide

/-- A mapped code has the entry that was assigned to it, so what holds of every
assignment holds of every mapped code. -/
theorem uinputCecMap_assigned {keycode : Int} (h0 : 0 ≤ keycode) (h : uinputCecMap keycode ≠ []) :
    (keycode,uinputCecMap keycode) ∈ uinputAssignments := by
  rcases foldl_set_getD uinputAssignments
    (List.replicate (UserControlCode.max.toNat + 1) []) keycode.toNat with hnil | ⟨a,ha,hi,he⟩
  · have hrep : (List.replicate (UserControlCode.max.toNat + 1) ([] : List String)).getD
        keycode.toNat [] = [] := by
      rw [List.getD_eq_getElem?_getD,List.getElem?_replicate]
      split <;> rfl
    exact absurd (hnil.trans hrep) h
  · have hpos := (uinputAssignments_inRange a ha).1
    have hk : a.1 = keycode := by omega
    have hval : uinputCecMap keycode = a.2 := he
    rw [hval,← hk]
    exact ha

example : uinputCecMap play = ["KEY_PLAY"] := by decide

end Ceclircd
