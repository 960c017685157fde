import Ceclircd.KeyRepeat
import Mathlib.Algebra.BigOperators.Group.List.Basic
import Mathlib.Algebra.Ring.Int.Defs
import Mathlib.Algebra.Group.Prod
set_option autoImplicit false

/-! The key names a sequence of key presses hands to `writeLirc`, and the moves they
stand for against the moves of the codes that were pressed. -/

namespace Ceclircd
open RunTrace UserControlCode

def acceptedNames (key : Keypress) : List String :=
  if Main.acceptsKey key then uinputCecMap key.keycode else []

/-- One step right and one step up, `KEY_LEFT` and `KEY_DOWN` the other way. -/
def nameMove : String → Int × Int
  | "KEY_LEFT" => (-1,0)
  | "KEY_RIGHT" => (1,0)
  | "KEY_UP" => (0,1)
  | "KEY_DOWN" => (0,-1)
  | _ => (0,0)

/-- The move a code is named for; a diagonal code counts as its two directions. -/
def codeMove (keycode : Int) : Int × Int :=
  if keycode = up then (0,1)
  else if keycode = down then (0,-1)
  else if keycode = left then (-1,0)
  else if keycode = right then (1,0)
  else if keycode = rightUp then (1,1)
  else if keycode = rightDown then (1,-1)
  else if keycode = leftUp then (-1,1)
  else if keycode = leftDown then (-1,-1)
  else (0,0)

def netMove (names : List String) : Int × Int := (names.map nameMove).sum

def acceptedMove (key : Keypress) : Int × Int :=
  if Main.acceptsKey key then codeMove key.keycode else 0

def pressesLeftDown (key : Keypress) : Bool :=
  decide (Main.acceptsKey key ∧ key.keycode = leftDown)

/-- `LEFT_DOWN` is assigned the names of `RIGHT_UP`; every other entry moves as its
code says. -/
theorem uinputAssignments_move : ∀ entry ∈ uinputAssignments,
    netMove entry.2 = codeMove entry.1 + if entry.1 = leftDown then (2,2) else 0 := by decide

theorem netMove_acceptedNames (key : Keypress) : netMove (acceptedNames key) =
    acceptedMove key + if pressesLeftDown key then (2,2) else 0 := by
  by_cases h : Main.acceptsKey key
  · have hmove := uinputAssignments_move _ (uinputCecMap_assigned h.1.1 h.2.1)
    simpa [acceptedNames,acceptedMove,pressesLeftDown,h] using hmove
  · simp [acceptedNames,acceptedMove,pressesLeftDown,h,netMove]

theorem netMove_flatMap (keys : List Keypress) : netMove (keys.flatMap acceptedNames) =
    (keys.map acceptedMove).sum + (2 * (keys.countP pressesLeftDown : Int),
      2 * (keys.countP pressesLeftDown : Int)) := by
  induction keys with
  | nil => rfl
  | cons key keys ih =>
    have hkey := netMove_acceptedNames key
    have happ : netMove ((key :: keys).flatMap acceptedNames) =
        netMove (acceptedNames key) + netMove (keys.flatMap acceptedNames) := by
      simp [netMove]
    rw [happ,hkey,ih,List.map_cons,List.sum_cons,List.countP_cons]
    cases pressesLeftDown key
    · simp [add_assoc]
    · refine Prod.ext ?_ ?_ <;> simp <;> omega

theorem onCecKeyPress_names (m : Main) (key : Keypress) :
    (lines (m.onCecKeyPress key).2).map Line.keyString = acceptedNames key := by
  by_cases h : Main.acceptsKey key
  · rw [Main.onCecKeyPress_accepts m h,acceptedNames,if_pos h]
    dsimp only
    rw [lines_map,List.map_map]
    exact List.map_id _
  · rw [Main.onCecKeyPress_ignores m h,acceptedNames,if_neg h]
    rfl

theorem run_keyPress_names (m : Main) (keys : List Keypress) :
    ∃ m' tr, run keyStep m (keys.map .keyPress) = some (m',tr) ∧
      (lines tr).map Line.keyString = keys.flatMap acceptedNames := by
  induction keys generalizing m with
  | nil => exact ⟨m,[],rfl,rfl⟩
  | cons key keys ih =>
    obtain ⟨m',tr,hr,hnames⟩ := ih (m.onCecKeyPress key).1
    refine ⟨m',(m.onCecKeyPress key).2 ++ tr,?_,?_⟩
    · exact run_cons_iff.mpr ⟨_,_,tr,rfl,hr,rfl⟩
    · rw [lines_append,List.map_append,onCecKeyPress_names,hnames]
      rfl

/-- The names come out in order, and their net move is that of the accepted codes,
exactly for the sequences without an accepted `LEFT_DOWN`. -/
theorem keyNames_faithful_iff (m : Main) (keys : List Keypress) :
    ∃ m' tr, run keyStep m (keys.map .keyPress) = some (m',tr) ∧
      ((lines tr).map Line.keyString = keys.flatMap acceptedNames ∧
          netMove ((lines tr).map Line.keyString) = (keys.map acceptedMove).sum ↔
        ∀ key ∈ keys, Main.acceptsKey key → key.keycode ≠ leftDown) := by
  obtain ⟨m',tr,hr,hnames⟩ := run_keyPress_names m keys
  refine ⟨m',tr,hr,?_⟩
  have hcount : (∀ key ∈ keys, Main.acceptsKey key → key.keycode ≠ leftDown) ↔
      keys.countP pressesLeftDown = 0 := by
    simp [List.countP_eq_zero,pressesLeftDown]
  rw [hnames,netMove_flatMap,hcount]
  constructor
  · intro h
    have hzero := congrArg Prod.fst (add_eq_left.mp h.2)
    simp only [Prod.fst_zero] at hzero
    omega
  · intro h
    simp [h]

theorem leftDown_moves_rightUp :
    ∃ m' tr, run keyStep (Main.initial .none) ([⟨leftDown,0⟩].map .keyPress) = some (m',tr) ∧
      (lines tr).map Line.keyString = ["KEY_RIGHT","KEY_UP"] ∧
      netMove ((lines tr).map Line.keyString) ≠ ([⟨leftDown,0⟩].map acceptedMove).sum := by
  have h : (run keyStep (Main.initial .none) ([⟨leftDown,0⟩].map .keyPress)).map
      (fun r => (lines r.2).map Line.keyString) = some ["KEY_RIGHT","KEY_UP"] := by decide
  obtain ⟨⟨m',tr⟩,hr,hnames⟩ := Option.map_eq_some_iff.mp h
  refine ⟨m',tr,hr,hnames,?_⟩
  rw [hnames]
  decide

end Ceclircd
