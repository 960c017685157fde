import Ceclircd.KeyRuns
import Ceclircd.LircClients
set_option autoImplicit false

/-! The bytes `writeLirc` hands to `processevent`. They are few, so that the `int` in
`processevent` holds their number. -/

namespace Ceclircd
open RunTrace

def Line.bytes (l : Line) : List UInt8 := l.text.toUTF8.data.toList

theorem Line.bytes_length (l : Line) : l.bytes.length = l.text.utf8ByteSize := rfl

theorem utf8ByteSize_ofList_le (cs : List Char) :
    (String.ofList cs).utf8ByteSize ≤ 4 * cs.length := by
  induction cs with
  | nil => simp
  | cons c cs ih =>
    have hc := c.utf8Size_le_four
    rw [String.ofList_cons,String.utf8ByteSize_append,String.utf8ByteSize_singleton,
      List.length_cons]
    omega

theorem uinputAssignments_short :
    (uinputAssignments.all fun a => a.2.all fun ukey => ukey.utf8ByteSize ≤ 16) = true := by
  decide

theorem uinputCecMap_short {keycode : Int} (h0 : 0 ≤ keycode) {ukey : String}
    (h : ukey ∈ uinputCecMap keycode) : ukey.utf8ByteSize ≤ 16 := by
  have ha := uinputCecMap_assigned h0 (List.ne_nil_of_mem h)
  have hall := List.all_eq_true.mp uinputAssignments_short _ ha
  simpa using List.all_eq_true.mp hall ukey h

theorem bytes_length_le {key : Keypress} (h : Main.acceptsKey key) (b : Bool) {ukey : String}
    (hu : ukey ∈ uinputCecMap key.keycode) : (Line.mk key.keycode b ukey).bytes.length ≤ 64 := by
  have hkey := uinputCecMap_short h.1.1 hu
  have hcode : (Nat.toDigits 16 key.keycode.toNat).length ≤ 2 := by
    rw [Nat.length_toDigits_le_iff (by decide) (by decide)]
    have hmax := h.1.2
    simp only [UserControlCode.max] at hmax
    omega
  have hdigits := utf8ByteSize_ofList_le (Nat.toDigits 16 key.keycode.toNat)
  have hflag : (if b then "1" else "0").utf8ByteSize = 1 := by cases b <;> decide
  have hspace : " ".utf8ByteSize = 1 := by decide
  have hremote : " RPICEC\n".utf8ByteSize = 8 := by decide
  rw [Line.bytes_length,Line.text]
  simp only [String.utf8ByteSize_append,hflag,hspace,hremote]
  omega

theorem KeyMove.lines_fit {m m' : Main} {a : KeyAction} {es : List Event}
    (h : KeyMove m a m' es) : ∀ l ∈ lines es, l.bytes.length ≤ 64 := by
  have hmap : ∀ (key : Keypress) (b : Bool), Main.acceptsKey key →
      ∀ l ∈ lines ((uinputCecMap key.keycode).map (fun k => Main.writeLirc key k b)),
        l.bytes.length ≤ 64 := by
    intro key b ha l hl
    rw [lines_map] at hl
    obtain ⟨ukey,hu,rfl⟩ := List.mem_map.mp hl
    exact bytes_length_le ha b hu
  cases h with
  | fresh key hf hr hu =>
    by_cases ha : Main.acceptsKey key
    · rw [Main.onCecKeyPress_accepts m ha]
      exact hmap key _ ha
    · rw [Main.onCecKeyPress_ignores m ha]
      simp
  | reset => simp
  | buttonUp hf hr hu m' es hm =>
    rcases onCecCommand_buttonUp m with ⟨_,ha,heq⟩ | heq
    · rw [heq] at hm
      obtain ⟨-,rfl⟩ := Prod.mk.inj hm
      exact hmap ⟨m.lastKey.keycode,0⟩ true ha
    · rw [heq] at hm
      obtain ⟨-,rfl⟩ := Prod.mk.inj hm
      simp
  | other hf hr hu m' es hk hc hs hl => simp [hl]

/-- Every message a run of the daemon hands to `processevent` fits. -/
theorem run_lines_fit {c : Settings} {as : List Action} {s : System} {tr : List Event}
    (hr : run System.step (.initial c) as = some (s,tr)) (outcome : Int → Option Nat) :
    ∀ l ∈ lines tr, (Call.processevent l.bytes outcome).fits := by
  obtain ⟨ks,m,fs,hrun,_,heq⟩ := run_followedByKeys hr
  have hall : ∀ l ∈ lines fs, l.bytes.length ≤ 64 :=
    invariant (I := fun _ fs => ∀ l ∈ lines fs, l.bytes.length ≤ 64)
      (fun s tr a t es hI hs l hl => by
        rw [lines_append,List.mem_append] at hl
        rcases hl with hl | hl
        · exact hI l hl
        · exact (keyStep_move hs).lines_fit l hl) (by simp) hrun
  intro l hl
  have h64 := hall l (heq ▸ hl)
  simp only [Call.fits,intMax]
  omega

end Ceclircd
